import Robu.Vm.Tables

/-!
# Pages in messages

`vm_share_pages` and `vm_xfer_pages` give pages of the sender to the receiver of a message.  The
sender chooses the addresses, the number of pages and the protection of the new mappings.

Both functions find the frame of a page with a walk that looks at no permission bit, and map it
with the sender's protection.  So what the receiver may do with a page is what the sender asked
for, whatever the sender itself may do with it.
-/

namespace Robu

/-- `vm_xfer_msg_t` -/
structure XferReq where
  srcVaddr : Word
  dstVaddr : Word
  flags : Prot
  count : BitVec 32

def XferReq.ofMsg (m : MsgRegs) : XferReq :=
  ⟨m.word0, m.word1, m.word2.setWidth 32, (m.word2 >>> 32).setWidth 32⟩

def XferReq.srcPage (req : XferReq) (i : Nat) : Word := req.srcVaddr + BitVec.ofNat 64 i * 0x1000

def XferReq.dstPage (req : XferReq) (i : Nat) : Word := req.dstVaddr + BitVec.ofNat 64 i * 0x1000

def vmBatchMax : Nat := 32

def XferReq.inRange (req : XferReq) : Bool := req.count ≠ 0 ∧ req.count.toNat ≤ vmBatchMax

def executable (e : Word) : Bool := ¬ e.getLsbD 63

namespace Phys

variable (p : Platform) (m : Phys)

/-- `normalize_aspace`: the address space 0 is the kernel's. -/
def normalizeAspace (aspace : Word) : Frame := if aspace = 0 then p.bootPml4 else target aspace

/-! ## Sharing and transferring -/

/-- The loop over the pages of a request, which ends at the first that has no frame: whether all
have one, and the frames, page by page. -/
def passLoop (step : Nat → Phys → Frame × Phys) : Nat → Nat → Phys → Bool × List Frame × Phys
  | 0, _, m => (true, [], m)
  | left + 1, i, m =>
    let (frame, m₁) := step i m
    if frame = 0 then (false, [], m₁)
    else
      let (ok, frames, m₂) := passLoop step left (i + 1) m₁
      (ok, frame :: frames, m₂)

def sharePage (src dst : Frame) (req : XferReq) (i : Nat) (m : Phys) : Frame × Phys :=
  let frame := m.translate src (req.srcPage i)
  (frame, if frame = 0 then m else m.mapPage dst (req.dstPage i) frame.addr req.flags)

def vmSharePages (srcAspace dstAspace : Word) (req : XferReq) : Bool × List Frame × Phys :=
  if ¬ req.inRange then (false, [], m)
  else passLoop (sharePage (normalizeAspace p srcAspace) (normalizeAspace p dstAspace) req)
    req.count.toNat 0 m

def mapPages (root : Frame) (page : Nat → Word) (flags : Prot) (frames : List Frame) : Phys :=
  frames.zipIdx.foldl (fun m f => m.mapPage root (page f.2) f.1.addr flags) m

/-- `vm_xfer_pages`, with the frames that it maps: at the receiver, or again at the sender when a
page is missing. -/
def vmXferPages (srcAspace dstAspace : Word) (req : XferReq) : Bool × List Frame × Phys :=
  let src := normalizeAspace p srcAspace
  if ¬ req.inRange then (false, [], m)
  else
    match passLoop (fun i m => m.unmapPage src (req.srcPage i)) req.count.toNat 0 m with
    | (false, frames, m₁) => (false, frames, m₁.mapPages src req.srcPage req.flags frames)
    | (true, frames, m₁) =>
      (true, frames, m₁.mapPages (normalizeAspace p dstAspace) req.dstPage req.flags frames)

end Phys

inductive Passing
  | share
  | xfer
deriving DecidableEq

def Passing.run (op : Passing) (p : Platform) (m : Phys) (srcAspace dstAspace : Word)
    (msg : MsgRegs) : Bool × List Frame × Phys :=
  match op with
  | .share => m.vmSharePages p srcAspace dstAspace (.ofMsg msg)
  | .xfer => m.vmXferPages p srcAspace dstAspace (.ofMsg msg)

namespace Phys

/-! ## Rights -/

/-- The entry maps what the sender's page is mapped to.  What it allows, the sender may do, and may
do so in user mode. -/
def AddsNothing (m : Phys) (src : Frame) (page entry : Word) : Prop :=
  ∃ μ ∈ m.lookup src page, μ.user = true ∧ leafTarget entry = μ.frame ∧
    (writable entry = true → μ.write = true) ∧ (executable entry = true → μ.exec = true)
deriving Decidable

/-- Every word that changed was cleared, or is the entry of a new table or one of `entries`. -/
def Accounted (entries : List Word) (m m' : Phys) : Prop :=
  ∀ f i, m'.mem f i = m.mem f i ∨ m'.mem f i = 0 ∨ (∃ t, m'.mem f i = tableEntry t) ∨
    m'.mem f i ∈ entries

/-- The frame that a page gives, in the memory before the request.  A transfer clears the entry of
each page, which ends it at a page whose walk comes by that entry. -/
def given (op : Passing) (m : Phys) (src : Frame) (req : XferReq) (i : Nat) : Frame :=
  match op with
  | .share => m.translate src (req.srcPage i)
  | .xfer =>
    if ∃ j < i, ∃ s ∈ m.slots src (req.srcPage i), m.walkToPte src (req.srcPage j) = some s then 0
    else (m.unmapPage src (req.srcPage i)).1

/-- The request comes to the page `i`, and it and those before it give a frame. -/
def Gives (op : Passing) (m : Phys) (src : Frame) (req : XferReq) (i : Nat) : Prop :=
  req.inRange ∧ i < req.count.toNat ∧ ∀ j ≤ i, given op m src req j ≠ 0

/-- The page belongs to the sender's user mode, the walk of the kernel finds its frame, and the
sender asks for no right to it that it does not have.  A page that is taken away keeps the bit that
forbids execution. -/
def Fair (op : Passing) (m : Phys) (src : Frame) (flags : Prot) (page : Word) : Prop :=
  ∃ μ ∈ m.lookup src page, μ.user = true ∧ m.translate src page = μ.frame ∧
    (flags.getLsbD 1 = true → μ.write = true) ∧
    (flags.getLsbD 2 = true → μ.exec = true ∨ op = .xfer ∧ ∃ e ∈ m.lastEntry src page,
      executable e = false)
deriving Decidable

/-- Mapping pages at the receiver leaves the sender's walks to the pages of the request alone. -/
def Apart (m : Phys) (src dst : Frame) (req : XferReq) : Prop :=
  ∀ frames : List Frame, frames.length < req.count.toNat → ∀ i < req.count.toNat,
    (m.mapPages dst req.dstPage req.flags frames).translate src (req.srcPage i) =
      m.translate src (req.srcPage i)

/-! ## Words that change -/

section Accounts
variable {m m₁ m₂ : Phys} {entries : List Word} {root : Frame} {va : Word}

theorem Accounted.refl (m : Phys) : Accounted entries m m := fun _ _ => .inl rfl

theorem Accounted.trans (h : Accounted entries m m₁) (h' : Accounted entries m₁ m₂) :
    Accounted entries m m₂ := by
  intro f i
  rcases h' f i with heq | hnew
  · rw [heq]
    exact h f i
  · exact .inr hnew

theorem Accounted.mono {entries' : List Word} (h : Accounted entries m m₁)
    (hsub : entries ⊆ entries') : Accounted entries' m m₁ := fun f i =>
  (h f i).imp_right (Or.imp_right (Or.imp_right (@hsub _)))

theorem accounted_write {v : Word} (hv : v = 0 ∨ (∃ t, v = tableEntry t) ∨ v ∈ entries) (f : Frame)
    (i : Index) : Accounted entries m (m.write f i v) := by
  intro g j
  unfold write
  dsimp only
  split
  · exact .inr hv
  · exact .inl rfl

theorem accounted_zero (f : Frame) : Accounted entries m (m.zero f) := by
  intro g j
  unfold zero
  dsimp only
  split
  · exact .inr (.inl rfl)
  · exact .inl rfl

theorem accounted_pmmAlloc : Accounted entries m (m.pmmAlloc none).2 := by
  have hpop (m : Phys) (c : Fin 8) : Accounted entries m (m.pop c).2 := by
    unfold pop
    split
    · exact .refl m
    · exact accounted_zero _
  unfold pmmAlloc
  dsimp only
  split
  · exact .refl m
  · exact hpop _ _

theorem accounted_getNextLevel (m : Phys) (table : Frame) (i : Index) :
    Accounted entries m (m.getNextLevel table i).2 := by
  unfold getNextLevel
  split
  · exact .refl m
  · exact (accounted_pmmAlloc.trans (accounted_zero _)).trans
      (accounted_write (.inr (.inl ⟨_, rfl⟩)) _ _)

/-- **Mapping** stores the entry, and makes tables. -/
theorem accounted_mapPage {paddr : Word} {flags : Prot} (he : pageEntry paddr flags ∈ entries) :
    Accounted entries m (m.mapPage root va paddr flags) :=
  (((accounted_getNextLevel m _ _).trans (accounted_getNextLevel _ _ _)).trans
    (accounted_getNextLevel _ _ _)).trans
    (accounted_write (.inr (.inr he)) _ _)

theorem accounted_mapPages {page : Nat → Word} {flags : Prot} (frames : List Frame) :
    Accounted (frames.map fun f => pageEntry f.addr flags) m
      (m.mapPages root page flags frames) := by
  have hfold (fs : List (Frame × Nat)) (m : Phys) :
    Accounted (fs.map fun f => pageEntry f.1.addr flags) m
      (fs.foldl (fun m f => m.mapPage root (page f.2) f.1.addr flags) m) := by
    induction fs generalizing m with
    | nil => exact .refl m
    | cons f fs ih =>
      exact (accounted_mapPage (List.mem_cons_self ..)).trans
        ((ih _).mono (List.subset_cons_self _ _))
  have h := hfold frames.zipIdx m
  rwa [show (frames.zipIdx.map fun f => pageEntry f.1.addr flags) = frames.map fun f =>
    pageEntry f.addr flags by
    rw [← List.zipIdx_map_fst 0 frames, List.map_map, List.zipIdx_map_fst]; rfl] at h

theorem accounted_unmapPage : Accounted entries m (m.unmapPage root va).2 := by
  unfold unmapPage
  split
  · exact .refl m
  split
  · exact .refl m
  · exact accounted_write (.inl rfl) _ _

theorem accounted_passLoop {s : Nat → Phys → Frame × Phys} {e : Frame → Word}
    (hstep : ∀ i m, Accounted (if (s i m).1 = 0 then [] else [e (s i m).1]) m (s i m).2)
    (left i : Nat) : Accounted ((passLoop s left i m).2.1.map e) m (passLoop s left i m).2.2 := by
  induction left generalizing i m with
  | zero => exact .refl m
  | succ left ih =>
    have hfirst := hstep i m
    unfold passLoop
    dsimp only
    split at hfirst <;> rename_i hframe
    · rw [if_pos hframe]
      exact hfirst
    · rw [if_neg hframe]
      refine (hfirst.mono ?_).trans ((ih (i + 1)).mono (List.subset_cons_self _ _))
      exact List.cons_subset_cons _ (List.nil_subset _)

end Accounts

/-! ## The pages that are passed on -/

/-- **Run.**  The loop over the pages passes on, in order, the frames that `g` tells, up to the
first that is missing.  `I` is what one page after the other keeps. -/
theorem getElem_passLoop {s : Nat → Phys → Frame × Phys} {g : Nat → Frame} {I : Nat → Phys → Prop}
    {n : Nat} (hstep : ∀ j < n, ∀ m, I j m → (s j m).1 = g j ∧ (g j ≠ 0 → I (j + 1) (s j m).2))
    {l i : Nat} {m : Phys} (hn : i + l = n) (h : I i m) (k : Nat) (f : Frame) :
    (passLoop s l i m).2.1[k]? = some f ↔ k < l ∧ (∀ j ≤ k, g (i + j) ≠ 0) ∧ f = g (i + k) := by
  induction l generalizing i m k with
  | zero => simp [passLoop]
  | succ l ih =>
    obtain ⟨hframe, hnext⟩ := hstep i (by omega) m h
    unfold passLoop
    dsimp only
    rw [hframe]
    split
    · rename_i hzero
      exact iff_of_false (by simp) fun ⟨_, hall, _⟩ => hall 0 k.zero_le hzero
    rename_i hne
    cases k with
    | zero =>
      rw [List.getElem?_cons_zero, Option.some.injEq, eq_comm]
      refine ⟨fun heq => ⟨Nat.succ_pos l, fun j hj => ?_, heq⟩, fun h => h.2.2⟩
      rw [Nat.le_zero.mp hj]
      exact hne
    | succ k =>
      rw [List.getElem?_cons_succ, ih (by omega) (hnext hne)]
      have hall : (∀ j ≤ k, g (i + 1 + j) ≠ 0) ↔ ∀ j ≤ k + 1, g (i + j) ≠ 0 := by
        constructor
        · intro h j hj
          cases j with
          | zero => exact hne
          | succ j => exact Nat.add_right_comm i 1 j ▸ h j (by omega)
        · intro h j hj
          exact (Nat.add_right_comm i 1 j).symm ▸ h (j + 1) (by omega)
      rw [hall, Nat.add_lt_add_iff_right, Nat.add_right_comm i 1 k]
      rfl

variable {p : Platform} {m : Phys} {src dst : Frame} {req : XferReq} {flags : Prot}

theorem mapPages_append (page : Nat → Word) (frames : List Frame) (f : Frame) :
    m.mapPages dst page flags (frames ++ [f]) =
      (m.mapPages dst page flags frames).mapPage dst (page frames.length) f.addr flags := by
  rw [mapPages, mapPages, List.zipIdx_append, List.foldl_append]
  simp

theorem frames_vmSharePages {srcAspace dstAspace : Word}
    (h : Apart m (normalizeAspace p srcAspace) (normalizeAspace p dstAspace) req) (i : Nat)
    (f : Frame) :
    (m.vmSharePages p srcAspace dstAspace req).2.1[i]? = some f ↔
      Gives .share m (normalizeAspace p srcAspace) req i ∧
        f = given .share m (normalizeAspace p srcAspace) req i := by
  generalize hsrc : normalizeAspace p srcAspace = src at h ⊢
  generalize hdst : normalizeAspace p dstAspace = dst at h
  unfold vmSharePages Gives
  by_cases hr : req.inRange = true
  swap
  · simp [hr]
  rw [if_neg (not_not.mpr hr), hsrc, hdst]
  have hrun := getElem_passLoop (s := sharePage src dst req) (g := given .share m src req) (m := m)
    (I := fun j m' => ∃ frames : List Frame, frames.length = j ∧
      m' = m.mapPages dst req.dstPage req.flags frames)
    (n := req.count.toNat) (i := 0) (l := req.count.toNat) ?_ (Nat.zero_add _) ⟨[], rfl, rfl⟩ i f
  · simpa [hr, and_assoc] using hrun
  rintro j hj _ ⟨frames, rfl, rfl⟩
  have hframe : (m.mapPages dst req.dstPage req.flags frames).translate src
    (req.srcPage frames.length) =
      given .share m src req frames.length := h frames hj frames.length hj
  refine ⟨hframe, fun hne => ⟨frames ++ [given .share m src req frames.length], by simp, ?_⟩⟩
  unfold sharePage
  rw [mapPages_append, hframe]
  exact if_neg hne

/-- The frame that is taken away is that of the last entry, if there is a page. -/
theorem unmapPage_fst (m : Phys) (src : Frame) (page : Word) : (m.unmapPage src page).1 =
    match m.lastEntry src page with
    | none => 0
    | some e => if ¬ present e then 0 else entryFrame e := by
  unfold unmapPage lastEntry
  cases m.walkToPte src page with
  | none => rfl
  | some s =>
    dsimp only [Option.map_some]
    split <;> rfl

theorem translate_eq (m : Phys) (src : Frame) (page : Word) :
    m.translate src page = (m.unmapPage src page).1 &&& ~~~nxBit := by
  unfold translate unmapPage
  cases m.walkToPte src page with
  | none => exact BitVec.zero_and.symm
  | some s =>
    dsimp only
    split
    · exact BitVec.zero_and.symm
    · rfl

/-- What a transfer maps is fixed by the memory before it. -/
theorem frames_vmXferPages {srcAspace dstAspace : Word} (i : Nat) (f : Frame) :
    (m.vmXferPages p srcAspace dstAspace req).2.1[i]? = some f ↔
      Gives .xfer m (normalizeAspace p srcAspace) req i ∧
        f = given .xfer m (normalizeAspace p srcAspace) req i := by
  unfold vmXferPages Gives
  generalize normalizeAspace p srcAspace = src
  by_cases hr : req.inRange = true
  swap
  · simp [hr]
  dsimp only
  rw [if_neg (not_not.mpr hr)]
  have hrun := getElem_passLoop (s := fun i m => m.unmapPage src (req.srcPage i))
    (g := given .xfer m src req) (m := m)
    (I := fun j m' => ∀ f i, m'.mem f i =
      if ∃ k < j, m.walkToPte src (req.srcPage k) = some (f, i) then 0 else m.mem f i)
    (n := req.count.toNat) (i := 0) (l := req.count.toNat) ?_ (Nat.zero_add _)
      (fun _ _ => by simp) i f
  · generalize passLoop _ _ _ _ = r at hrun ⊢
    obtain ⟨ok, frames, m₁⟩ := r
    cases ok <;> simpa [hr, and_assoc] using hrun
  intro j hj m' hinv
  by_cases hmet : ∃ k < j, ∃ s ∈ m.slots src (req.srcPage j),
    m.walkToPte src (req.srcPage k) = some s
  · -- the walk comes by an entry that was cleared
    have hgiven : given .xfer m src req j = 0 := if_pos hmet
    rw [hgiven]
    refine ⟨?_, fun h => absurd rfl h⟩
    obtain ⟨k, hk, s, hs, hwalk⟩ := hmet
    rw [unmapPage_fst]
    cases he : m'.lastEntry src (req.srcPage j) with
    | none => rfl
    | some e =>
      refine if_pos fun hp => ?_
      have hcleared : m'.mem s.1 s.2 = 0 := by rw [hinv, if_pos ⟨k, hk, hwalk⟩]
      have hpresent := present_of_slots (fun t _ => ?_) he hp s hs
      · simp [hcleared, present] at hpresent
      · rw [hinv]
        split
        · exact .inr rfl
        · exact .inl rfl
  · have hgiven : given .xfer m src req j = (m.unmapPage src (req.srcPage j)).1 := if_neg hmet
    have hkept : ∀ s ∈ m.slots src (req.srcPage j), m'.mem s.1 s.2 = m.mem s.1 s.2 := by
      intro s hs
      refine (hinv ..).trans (if_neg ?_)
      rintro ⟨k, hk, hwalk⟩
      exact hmet ⟨k, hk, s, hs, hwalk⟩
    obtain ⟨hwalk, hlast, -⟩ := walk_congr hkept
    refine ⟨by rw [unmapPage_fst, hlast, ← unmapPage_fst, hgiven], fun hne => ?_⟩
    rw [hgiven] at hne
    intro f i
    unfold unmapPage at hne ⊢
    rw [hwalk]
    cases hs : m.walkToPte src (req.srcPage j) with
    | none => simp [hs] at hne
    | some s =>
      simp only [hs] at hne ⊢
      rw [hkept s (mem_slots hs)]
      split at hne
      · exact absurd rfl hne
      rename_i hp
      rw [if_neg hp]
      unfold write
      dsimp only
      rw [hinv]
      by_cases hfi : f = s.1 ∧ i = s.2
      · rw [if_pos hfi, if_pos ⟨j, j.lt_succ_self, hs.trans (by rw [hfi.1, hfi.2])⟩]
      · rw [if_neg hfi]
        refine if_congr ⟨?_, ?_⟩ rfl rfl
        · rintro ⟨k, hk, h⟩
          exact ⟨k, Nat.lt_succ_of_lt hk, h⟩
        · rintro ⟨k, hk, h⟩
          rcases Nat.lt_succ_iff_lt_or_eq.mp hk with hk | rfl
          · exact ⟨k, hk, h⟩
          · cases hs.symm.trans h
            exact absurd ⟨rfl, rfl⟩ hfi

/-! ## The rights of an entry -/

theorem leafTarget_pageEntry (f : Frame) (prot : Prot) :
    leafTarget (pageEntry f.addr prot) = f &&& ~~~nxBit := by
  unfold leafTarget pageEntry nxFrame
  rw [target_append, target_addr]
  split
  · rfl
  · refine BitVec.eq_of_getLsbD_eq fun n hn => ?_
    simp only [BitVec.getLsbD_and, BitVec.getLsbD_or, BitVec.getLsbD_not]
    grind

theorem writable_pageEntry (paddr : Word) (prot : Prot) :
    writable (pageEntry paddr prot) = prot.getLsbD 1 := by
  unfold writable pageEntry protBits
  rw [BitVec.getLsbD_append, if_pos (by decide)]
  cases prot.getLsbD 1 <;> cases prot.getLsbD 3 <;> decide

theorem executable_pageEntry (paddr : Word) (prot : Prot) :
    executable (pageEntry paddr prot) = (prot.getLsbD 2 && !(target paddr).getLsbD 51) := by
  unfold executable pageEntry nxFrame
  rw [BitVec.getLsbD_append]
  cases h : prot.getLsbD 2 with
  | true => simp
  | false => simp [nxBit]

/-- The entry for a page adds nothing if and only if the request is fair. -/
theorem addsNothing_iff_fair (op : Passing) {i : Nat} (hne : given op m src req i ≠ 0) :
    m.AddsNothing src (req.srcPage i) (pageEntry (given op m src req i).addr flags) ↔
      Fair op m src flags (req.srcPage i) := by
  unfold AddsNothing Fair
  refine exists_congr fun μ => and_congr_right fun _ => and_congr_right fun _ => ?_
  rw [leafTarget_pageEntry, writable_pageEntry, executable_pageEntry, target_addr]
  cases op with
  | share =>
    have hbit : (m.translate src (req.srcPage i)).getLsbD 51 = false := by
      rw [translate_eq]
      simp [nxBit]
    have htwice : m.translate src (req.srcPage i) &&& ~~~nxBit =
      m.translate src (req.srcPage i) := by
      rw [translate_eq, BitVec.and_assoc, BitVec.and_self]
    rw [given, hbit, htwice]
    simp
  | xfer =>
    have hgiven : given .xfer m src req i = (m.unmapPage src (req.srcPage i)).1 := by
      unfold given at hne ⊢
      dsimp only at hne ⊢
      split at hne
      · exact absurd rfl hne
      · rename_i hmet
        rw [if_neg hmet]
    rw [hgiven] at hne ⊢
    rw [← translate_eq]
    have hlast : (∃ e ∈ m.lastEntry src (req.srcPage i), executable e = false) ↔
        (m.unmapPage src (req.srcPage i)).1.getLsbD 51 = true := by
      rw [unmapPage_fst] at hne ⊢
      cases hlast : m.lastEntry src (req.srcPage i) with
      | none => simp [hlast] at hne
      | some e =>
        rw [hlast] at hne
        dsimp only at hne ⊢
        split at hne
        · exact absurd rfl hne
        rename_i hp
        rw [if_neg hp]
        unfold executable entryFrame align2M target
        split <;> simp
    rw [hlast]
    cases (m.unmapPage src (req.srcPage i)).1.getLsbD 51 <;> simp

end Phys

open Phys

variable {p : Platform} {m : Phys} {srcAspace dstAspace : Word} {req : XferReq} {src : Frame}

theorem accounted_vmSharePages : Accounted ((m.vmSharePages p srcAspace dstAspace req).2.1.map
    fun f => pageEntry f.addr req.flags) m (m.vmSharePages p srcAspace dstAspace req).2.2 := by
  unfold vmSharePages
  split
  · exact .refl m
  refine accounted_passLoop (fun i m => ?_) _ _
  unfold sharePage
  dsimp only
  split
  · exact .refl m
  · exact accounted_mapPage (List.mem_singleton_self _)

theorem accounted_vmXferPages : Accounted ((m.vmXferPages p srcAspace dstAspace req).2.1.map
    fun f => pageEntry f.addr req.flags) m (m.vmXferPages p srcAspace dstAspace req).2.2 := by
  have htaken := accounted_passLoop (m := m) (e := fun f => pageEntry f.addr req.flags)
    (s := fun i m => m.unmapPage (normalizeAspace p srcAspace) (req.srcPage i))
      (fun _ _ => accounted_unmapPage)
    req.count.toNat 0
  unfold vmXferPages
  dsimp only
  split
  · exact .refl m
  split <;> rename_i heq <;> rw [heq] at htaken <;> exact htaken.trans (accounted_mapPages _)

/-- The kernel maps its second page directory entry for itself, and has eight free frames. -/
def kernelMemory : Phys :=
  let empty : Phys := ⟨fun _ _ => 0, fun _ => 0, 0⟩
  let tables := ((empty.write 1 0 (tableEntry 2)).write 2 0 (0x3003 : Word)).write 3 1
    (0x200083 : Word)
  ((List.range 8).map fun i => BitVec.ofNat 52 (i + 16)).foldl pmmFree tables

def kernelPlatform : Platform := { bootPml4 := 1, bootPdpt := 2 }

def twoSpaces : Frame × Frame × Phys :=
  let (a, m₁) := kernelMemory.createAddressSpace kernelPlatform
  let (b, m₂) := m₁.createAddressSpace kernelPlatform
  (a, b, m₂)

def onePage (va : Word) : MsgRegs := { word0 := va, word1 := 0x40000000, word2 := 0x10000000B }

def ownPage : Phys := twoSpaces.2.2.mapPage twoSpaces.1 0x40000000 0x100000 0xB

end Robu
