import Robu.Lib.Bytes
import Robu.Lib.Memory
import Robu.Vm.Pages

/-!
# Memory of a thread that the kernel touches

`vm_copy_to_user` and `vm_copy_from_user` copy bytes for a system call, page by page, and
`sig_try_deliver` pushes the return address of a signal handler.  The copies find a frame with
`arch_vm_translate`, which looks at no permission bit.  The push goes through the hardware, in
supervisor mode; the kernel sets neither `CR0.WP` nor `CR4.SMAP`, so it may store to every page that
is mapped.

For a large page `arch_vm_translate` returns its first frame, so the copies touch the first page of
it.
-/

namespace Robu

open Lib

def pageStart (va : Word) : Word := va &&& ~~~0xFFF

def pageOff (va : Word) : Nat := va.toNat % 4096

namespace Phys

variable (m : Phys)

/-! ## The accesses -/

def storeByte (f : Frame) (off : Nat) (b : Bytes 1) : Phys :=
  let i := BitVec.ofNat 9 (off / 8)
  m.write f i (Bytes.put (n := 8) (m.mem f i) (off % 8) b)

def storeBytes (m : Phys) (f : Frame) : Nat → List (BitVec 8) → Phys
  | _, [] => m
  | off, b :: bs => (m.storeByte f off b).storeBytes f (off + 1) bs

def loadByte (f : Frame) (off : Nat) : BitVec 8 :=
  Bytes.slice (n := 8) (m.mem f (BitVec.ofNat 9 (off / 8))) (off % 8) 1

def wraps (va : Word) (len : Nat) : Bool := len ≠ 0 ∧ va + BitVec.ofNat 64 len < va

/-- The loop of `vm_copy_to_user`.  `false` is a page that is not mapped. -/
def copyToLoop (root : Frame) : Nat → Word → List (BitVec 8) → Phys → Bool × Phys
  | 0, _, _, m => (true, m)
  | fuel + 1, va, bytes, m =>
    if bytes.length = 0 then (true, m)
    else
      let frame := m.translate root (pageStart va)
      if frame = 0 then (false, m)
      else
        let chunk := min (4096 - pageOff va) bytes.length
        copyToLoop root fuel (va + BitVec.ofNat 64 chunk) (bytes.drop chunk)
          (m.storeBytes frame (pageOff va) (bytes.take chunk))

def vmCopyToUser (root : Frame) (dst : Word) (bytes : List (BitVec 8)) : Bool × Phys :=
  if wraps dst bytes.length then (false, m) else copyToLoop root bytes.length dst bytes m

/-- The loop of `vm_copy_from_user`, with the frame and the offset that each byte comes from. -/
def copyFromLoop (root : Frame) : Nat → Word → Nat → Bool × List (Frame × Nat)
  | 0, _, _ => (true, [])
  | fuel + 1, va, left =>
    if left = 0 then (true, [])
    else
      let frame := m.translate root (pageStart va)
      if frame = 0 then (false, [])
      else
        let chunk := min (4096 - pageOff va) left
        let (ok, rest) := copyFromLoop root fuel (va + BitVec.ofNat 64 chunk) (left - chunk)
        (ok, (List.range chunk).map (fun i => (frame, pageOff va + i)) ++ rest)

def copyFromUser (root : Frame) (src : Word) (len : Nat) : Bool × List (Frame × Nat) :=
  if wraps src len then (false, []) else m.copyFromLoop root len src len

/-- `vm_copy_from_user`: the bytes that it copies before it ends. -/
def vmCopyFromUser (root : Frame) (src : Word) (len : Nat) : Bool × List (BitVec 8) :=
  ((m.copyFromUser root src len).1, (m.copyFromUser root src len).2.map fun s => m.loadByte s.1 s.2)

def signalRsp (rsp : Word) : Word := ((rsp - 256) &&& ~~~0xF) - 8

/-- `sig_try_deliver` pushes `SIGTRAMPOLINE_VA` for a thread with this stack pointer.  `none` is a
fault in the kernel, which holds its lock: the address is not canonical or not mapped. -/
def sigPush (root : Frame) (rsp : Word) : Option Phys :=
  let newRsp := signalRsp rsp
  (m.lookup root newRsp).map fun μ => m.write μ.frame (newRsp.extractLsb' 3 9) 0x80001000

/-! ## The memory of a thread -/

def Owns (m : Phys) (root : Frame) (w : Bool) (f : Frame) : Prop :=
  ∃ va, ∃ μ ∈ m.lookup root va, μ.frame = f ∧ μ.user = true ∧ (w = true → μ.write = true)

def Inside (m : Phys) (root : Frame) (m' : Phys) : Prop :=
    ∀ f, m'.mem f ≠ m.mem f → m.Owns root true f

def StaysInside (m : Phys) (root : Frame) (r : Bool × Phys) : Prop :=
  m.Inside root r.2 ∧ (r.1 = false → r.2 = m)

def Sealed (m : Phys) (root : Frame) : Prop := ∀ va, ∀ s ∈ m.slots root va, ¬ m.Owns root true s.1

def frameAt (m : Phys) (root : Frame) (va : Word) (i : Nat) : Frame :=
  m.translate root (pageStart (va + BitVec.ofNat 64 i))

/-- The range wraps around, its first page is not mapped, or all its pages are mapped to memory
that the thread may write. -/
def MayWrite (m : Phys) (root : Frame) (dst : Word) (len : Nat) : Prop :=
  wraps dst len ∨ (len ≠ 0 ∧ m.frameAt root dst 0 = 0) ∨
    ∀ i < len, m.frameAt root dst i ≠ 0 ∧ m.Owns root true (m.frameAt root dst i)

/-- The range wraps around, or its pages up to the first that is not mapped are mapped to memory
that the thread may read. -/
def MayRead (m : Phys) (root : Frame) (src : Word) (len : Nat) : Prop :=
  wraps src len ∨ ∀ i < len, (∀ j ≤ i, m.frameAt root src j ≠ 0) →
    m.Owns root false (m.frameAt root src i)

/-- The push goes to memory that the thread may write, or finds the return address there. -/
def MayPush (m : Phys) (root : Frame) (rsp : Word) : Prop :=
  ∃ μ ∈ m.lookup root (signalRsp rsp), m.Owns root true μ.frame ∨
    m.mem μ.frame ((signalRsp rsp).extractLsb' 3 9) = 0x80001000

variable {m} {m₁ m₂ : Phys} {root f g : Frame} {va : Word} {off o i : Nat} {bytes : List (BitVec 8)}

/-! ## Bytes -/

theorem loadByte_storeByte (b : BitVec 8) (hoff : off < 4096) (ho : o < 4096) :
    (m.storeByte f off b).loadByte g o = if g = f ∧ o = off then b else m.loadByte g o := by
  unfold storeByte loadByte write
  dsimp only
  by_cases hword : g = f ∧ BitVec.ofNat 9 (o / 8) = BitVec.ofNat 9 (off / 8)
  · obtain ⟨rfl, hword⟩ := hword
    have hdiv : o / 8 = off / 8 := by
      have := congrArg BitVec.toNat hword
      rwa [BitVec.toNat_ofNat, BitVec.toNat_ofNat, Nat.mod_eq_of_lt (by omega),
        Nat.mod_eq_of_lt (by omega)] at this
    rw [if_pos ⟨rfl, hword⟩, hword]
    by_cases heq : o = off
    · rw [if_pos ⟨rfl, heq⟩, heq]
      exact Bytes.slice_put _ _ (by omega)
    · rw [if_neg (fun h => heq h.2)]
      exact Bytes.slice_put_of_disjoint _ _ (by omega)
  · rw [if_neg hword, if_neg]
    rintro ⟨rfl, rfl⟩
    exact hword ⟨rfl, rfl⟩

theorem loadByte_storeBytes (h : off + bytes.length ≤ 4096) (ho : o < 4096) :
    (m.storeBytes f off bytes).loadByte g o =
      if g = f ∧ off ≤ o then bytes.getD (o - off) (m.loadByte g o) else m.loadByte g o := by
  induction bytes generalizing m off with
  | nil => simp [storeBytes]
  | cons b bs ih =>
    rw [List.length_cons] at h
    rw [storeBytes, ih (by omega), loadByte_storeByte b (by omega) ho]
    by_cases hg : g = f
    swap
    · simp [hg]
    rcases Nat.lt_trichotomy o off with hlt | rfl | hgt
    · simp [hg, Nat.not_le.mpr hlt, show ¬ off + 1 ≤ o by omega, hlt.ne]
    · simp [hg]
    · obtain ⟨k, rfl⟩ := Nat.exists_eq_add_of_lt hgt
      simp [hg, show off + k + 1 - off = k + 1 by omega, show off + k + 1 - (off + 1) = k by omega,
        show off + 1 ≤ off + k + 1 by
          omega, show off ≤ off + k + 1 by omega, show off + k + 1 ≠ off by omega]

theorem storeBytes_of_ne (h : g ≠ f) : (m.storeBytes f off bytes).mem g = m.mem g := by
  induction bytes generalizing m off with
  | nil => rfl
  | cons b bs ih => rw [storeBytes, ih, storeByte, write_of_frame_ne _ _ _ h]
/-- The bytes up to the end of a page are on the page. -/
theorem pageStart_add (h : i < 4096 - pageOff va) :
    pageStart (va + BitVec.ofNat 64 i) = pageStart va := by
  have hlt := va.isLt
  unfold pageOff at h
  refine BitVec.eq_of_toNat_eq ?_
  rw [pageStart, pageStart, show (0xFFF : Word) = BitVec.ofNat 64 (2 ^ 12 - 1) from rfl,
    toNat_and_not_ones, toNat_and_not_ones, BitVec.toNat_add, BitVec.toNat_ofNat,
      Nat.mod_eq_of_lt (show i < 2 ^ 64 by omega),
    Nat.mod_eq_of_lt (show va.toNat + i < 2 ^ 64 by omega)]
  omega

theorem frameAt_of_page (h : i < 4096 - pageOff va) :
    m.frameAt root va i = m.translate root (pageStart va) := by
  rw [frameAt, pageStart_add h]

theorem frameAt_add (n i : Nat) :
    m.frameAt root (va + BitVec.ofNat 64 n) i = m.frameAt root va (n + i) := by
  rw [frameAt, frameAt, BitVec.add_assoc, ← BitVec.ofNat_add]

/-! ## Writing -/

/-- What the thread may write holds none of its page tables. -/
theorem translate_of_inside (hs : m.Sealed root) (h : m.Inside root m₁) (va : Word) :
    m₁.translate root va = m.translate root va := by
  have hkept : ∀ s ∈ m.slots root va, m₁.mem s.1 s.2 = m.mem s.1 s.2 := fun s hmem => by
    by_contra hne
    exact hs va s hmem (h s.1 fun heq => hne (congrFun heq s.2))
  obtain ⟨-, hlast, -⟩ := walk_congr hkept
  rw [translate_eq, translate_eq, unmapPage_fst, unmapPage_fst, hlast]

theorem Inside.storeBytes (h : m.Inside root m₁) (hf : m.Owns root true f) :
    m.Inside root (m₁.storeBytes f off bytes) := by
  intro g hne
  by_cases hg : g = f
  · exact hg ▸ hf
  · rw [storeBytes_of_ne hg] at hne
    exact h g hne

/-- **Run.**  A copy to pages that are all the thread's comes to its end, and stays inside. -/
theorem copyToLoop_inside (hs : m.Sealed root) {fuel : Nat} (hfuel : bytes.length ≤ fuel)
    (h : m.Inside root m₁) (hpages : ∀ i < bytes.length, m.frameAt root va i ≠ 0 ∧
      m.Owns root true (m.frameAt root va i)) :
    (copyToLoop root fuel va bytes m₁).1 = true ∧
      m.Inside root (copyToLoop root fuel va bytes m₁).2 := by
  induction fuel generalizing va bytes m₁ with
  | zero => exact ⟨rfl, h⟩
  | succ fuel ih =>
    unfold copyToLoop
    by_cases hnil : bytes.length = 0
    · rw [if_pos hnil]
      exact ⟨rfl, h⟩
    have hoff : pageOff va < 4096 := Nat.mod_lt _ (by decide)
    obtain ⟨hne, hown⟩ := hpages 0 (Nat.pos_of_ne_zero hnil)
    rw [frameAt_of_page (by omega)] at hne hown
    dsimp only
    rw [if_neg hnil, translate_of_inside hs h, if_neg hne]
    refine ih (by rw [List.length_drop]; omega) (h.storeBytes hown) fun i hi => ?_
    rw [List.length_drop] at hi
    rw [frameAt_add]
    exact hpages _ (by omega)

/-- Every byte is as in `m₁`, or was turned into another than it is in `m`. -/
def Turned (m m₁ m₂ : Phys) : Prop :=
  ∀ f o, o < 4096 → m₂.loadByte f o = m₁.loadByte f o ∨ m₂.loadByte f o = ~~~ m.loadByte f o

/-- Bytes that are other than those of `m` in a frame. -/
def turning (m : Phys) (f : Frame) (off n : Nat) : List (BitVec 8) :=
  (List.range n).map fun i => ~~~ m.loadByte f (off + i)

theorem turned_storeBytes (m m₁ : Phys) {n : Nat} (h : off + n ≤ 4096) :
    Turned m m₁ (m₁.storeBytes f off (m.turning f off n)) ∧
      (0 < n → (m₁.storeBytes f off (m.turning f off n)).loadByte f off =
      ~~~ m.loadByte f off) := by
  have hlen : off + (m.turning f off n).length ≤ 4096 := by simpa [turning] using h
  refine ⟨fun g o ho => ?_, fun hn => ?_⟩
  · rw [loadByte_storeBytes hlen ho]
    split
    · rename_i hg
      obtain ⟨rfl, hle⟩ := hg
      obtain ⟨k, rfl⟩ := Nat.exists_eq_add_of_le hle
      rw [Nat.add_sub_cancel_left]
      by_cases hk : k < n
      · exact .inr (by simp [turning, hk])
      · exact .inl (by simp [turning, hk])
    · exact .inl rfl
  · rw [loadByte_storeBytes hlen (by omega), if_pos ⟨rfl, le_rfl⟩, Nat.sub_self]
    simp [turning, hn]

theorem ne_of_turned (h : m₁.loadByte f o = ~~~ m.loadByte f o) : m₁.mem f ≠ m.mem f := by
  intro heq
  rw [loadByte, loadByte, heq] at h
  exact absurd (congrArg (·.getLsbD 0) h) (by simp)

/-- **Run.**  Some bytes tell where a copy goes.  If it stays inside all its pages are the
thread's, and if it fails after its first page memory has changed. -/
theorem exists_turning (hs : m.Sealed root) {fuel len : Nat} (hfuel : len ≤ fuel) (va : Word)
    (m₁ : Phys) : ∃ bytes : List (BitVec 8), bytes.length = len ∧
      Turned m m₁ (copyToLoop root fuel va bytes m₁).2 ∧
      (m.Inside root m₁ → m.Inside root (copyToLoop root fuel va bytes m₁).2 →
        (copyToLoop root fuel va bytes m₁).1 = true →
        ∀ i < len, m.frameAt root va i ≠ 0 ∧ m.Owns root true (m.frameAt root va i)) ∧
      ((copyToLoop root fuel va bytes m₁).1 = false → len ≠ 0 ∧
        (m₁.frameAt root va 0 ≠ 0 → (copyToLoop root fuel va bytes m₁).2 ≠ m)) := by
  induction fuel generalizing va len m₁ with
  | zero =>
    obtain rfl := Nat.le_zero.mp hfuel
    exact ⟨[], rfl, fun _ _ _ => .inl rfl, fun _ _ _ i hi =>
      absurd hi i.not_lt_zero, fun h => by cases h⟩
  | succ fuel ih =>
    by_cases hnil : len = 0
    · subst hnil
      exact ⟨[], rfl, fun _ _ _ => .inl rfl, fun _ _ _ i hi =>
        absurd hi i.not_lt_zero, fun h => by cases h⟩
    have hoff : pageOff va < 4096 := Nat.mod_lt _ (by decide)
    have hfirst : m₁.frameAt root va 0 = m₁.translate root (pageStart va) :=
      frameAt_of_page (by omega)
    by_cases hframe : m₁.translate root (pageStart va) = 0
    · have hrun : copyToLoop root (fuel + 1) va (List.replicate len 0) m₁ = (false, m₁) := by
        simp [copyToLoop, hnil, hframe]
      rw [hfirst]
      exact ⟨List.replicate len 0, List.length_replicate, by rw [hrun]; exact fun _ _ _ => .inl rfl,
        by rw [hrun]; exact fun _ _ h => (by cases h), fun _ => ⟨hnil, fun h => absurd hframe h⟩⟩
    generalize hf : m₁.translate root (pageStart va) = f at hframe hfirst
    generalize hn : min (4096 - pageOff va) len = n
    have hnow : (m.turning f (pageOff va) n).length = n := by simp [turning]
    obtain ⟨hturned, hflip⟩ := turned_storeBytes m m₁ (f := f) (show pageOff va + n ≤ 4096 by omega)
    generalize hm₂ : m₁.storeBytes f (pageOff va) (m.turning f (pageOff va) n) = m₂ at hturned hflip
    obtain ⟨rest, hlen, hafter, hpages, -⟩ :=
      ih (show len - n ≤ fuel by omega) (va + BitVec.ofNat 64 n) m₂
    have hrun : copyToLoop root (fuel + 1) va (m.turning f (pageOff va) n ++ rest) m₁ =
        copyToLoop root fuel (va + BitVec.ofNat 64 n) rest m₂ := by
      have htotal : (m.turning f (pageOff va) n ++ rest).length = len := by
        rw [List.length_append, hnow, hlen]
        omega
      rw [copyToLoop]
      dsimp only
      rw [htotal, if_neg hnil, hf, if_neg hframe, hn, List.take_left' hnow,
        List.drop_left' hnow, hm₂]
    -- the first byte stays turned to the end
    have hchanged : (copyToLoop root fuel (va + BitVec.ofNat 64 n) rest m₂).2.mem f ≠ m.mem f := by
      rcases hafter f (pageOff va) hoff with hsame | hturn
      · exact ne_of_turned (hsame.trans (hflip (by omega)))
      · exact ne_of_turned hturn
    refine ⟨m.turning f (pageOff va) n ++ rest, by rw [List.length_append, hnow, hlen]; omega, ?_⟩
    rw [hrun]
    refine ⟨fun g o ho => ?_, fun hin hout hok i hi => ?_, fun _ =>
      ⟨hnil, fun _ heq => hchanged (by rw [heq])⟩⟩
    · rcases hafter g o ho with hsame | hturn
      · rw [hsame]
        exact hturned g o ho
      · exact .inr hturn
    have hown := hout f hchanged
    have hsame := translate_of_inside hs hin (pageStart va)
    by_cases hi' : i < n
    · rw [frameAt_of_page (by omega), ← hsame, hf]
      exact ⟨hframe, hown⟩
    · have hin₂ : m.Inside root m₂ := hm₂ ▸ hin.storeBytes hown
      have hpage := hpages hin₂ hout hok (i - n) (by omega)
      rwa [frameAt_add, Nat.add_sub_cancel' (by omega)] at hpage

/-- A copy stays inside, whatever the bytes, exactly where the thread may write. -/
theorem staysInside_iff (hs : m.Sealed root) (dst : Word) (len : Nat) :
    (∀ bytes : List (BitVec 8), bytes.length = len →
      m.StaysInside root (m.vmCopyToUser root dst bytes)) ↔
      m.MayWrite root dst len := by
  have hself : m.Inside root m := fun f hne => absurd rfl hne
  unfold MayWrite vmCopyToUser
  by_cases hwraps : wraps dst len = true
  · refine iff_of_true (fun bytes hlen => ?_) (.inl hwraps)
    rw [hlen, if_pos hwraps]
    exact ⟨hself, fun _ => rfl⟩
  rw [or_iff_right hwraps]
  constructor
  · intro hall
    obtain ⟨bytes, rfl, -, hpages, hfails⟩ := exists_turning hs (le_refl len) dst m
    obtain ⟨hin, hfail⟩ := hall bytes rfl
    rw [if_neg hwraps] at hin hfail
    cases hok : (copyToLoop root bytes.length dst bytes m).1 with
    | true => exact .inr (hpages hself hin hok)
    | false =>
      obtain ⟨hlen, hchanged⟩ := hfails hok
      exact .inl ⟨hlen, not_not.mp fun hne => hchanged hne (hfail hok)⟩
  · rintro hmay bytes rfl
    rw [if_neg hwraps]
    rcases hmay with ⟨hlen, hframe⟩ | hpages
    · have hoff : pageOff dst < 4096 := Nat.mod_lt _ (by decide)
      rw [frameAt_of_page (by omega)] at hframe
      have hrun : copyToLoop root bytes.length dst bytes m = (false, m) := by
        cases bytes with
        | nil => exact absurd rfl hlen
        | cons b bs => simp [copyToLoop, hframe]
      rw [hrun]
      exact ⟨hself, fun _ => rfl⟩
    · obtain ⟨hok, hin⟩ := copyToLoop_inside hs le_rfl hself hpages
      exact ⟨hin, fun h => by rw [hok] at h; cases h⟩

/-! ## Reading -/

/-- **Run.**  The bytes come from the thread's memory if the pages that the copy comes to are. -/
theorem copyFromLoop_iff {fuel left : Nat} (hfuel : left ≤ fuel) :
    (∀ s ∈ (m.copyFromLoop root fuel va left).2, m.Owns root false s.1) ↔
      ∀ i < left, (∀ j ≤ i, m.frameAt root va j ≠ 0) → m.Owns root false (m.frameAt root va i) := by
  induction fuel generalizing va left with
  | zero =>
    obtain rfl := Nat.le_zero.mp hfuel
    simp [copyFromLoop]
  | succ fuel ih =>
    unfold copyFromLoop
    by_cases hnil : left = 0
    · simp [hnil]
    have hoff : pageOff va < 4096 := Nat.mod_lt _ (by decide)
    have hfirst : m.frameAt root va 0 = m.translate root (pageStart va) :=
      frameAt_of_page (by omega)
    dsimp only
    rw [if_neg hnil]
    by_cases hframe : m.translate root (pageStart va) = 0
    · rw [if_pos hframe]
      exact iff_of_true (fun s h => by cases h) fun i _ hall =>
        absurd (hfirst.trans hframe) (hall 0 i.zero_le)
    rw [if_neg hframe]
    generalize hn : min (4096 - pageOff va) left = n
    have hpage : ∀ i < n, m.frameAt root va i = m.translate root (pageStart va) := fun i hi =>
      frameAt_of_page (by omega)
    rw [List.forall_mem_append, ih (by omega)]
    constructor
    · rintro ⟨hnow, hrest⟩ i hi hall
      by_cases hi' : i < n
      · rw [hpage i hi']
        exact hnow _ (List.mem_map.mpr ⟨i, List.mem_range.mpr hi', rfl⟩)
      · have hlater := hrest (i - n) (by omega) fun j hj => by
          rw [frameAt_add]
          exact hall _ (by omega)
        rwa [frameAt_add, Nat.add_sub_cancel' (by omega)] at hlater
    · refine fun hall => ⟨fun s hmem => ?_, fun i hi hmapped => ?_⟩
      · obtain ⟨i, -, rfl⟩ := List.mem_map.mp hmem
        exact hfirst ▸ hall 0 (by omega) fun j hj => by rw [Nat.le_zero.mp hj, hfirst]; exact hframe
      · rw [frameAt_add]
        refine hall _ (by omega) fun j hj => ?_
        by_cases hj' : j < n
        · rw [hpage j hj']
          exact hframe
        · have hmapped' := hmapped (j - n) (by omega)
          rwa [frameAt_add, Nat.add_sub_cancel' (by omega)] at hmapped'

/-- The first space has no page for user mode. -/
theorem not_owns_twoSpaces (w : Bool) (f : Frame) : ¬ twoSpaces.2.2.Owns twoSpaces.1 w f := by
  rintro ⟨va, μ, hμ, -, huser, -⟩
  have hroot : ∀ i, present (twoSpaces.2.2.mem twoSpaces.1 i) = true → i = 0 := by decide +kernel
  have hpdpt : ∀ i, ¬ userBit (twoSpaces.2.2.mem (target (twoSpaces.2.2.mem twoSpaces.1 0)) i) =
    true := by
    decide +kernel
  unfold lookup at hμ
  dsimp only at hμ
  split at hμ
  · cases hμ
  rename_i hpresent
  simp only [not_or, not_not] at hpresent
  rw [hroot _ hpresent.2.1] at hμ
  refine hpdpt (pdptIndex va) ?_
  split at hμ
  · cases hμ
    simp only [allow, List.all_cons, Bool.and_eq_true] at huser
    exact huser.2.1
  split at hμ
  · cases hμ
  · cases hμ
    simp only [allow, List.all_cons, Bool.and_eq_true] at huser
    exact huser.2.1

theorem sealed_twoSpaces : twoSpaces.2.2.Sealed twoSpaces.1 := fun _ _ _ => not_owns_twoSpaces _ _

end Phys

end Robu
