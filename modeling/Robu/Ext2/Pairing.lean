import Robu.Ext2.Frames
import Robu.Ext2.Image

/-!
# Transactions and requests

Handlers begin and end transactions by hand.  Whatever happens in between, `journalFinish`
and `journalCommit` leave no transaction running; so no handler does that begins one only
to end it with them.  The one function that may not is `flushWriteState`: it returns from
a failure to read the inode without ending the transaction it began.
-/

namespace Robu.Ext2

open Lib Fallible

def Resting (s : Server) : Prop := s.journal.active = false

/-! ## Ending a transaction -/

theorem resting_abort (s : Server) : Resting s.abort :=
  (ended_abort s).1.active

theorem ends_abort_throw {α : Type} (e : Int) (s : Server) {P : α → Server → Prop} :
    Ends (do journalAbort; throw e : M α) s P (fun _ => Resting) :=
  .modify_bind (.throw (resting_abort s))

theorem ends_journalCommit (s : Server) :
    Ends journalCommit s (fun _ => Resting) (fun _ => Resting) := by
  refine .get_bind (.check (fun h => ?_) fun _ => ?_)
  · simpa [Resting] using h
  refine .ite (fun _ => .modify rfl) fun _ => .modify_bind ?_
  refine .seq (.tryCatch .any fun _ s' _ => ends_abort_throw _ s') fun _ s₃ => ?_
  exact .seq (.tryCatch .any fun _ s' _ => .modify_bind (.throw rfl)) fun _ s₄ => .modify rfl

theorem ends_journalFinish (m : M Unit) (s : Server) :
    Ends (journalFinish m) s (fun _ => Resting) (fun _ => Resting) :=
  .seq (.tryCatch .any fun _ s' _ => ends_abort_throw _ s') fun _ s' => ends_journalCommit s'

def Rests (s s' : Server) : Prop := Resting s → Resting s'

instance : EditFrame Rests where
  refl _ h := h
  trans _ _ _ h₁ h₂ h := h₂ (h₁ h)
  tick _ h := h
  sb _ _ h := h
  cursorBit _ _ _ h := h
  cursorGroup _ _ h := h
  record _ _ _ _ _ h := h
  store _ _ _ _ h := h

theorem rests_of_ends {α : Type} {m : M α}
    (h : ∀ s, Resting s → Ends m s (fun _ => Resting) (fun _ => Resting)) : Keeps Rests m :=
  fun s hs => (h s hs).snd

theorem rests_begin {α : Type} (e : Int) {k : M α}
    (hk : ∀ s, Ends k s (fun _ => Resting) (fun _ => Resting)) :
    Keeps Rests (do orFail e journalBegin; k) := by
  refine rests_of_ends fun s hs => .seq (.orFail ?_) fun _ s' => hk s'
  exact .get_bind (.check (fun _ => hs) fun _ => .modify trivial)

theorem rests_journaled {α : Type} (m : M α) : Keeps Rests (journaled m) := by
  refine rests_begin _ fun s => ?_
  refine .seq (.tryCatch .any fun e s' _ => ends_abort_throw e s') fun a s₁ => ?_
  exact .bind (P := fun _ => Resting) (.orFail (ends_journalCommit s₁)) fun _ s₂ h => .pure h

theorem rests_finish {α : Type} (e : Int) (m : M Unit) (a : α) :
    Keeps Rests (do orFail e journalBegin; orFail e (journalFinish m); pure a) :=
  rests_begin _ fun s =>
    .bind (P := fun _ => Resting) (.orFail (ends_journalFinish m s)) fun _ _ h => .pure h

theorem rests_modifyHandle (h : Fin maxHandles) (f : Handle → Handle) :
    Keeps Rests (modifyHandle h f) :=
  fun _ hs => hs

/-! ## Writing a cache back -/

def Handle.dirty (hd : Handle) : Bool := hd.wcacheValid && hd.wcacheDirty

theorem flushWriteState_of_clean {h : Fin maxHandles} {s : Server}
    (hc : (s.handles h).dirty = false) : flushWriteState h s = (.ok (), s) := by
  refine (bind_of_ok (get_apply s)).trans ?_
  rw [if_pos (by
    rw [Handle.dirty] at hc
    cases hv : (s.handles h).wcacheValid <;> simp_all)]
  rfl

def Stored (s s' : Server) : Prop := ∃ d, s' = { s with dev := d }

instance : WriteFrame Stored where
  refl s := ⟨s.dev, rfl⟩
  trans := by
    rintro s _ _ ⟨_, rfl⟩ ⟨d, rfl⟩
    exact ⟨d, rfl⟩
  tick s := ⟨s.dev.tick, rfl⟩
  write s x v := ⟨s.dev.store x v, rfl⟩

/-- A transaction can begin, the cached block is written and the device flushed, and then the
inode cannot be read. -/
def LosesInode (h : Fin maxHandles) (s : Server) : Prop :=
  let hd := s.handles h
  hd.dirty = true ∧ ∃ s₀ s₁ s₂ e, journalBegin s = (.ok (), s₀) ∧
    (do blockWrite (hd.blocks hd.wcacheBlkIdx) hd.wcache; blkdevFlush : M Unit) s₀ = (.ok (), s₁) ∧
    inodeRead hd.ino s₁ = (.error e, s₂)

def Leaked (s : Server) : Prop := s.journal.active = true ∧ s.journal.faulted = false

/-- From a state with no transaction running, `m` leaves one exactly if `L` holds, and then it
fails. -/
def Loses {α : Type} (m : M α) (L : Server → Prop) : Prop :=
  ∀ s, Resting s → (¬L s → Resting (m s).2) ∧ (L s → ∃ e s', m s = (.error e, s') ∧ Leaked s')

namespace Loses

variable {α β : Type} {m : M α} {k : α → M β} {L L' : Server → Prop} {K : α → Server → Prop}

theorem of_rests (h : Keeps Rests m) : Loses m fun _ => False :=
  fun s hs => ⟨fun _ => h s hs, False.elim⟩

theorem congr (h : Loses m L) (hL : ∀ s, L' s ↔ L s) : Loses m L' := by
  intro s hs
  rw [hL]
  exact h s hs

/-- A sequence loses where one of its parts does. -/
theorem bind (hm : Loses m L) (hk : ∀ a, Loses (k a) (K a)) :
    Loses (m >>= k) fun s => L s ∨ ∃ a s', m s = (.ok a, s') ∧ K a s' := by
  intro s hs
  obtain ⟨hrests, hleaks⟩ := hm s hs
  match h : m s with
  | (.ok a, s') =>
    have hL : ¬L s := by
      intro hL
      obtain ⟨e, s₁, he, -⟩ := hleaks hL
      cases h.symm.trans he
    obtain ⟨hrests', hleaks'⟩ := hk a s' (by simpa [h] using hrests hL)
    rw [bind_of_ok h]
    refine ⟨fun hno => hrests' fun hK => hno (.inr ⟨a, s', h, hK⟩), ?_⟩
    rintro (hL' | ⟨a', s₁, heq, hK⟩)
    · exact absurd hL' hL
    · cases h.symm.trans heq
      exact hleaks' hK
  | (.error e, s') =>
    rw [bind_of_error h]
    refine ⟨fun hno => by simpa [h] using hrests fun hL => hno (.inl hL), ?_⟩
    rintro (hL | ⟨a, s₁, heq, -⟩)
    · obtain ⟨e', s₁, he, hleaked⟩ := hleaks hL
      cases h.symm.trans he
      exact ⟨_, _, rfl, hleaked⟩
    · cases h.symm.trans heq

theorem rests_bind (hm : Keeps Rests m) (hk : ∀ a, Loses (k a) (K a)) :
    Loses (m >>= k) fun s => ∃ a s', m s = (.ok a, s') ∧ K a s' :=
  (bind (of_rests hm) hk).congr fun _ => (false_or _).to_iff.symm

theorem bind_rests (hm : Loses m L) (hk : ∀ a, Keeps Rests (k a)) : Loses (m >>= k) L :=
  (bind hm fun a => of_rests (hk a)).congr fun _ => by simp

theorem get_bind {k : Server → M β} {K : Server → Server → Prop} (hk : ∀ s, Loses (k s) (K s)) :
    Loses (get >>= k) fun s => K s s :=
  (rests_bind .get hk).congr fun s => by simp

theorem onlyIf {c : Bool} {m : M Unit} (h : Loses m L) :
    Loses (onlyIf c m) fun s => c = true ∧ L s := by
  cases c with
  | true => exact h.congr fun _ => by simp
  | false => exact (of_rests (.pure _)).congr fun _ => by simp

theorem orFail {e : Int} (h : Loses m L) : Loses (orFail e m) L := by
  intro s hs
  obtain ⟨hrests, hleaks⟩ := h s hs
  refine ⟨fun hL => Ends.snd (.orFail (.of_snd (hrests hL))), fun hL => ?_⟩
  obtain ⟨e', s', he, hleaked⟩ := hleaks hL
  exact ⟨e, s', tryCatch_of_error he, hleaked⟩

theorem snd (h : Loses m L) {s : Server} (hs : Resting s) :
    (¬L s → Resting (m s).2) ∧ (L s → Leaked (m s).2) := by
  refine ⟨(h s hs).1, fun hL => ?_⟩
  obtain ⟨e, s', he, hleaked⟩ := (h s hs).2 hL
  rwa [he]

end Loses

/-- A cache that is written back outside a transaction leaves one running exactly if it loses
the inode. -/
theorem loses_flushWriteState (h : Fin maxHandles) : Loses (flushWriteState h) (LosesInode h) := by
  intro s hs
  cases hd : (s.handles h).dirty with
  | false =>
    rw [flushWriteState_of_clean hd]
    exact ⟨fun _ => hs, fun hl => by simp [hl.1] at hd⟩
  | true =>
  have hown : (!s.journal.active) = true := by
    rw [show s.journal.active = false from hs]
    rfl
  have hdirty : ¬(!(s.handles h).wcacheValid || !(s.handles h).wcacheDirty) = true := by
    rw [Handle.dirty, Bool.and_eq_true] at hd
    simp [hd.1, hd.2]
  constructor
  · intro hl
    refine Ends.snd (.get_bind ?_)
    dsimp only
    rw [if_neg hdirty, hown]
    have hgive (s' : Server) {P : Unit → Server → Prop} :
        Ends (do onlyIf true journalAbort; throw (-1) : M Unit) s' P (fun _ => Resting) :=
      ends_abort_throw _ s'
    refine .bind (P := fun _ s₀ => journalBegin s = (.ok (), s₀))
      ⟨fun _ _ h => h, ?_⟩ fun _ s₀ hbegin => ?_
    · exact (Ends.get_bind (.check (fun _ => hs) fun _ => .modify trivial) :
        Ends journalBegin s (fun _ _ => True) fun _ => Resting).error
    refine .bind (P := fun _ s₁ => (do blockWrite _ _; blkdevFlush : M Unit) s₀ = (.ok (), s₁))
      (.tryCatch (F := fun _ _ => True) ⟨fun _ _ h => h, fun _ _ _ => trivial⟩ fun _ s' _ =>
        hgive s') fun _ s₁ hwrite => ?_
    match hread : inodeRead (s.handles h).ino s₁ with
    | (.error e, s₂) => exact absurd ⟨hd, s₀, s₁, s₂, e, hbegin, hwrite, hread⟩ hl
    | (.ok inode, s₂) =>
      refine .ok_bind hread (.seq (.tryCatch .any fun _ s' _ => hgive s') fun _ s₃ => ?_)
      exact .bind (P := fun _ => Resting) (ends_journalCommit s₃) fun _ _ h => .modify h
  · rintro ⟨-, s₀, s₁, s₂, e, hbegin, hwrite, hread⟩
    refine ⟨e, s₂, (bind_of_ok (get_apply s)).trans ?_, ?_⟩
    · rw [if_neg hdirty, hown, bind_of_ok (show onlyIf true journalBegin s = _ from hbegin),
        bind_of_ok (tryCatch_of_ok hwrite), bind_of_error hread]
    · have hleaked : Leaked s₀ := by
        have hends : Ends journalBegin s (fun _ => Leaked) fun _ _ => True :=
          .get_bind (.check (fun _ => trivial) fun hready => .modify ⟨rfl, by simp_all⟩)
        exact hends.ok _ _ hbegin
      have hstored : Stored s₁ s₂ := by
        have := (keeps_inodeRead (R := Stored) (s.handles h).ino) s₁
        rwa [hread] at this
      obtain ⟨d₁, rfl⟩ := (keeps_writeBack (R := Stored) _ _).of_ok hwrite
      obtain ⟨d₂, rfl⟩ := hstored
      exact hleaked

/-- One of the handles in use loses its inode when they are written back one after the
other. -/
def OneLoses : List (Fin maxHandles) → Server → Prop
  | [], _ => False
  | h :: hs, s => ((s.handles h).inUse = true ∧ LosesInode h s) ∨
      ∃ s', onlyIf (s.handles h).inUse (flushWriteState h) s = (.ok (), s') ∧ OneLoses hs s'

theorem loses_flushWhere (hs : List (Fin maxHandles)) :
    Loses (flushWhere (fun _ => true) hs) (OneLoses hs) := by
  induction hs with
  | nil => exact .of_rests (.pure _)
  | cons h hs ih =>
    refine (Loses.get_bind fun _ => .bind (.onlyIf (loses_flushWriteState h)) fun _ => ih).congr
      fun s => ?_
    rw [OneLoses, Bool.and_true]
    exact or_congr Iff.rfl ⟨fun ⟨s', h⟩ => ⟨(), s', h⟩, fun ⟨_, s', h⟩ => ⟨s', h⟩⟩

theorem rests_extendFile (h : Fin maxHandles) : Keeps Rests (extendFile h) :=
  .bind .get fun _ => .check fun _ => .bind (rests_journaled _) fun _ => rests_modifyHandle _ _

theorem loses_loadCache (h : Fin maxHandles) (blkIdx : Nat) : Loses (loadCache h blkIdx) fun s =>
    (s.handles h).wcacheBlkIdx ≠ blkIdx ∧ LosesInode h s := by
  intro s hs
  rw [loadCache, bind_of_ok (get_apply s)]
  dsimp only
  split
  · rename_i hload
    have hiff : ((s.handles h).wcacheBlkIdx ≠ blkIdx ∧ LosesInode h s) ↔ LosesInode h s := by
      refine and_iff_right_of_imp fun hl => ?_
      have hvalid := (Bool.and_eq_true_iff.mp hl.1).1
      simpa [hvalid] using hload
    rw [hiff]
    exact (loses_flushWriteState h).bind_rests (fun _ => .bind .get fun _ =>
      .bind (rests_modifyHandle _ _) fun _ => .bind (keeps_blockRead _) fun _ =>
        rests_modifyHandle _ _) s hs
  · rename_i hkept
    refine ⟨fun _ => hs, fun hl => absurd hl.1 ?_⟩
    simp_all

/-- To accept the bytes from `got` on that go to one block, the file gets a block if it needs
one, and then the cache of another block loses its inode. -/
def ChunkLoses (h : Fin maxHandles) (got : Nat) (s : Server) : Prop :=
  let hd := s.handles h
  let blkIdx := (hd.offset + got) / s.geo.blockSize % 2 ^ 32
  ∃ s', onlyIf (blkIdx ≥ hd.numBlocks) (extendFile h) s = (.ok (), s') ∧
    (s'.handles h).wcacheBlkIdx ≠ blkIdx ∧ LosesInode h s'

theorem loses_writeChunk (h : Fin maxHandles) (bytes : List Byte) (got : Nat) :
    Loses (writeChunk h bytes got) (ChunkLoses h got) := by
  refine (Loses.get_bind fun s => .rests_bind (.onlyIf (rests_extendFile h)) fun _ =>
    (loses_loadCache h _).bind_rests fun _ => .bind (rests_modifyHandle _ _) fun _ => .pure _).congr
      fun s => ?_
  exact ⟨fun ⟨s', h⟩ => ⟨(), s', h⟩, fun ⟨_, s', h⟩ => ⟨s', h⟩⟩

def WriteLoses (h : Fin maxHandles) (bytes : List Byte) : Nat → Nat → Server → Prop
  | 0, _, _ => False
  | fuel + 1, got, s => got < bytes.length ∧ (ChunkLoses h got s ∨
      ∃ chunk s', writeChunk h bytes got s = (.ok chunk, s') ∧
        WriteLoses h bytes fuel (got + chunk) s')

/-- The loop leaks a transaction exactly where `WriteLoses` says. -/
theorem writeLoop_leaked (h : Fin maxHandles) (bytes : List Byte) (fuel got : Nat) {s : Server}
    (hs : Resting s) : (¬WriteLoses h bytes fuel got s → Resting (writeLoop h bytes fuel got s).2) ∧
      (WriteLoses h bytes fuel got s → Leaked (writeLoop h bytes fuel got s).2) := by
  induction fuel generalizing got s with
  | zero => exact ⟨fun _ => hs, False.elim⟩
  | succ fuel ih =>
    rw [WriteLoses, writeLoop]
    split
    swap
    · rename_i hlt
      exact ⟨fun _ => hs, fun hl => absurd hl.1 hlt⟩
    rename_i hlt
    obtain ⟨hrests, hleaks⟩ := loses_writeChunk h bytes got s hs
    match hchunk : writeChunk h bytes got s with
    | (.error e, s') =>
      have hattempt : attempt (writeChunk h bytes got) s = (.ok none, s') := by rw [attempt, hchunk]
      rw [bind_of_ok hattempt]
      rw [hchunk] at hrests
      refine ⟨fun hno => hrests fun hl => hno ⟨hlt, .inl hl⟩, ?_⟩
      rintro ⟨-, hl | ⟨chunk, s₁, heq, -⟩⟩
      · obtain ⟨e', s₁, he, hleaked⟩ := hleaks hl
        cases hchunk.symm.trans he
        exact hleaked
      · cases heq
    | (.ok chunk, s') =>
      have hattempt : attempt (writeChunk h bytes got) s = (.ok (some chunk), s') := by
        rw [attempt, hchunk]
      have hkept : ¬ChunkLoses h got s := by
        intro hl
        obtain ⟨e, s₁, he, -⟩ := hleaks hl
        cases hchunk.symm.trans he
      obtain ⟨hrests', hleaks'⟩ := ih (got + chunk) (by simpa [hchunk] using hrests hkept)
      rw [bind_of_ok hattempt]
      refine ⟨fun hno => hrests' fun hl => hno ⟨hlt, .inr ⟨chunk, s', rfl, hl⟩⟩, ?_⟩
      rintro ⟨-, hl | ⟨chunk', s₁, heq, hl⟩⟩
      · exact absurd hl hkept
      · cases heq
        exact hleaks' hl

/-! ## All requests -/

/-- **Leaks.**  The request writes a cache back in a transaction made for that, and loses the
inode. -/
def Leaks (s : Server) : Request → Prop
  | .write h bytes => ∃ hlt : h < maxHandles, (s.handles ⟨h, hlt⟩).inUse = true ∧
      WriteLoses ⟨h, hlt⟩ (bytes.take vfsWriteMax) (bytes.take vfsWriteMax).length 0 s
  | .close h => ∃ hlt : h < maxHandles, (s.handles ⟨h, hlt⟩).inUse = true ∧ LosesInode ⟨h, hlt⟩ s
  | .quiesce => OneLoses (List.finRange maxHandles) s
  | _ => False

theorem openHandle_cases (status : Int) (h : Nat) (s : Server) :
    (∃ hlt : h < maxHandles, (s.handles ⟨h, hlt⟩).inUse = true ∧
      openHandle status h s = (.ok ⟨h, hlt⟩, s)) ∨ openHandle status h s = (.error status, s) := by
  by_cases hlt : h < maxHandles
  · by_cases hin : (s.handles ⟨h, hlt⟩).inUse = true
    · refine .inl ⟨hlt, hin, (bind_of_ok (get_apply s)).trans ?_⟩
      rw [dif_pos hlt, bind_of_ok (failIf_of_not (by simp [hin]) _ _)]
      rfl
    · refine .inr ((bind_of_ok (get_apply s)).trans ?_)
      rw [dif_pos hlt, bind_of_error (failIf_of (by simp [hin]) _ _)]
  · refine .inr ((bind_of_ok (get_apply s)).trans ?_)
    rw [dif_neg hlt]
    rfl

/-- A request on a handle that is open runs on, and any other fails at once. -/
theorem openHandle_leaked {h : Nat} {s : Server} (hs : Resting s) {k : Fin maxHandles → M Reply}
    {L : Fin maxHandles → Prop} (hk : ∀ h, (¬L h → Resting (k h s).2) ∧ (L h → Leaked (k h s).2)) :
    (¬(∃ hlt : h < maxHandles, (s.handles ⟨h, hlt⟩).inUse = true ∧ L ⟨h, hlt⟩) →
      Resting ((openHandle errBadHandle h >>= k) s).2) ∧
    ((∃ hlt : h < maxHandles, (s.handles ⟨h, hlt⟩).inUse = true ∧ L ⟨h, hlt⟩) →
      Leaked ((openHandle errBadHandle h >>= k) s).2) := by
  rcases openHandle_cases errBadHandle h s with ⟨hlt, hin, hop⟩ | hop
  · rw [bind_of_ok hop]
    exact ⟨fun hno => (hk _).1 fun hl => hno ⟨hlt, hin, hl⟩, fun ⟨_, _, hl⟩ => (hk _).2 hl⟩
  · rw [bind_of_error hop]
    refine ⟨fun _ => hs, fun ⟨hlt, hin, _⟩ => ?_⟩
    have hopen : openHandle errBadHandle h s = (.ok ⟨h, hlt⟩, s) := by
      refine (bind_of_ok (get_apply s)).trans ?_
      rw [dif_pos hlt, bind_of_ok (failIf_of_not (by simp [hin]) _ _)]
      rfl
    cases hop.symm.trans hopen

/-! ## Inside a transaction -/

/-- While a transaction is running, only its records, the superblock in memory and the
cursors change. -/
def Grew (s s' : Server) : Prop :=
  s.journal.active = true → ∃ t sb rs cs, s' = { s with
    dev := { s.dev with time := t }
    sb := sb
    journal := { s.journal with records := rs }
    cursors := cs }

instance : EditFrame Grew where
  refl s _ := ⟨s.dev.time, s.sb, s.journal.records, s.cursors, rfl⟩
  trans := by
    rintro s _ _ h₁ h₂ ha
    obtain ⟨t₁, sb₁, rs₁, cs₁, rfl⟩ := h₁ ha
    obtain ⟨t₂, sb₂, rs₂, cs₂, rfl⟩ := h₂ ha
    exact ⟨t₂, sb₂, rs₂, cs₂, rfl⟩
  tick s _ := ⟨s.dev.time + 1, s.sb, s.journal.records, s.cursors, rfl⟩
  sb s sb _ := ⟨s.dev.time, sb, s.journal.records, s.cursors, rfl⟩
  cursorBit s p b _ := ⟨s.dev.time, s.sb, s.journal.records, _, rfl⟩
  cursorGroup s p _ := ⟨s.dev.time, s.sb, s.journal.records, _, rfl⟩
  record s x v _ _ _ := ⟨s.dev.time, s.sb, putRecord s.journal.records x v, s.cursors, rfl⟩
  store s x v h ha := absurd ha (by simp [h])

/-! ## Requests that write no cache back -/

def Ticked (s s' : Server) : Prop := ∃ t, s' = { s with dev := { s.dev with time := t } }

instance : TickFrame Ticked where
  refl s := ⟨s.dev.time, rfl⟩
  trans := by
    rintro s _ _ ⟨_, rfl⟩ ⟨t, rfl⟩
    exact ⟨t, rfl⟩
  tick s := ⟨s.dev.time + 1, rfl⟩

theorem Plain.rests {α : Type} {m : M α} (h : Plain m) : Keeps Rests m := by
  induction h with
  | reads h => exact h
  | bind h _ ih => exact .bind h ih
  | handle => exact .bind (rests_modifyHandle _ _) fun _ => .pure _
  | journaled => exact .bind (rests_journaled _) fun _ => .pure _
  | commit => exact .bind (rests_begin _ fun s => .orFail (ends_journalFinish _ s)) fun _ => .pure _
  | finish => exact rests_finish _ _ _

theorem rests_handleUnlink (name : List Byte) : Keeps Rests (handleUnlink name) :=
  .bind (keeps_unlinkTarget name) fun _ => rests_finish _ _ _

theorem rests_handleRmdir (name : List Byte) : Keeps Rests (handleRmdir name) :=
  .bind (keeps_rmdirTarget name) fun _ => rests_finish _ _ _

theorem rests_handleOpen (name : List Byte) (flags : Nat) :
    Keeps Rests (handleOpen name flags) := by
  refine .bind (plain_openFile _ _).rests fun r => .bind .get fun s => ?_
  split
  · exact .throw _
  refine .bind (.bind .get fun _ => .bind (rests_modifyHandle _ _) fun _ => .bind (.attempt ?_)
    fun _ => rests_modifyHandle _ _) fun _ => .pure _
  exact .check fun _ => .bind (keeps_inodeRead _) fun _ => keeps_walkInodeBlocks _ _

theorem rests_handleRename (oldName newName : List Byte) :
    Keeps Rests (handleRename oldName newName) := by
  refine .bind (keeps_renameSides _ _) fun _ => .ite (.pure _) <|
    .bind (keeps_checkAncestry _ _) fun _ => rests_begin _ fun s => ?_
  refine .seq (.tryCatch .any fun e s' _ => ends_abort_throw e s') fun moved s₁ =>
    .ite (fun _ => ?_) fun _ => ?_
  · exact .bind (P := fun _ => Resting) (.orFail (ends_journalCommit s₁)) fun _ _ h => .pure h
  · exact .modify_bind (.pure (resting_abort s₁))

/-- **One request.**  A transaction outlives it exactly if it loses an inode. -/
theorem dispatch_leaked (r : Request) {s : Server} (hs : Resting s) :
    (¬Leaks s r → Resting (dispatch r s).2) ∧ (Leaks s r → Leaked (dispatch r s).2) := by
  have hrests : ∀ {m : M Reply}, Keeps Rests m →
      (¬False → Resting (m s).2) ∧ (False → Leaked (m s).2) := fun h =>
        ⟨fun _ => h s hs, False.elim⟩
  cases r with
  | write h bytes =>
    refine openHandle_leaked (L := fun h =>
      WriteLoses h (bytes.take vfsWriteMax) (bytes.take vfsWriteMax).length 0 s)
      hs fun h => ?_
    have hloop := writeLoop_leaked h (bytes.take vfsWriteMax) (bytes.take vfsWriteMax).length 0 hs
    match hw : writeLoop h (bytes.take vfsWriteMax) (bytes.take vfsWriteMax).length 0 s with
    | (.ok got, s') => rw [hw] at hloop; exact (bind_of_ok hw).symm ▸ hloop
    | (.error e, s') => rw [hw] at hloop; exact (bind_of_error hw).symm ▸ hloop
  | close h =>
    refine openHandle_leaked (L := fun h => LosesInode h s) hs fun h => Loses.snd ?_ hs
    exact (loses_flushWriteState h).orFail.bind_rests fun _ => .bind .get fun s₁ =>
      .bind (rests_modifyHandle _ _) fun _ => rests_finish _ _ _
  | quiesce =>
    refine Loses.snd (m := handleQuiesce) (L := OneLoses (List.finRange maxHandles)) ?_ hs
    exact (loses_flushWhere _).orFail.bind_rests fun _ =>
      .bind (.orFail keeps_blkdevFlush) fun _ => .pure _
  | «open» name flags => exact hrests (rests_handleOpen name flags)
  | read h len => exact hrests (plain_handleRead h len).rests
  | stat name => exact hrests (plain_handleStat name).rests
  | fstat h => exact hrests (plain_handleFstat h).rests
  | mkdir name => exact hrests (plain_handleMkdir name).rests
  | symlink name target => exact hrests (plain_handleSymlink name target).rests
  | readdir dirIno index => exact hrests (plain_handleReaddir dirIno index).rests
  | rename oldName newName => exact hrests (rests_handleRename oldName newName)
  | unlink name => exact hrests (rests_handleUnlink name)
  | rmdir name => exact hrests (rests_handleRmdir name)
  | readBulk name shm =>
    exact hrests (keeps_handleReadBulk (R := Rests) (fun _ _ hs => hs) name shm)
  | caps => exact hrests (.pure _)
  | xattr r => exact hrests (plain_handleXattr r).rests
  | utimens h flags atime mtime ctime =>
    exact hrests (plain_handleUtimens h flags atime mtime ctime).rests
  | deviceRead src msg => exact hrests (keeps_handleDeviceRead src msg)
  | other => exact hrests (.throw _)

def LeakFree : List Call → Server → Prop
  | [], _ => True
  | c :: cs, s => ¬Leaks (s.receive c) c.request ∧ LeakFree cs (call c s).2

/-- **No transaction outlives its request.**  In a run, with any device errors, no transaction
is running after any of the requests, unless the journal is faulted, exactly if none of them
loses an inode. -/
theorem no_transaction_leaks_iff (cs : List Call) (s : Server) (hs : s.journal.active = false) :
    (∀ n, (calls (cs.take n) s).journal.active = false ∨
      (calls (cs.take n) s).journal.faulted = true) ↔
      LeakFree cs s := by
  induction cs generalizing s with
  | nil => exact ⟨fun _ => trivial, fun _ n => by simpa [calls] using .inl hs⟩
  | cons c cs ih =>
    obtain ⟨hrests, hleaks⟩ := dispatch_leaked c.request (s := s.receive c) hs
    rw [← serve_snd] at hrests hleaks
    constructor
    · intro h
      have hkept : ¬Leaks (s.receive c) c.request := by
        intro hl
        have hone := h 1
        rcases hone with ha | hf
        · exact absurd ((hleaks hl).1.symm.trans ha) (by decide)
        · exact absurd ((hleaks hl).2.symm.trans hf) (by decide)
      exact ⟨hkept, (ih _ (hrests hkept)).mp fun n => h (n + 1)⟩
    · rintro ⟨hkept, hfree⟩ n
      cases n with
      | zero => exact .inl hs
      | succ n => exact (ih _ (hrests hkept)).mpr hfree n

def oneFile : Contents where
  inodes := [(12, fileInode 0x81A4 1 5 8 [263])]
  entries := [(4048, 12, 1, [0x66])]
  blocks := [(263, 0x4141414141)]

/-- A directory is made, and the write of a descriptor of its transaction fails. -/
theorem no_transaction_leaks_mkdir : let c := failing 58 (.mkdir [0x64])
    (call c (mounted oneFile)).1 = .error errNoSpace ∧
      ∀ n, (calls ([c].take n) (mounted oneFile)).journal.active = false ∨
      (calls ([c].take n) (mounted oneFile)).journal.faulted = true :=
  ⟨by decide +kernel, (no_transaction_leaks_iff _ _ (by decide +kernel)).mpr ⟨id, trivial⟩⟩

/-- One byte is written, and the inode cannot be read when the file is closed: the
transaction goes on, and no other one can begin. -/
theorem transaction_leaks_on_close : let s := mounted oneFile
    let s' := calls [now (.open [0x66] 0), now (.write 0 [0x42]), failing 9 (.close 0)] s
    s.journal.active = false ∧ s'.journal.active = true ∧ s'.journal.faulted = false ∧
      (call (now (.mkdir [0x64])) s').1 = .error errNoSpace := by
  decide +kernel

end Robu.Ext2
