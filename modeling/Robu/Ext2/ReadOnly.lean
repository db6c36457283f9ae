import Robu.Ext2.Pairing
import Robu.Ext2.Transactions

/-!
# Without a journal

A volume may have no usable journal file, and a commit that fails in its second half gives the
journal up.  No transaction can begin then, and the server writes nothing, whatever clients ask for.
-/

namespace Robu.Ext2

open Lib Fallible

variable {α : Type} (h : Fin maxHandles)

def Unjournaled (s : Server) : Prop :=
  s.journal.active = false ∧ (s.journal.ready = false ∨ s.journal.faulted = true)
deriving Decidable

def Server.Same (s s' : Server) : Prop :=
  s'.dev.disk = s.dev.disk ∧ s'.dev.log = s.dev.log ∧ s'.journal = s.journal

def Dry (s s' : Server) : Prop := Unjournaled s → s.Same s'

instance : TickFrame Dry where
  refl _ _ := ⟨rfl, rfl, rfl⟩
  trans := by
    intro s s₁ s₂ h₁ h₂ hs
    obtain ⟨hd, hl, hj⟩ := h₁ hs
    obtain ⟨hd', hl', hj'⟩ := h₂ (by rwa [Unjournaled, hj])
    exact ⟨hd'.trans hd, hl'.trans hl, hj'.trans hj⟩
  tick _ _ := ⟨rfl, rfl, rfl⟩

theorem journalBegin_fails {s : Server} (hs : Unjournaled s) : journalBegin s = (.error (-1), s) :=
  (bind_of_ok (get_apply s)).trans <| bind_of_error <|
    failIf_of (by rcases hs.2 with h | h <;> simp [h]) _ s

/-- What begins with a transaction gets no further. -/
theorem dry_begin (e : Int) (k : Unit → M α) : Keeps Dry (orFail e journalBegin >>= k) := by
  intro s hs
  have hbegin : orFail e journalBegin s = (.error e, s) := tryCatch_of_error (journalBegin_fails hs)
  rw [bind_of_error hbegin]
  exact ⟨rfl, rfl, rfl⟩

theorem dry_modifyHandle (f : Handle → Handle) : Keeps Dry (modifyHandle h f) :=
  fun _ _ => ⟨rfl, rfl, rfl⟩

theorem dry_flushWriteState : Keeps Dry (flushWriteState h) := by
  intro s hs
  refine (Ends.get_bind (Q := fun _ => s.Same) (E := fun _ => s.Same)
    (.ite (fun _ => .pure ⟨rfl, rfl, rfl⟩) fun _ => ?_)).snd
  rw [show (!s.journal.active) = true by rw [hs.1, Bool.not_false]]
  exact .of_error (bind_of_error (journalBegin_fails hs)) ⟨rfl, rfl, rfl⟩

instance : RequestFrame Dry where
  handle := dry_modifyHandle
  flush := dry_flushWriteState
  begins _ := dry_begin _ _

theorem dry_calls (cs : List Call) (s : Server) : Dry s (calls cs s) := by
  induction cs generalizing s with
  | nil => exact fun _ => ⟨rfl, rfl, rfl⟩
  | cons c cs ih =>
    refine trans_of Dry (show Dry s (call c s).2 from ?_) (ih _)
    rw [call, serve_snd]
    exact keeps_dispatch (R := Dry) c.request (fun _ _ _ =>
      keeps_handleReadBulk (fun _ _ _ => ⟨rfl, rfl, rfl⟩) _ _) (s.receive c)

/-- **Without a journal nothing is written**, whatever errors the device reports meanwhile. -/
theorem calls_of_unjournaled (cs : List Call) (s : Server) (hs : Unjournaled s) :
    (calls cs s).dev.disk = s.dev.disk ∧ (calls cs s).dev.log = s.dev.log ∧
      Unjournaled (calls cs s) := by
  obtain ⟨hd, hl, hj⟩ := dry_calls cs s hs
  exact ⟨hd, hl, by rwa [Unjournaled, hj]⟩

/-- The commit of a new directory fails in its second half. -/
theorem calls_of_unjournaled_mkdir :
    let s := (call (failing 120 (.mkdir [0x64])) (mounted oneFile)).2
    (calls [now (.mkdir [0x65])] s).dev.disk = s.dev.disk :=
  (calls_of_unjournaled _ _ (by decide +kernel)).1

/-- **Recovery of a failed commit.**  A commit gives the journal up, and the server goes on as long
as it likes.  A mount that is not cut then finds the metadata as before the transaction or after. -/
theorem replay_of_faulted (s : Server) (hA : s.area.Mapped) (hactive : s.journal.active = true)
    (hworking : s.journal.faulted = false) (hfits : Fits s.area s.journal.records)
    (hclear : Clear s.area s.dev.disk) (hf : (journalCommit s).2.journal.faulted = true)
    (cs : List Call) (d : Nat → Sector)
    (hcut : CutReplays s (calls cs (journalCommit s).2).dev.disk d) :
    ∃ s', journalReplay (s.recovering d) = (.ok (), s') ∧ Clear s.area s'.dev.disk ∧
      (Agrees s.area s'.dev.disk s.dev.disk ∨
        Agrees s.area s'.dev.disk (withRecords s.journal.records s.dev.disk)) := by
  have H := runs_journalCommit hA rfl hactive rfl hfits ⟨hclear, fun _ _ => rfl⟩
  match hr : journalCommit s with
  | (.ok _, s') => simp [hr, (H.ok _ s' hr).2.1, hworking] at hf
  | (.error e, s') =>
    rw [hr] at hf hcut
    obtain ⟨hend, ⟨hflt, -⟩ | ⟨-, hrec⟩⟩ := H.error e s' hr
    · simp [hflt, hworking] at hf
    · rw [(dry_calls cs s' ⟨hend.active, .inr hf⟩).1] at hcut
      exact (hrec.cutReplays hA hcut).replay hA

theorem replay_of_faulted_blank : let s :=
      (blankServer fun n => if n = 7 then .lost else .none).begun.withJournalRecords [⟨3000, 1⟩]
    ∃ s', journalReplay (s.recovering (calls [now .quiesce] (journalCommit s).2).dev.disk) =
      (.ok (), s') := by
  intro s
  exact (replay_of_faulted s (blankServer_mapped fun _ => .none) rfl rfl
    (blankServer_valid (fun _ => .none) 1).fits rfl (by decide +kernel) _ _ .refl).imp
      fun _ h => h.1

end Robu.Ext2
