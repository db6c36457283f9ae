import Robu.Lib.Fallible
import Mathlib.Logic.Function.Basic

/-!
# Crashes between the writes of a program

A program writes the cells of a store one after another, and the machine may stop
after any of the writes.  The stores a crash can leave are then the start with a
*prefix* of the writes applied.  `Along C d ws` says that each of them satisfies `C`.

`Runs C m s Q E` is the triple for a fallible program over a state that logs its writes
(`Logged`): whenever the run of `m` from `s` is cut, the store satisfies the crash
condition `C`; if it ends well, `Q` holds; if it fails, `E` does.  The rules follow the
constructs of `Fallible`.
-/

universe u

namespace Robu.Lib

section Writes
variable {κ α : Type u} [DecidableEq κ] {ws : List (κ × α)}

def applyWrites (d : κ → α) (ws : List (κ × α)) : κ → α :=
  ws.foldl (fun d w => Function.update d w.1 w.2) d

@[simp] theorem applyWrites_nil (d : κ → α) : applyWrites d [] = d := rfl

@[simp] theorem applyWrites_cons (d : κ → α) (w : κ × α) (ws : List (κ × α)) :
    applyWrites d (w :: ws) = applyWrites (Function.update d w.1 w.2) ws := rfl

theorem applyWrites_append (d : κ → α) (ws vs : List (κ × α)) :
    applyWrites d (ws ++ vs) = applyWrites (applyWrites d ws) vs :=
  List.foldl_append

/-- `C` holds of the store before the writes, between any two of them and after them. -/
def Along (C : (κ → α) → Prop) (d : κ → α) (ws : List (κ × α)) : Prop :=
  ∀ k, C (applyWrites d (ws.take k))

variable {C C' : (κ → α) → Prop} {d : κ → α}

@[simp] theorem along_nil : Along C d [] ↔ C d := by
  simp [Along]

theorem Along.append {vs : List (κ × α)} (hw : Along C d ws) (hv : Along C (applyWrites d ws) vs) :
    Along C d (ws ++ vs) := by
  intro k
  rw [List.take_append, applyWrites_append]
  by_cases hk : k ≤ ws.length
  · rw [Nat.sub_eq_zero_of_le hk, List.take_zero, applyWrites_nil]
    exact hw k
  · rw [List.take_of_length_le (by omega)]
    exact hv _

theorem Along.cons {w : κ × α} (hd : C d) (hw : Along C (Function.update d w.1 w.2) ws) :
    Along C d (w :: ws) := by
  rintro (_ | k)
  · exact hd
  · exact hw k

theorem Along.mono (h : Along C d ws) (hC : ∀ d, C d → C' d) : Along C' d ws := fun k => hC _ (h k)

end Writes

class Logged (σ : Type u) (κ α : outParam (Type u)) where
  cells : σ → κ → α
  log : σ → List (κ × α)

section Triple
variable {σ ε β γ κ α : Type u} [DecidableEq κ] [Logged σ κ α]

open Logged

/-- The writes between two states, passing only through stores that satisfy `C`. -/
def Passes (C : (κ → α) → Prop) (s s' : σ) : Prop :=
  ∃ ws, log s' = log s ++ ws ∧ cells s' = applyWrites (cells s) ws ∧ Along C (cells s) ws

/-- **Crash triple.**  `C` holds wherever the run of `m` from `s` is cut, `Q` if it ends
well, `E` if it fails. -/
structure Runs (C : (κ → α) → Prop) (m : Fallible σ ε β) (s : σ)
    (Q : β → σ → Prop) (E : ε → σ → Prop) : Prop where
  passes : Passes C s (m s).2
  ok : ∀ b s', m s = (.ok b, s') → Q b s'
  error : ∀ e s', m s = (.error e, s') → E e s'

variable {C C' : (κ → α) → Prop} {s s₁ s₂ : σ}

theorem Passes.still (hc : C (cells s)) (hl : log s₁ = log s) (hd : cells s₁ = cells s) :
    Passes C s s₁ :=
  ⟨[], by simpa using hl, hd, by simpa using hc⟩

theorem Passes.trans (h : Passes C s s₁) (h' : Passes C s₁ s₂) : Passes C s s₂ := by
  obtain ⟨ws, hl, hd, ha⟩ := h
  obtain ⟨vs, hl', hd', ha'⟩ := h'
  refine ⟨ws ++ vs, ?_, ?_, ?_⟩
  · rw [hl', hl, List.append_assoc]
  · rw [hd', hd, applyWrites_append]
  · exact ha.append (hd ▸ ha')

theorem Passes.mono (h : Passes C s s₁) (hC : ∀ d, C d → C' d) : Passes C' s s₁ := by
  obtain ⟨ws, hl, hd, ha⟩ := h
  exact ⟨ws, hl, hd, ha.mono hC⟩

namespace Runs

variable {m : Fallible σ ε β} {k : β → Fallible σ ε γ} {h : ε → Fallible σ ε β}
variable {Q Q' : β → σ → Prop} {R : γ → σ → Prop} {E E' : ε → σ → Prop}

theorem mono (H : Runs C m s Q E) (hC : ∀ d, C d → C' d) (hQ : ∀ b s, Q b s → Q' b s)
    (hE : ∀ e s, E e s → E' e s) : Runs C' m s Q' E' :=
  ⟨H.passes.mono hC, fun b s' hm => hQ b s' (H.ok b s' hm), fun e s' hm =>
    hE e s' (H.error e s' hm)⟩

theorem post (H : Runs C m s Q E) (hQ : ∀ b s, Q b s → Q' b s) : Runs C m s Q' E :=
  H.mono (fun _ h => h) hQ fun _ _ h => h

/-- The writes of the run may be kept in the conclusion. -/
theorem with_passes (H : Runs C m s Q E) :
    Runs C m s (fun b s' => Q b s' ∧ Passes C s s') (fun e s' => E e s' ∧ Passes C s s') := by
  have hp := H.passes
  refine ⟨hp, fun b s' hm => ⟨H.ok b s' hm, ?_⟩, fun e s' hm => ⟨H.error e s' hm, ?_⟩⟩
  · rwa [hm] at hp
  · rwa [hm] at hp

/-- A run that is known to end well. -/
theorem of_ok {b : β} (hm : m s = (.ok b, s₁)) (hp : Passes C s s₁) (hQ : Q b s₁) :
    Runs C m s Q E := by
  refine ⟨hm ▸ hp, ?_, ?_⟩
  · rintro b' s' h'
    rw [hm] at h'
    cases h'
    exact hQ
  · rintro e s' h'
    rw [hm] at h'
    cases h'

/-- A run that is known to fail. -/
theorem of_error {e : ε} (hm : m s = (.error e, s₁)) (hp : Passes C s s₁) (hE : E e s₁) :
    Runs C m s Q E := by
  refine ⟨hm ▸ hp, ?_, ?_⟩
  · rintro b s' h'
    rw [hm] at h'
    cases h'
  · rintro e' s' h'
    rw [hm] at h'
    cases h'
    exact hE

/-- Programs that run alike from `s` satisfy the same triples there. -/
theorem of_eq {m' : Fallible σ ε β} (hm : m s = m' s) (H : Runs C m' s Q E) : Runs C m s Q E :=
  ⟨hm ▸ H.passes, fun b s' h' => H.ok b s' (hm ▸ h'), fun e s' h' => H.error e s' (hm ▸ h')⟩

theorem pure {b : β} (hc : C (cells s)) (hQ : Q b s) :
    Runs C (Pure.pure b : Fallible σ ε β) s Q E :=
  of_ok rfl (.still hc rfl rfl) hQ

theorem get_bind {k : σ → Fallible σ ε γ} (H : Runs C (k s) s R E) :
    Runs C (MonadState.get >>= k) s R E :=
  of_eq (Fallible.bind_of_ok (Fallible.get_apply s)) H

/-- A guard that is known to let the run go on. -/
theorem failIf_bind {c : Prop} [Decidable c] {e : ε} {k : PUnit → Fallible σ ε γ} (hn : ¬c)
    (H : Runs C (k PUnit.unit) s R E) : Runs C (Fallible.failIf c e >>= k) s R E :=
  of_eq (Fallible.bind_of_ok (Fallible.failIf_of_not hn e s)) H

/-- **Sequence.** -/
theorem bind {P : β → σ → Prop} (hm : Runs C m s P E)
    (hk : ∀ b s₁, P b s₁ → Runs C (k b) s₁ R E) : Runs C (m >>= k) s R E := by
  have hp := hm.passes
  match hs : m s with
  | (.ok b, s₁) =>
    have H := hk b s₁ (hm.ok b s₁ hs)
    have he : (m >>= k) s = k b s₁ := Fallible.bind_of_ok hs
    rw [hs] at hp
    exact ⟨he ▸ hp.trans H.passes, fun c s' h' => H.ok c s' (he ▸ h'), fun e s' h' =>
      H.error e s' (he ▸ h')⟩
  | (.error e, s₁) =>
    rw [hs] at hp
    exact of_error (Fallible.bind_of_error hs) hp (hm.error e s₁ hs)

/-- **Handler.**  It goes on from the state of the failure. -/
theorem tryCatch (hm : Runs C m s Q E) (hh : ∀ e s₁, E e s₁ → Runs C (h e) s₁ Q E') :
    Runs C (MonadExcept.tryCatch m h) s Q E' := by
  have hp := hm.passes
  match hs : m s with
  | (.ok b, s₁) =>
    rw [hs] at hp
    exact of_ok (Fallible.tryCatch_of_ok hs) hp (hm.ok b s₁ hs)
  | (.error e, s₁) =>
    have H := hh e s₁ (hm.error e s₁ hs)
    have he : (MonadExcept.tryCatch m h : Fallible σ ε β) s = h e s₁ :=
      Fallible.tryCatch_of_error hs
    rw [hs] at hp
    exact ⟨he ▸ hp.trans H.passes, fun c s' h' => H.ok c s' (he ▸ h'), fun e s' h' =>
      H.error e s' (he ▸ h')⟩

end Runs

end Triple

end Robu.Lib
