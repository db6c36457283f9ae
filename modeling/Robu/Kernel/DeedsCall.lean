import Robu.Kernel.ActsStep

/-!
# Kernel sections as deeds

Which deeds the handler of a section does can be told from the registers and the vector of the
trap (`Kernel.doing`).  Kernel code outside a trap may grant authority; its deeds are told apart.
-/

namespace Robu

open Function (update update_of_ne update_self)

namespace Kernel

variable {D : Doing} {c : Cpu} {k k' : Kernel} {l : Label} {t : Slot}

/-- A thread that ends in the handler may end by the effects of the section. -/
theorem ends_doing (h : (k.doing l).ends t) : (k.effects l).kills t ∨ (k.effects l).exits t := by
  have hhandling := handling_effects k l
  generalize k.effects l = F, k.doing l = D at hhandling h ⊢
  cases hhandling with
  | kern c op => cases op <;> exact h.elim
  | start | quiet | tick => exact h.elim
  | call => exact h
  | fault => exact .inl h

theorem deeds_step (hpoll : k.PollsOwn) (h : k.step l = some k') :
    ∃ k₁, k.handled l = some k₁ ∧ k.Steady (k.entered l) ∧ Deeds (k.doing l) (k.entered l) k₁ ∧
      Deeds (k₁.wayBack l) k₁ k' := by
  cases l with
  | kern c op =>
    cases h
    exact ⟨_, rfl, .refl k, (kernDoes_runKernOp op).deeds hpoll, .refl⟩
  | start c =>
    simp only [step] at h
    split at h
    · cases h
    · exact ⟨k', h, .refl k,
        (does_schedStart (F := k.effects (.start c)) trivial h).works.deeds, .refl⟩
  | trap c e =>
    simp only [step] at h
    split at h
    · obtain ⟨k₁, hhandled, hhandler, hback, -⟩ := does_trapDispatch h
      exact ⟨k₁, hhandled, (calm_enter k c e).toSteady, hhandler.works.deeds, hback.works.deeds⟩
    · cases h

theorem PollsOwn.deed (h : k.PollsOwn) (hd : Deed D k k') : k'.PollsOwn := by
  -- one slot changes
  have hput : ∀ {i : Fin 8} {s : ExecreqSlot}, k'.execSlots = update k.execSlots i s →
      (s.state = .pollDone → s.params.requesterTid = 0) → k'.PollsOwn := by
    intro i s hslots hs j hj
    rw [hslots] at hj ⊢
    rcases eq_or_ne j i with rfl | hne
    · rw [update_self] at hj ⊢
      exact hs hj
    · rw [update_of_ne hne] at hj ⊢
      exact h j hj
  cases hd with
  | steady _ requests | time _ requests =>
    intro i hi
    rw [requests.execSlots] at hi ⊢
    exact h i hi
  | request deed _ =>
    cases deed with
    | accept | acceptPoll | deliver | free => exact hput rfl fun hs => by cases hs
    | done _ _ _ kernel => exact hput rfl fun _ => kernel
  | register _ _ execSlots =>
    intro i hi
    rw [execSlots] at hi ⊢
    exact h i hi

theorem pollsOwn_of_reachable {ok : Kernel → Label → Prop} (h : Reachable ok k) : k.PollsOwn := by
  refine h.invariant (I := PollsOwn) (fun k hk => ?_) ?_
  · obtain ⟨base, size, fpu, rfl⟩ := hk
    exact fun _ hi => by cases hi
  · intro k l k' hk _ hs
    obtain ⟨k₁, -, hentered, hdeeds, hquiet⟩ := deeds_step hk hs
    have hk : (k.entered l).PollsOwn :=
      hk.deed (D := .quiet) (.steady hentered.times hentered.requests)
    exact hquiet.invariant PollsOwn.deed (hdeeds.invariant PollsOwn.deed hk)

end Kernel

end Robu
