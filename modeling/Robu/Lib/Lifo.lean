import Robu.Lib.Links

/-!
# Intrusive stacks without a membership flag

Pushing an element on an intrusive stack writes its link and makes it the top.  When
nothing records that an element is already on the stack, pushing it again overwrites
its link, and whatever was only reachable through the old link is lost.

`succIn r` gives the links that pushing the elements of `r`, last one first, leaves
behind, and `walk` is the loop that empties the stack, clearing every link it follows.
The result is `mem_walk_iff`: the walk meets exactly the elements that some prefix of
`r` without repetition reaches.
-/

universe u

namespace Robu.Lib

variable {α : Type u} [DecidableEq α] {next : α → Option α} {r p s : List α} {a x : α} {fuel : Nat}

/-- The element behind the first occurrence of `x` in `r`. -/
def succIn : List α → α → Option α
  | [], _ => none
  | y :: r, x => if x = y then r.head? else succIn r x

/-- The elements met by the loop that follows `next` from `h` and clears the links on
its way. -/
def walk : Nat → (α → Option α) → Option α → List α
  | 0, _, _ => []
  | _ + 1, _, none => []
  | fuel + 1, next, some a => a :: walk fuel (Function.update next a none) (next a)

/-- `x` is reached in `r` before any element of `r` repeats. -/
def Surfaces (r : List α) (x : α) : Prop := ∃ p s, r = p ++ x :: s ∧ (p ++ [x]).Nodup

theorem succIn_append_cons (ha : a ∉ p) : succIn (p ++ a :: s) a = s.head? := by
  induction p with
  | nil => simp [succIn]
  | cons b p ih =>
    rw [List.mem_cons, not_or] at ha
    rw [List.cons_append, succIn, if_neg ha.1, ih ha.2]

omit [DecidableEq α] in
/-- A prefix without repetition cannot reach past an element that was visited. -/
theorem surfaces_of_visited (hp : p.Nodup) (hs : ∀ a ∈ s.head?, a ∈ p) :
    Surfaces (p ++ s) x ↔ x ∈ p := by
  constructor
  · rintro ⟨q, t, heq, hnd⟩
    have hpre : q ++ [x] <+: p ++ s := ⟨t, by simp [heq]⟩
    rcases List.prefix_or_prefix_of_prefix hpre (List.prefix_append p s) with h | ⟨m, hm⟩
    · exact h.subset (by simp)
    cases m with
    | nil =>
      rw [← List.append_nil p, hm]
      simp
    | cons b m =>
      rw [← hm] at hpre hnd
      obtain ⟨t, rfl⟩ := (List.prefix_append_right_inj p).mp hpre
      exact absurd rfl ((List.nodup_append.mp hnd).2.2 b (hs b rfl) b (.head _))
  · intro hx
    obtain ⟨q, t, rfl⟩ := List.append_of_mem hx
    exact ⟨q, t ++ s, by simp, hp.sublist (by simp)⟩

/-- The walk from the middle of `r`: the links of the prefix `p` are already cleared. -/
theorem mem_walk_aux (hp : p.Nodup) (hclear : ∀ x ∈ p, next x = none)
    (hnext : ∀ x ∈ p ++ s, x ∉ p → next x = succIn (p ++ s) x)
    (hfuel : ∀ q, q <+: p ++ s → q.Nodup → q.length < p.length + fuel) :
    (x ∈ p ∨ x ∈ walk fuel next s.head?) ↔ Surfaces (p ++ s) x := by
  have hstop : ∀ fuel (next : α → Option α), walk fuel next none = [] :=
    fun fuel _ => by cases fuel <;> rfl
  induction s generalizing p next fuel with
  | nil =>
    rw [surfaces_of_visited hp (by simp), List.head?_nil, hstop]
    simp
  | cons a s ih =>
    obtain ⟨fuel, rfl⟩ : ∃ n, fuel = n + 1 := by
      have := hfuel p (List.prefix_append p _) hp
      exact ⟨fuel - 1, by omega⟩
    simp only [List.head?_cons, walk]
    by_cases ha : a ∈ p
    · -- the link of `a` is cleared: the loop meets it once more and stops
      rw [surfaces_of_visited hp (by simpa using ha), hclear a ha, hstop, List.mem_singleton]
      exact or_iff_left_of_imp fun hx => hx ▸ ha
    · -- the first visit of `a`: its link leads to the rest
      have hlink : next a = s.head? := by
        rw [hnext a (by simp) ha, succIn_append_cons ha]
      have happ : p ++ a :: s = p ++ [a] ++ s := by simp
      have key : (x ∈ p ++ [a] ∨ x ∈ walk fuel (Function.update next a none) s.head?) ↔
          Surfaces (p ++ [a] ++ s) x := by
        refine ih (List.concat_eq_append ▸ hp.concat ha) (fun y hy => ?_)
          (fun y hy hyp => ?_) fun q hq hqnd => ?_
        · rcases eq_or_ne y a with rfl | hya
          · exact Function.update_self ..
          · rw [Function.update_of_ne hya]
            exact hclear y (by simpa [hya] using hy)
        · rw [List.mem_append, List.mem_singleton, not_or] at hyp
          rw [Function.update_of_ne hyp.2, ← happ]
          exact hnext y (happ ▸ hy) hyp.1
        · have := hfuel q (happ ▸ hq) hqnd
          simp only [List.length_append, List.length_singleton]
          omega
      rw [happ, ← key, hlink, List.mem_append, List.mem_singleton, List.mem_cons, or_assoc]

/-- **The walk.**  Over the links left by pushing `r`, the loop meets exactly the
elements reached before the first repetition. -/
theorem mem_walk_iff (hnext : ∀ x ∈ r, next x = succIn r x)
    (hfuel : ∀ q, q <+: r → q.Nodup → q.length < fuel) :
    x ∈ walk fuel next r.head? ↔ Surfaces r x := by
  have h : (x ∈ [] ∨ x ∈ walk fuel next r.head?) ↔ Surfaces ([] ++ r) x :=
    mem_walk_aux List.nodup_nil (by simp) (by simpa using hnext) (by simpa using hfuel)
  simpa using h

/-- Over a chain the loop meets the elements of the chain, in order. -/
theorem walk_of_chain {h : Option α} {l : List α} (hl : Chain next h l) (hf : l.length ≤ fuel) :
    walk fuel next h = l := by
  induction l generalizing next h fuel with
  | nil =>
    obtain rfl : h = none := hl
    cases fuel <;> rfl
  | cons a l ih =>
    have hnd := hl.nodup
    obtain ⟨rfl, hl⟩ := hl
    cases fuel with
    | zero => simp at hf
    | succ fuel => rw [walk, ih (hl.update (List.nodup_cons.mp hnd).1 none) (by simpa using hf)]

omit [DecidableEq α] in
/-- In the order of the pushes: some push of `x` is followed by no repetition. -/
theorem surfaces_reverse : Surfaces r.reverse x ↔ ∃ l₁ l₂, r = l₁ ++ x :: l₂ ∧ (x :: l₂).Nodup := by
  constructor
  · rintro ⟨p, s, heq, hnd⟩
    refine ⟨s.reverse, p.reverse, ?_, ?_⟩
    · rw [← List.reverse_reverse r, heq]
      simp
    · rw [← List.nodup_reverse] at hnd
      simpa using hnd
  · rintro ⟨l₁, l₂, rfl, hnd⟩
    refine ⟨l₂.reverse, l₁.reverse, by simp, ?_⟩
    rw [← List.nodup_reverse] at hnd
    simpa using hnd

end Robu.Lib
