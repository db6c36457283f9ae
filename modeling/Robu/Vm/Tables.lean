import Robu.Vm.PageTable

/-!
# The walk of the hardware

What the memory management unit makes of an address: the frame and the permissions that a full
walk from the top table yields.  The walk of the kernel, `walk_to_pte`, reads the same words
(`slots`), so memory that changes elsewhere changes neither (`walk_congr`).
-/

namespace Robu

structure Mapping where
  frame : Frame
  write : Bool
  user : Bool
  exec : Bool
deriving DecidableEq

/-- Bits 47 to 63 of the address are equal.  The processor takes no other address. -/
def canonical (va : Word) : Bool := va.extractLsb' 47 17 = 0 ∨ va.extractLsb' 47 17 = 0x1FFFF

namespace Phys

variable (m : Phys)

def allow (bit : Word → Bool) (es : List Word) : Bool := es.all bit

def lookup (root : Frame) (va : Word) : Option Mapping :=
  let pml4e := m.mem root (pml4Index va)
  let pdpte := m.mem (target pml4e) (pdptIndex va)
  let pde := m.mem (target pdpte) (pdIndex va)
  let pte := m.mem (target pde) (ptIndex va)
  let mapping (f : Frame) (es : List Word) : Mapping :=
    ⟨f, allow writable es, allow userBit es, allow (fun e => ¬ e.getLsbD 63) es⟩
  if ¬ canonical va ∨ ¬ present pml4e ∨ ¬ present pdpte ∨ ¬ present pde then none
  else if large pde then
    some (mapping (align2M (leafTarget pde) ||| (ptIndex va).setWidth 52) [pml4e, pdpte, pde])
  else if ¬ present pte then none
  else some (mapping (leafTarget pte) [pml4e, pdpte, pde, pte])

def slots (root : Frame) (va : Word) : List (Frame × Index) :=
  let pml4e := m.mem root (pml4Index va)
  let pdpte := m.mem (target pml4e) (pdptIndex va)
  let pde := m.mem (target pdpte) (pdIndex va)
  (root, pml4Index va) ::
    if ¬ present pml4e then []
    else (target pml4e, pdptIndex va) ::
      if ¬ present pdpte then []
      else (target pdpte, pdIndex va) :: if ¬ present pde ∨
        large pde then [] else [(target pde, ptIndex va)]

def lastEntry (root : Frame) (va : Word) : Option Word :=
  (m.walkToPte root va).map fun e => m.mem e.1 e.2

variable {m} {m' : Phys} {root : Frame} {va : Word}

/-- **Walks.**  What an address is mapped to depends on the words of its walk only. -/
theorem walk_congr (h : ∀ s ∈ m.slots root va, m'.mem s.1 s.2 = m.mem s.1 s.2) :
    m'.walkToPte root va = m.walkToPte root va ∧ m'.lastEntry root va = m.lastEntry root va ∧
      m'.lookup root va = m.lookup root va := by
  obtain ⟨h₁, h⟩ := List.forall_mem_cons.mp h
  unfold lastEntry lookup walkToPte
  dsimp only at h h₁ ⊢
  rw [h₁]
  by_cases p₁ : present (m.mem root (pml4Index va)) = true
  swap
  · simp [p₁]
  rw [if_neg (not_not.mpr p₁)] at h
  obtain ⟨h₂, h⟩ := List.forall_mem_cons.mp h
  dsimp only at h₂
  rw [h₂]
  by_cases p₂ : present (m.mem (target (m.mem root (pml4Index va))) (pdptIndex va)) = true
  swap
  · simp [p₁, p₂]
  rw [if_neg (not_not.mpr p₂)] at h
  obtain ⟨h₃, h⟩ := List.forall_mem_cons.mp h
  dsimp only at h₃
  rw [h₃]
  split at h
  · rename_i hlast
    by_cases p₃ : present
      (m.mem (target (m.mem (target (m.mem root (pml4Index va))) (pdptIndex va)))
      (pdIndex va)) = true
    · simp [p₁, p₂, p₃, hlast.resolve_left (not_not.mpr p₃), h₃]
    · simp [p₁, p₂, p₃]
  · rename_i hlast
    obtain ⟨p₃, p₄⟩ := not_or.mp hlast
    have h₄ := List.forall_mem_singleton.mp h
    dsimp only at h₄
    simp [p₁, p₂, not_not.mp p₃, p₄, h₄]

/-- The walk of the kernel ends at a word that it has read. -/
theorem mem_slots {s : Frame × Index} (h : m.walkToPte root va = some s) : s ∈ m.slots root va := by
  unfold walkToPte at h
  unfold slots
  dsimp only at h ⊢
  split at h
  · cases h
  rename_i p₁
  rw [if_neg p₁]
  split at h
  · cases h
  rename_i p₂
  rw [if_neg p₂]
  split at h
  · cases h
  rename_i p₃
  split at h
  · rename_i p₄
    cases h
    simp
  · rename_i p₄
    cases h
    rw [if_neg (not_or.mpr ⟨p₃, p₄⟩)]
    simp

/-- A walk that finds a page after words were cleared has met none of them. -/
theorem present_of_slots (h : ∀ s ∈ m.slots root va, m'.mem s.1 s.2 = m.mem s.1 s.2 ∨
    m'.mem s.1 s.2 = 0) {e : Word} (he : e ∈ m'.lastEntry root va) (hp : present e = true) :
    ∀ s ∈ m.slots root va, present (m'.mem s.1 s.2) = true := by
  have hkept {a b : Word} (hab : a = b ∨ a = 0) (ha : present a = true) : a = b :=
    hab.resolve_right fun h0 => by simp [h0, present] at ha
  obtain ⟨s', hw, rfl⟩ := Option.map_eq_some_iff.mp he
  unfold slots at h ⊢
  unfold walkToPte at hw
  dsimp only at h hw ⊢
  obtain ⟨h₁, h⟩ := List.forall_mem_cons.mp h
  split at hw
  · cases hw
  rename_i p₁
  have h₁ : m'.mem root (pml4Index va) = m.mem root (pml4Index va) := hkept h₁ (not_not.mp p₁)
  refine List.forall_mem_cons.mpr ⟨not_not.mp p₁, ?_⟩
  rw [h₁] at hw p₁
  rw [if_neg p₁] at h ⊢
  obtain ⟨h₂, h⟩ := List.forall_mem_cons.mp h
  split at hw
  · cases hw
  rename_i p₂
  have h₂ := hkept h₂ (not_not.mp p₂)
  refine List.forall_mem_cons.mpr ⟨not_not.mp p₂, ?_⟩
  dsimp only at h₂
  rw [h₂] at hw p₂
  rw [if_neg p₂] at h ⊢
  obtain ⟨h₃, h⟩ := List.forall_mem_cons.mp h
  split at hw
  · cases hw
  rename_i p₃
  have h₃ := hkept h₃ (not_not.mp p₃)
  refine List.forall_mem_cons.mpr ⟨not_not.mp p₃, ?_⟩
  dsimp only at h₃
  rw [h₃] at hw p₃
  split at hw
  · rename_i p₄
    rw [if_pos (.inr p₄)]
    exact fun _ h => by cases h
  · rename_i p₄
    cases hw
    rw [if_neg (not_or.mpr ⟨p₃, p₄⟩)]
    exact List.forall_mem_singleton.mpr hp

end Phys

end Robu
