import Mathlib.Algebra.BigOperators.Group.Finset.Basic
import Mathlib.Data.Fintype.BigOperators
import Robu.Kernel.Tcb
import Robu.Lib.Stacks

/-!
# Physical memory and the frame allocator

The kernel reaches all of physical memory through its identity map, so a page table, a
free frame and a data page are the same thing to it: 512 words at a frame number.  `Phys` is
this memory together with the static variables of `pmm.c`.

`pmm.c` keeps eight free lists, one for each cache colour, threaded through the first word
of the free frames.  `Phys.Free m l` says that the lists are `l`.
-/

namespace Robu

open Function (apply_update update)
open Lib (ptr ptr_eq_none ptr_eq_some)

abbrev Frame := BitVec 52

abbrev Index := BitVec 9

def Frame.addr (f : Frame) : Word := f ++ 0#12

/-- `a & PAGE_MASK_4K`, as a frame number. -/
def target (a : Word) : Frame := a.extractLsb' 12 52

@[simp] theorem target_append (f : Frame) (low : BitVec 12) : target (f ++ low) = f := by
  unfold target
  rw [BitVec.extractLsb'_append_eq_left]

@[simp] theorem target_addr (f : Frame) : target f.addr = f := target_append f 0

/-- Physical memory and the variables of the frame allocator.  In `freeHead` the frame 0
is the null pointer. -/
structure Phys where
  mem : Frame → Index → Word
  freeHead : Fin 8 → Frame
  nextColor : Fin 8

namespace Phys

variable (m : Phys) (f g : Frame) (i j : Index) (v : Word)

/-! ## Stores -/

def write : Phys := { m with mem := fun g j => if g = f ∧ j = i then v else m.mem g j }

/-- `memset(f, 0, PAGE_SIZE_4K)` -/
def zero : Phys := { m with mem := fun g j => if g = f then 0 else m.mem g j }

/-- `memcpy(f, src, PAGE_SIZE_4K)` -/
def copyFrame (src : Frame) : Phys :=
  { m with mem := fun g j => if g = f then m.mem src j else m.mem g j }

@[simp] theorem write_self : (m.write f i v).mem f i = v := by simp [write]

theorem write_of_ne (h : ¬ (g = f ∧ j = i)) : (m.write f i v).mem g j = m.mem g j := if_neg h

theorem write_of_frame_ne {g f : Frame} (h : g ≠ f) : (m.write f i v).mem g = m.mem g :=
  funext fun j => m.write_of_ne f g i j v fun hc => h hc.1

@[simp] theorem zero_self : (m.zero f).mem f j = 0 := by simp [zero]

theorem zero_of_ne {g f : Frame} (h : g ≠ f) : (m.zero f).mem g = m.mem g :=
  funext fun _ => if_neg h

theorem copyFrame_of_ne {g f : Frame} (h : g ≠ f) (src : Frame) :
    (m.copyFrame f src).mem g = m.mem g :=
  funext fun _ => if_neg h

/-! ## The allocator -/

def colorOf : Fin 8 := ⟨f.toNat % 8, Nat.mod_lt _ (by decide)⟩

def pop (c : Fin 8) : Frame × Phys :=
  if m.freeHead c = 0 then (0, m)
  else
    let frame := m.freeHead c
    (frame, ({ m with freeHead := update m.freeHead c (target (m.mem frame 0)) } : Phys).zero frame)

/-- `pmm_alloc`; the colour `none` is `PMM_COLOR_ANY`, and the frame 0 is a failure. -/
def pmmAlloc (color : Option (Fin 8)) : Frame × Phys :=
  match color with
  | some c => m.pop c
  | none =>
    match Lib.rotate (fun c => m.freeHead c != 0) 8 m.nextColor with
    | (none, n) => (0, { m with nextColor := n })
    | (some c, n) => ({ m with nextColor := n } : Phys).pop c

def pmmFree : Phys :=
  let c := colorOf f
  { m.write f 0 (m.freeHead c).addr with freeHead := update m.freeHead c f }

/-! ## Free lists -/

def link : Option Frame := ptr (target (m.mem f 0))

variable {m f g}

/-- The free lists are `l`. -/
structure Free (m : Phys) (l : Fin 8 → List Frame) : Prop where
  chain : ∀ c, Lib.Chain m.link (ptr (m.freeHead c)) (l c)
  color : ∀ {c f}, f ∈ l c → colorOf f = c

namespace Free

variable {l l' : Fin 8 → List Frame} {c : Fin 8} {m' : Phys}

theorem onto (h : m.Free l) :
    Lib.Stacks colorOf m.link (fun c => ptr (m.freeHead c)) l := ⟨h.chain, h.color⟩

theorem unique (h : m.Free l) (h' : m.Free l') : l = l' :=
  funext fun c => (h.chain c).unique (h'.chain c)

theorem ne_zero (h : m.Free l) (hf : f ∈ l c) : f ≠ 0 := by
  have hchain : ∀ {o : Option Frame} {xs : List Frame}, (∀ x, o = some x → x ≠ 0) →
      Lib.Chain m.link o xs → f ∈ xs → f ≠ 0 := by
    intro o xs ho hxs hmem
    induction xs generalizing o with
    | nil => cases hmem
    | cons a xs ih =>
      rcases List.mem_cons.mp hmem with rfl | hmem
      · exact ho f hxs.1
      · exact ih (fun x hx => by
          obtain ⟨hne, rfl⟩ := ptr_eq_some.mp hx
          exact hne) hxs.2 hmem
  refine hchain (fun x hx => ?_) (h.chain c) hf
  obtain ⟨hne, rfl⟩ := ptr_eq_some.mp hx
  exact hne

/-- **Frame rule.**  The lists depend on their heads and on the first words of their
members. -/
theorem congr (h : m.Free l) (hhead : m'.freeHead = m.freeHead)
    (hmem : ∀ c, ∀ f ∈ l c, m'.mem f 0 = m.mem f 0) : m'.Free l where
  chain c := by
    rw [hhead]
    refine (h.chain c).congr fun f hf => ?_
    rw [link, link, hmem c f hf]
  color := h.color

/-- **Free.**  A frame that is on no list is put in front of the list of its colour. -/
theorem pmmFree (h : m.Free l) (hf : f ≠ 0) (hout : ∀ c, f ∉ l c) :
    (m.pmmFree f).Free (update l (colorOf f) (f :: l (colorOf f))) := by
  have hself : (m.pmmFree f).link f = ptr (m.freeHead (colorOf f)) := by
    show ptr (target ((m.write f 0 _).mem f 0)) = _
    rw [write_self, target_addr]
  have hrest : ∀ c, ∀ x ∈ l c, (m.pmmFree f).link x = m.link x := fun c x hx => by
    have hne : x ≠ f := fun heq => hout c (heq ▸ hx)
    show ptr (target ((m.write f 0 _).mem x 0)) = _
    rw [m.write_of_frame_ne 0 _ hne]
    rfl
  have hhead : ∀ c, ptr ((m.pmmFree f).freeHead c) =
      update (fun c => ptr (m.freeHead c)) (colorOf f) (some f) c := fun c => by
    rw [← ptr_eq_some.mpr ⟨hf, rfl⟩]
    exact apply_update (fun _ => ptr) m.freeHead (colorOf f) f c
  have honto := h.onto.push hself hrest hhead
  exact ⟨honto.chain, honto.sort⟩

/-- **Pop.**  The head of a list, cleared. -/
theorem pop (h : m.Free l) {rest : List Frame} (hl : l c = f :: rest) : m.pop c = (f, ({ m with
        freeHead := update m.freeHead c (target (m.mem f 0)) } : Phys).zero f) ∧
      (m.pop c).2.Free (update l c rest) := by
  have hc := h.chain c
  rw [hl] at hc
  obtain ⟨hne, hhead⟩ := ptr_eq_some.mp hc.1
  have hpop : m.pop c = (f, ({ m with
      freeHead := update m.freeHead c (target (m.mem f 0)) } : Phys).zero f) := by
    unfold Phys.pop
    rw [if_neg hne, hhead]
  refine ⟨hpop, ?_⟩
  have hlink : ∀ d, ∀ x ∈ l d, x ≠ f → (m.pop c).2.link x = m.link x := fun _ x _ hx => by
    rw [hpop]
    show ptr (target ((Phys.zero _ f).mem x 0)) = _
    rw [zero_of_ne _ hx]
    rfl
  have hheads : ∀ d, ptr ((m.pop c).2.freeHead d) =
      update (fun d => ptr (m.freeHead d)) c (m.link f) d := fun d => by
    rw [hpop]
    exact apply_update (fun _ => ptr) m.freeHead c (target (m.mem f 0)) d
  have honto := h.onto.pop hl hlink hheads
  exact ⟨honto.chain, honto.sort⟩

def total (l : Fin 8 → List Frame) : Nat := ∑ c, (l c).length

theorem total_cons {rest : List Frame} (hl : l c = f :: rest) :
    total (update l c rest) + 1 = total l := by
  have hheld := Lib.held_update (l := l) (i := c) rest
  rw [hl, List.length_cons] at hheld
  show Lib.held _ + 1 = Lib.held l
  omega

/-- What a successful allocation does: the frame leaves the front of a list and is
cleared. -/
structure Alloc (m : Phys) (l : Fin 8 → List Frame) (f : Frame) (m' : Phys)
    (l' : Fin 8 → List Frame) : Prop where
  mem_list : f ∈ l (colorOf f)
  mem_iff : ∀ {c x}, x ∈ l' c ↔ x ∈ l c ∧ x ≠ f
  free : m'.Free l'
  mem : m'.mem = (m.zero f).mem
  total : total l' + 1 = total l

theorem alloc_of_pop (h : m.Free l) (hm : m'.mem = m.mem) (hhead : m'.freeHead = m.freeHead)
    (hc : m.freeHead c ≠ 0) :
    ∃ l', Alloc m l (m'.pop c).1 (m'.pop c).2 l' := by
  cases hl : l c with
  | nil =>
    have hnone := h.chain c
    rw [hl] at hnone
    exact absurd (ptr_eq_none.mp hnone) hc
  | cons f rest =>
    have h' : m'.Free l := h.congr hhead fun _ _ _ => by rw [hm]
    obtain ⟨hpop, hfree⟩ := h'.pop hl
    have hcolor : colorOf f = c := h.color (by rw [hl]; exact .head _)
    refine ⟨update l c rest, ?_⟩
    rw [hpop] at hfree ⊢
    show Alloc m l f _ _
    refine ⟨?_, fun {d x} => ?_, hfree, ?_, total_cons hl⟩
    · rw [hcolor, hl]
      exact .head _
    · exact h.onto.mem_pop hl
    · show (Phys.zero _ f).mem = _
      unfold Phys.zero
      simp only [hm]

/-- **Alloc.**  An allocation fails and leaves memory and lists alone, for any colour only
when no frame is free, or it takes a frame. -/
theorem pmmAlloc (h : m.Free l) (color : Option (Fin 8)) :
    ((m.pmmAlloc color).1 = 0 ∧ (m.pmmAlloc color).2.mem = m.mem ∧
        (m.pmmAlloc color).2.Free l ∧ (color = none → total l = 0)) ∨
      ∃ l', Alloc m l (m.pmmAlloc color).1 (m.pmmAlloc color).2 l' := by
  cases color with
  | some c =>
    by_cases hc : m.freeHead c = 0
    · left
      have hpop : m.pmmAlloc (some c) = (0, m) := if_pos hc
      rw [hpop]
      exact ⟨rfl, rfl, h, fun hn => by cases hn⟩
    · exact .inr (alloc_of_pop h rfl rfl hc)
  | none =>
    cases hpick : Lib.rotate (fun c => m.freeHead c != 0) 8 m.nextColor with
    | mk o n =>
      cases o with
      | none =>
        left
        have halloc : m.pmmAlloc none = (0, { m with nextColor := n }) := by
          simp only [Phys.pmmAlloc, hpick]
        rw [halloc]
        refine ⟨rfl, rfl, h.congr rfl fun _ _ _ => rfl, fun _ => ?_⟩
        have hnone : (Lib.rotate (fun c => m.freeHead c != 0) 8 m.nextColor).1 = none := by
          rw [hpick]
        have hempty : ∀ c, l c = [] := by
          intro c
          have hz : m.freeHead c = 0 := by simpa using Lib.rotate_all_eq_none hnone c
          have hc := h.chain c
          cases hl : l c with
          | nil => rfl
          | cons a xs =>
            rw [hl] at hc
            exact absurd hz (ptr_eq_some.mp hc.1).1
        simp [total, hempty]
      | some c =>
        right
        have halloc : m.pmmAlloc none = ({ m with nextColor := n } : Phys).pop c := by
          simp only [Phys.pmmAlloc, hpick]
        have hne : m.freeHead c ≠ 0 := by simpa using Lib.rotate_eq_some hpick
        rw [halloc]
        exact alloc_of_pop h rfl rfl hne

end Free

end Phys

end Robu
