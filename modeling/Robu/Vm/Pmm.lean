import Mathlib.Algebra.Order.BigOperators.Group.Finset
import Mathlib.Data.FinEnum
import Robu.Kernel.Tcb
import Robu.Lib.Memory
import Robu.Lib.Run
import Robu.Lib.Stacks

/-!
# The frame allocator at the level of addresses

`pmm.c` with all of its state: the byte memory, the eight free lists that are threaded
through the first word of the free frames, the rotating colour cursor and the counters.
A frame is an address here, and it need not be aligned, because `pmm_init` starts at the base
it is given when that lies above the kernel image.  `Robu.Vm.Phys` is the same allocator seen
from the page tables, where frames are frame numbers and nothing reads the counters.

`Pmm.Managed` adds the set of frames that are handed out and not yet given back, and
`Pmm.step` is the traffic: allocations, frees of frames that are handed out, and stores of
their holders.  The result is that what an allocator has to guarantee holds along every run
(`wellFormed_of_reach`).
-/

namespace Robu

open Function (apply_update update update_of_ne update_self)
open Lib (ptr ptr_eq_none ptr_eq_some)

structure PmmStats where
  totalFrames : Word := 0
  freeFrames : Word := 0
  freeByColor : Fin 8 → Word := fun _ => 0
  allocCalls : Word := 0
  freeCalls : Word := 0

structure Pmm where
  mem : Lib.Memory
  freeHead : Fin 8 → Word
  nextColor : Fin 8
  stats : PmmStats

/-- The address behind the kernel image.  The linker script places the image at 1 MiB, and it
ends at least a page below the top of the address space. -/
structure ImageEnd where
  addr : Word
  above : 0x100000 ≤ addr.toNat
  below : addr.toNat + 4096 ≤ 2 ^ 64

namespace Pmm

variable (s : Pmm) (f : Word)

/-! ## The functions of `pmm.c` -/

def colorOf : Fin 8 :=
  ⟨(f >>> 12 &&& 7).toNat, Nat.lt_succ_of_le (by rw [BitVec.toNat_and]; exact Nat.and_le_right)⟩

def pmmFree : Pmm :=
  let c := colorOf f
  { s with
    mem := s.mem.store64 f (s.freeHead c)
    freeHead := update s.freeHead c f
    stats :=
      { s.stats with
        freeFrames := s.stats.freeFrames + 1
        freeByColor := update s.stats.freeByColor c (s.stats.freeByColor c + 1)
        freeCalls := s.stats.freeCalls + 1 } }

/-- The end of `pmm_alloc`: the frame at the head of a list is unlinked, cleared and counted. -/
def take (color : Fin 8) (frame : Word) : Pmm :=
  { s with
    mem := s.mem.zeroWords frame 512
    freeHead := update s.freeHead color (s.mem.load64 frame)
    stats :=
      { s.stats with
        freeFrames := s.stats.freeFrames - 1
        freeByColor := update s.stats.freeByColor color (s.stats.freeByColor color - 1)
        allocCalls := s.stats.allocCalls + 1 } }

@[simp] theorem take_mem (c : Fin 8) : (s.take c f).mem = s.mem.zeroWords f 512 := rfl

def pop (color : Fin 8) : Word × Pmm :=
  let frame := s.freeHead color
  if frame = 0 then (0, s) else (frame, s.take color frame)

/-- `pmm_alloc`; the colour `none` is `PMM_COLOR_ANY`, and the address 0 is a failure. -/
def pmmAlloc (color : Option (Fin 8)) : Word × Pmm :=
  match color with
  | some c => s.pop c
  | none =>
    match Lib.rotate (fun c => s.freeHead c != 0) 8 s.nextColor with
    | (none, n) => (0, { s with nextColor := n })
    | (some c, n) => ({ s with nextColor := n } : Pmm).pop c

def isReserved (bases lens : Nat → Word) (nreserved : Int) : Bool :=
  (List.range nreserved.toNat).any fun i =>
    lens i != 0 && (bases i < f + 4096 && f < bases i + lens i)

/-- The loop of `pmm_init` over the frames from `f` on, with the number of frames freed. -/
def initLoop (reserved : Word → Bool) (ceiling : Word) :
    Nat → Word → Pmm → Word → Option (Pmm × Word)
  | 0, _, _, _ => none
  | fuel + 1, f, s, count =>
    if f < ceiling then
      if reserved f then initLoop reserved ceiling fuel (f + 4096) s count
      else initLoop reserved ceiling fuel (f + 4096) (s.pmmFree f) (count + 1)
    else some (s, count)

/-- `pmm_init`.  A loop up to `ROBU_IDENTITY_MAP_LIMIT` takes at most 2 ^ 18 turns. -/
def pmmInit (image : ImageEnd) (base len : Word) (bases lens : Nat → Word) (nreserved : Int) :
    Option Pmm :=
  let s : Pmm := { s with freeHead := fun _ => 0, nextColor := 0, stats := {} }
  let floor := (image.addr + 4096 - 1) &&& ~~~4095
  let floor := if floor < base then base else floor
  let ceiling := base + len
  let ceiling := if 0x40000000 < ceiling then 0x40000000 else ceiling
  if ceiling ≤ floor then some s
  else
    let nreserved := if 16 < nreserved then 16 else nreserved
    (initLoop (fun f => isReserved f bases lens nreserved) ceiling (2 ^ 18 + 1) floor s 0).map
      fun (s, count) => { s with stats := { s.stats with totalFrames := count, freeCalls := 0 } }

/-! ## The free lists -/

def link : Option Word := ptr (s.mem.load64 f)

def Apart (f g : Word) : Prop := 4096 ≤ (g - f).toNat ∧ 4096 ≤ (f - g).toNat

variable {s f} {s' : Pmm} {g : Word} {l : Fin 8 → List Word} {c : Fin 8} {S : Word → Prop}

theorem Apart.far (h : Apart f g) {a : Word} (ha : (a - g).toNat < 8) : 4096 ≤ (a - f).toNat := by
  obtain ⟨h₁, h₂⟩ := h
  bv_omega

/-- The free lists and their counters are `l`, and the frames of `S` do not overlap; all free
frames are in `S`. -/
structure Lists (s : Pmm) (S : Word → Prop) (l : Fin 8 → List Word) : Prop where
  onto : Lib.Stacks colorOf s.link (fun c => ptr (s.freeHead c)) l
  mem : ∀ {c f}, f ∈ l c → S f
  apart : ∀ {f g}, S f → S g → f ≠ g → Apart f g
  ne_zero : ∀ {f}, S f → f ≠ 0
  freeByColor : ∀ c, s.stats.freeByColor c = BitVec.ofNat 64 (l c).length
  freeFrames : s.stats.freeFrames = BitVec.ofNat 64 (Lib.held l)

namespace Lists

variable (h : s.Lists S l)
include h

theorem unique {S' : Word → Prop} {l' : Fin 8 → List Word} (h' : s.Lists S' l') : l = l' := by
  funext c
  exact (h.onto.chain c).unique (h'.onto.chain c)

/-- **Frame rule.**  Stores outside the free frames change nothing. -/
theorem congr (hhead : s'.freeHead = s.freeHead)
    (hcolors : s'.stats.freeByColor = s.stats.freeByColor)
    (hfrees : s'.stats.freeFrames = s.stats.freeFrames)
    (hmem : ∀ c, ∀ f ∈ l c, ∀ a, (a - f).toNat < 8 → s'.mem a = s.mem a) : s'.Lists S l where
  onto := h.onto.congr (fun c => by rw [hhead]) fun c f hf => by
    rw [link, link, Lib.Memory.load64_congr (hmem c f hf)]
  mem := h.mem
  apart := h.apart
  ne_zero := h.ne_zero
  freeByColor := by rw [hcolors]; exact h.freeByColor
  freeFrames := by rw [hfrees]; exact h.freeFrames

/-- **Free.** -/
theorem pmmFree (hf : S f) (hout : ∀ c, f ∉ l c) :
    (s.pmmFree f).Lists S (update l (colorOf f) (f :: l (colorOf f))) where
  onto := by
    refine h.onto.push ?_ (fun c g hg => ?_) fun c => ?_
    · show ptr ((s.mem.store64 f _).load64 f) = _
      rw [Lib.Memory.load64_store64]
    · have hne : f ≠ g := fun heq => hout c (heq ▸ hg)
      have hload : (s.mem.store64 f (s.freeHead (colorOf f))).load64 g = s.mem.load64 g :=
        Lib.Memory.load64_congr fun a ha => Lib.Memory.store64_of_far (by
          have hfar := (h.apart hf (h.mem hg) hne).far ha
          omega)
      exact congrArg ptr hload
    · show ptr (update s.freeHead _ f c) = _
      rw [apply_update (fun _ => ptr)]
      congr 1
      exact ptr_eq_some.mpr ⟨h.ne_zero hf, rfl⟩
  mem {c g} hg := by
    rcases Lib.mem_update_cons.mp hg with ⟨-, rfl⟩ | hg
    · exact hf
    · exact h.mem hg
  apart := h.apart
  ne_zero := h.ne_zero
  freeByColor c := by
    show update s.stats.freeByColor _ _ c = _
    rcases eq_or_ne c (colorOf f) with rfl | hc
    · rw [update_self, update_self, h.freeByColor, List.length_cons, BitVec.ofNat_add]
      rfl
    · rw [update_of_ne hc, update_of_ne hc, h.freeByColor]
  freeFrames := by
    have hheld := Lib.held_update (l := l) (i := colorOf f) (f :: l (colorOf f))
    rw [List.length_cons] at hheld
    show s.stats.freeFrames + 1 = _
    rw [h.freeFrames, show Lib.held (update l (colorOf f) (f :: l (colorOf f))) = Lib.held l + 1 by
      omega, BitVec.ofNat_add]
    rfl

/-- **Pop.** -/
theorem pop {rest : List Word} (hl : l c = f :: rest) :
    s.pop c = (f, s.take c f) ∧ (s.take c f).Lists S (update l c rest) := by
  have htop := h.onto.chain c
  rw [hl] at htop
  obtain ⟨hne, hhead⟩ := ptr_eq_some.mp htop.1
  have hf : f ∈ l c := by rw [hl]; exact .head _
  have hpop : s.pop c = (f, s.take c f) := by
    unfold Pmm.pop
    rw [hhead, if_neg (hhead ▸ hne)]
  refine ⟨hpop, ?_, fun hg => ?_, h.apart, h.ne_zero, fun d => ?_, ?_⟩
  · refine h.onto.pop hl (fun d g hg hne => ?_) fun d => ?_
    · have hload : (s.mem.zeroWords f 512).load64 g = s.mem.load64 g :=
        Lib.Memory.load64_congr fun a ha => by
          have hfar := (h.apart (h.mem hf) (h.mem hg) hne.symm).far ha
          rw [Lib.Memory.zeroWords_apply (by decide), if_neg (by omega)]
      rw [link, link, take_mem, hload]
    · exact apply_update (fun _ => ptr) s.freeHead c _ d
  · exact h.mem ((h.onto.mem_pop hl).mp hg).1
  · show update s.stats.freeByColor _ _ d = _
    rcases eq_or_ne d c with rfl | hd
    · rw [update_self, update_self, h.freeByColor, hl, List.length_cons, BitVec.ofNat_add]
      exact BitVec.add_sub_cancel _ _
    · rw [update_of_ne hd, update_of_ne hd, h.freeByColor]
  · have hheld := Lib.held_update (l := l) (i := c) rest
    rw [hl, List.length_cons] at hheld
    show s.stats.freeFrames - 1 = _
    rw [h.freeFrames, show Lib.held l = Lib.held (update l c rest) + 1 by omega, BitVec.ofNat_add]
    exact BitVec.add_sub_cancel _ _

theorem nil_of_head (hc : s.freeHead c = 0) : l c = [] :=
  h.onto.head_eq_none.mp (ptr_eq_none.mpr hc)

theorem cons_of_head (hc : s.freeHead c ≠ 0) : ∃ rest, l c = s.freeHead c :: rest := by
  have htop := h.onto.chain c
  cases hl : l c with
  | nil =>
    rw [hl] at htop
    exact absurd (ptr_eq_none.mp htop) hc
  | cons f rest =>
    rw [hl] at htop
    exact ⟨rest, by rw [(ptr_eq_some.mp htop.1).2]⟩

/-- **Alloc.**  An allocation fails, and then the lists it may take from are empty, or it takes
the frame at the front of a list. -/
theorem pmmAlloc (color : Option (Fin 8)) :
    ((s.pmmAlloc color).1 = 0 ∧ (s.pmmAlloc color).2.Lists S l ∧ ∀ c, color.getD c = c → l c = []) ∨
      ∃ c f rest, color.getD c = c ∧ l c = f :: rest ∧ (s.pmmAlloc color).1 = f ∧
        (s.pmmAlloc color).2.mem = s.mem.zeroWords f 512 ∧
        (s.pmmAlloc color).2.Lists S (update l c rest) := by
  cases color with
  | some c =>
    by_cases hc : s.freeHead c = 0
    · left
      have hpop : s.pmmAlloc (some c) = (0, s) := if_pos hc
      rw [hpop]
      refine ⟨rfl, h, fun d hd => ?_⟩
      obtain rfl : c = d := hd
      exact h.nil_of_head hc
    · right
      obtain ⟨rest, hl⟩ := h.cons_of_head hc
      obtain ⟨hpop, hlists⟩ := h.pop hl
      refine ⟨c, s.freeHead c, rest, rfl, hl, ?_⟩
      rw [show s.pmmAlloc (some c) = s.pop c from rfl, hpop]
      exact ⟨rfl, take_mem _ _ _, hlists⟩
  | none =>
    cases hpick : Lib.rotate (fun c => s.freeHead c != 0) 8 s.nextColor with
    | mk found n =>
      have hturned : ({ s with nextColor := n } : Pmm).Lists S l :=
        h.congr rfl rfl rfl fun _ _ _ _ _ => rfl
      cases found with
      | none =>
        left
        have halloc : s.pmmAlloc none = (0, { s with nextColor := n }) := by
          simp only [Pmm.pmmAlloc, hpick]
        rw [halloc]
        refine ⟨rfl, hturned, fun c _ => h.nil_of_head ?_⟩
        have hnone : (Lib.rotate (fun c => s.freeHead c != 0) 8 s.nextColor).1 = none := by
          rw [hpick]
        simpa using Lib.rotate_all_eq_none hnone c
      | some c =>
        right
        have hne : s.freeHead c ≠ 0 := by simpa using Lib.rotate_eq_some hpick
        obtain ⟨rest, hl⟩ := hturned.cons_of_head hne
        obtain ⟨hpop, hlists⟩ := hturned.pop hl
        have halloc : s.pmmAlloc none = ({ s with nextColor := n } : Pmm).pop c := by
          simp only [Pmm.pmmAlloc, hpick]
        refine ⟨c, _, rest, rfl, hl, ?_⟩
        rw [halloc, hpop]
        exact ⟨rfl, take_mem _ _ _, hlists⟩

end Lists

/-! ## Initialisation -/

def Grid (floor f : Word) : Prop := ∃ k, f.toNat = floor.toNat + 4096 * k ∧ f.toNat < 2 ^ 30

theorem Grid.apart {floor : Word} (hf : Grid floor f) (hg : Grid floor g) (hne : f ≠ g) :
    Apart f g := by
  obtain ⟨i, hi, hflt⟩ := hf
  obtain ⟨j, hj, hglt⟩ := hg
  have hij : i ≠ j := fun hc => hne (BitVec.eq_of_toNat_eq (by rw [hi, hj, hc]))
  unfold Apart
  rcases Nat.lt_or_gt_of_ne hij with hlt | hlt <;> constructor <;> bv_omega

theorem Grid.ne_zero {floor : Word} (hfloor : floor ≠ 0) (hf : Grid floor f) : f ≠ 0 := by
  obtain ⟨k, hk, -⟩ := hf
  bv_omega

def Freed (reserved : Word → Bool) (f ceiling x : Word) : Prop :=
  ∃ j, x.toNat = f.toNat + 4096 * j ∧ x < ceiling ∧ reserved x = false

theorem freed_iff {reserved : Word → Bool} {ceiling x : Word} (hlt : f < ceiling)
    (hnext : (f + 4096).toNat = f.toNat + 4096) : Freed reserved f ceiling x ↔
      x = f ∧ reserved f = false ∨ Freed reserved (f + 4096) ceiling x := by
  constructor
  · rintro ⟨_ | j, hj, hx, hres⟩
    · obtain rfl : x = f := BitVec.eq_of_toNat_eq hj
      exact .inl ⟨rfl, hres⟩
    · exact .inr ⟨j, by omega, hx, hres⟩
  · rintro (⟨rfl, hres⟩ | ⟨j, hj, hx, hres⟩)
    · exact ⟨0, rfl, hlt, hres⟩
    · exact ⟨j + 1, by omega, hx, hres⟩

/-- The loop ends, and frees the frames that are not reserved. -/
theorem Lists.initLoop {reserved : Word → Bool} {floor ceiling : Word}
    (hceil : ceiling.toNat ≤ 2 ^ 30) (h : s.Lists (Grid floor) l) {k turns : Nat} {count : Word}
    (hk : f.toNat = floor.toNat + 4096 * k)
    (hbelow : ∀ c, ∀ g ∈ l c, g.toNat < f.toNat) (hturns : ceiling.toNat ≤ f.toNat + 4096 * turns) :
    ∃ t n l', Pmm.initLoop reserved ceiling (turns + 1) f s count = some (t, n) ∧
      t.Lists (Grid floor) l' ∧
      ∀ x, (∃ c, x ∈ l' c) ↔ (∃ c, x ∈ l c) ∨ Freed reserved f ceiling x := by
  induction turns generalizing f s l k count with
  | zero =>
    refine ⟨s, count, l, ?_, h, fun x => ⟨.inl, fun hx => hx.resolve_right ?_⟩⟩
    · rw [Pmm.initLoop, if_neg (by bv_omega)]
    · rintro ⟨j, hj, hlt, -⟩
      bv_omega
  | succ turns ih =>
    rw [Pmm.initLoop]
    split
    · rename_i hlt
      have hflt : f.toNat < 2 ^ 30 := by bv_omega
      have hnext : (f + 4096).toNat = f.toNat + 4096 := by bv_omega
      have hk' : (f + 4096).toNat = floor.toNat + 4096 * (k + 1) := hnext.trans (by omega)
      split
      · rename_i hres
        obtain ⟨t, n, l', hloop, hlists, hmem⟩ := ih h hk'
          (fun c g hg => by have := hbelow c g hg; omega) (by rw [hnext]; omega)
        refine ⟨t, n, l', hloop, hlists, fun x => (hmem x).trans (or_congr_right ?_)⟩
        rw [freed_iff hlt hnext, hres]
        simp
      · rename_i hres
        have hout : ∀ c, f ∉ l c := fun c hc => Nat.lt_irrefl _ (hbelow c f hc)
        have hadded : ∀ x, (∃ c, x ∈ update l (colorOf f) (f :: l (colorOf f)) c) ↔ (∃ c, x ∈ l c) ∨
          x = f := by
          simp only [Lib.mem_update_cons, exists_or, exists_eq_left, or_comm, implies_true]
        obtain ⟨t, n, l', hloop, hlists, hmem⟩ :=
          ih (h.pmmFree ⟨k, hk, hflt⟩ hout) hk' (fun c g hg => by
            rcases (hadded g).mp ⟨c, hg⟩ with ⟨d, hd⟩ | rfl
            · have := hbelow d g hd
              omega
            · omega) (by rw [hnext]; omega)
        refine ⟨t, n, l', hloop, hlists, fun x => (hmem x).trans ?_⟩
        rw [hadded, freed_iff hlt hnext, or_assoc]
        simp [hres]
    · rename_i hge
      refine ⟨s, count, l, rfl, h, fun x => ⟨.inl, fun hx => hx.resolve_right ?_⟩⟩
      rintro ⟨j, hj, hlt, -⟩
      bv_omega

theorem ImageEnd.toNat_floor (image : ImageEnd) :
    ((image.addr + 4096 - 1) &&& ~~~4095).toNat = (image.addr.toNat + 4095) / 4096 * 4096 := by
  have hbelow := image.below
  have hsum : (image.addr + 4096 - 1).toNat = image.addr.toNat + 4095 := by bv_omega
  exact hsum ▸ Lib.toNat_and_not_ones (image.addr + 4096 - 1) 12

def floorOf (image : ImageEnd) (base : Word) : Word :=
  let floor := (image.addr + 4096 - 1) &&& ~~~4095
  if floor < base then base else floor

def ceilingOf (base len : Word) : Word :=
  let ceiling := base + len
  if 0x40000000 < ceiling then 0x40000000 else ceiling

/-- **Initialisation.**  `pmm_init` comes back, and the free lists are in order. -/
theorem lists_pmmInit (s : Pmm) (image : ImageEnd) (base len : Word) (bases lens : Nat → Word)
    (nreserved : Int) :
    ∃ t S l, s.pmmInit image base len bases lens nreserved = some t ∧ t.Lists S l ∧
      ∀ x, (∃ c, x ∈ l c) ↔
        Freed (fun f => isReserved f bases lens (if 16 < nreserved then 16 else nreserved))
        (floorOf image base) (ceilingOf base len) x := by
  unfold pmmInit
  extract_lets start floor₀ floor ceiling₀ ceiling count
  have hfloor : floor ≠ 0 := by
    have hround : floor₀.toNat = (image.addr.toNat + 4095) / 4096 * 4096 :=
      ImageEnd.toNat_floor image
    have habove := image.above
    have hne : floor₀ ≠ 0 := by bv_omega
    show (if floor₀ < base then base else floor₀) ≠ 0
    split
    · bv_omega
    · exact hne
  have hceil : ceiling.toNat ≤ 2 ^ 30 := by
    show (if (0x40000000 : Word) < ceiling₀ then (0x40000000 : Word) else ceiling₀).toNat ≤ 2 ^ 30
    split
    · decide
    · bv_omega
  have hstart : start.Lists (Grid floor) fun _ => [] :=
    { onto := ⟨fun _ => rfl, fun hf => absurd hf List.not_mem_nil⟩
      mem := fun hf => absurd hf List.not_mem_nil
      apart := Grid.apart
      ne_zero := Grid.ne_zero hfloor
      freeByColor := fun _ => rfl
      freeFrames := by simp [Lib.held, start] }
  split
  · rename_i hempty
    refine ⟨start, _, _, rfl, hstart, fun x => ⟨fun ⟨c, hx⟩ => absurd hx List.not_mem_nil, ?_⟩⟩
    rintro ⟨j, hj, hlt, -⟩
    have hge : ceiling.toNat ≤ floor.toNat := hempty
    have hj : x.toNat = floor.toNat + 4096 * j := hj
    have hlt : x.toNat < ceiling.toNat := hlt
    omega
  · obtain ⟨t, n, l, hloop, hlists, hmem⟩ := hstart.initLoop hceil (k := 0) (f := floor) (by omega)
      (fun _ g hg => absurd hg List.not_mem_nil)
        (show ceiling.toNat ≤ floor.toNat + 4096 * 2 ^ 18 by omega)
    rw [hloop]
    refine ⟨_, _, l, rfl, hlists.congr rfl rfl rfl fun _ _ _ _ _ => rfl, fun x => (hmem x).trans ?_⟩
    simp only [List.not_mem_nil, exists_false, false_or]
    rfl

/-! ## Runs -/

structure Managed where
  pmm : Pmm
  allocated : List Word

inductive Op
  /-- Ask for a frame of one colour, or of any. -/
  | alloc (color : Option (Fin 8))
  | free (f : Word)
  | store (a : Word) (v : BitVec 8)

/-- One operation.  Only frames that are handed out are given back, and only their bytes are
stored to. -/
def step (s : Managed) : Op → Option Managed
  | .alloc color =>
    let (f, t) := s.pmm.pmmAlloc color
    some ⟨t, if f = 0 then s.allocated else f :: s.allocated⟩
  | .free f => if f ∈ s.allocated then some ⟨s.pmm.pmmFree f, s.allocated.erase f⟩ else none
  | .store a v =>
    if s.allocated.any fun f => (a - f).toNat < 4096 then
      some { s with pmm := { s.pmm with mem := update s.pmm.mem a v } }
    else none

/-- The allocator after `pmm_init`, called with any arguments in any state. -/
def IsInit (s : Managed) : Prop :=
  s.allocated = [] ∧ ∃ (before : Pmm) (image : ImageEnd) (base len : Word) (bases lens : Nat → Word)
    (nreserved : Int), before.pmmInit image base len bases lens nreserved = some s.pmm

namespace Managed

variable {s s' : Managed} {l : Fin 8 → List Word}

/-- What holds of the allocator whose free lists are `l`. -/
structure WellFormed (s : Managed) (l : Fin 8 → List Word) : Prop where
  /-- From its head, a list visits its frames and comes to an end. -/
  acyclic : ∀ c, Lib.Chain s.pmm.link (ptr (s.pmm.freeHead c)) (l c) ∧ (l c).Nodup
  disjoint : ∀ {c d f}, f ∈ l c → f ∈ l d → c = d
  notAllocated : ∀ {c f}, f ∈ l c → f ∉ s.allocated
  color : ∀ {c f}, f ∈ l c → colorOf f = c
  freeByColor : ∀ c, (s.pmm.stats.freeByColor c).toNat = (l c).length
  freeFrames : s.pmm.stats.freeFrames.toNat = ∑ c, (l c).length
  /-- An allocation of any colour fails exactly when nothing is free. -/
  fails : (s.pmm.pmmAlloc none).1 = 0 ↔ ∀ c, l c = []
  /-- A returned frame is clear and was not handed out; it overlaps no frame that was. -/
  returns : ∀ color f t, s.pmm.pmmAlloc color = (f, t) → f ≠ 0 →
    (∀ a, (a - f).toNat < 4096 → t.mem a = 0) ∧ f ∉ s.allocated ∧ ∀ g ∈ s.allocated, Apart f g

/-- The invariant: the lists and the frames that are handed out share the frames of a pool. -/
structure Inv (s : Managed) (S : Word → Prop) (l : Fin 8 → List Word) : Prop where
  lists : s.pmm.Lists S l
  mem : ∀ f ∈ s.allocated, S f
  nodup : s.allocated.Nodup
  notAllocated : ∀ {c f}, f ∈ l c → f ∉ s.allocated

variable {S : Word → Prop}

/-- **Steps.**  Every operation keeps the invariant. -/
theorem Inv.step (h : s.Inv S l) {op : Op} (hstep : Pmm.step s op = some s') :
    ∃ l', s'.Inv S l' := by
  cases op with
  | alloc color =>
    have hs : s' = ⟨(s.pmm.pmmAlloc color).2, if (s.pmm.pmmAlloc color).1 = 0 then s.allocated
        else (s.pmm.pmmAlloc color).1 :: s.allocated⟩ := (Option.some.inj hstep).symm
    rcases h.lists.pmmAlloc color with ⟨hz, hlists, -⟩ | ⟨c, f, rest, -, hl, hf, -, hlists⟩
    · rw [hz, if_pos rfl] at hs
      subst hs
      exact ⟨l, hlists, h.mem, h.nodup, h.notAllocated⟩
    · have hmem : f ∈ l c := by rw [hl]; exact .head _
      have hS := h.lists.mem hmem
      rw [hf, if_neg (h.lists.ne_zero hS)] at hs
      subst hs
      refine ⟨_, hlists, ?_, List.nodup_cons.mpr ⟨h.notAllocated hmem, h.nodup⟩, fun {d g} hg => ?_⟩
      · rintro g (_ | ⟨_, hg⟩)
        · exact hS
        · exact h.mem g hg
      · obtain ⟨hg, hne⟩ := (h.lists.onto.mem_pop hl).mp hg
        exact List.not_mem_cons_of_ne_of_not_mem hne (h.notAllocated hg)
  | free f =>
    rw [Pmm.step] at hstep
    split at hstep
    · rename_i hf
      cases hstep
      refine ⟨_, h.lists.pmmFree (h.mem f hf) fun c hc => h.notAllocated hc hf,
        fun g hg => h.mem g (List.mem_of_mem_erase hg), h.nodup.erase f, fun {c g} hg => ?_⟩
      rw [h.nodup.mem_erase_iff]
      rintro ⟨hne, hg'⟩
      exact h.notAllocated ((Lib.mem_update_cons.mp hg).resolve_left fun heq => hne heq.2) hg'
    · cases hstep
  | store a v =>
    rw [Pmm.step] at hstep
    split at hstep
    · rename_i ha
      cases hstep
      obtain ⟨g, hg, hag⟩ := List.any_eq_true.mp ha
      refine ⟨l, h.lists.congr rfl rfl rfl fun c f hf b hb => update_of_ne ?_ _ _, h.mem, h.nodup,
        h.notAllocated⟩
      rintro rfl
      have hne : g ≠ f := fun heq => h.notAllocated hf (heq ▸ hg)
      have hfar := (h.lists.apart (h.mem g hg) (h.lists.mem hf) hne).far hb
      have hnear := of_decide_eq_true hag
      omega
    · cases hstep

/-- The invariant gives all that an allocator has to guarantee. -/
theorem Inv.wellFormed (h : s.Inv S l) : s.WellFormed l := by
  have hnd : ∀ c, (l c).Nodup := fun c => (h.lists.onto.chain c).nodup
  have hcount : Lib.held l < 2 ^ 64 := by
    have hlt := Lib.held_lt_card (a := (0 : Word)) hnd h.lists.onto.disjoint
      fun c hc => h.lists.ne_zero (h.lists.mem hc) rfl
    rwa [← FinEnum.card_eq_fintypeCard, FinEnum.card_bitVec] at hlt
  have hle : ∀ c, (l c).length ≤ Lib.held l := fun c =>
    Finset.single_le_sum (f := fun c => (l c).length) (fun _ _ => Nat.zero_le _) (Finset.mem_univ c)
  refine ⟨fun c => ⟨h.lists.onto.chain c, hnd c⟩, h.lists.onto.disjoint, h.notAllocated,
    h.lists.onto.sort, fun c => ?_, ?_, ?_, fun color f t halloc hf => ?_⟩
  · rw [h.lists.freeByColor, BitVec.toNat_ofNat, Nat.mod_eq_of_lt]
    exact lt_of_le_of_lt (hle c) hcount
  · rw [h.lists.freeFrames, BitVec.toNat_ofNat, Nat.mod_eq_of_lt hcount]
    rfl
  · rcases h.lists.pmmAlloc none with ⟨hz, -, hnil⟩ | ⟨c, f, rest, -, hl, hf, -⟩
    · exact ⟨fun _ c => hnil c rfl, fun _ => hz⟩
    have hne : f ≠ 0 := h.lists.ne_zero (h.lists.mem (c := c) (by rw [hl]; exact .head _))
    refine ⟨fun hz => absurd (hf ▸ hz) hne, fun hnil => ?_⟩
    rw [hnil c] at hl
    cases hl
  · rcases h.lists.pmmAlloc color with ⟨hz, -⟩ | ⟨c, g, rest, -, hl, hg, hmem, -⟩
    · rw [halloc] at hz
      exact absurd hz hf
    rw [halloc] at hg hmem
    obtain rfl : f = g := hg
    have hin : f ∈ l c := by rw [hl]; exact .head _
    refine ⟨fun a ha => ?_, h.notAllocated hin, fun g hg =>
      h.lists.apart (h.lists.mem hin) (h.mem g hg) ?_⟩
    · show t.mem a = 0
      rw [show t.mem = _ from hmem, Lib.Memory.zeroWords_apply (by decide), if_pos (by omega)]
    · rintro rfl
      exact h.notAllocated hin hg

end Managed

/-- **The allocator.**  From any initialisation, along every run. -/
theorem wellFormed_of_reach {s : Managed} (h : Lib.Reach step (fun _ _ => True) IsInit s) :
    ∃ l, s.WellFormed l := by
  have hinv : ∃ S l, s.Inv S l := by
    refine h.invariant (I := fun s => ∃ S l, s.Inv S l) ?_ ?_
    · rintro ⟨pmm, allocated⟩ ⟨rfl, before, image, base, len, bases, lens, nreserved, hinit⟩
      obtain ⟨t, S, l, ht, hlists, -⟩ := before.lists_pmmInit image base len bases lens nreserved
      obtain rfl : t = pmm := Option.some.inj (ht.symm.trans hinit)
      exact ⟨S, l, hlists, fun f hf => absurd hf List.not_mem_nil, List.nodup_nil, fun _ =>
        List.not_mem_nil⟩
    · rintro s op s' ⟨S, l, hs⟩ - hstep
      exact ⟨S, hs.step hstep⟩
  obtain ⟨S, l, hs⟩ := hinv
  exact ⟨l, hs.wellFormed⟩

def twoFrames : Option Pmm :=
  pmmInit ⟨fun _ => 0xFF, fun _ => 0, 0, {}⟩ ⟨0x200000, by decide, by decide⟩ 0 0x203000 (fun _ =>
    0x201000)
    (fun _ => 1) 1

/-- Of two frames one is handed out, stored to and given back, and both are handed out. -/
theorem wellFormed_of_reach_twoFrames :
    ∃ s, (twoFrames.bind fun p =>
      Lib.run step (fun _ _ => True) ⟨p, []⟩ [.alloc none, .store 0x200008 1,
        .free 0x200000, .alloc (some 0), .alloc none]) = some s ∧
      s.allocated = [0x202000, 0x200000] ∧ ∃ l, s.WellFormed l := by
  have hrun : (twoFrames.bind fun p =>
    (Lib.run step (fun _ _ => True) ⟨p, []⟩ [.alloc none, .store 0x200008 1,
      .free 0x200000, .alloc (some 0), .alloc none])).map (·.allocated) =
        some [0x202000, 0x200000] := by
    decide +kernel
  obtain ⟨s, hs, hobs⟩ := Option.map_eq_some_iff.mp hrun
  obtain ⟨p, hp, hreach⟩ := Option.bind_eq_some_iff.mp hs
  have hinit : IsInit ⟨p, []⟩ := ⟨rfl, _, _, _, _, _, _, _, hp⟩
  exact ⟨s, hs, hobs, wellFormed_of_reach (.of_run (.init hinit) hreach)⟩

end Pmm

end Robu
