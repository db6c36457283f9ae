import Mathlib.Data.Finset.Card
import Mathlib.Data.List.AList
import Mathlib.Data.List.Induction
import Mathlib.Data.List.Nodup
import Mathlib.Tactic.Common

/-!
# Trees of tables

A tree of tables says which frame is at the end of a path of indices: a table, or a page at the end
of a path that goes no further.  `branch` lists the frames of a branch, each behind what is below
it; for the whole tree, these are the frames of the tree (`perm_branch`).

A loop over the words of a table that frees what is below each of them reads the tables as it goes.
If no frame is there twice, it frees them all (`walk_eq_foldl`).
-/

universe u v w x

namespace Robu.Lib.Radix

variable {F : Type u} {I : Type v} {W : Type w} {M : Type x}

abbrev Tree (I : Type v) (F : Type u) := AList fun _ : List I => F

def Tree.frames (own : Tree I F) : List F := own.entries.map Sigma.snd

def Tree.find [DecidableEq I] (own : Tree I F) (path : List I) : Option F := own.lookup path

def Tree.insert [DecidableEq I] (own : Tree I F) (path : List I) (f : F) : Tree I F :=
    AList.insert path f own

def Tree.paths [DecidableEq I] (own : Tree I F) : Finset (List I) := own.keys.toFinset

section Branch

variable (own : List I → Option F) (is : List I)

/-- The frames below the end of a path, at the indices `js`. -/
def below : Nat → List I → List I → List F
  | 0, _, _ => []
  | d + 1, path, js => js.flatMap fun i =>
      match own (path ++ [i]) with
      | none => []
      | some f => below d (path ++ [i]) is ++ [f]

def branch (d : Nat) (path : List I) : List F :=
  match own path with
  | none => []
  | some f => below own is d path is ++ [f]

end Branch

variable {own : List I → Option F} {is js path path' rest : List I} {i : I} {f : F} {d : Nat}

theorem below_succ : below own is (d + 1) path js = js.flatMap fun i =>
    branch own is d (path ++ [i]) := rfl

theorem branch_of_none (h : own path = none) : branch own is d path = [] := by
  rw [branch, h]

theorem branch_of_some (h : own path = some f) :
    branch own is d path = below own is d path is ++ [f] := by
  rw [branch, h]

theorem exists_of_mem_branch (h : f ∈ branch own is d path) :
    ∃ rest, rest.length ≤ d ∧ own (path ++ rest) = some f := by
  induction d generalizing path with
  | zero =>
    refine ⟨[], Nat.le_refl _, ?_⟩
    cases hown : own path with
    | none => simp [branch_of_none hown] at h
    | some g => simpa [branch_of_some hown, below, eq_comm, hown] using h
  | succ d ih =>
    cases hown : own path with
    | none => simp [branch_of_none hown] at h
    | some g =>
      rw [branch_of_some hown, List.mem_append, List.mem_singleton, below_succ,
        List.mem_flatMap] at h
      rcases h with ⟨i, -, hi⟩ | rfl
      · obtain ⟨rest, hlen, hrest⟩ := ih hi
        refine ⟨i :: rest, Nat.succ_le_succ hlen, ?_⟩
        rwa [List.append_assoc, List.singleton_append] at hrest
      · exact ⟨[], Nat.zero_le _, by rwa [List.append_nil]⟩

theorem isSome_of_append (hclosed : ∀ path i, (own (path ++ [i])).isSome → (own path).isSome)
    (h : (own (path ++ rest)).isSome) : (own path).isSome := by
  induction rest using List.reverseRecOn with
  | nil => rwa [List.append_nil] at h
  | append_singleton rest i ih =>
    rw [← List.append_assoc] at h
    exact ih (hclosed _ i h)

theorem mem_branch (path : List I) (his : ∀ i, i ∈ is)
    (hclosed : ∀ path i, (own (path ++ [i])).isSome → (own path).isSome)
    (h : own (path ++ rest) = some f) (hlen : rest.length ≤ d) : f ∈ branch own is d path := by
  induction rest generalizing path d with
  | nil =>
    rw [List.append_nil] at h
    rw [branch_of_some h]
    simp
  | cons i rest ih =>
    obtain ⟨d, rfl⟩ := Nat.exists_eq_add_of_le' (Nat.lt_of_lt_of_le (Nat.succ_pos _) hlen)
    obtain ⟨g, hg⟩ := Option.isSome_iff_exists.mp
      (isSome_of_append hclosed (Option.isSome_of_eq_some h))
    rw [branch_of_some hg, List.mem_append, below_succ, List.mem_flatMap]
    refine .inl ⟨i, his i, ih _ ?_ (Nat.le_of_succ_le_succ hlen)⟩
    rwa [List.append_assoc, List.singleton_append]

theorem nodup_branch (his : is.Nodup)
    (hinj : ∀ path path' f, own path = some f → own path' = some f → path = path') :
    (branch own is d path).Nodup := by
  induction d generalizing path with
  | zero =>
    cases hown : own path with
    | none => simp [branch_of_none hown]
    | some f => simp [branch_of_some hown, below]
  | succ d ih =>
    cases hown : own path with
    | none => simp [branch_of_none hown]
    | some f =>
      rw [branch_of_some hown, below_succ]
      refine List.nodup_append'.mpr
        ⟨List.nodup_flatMap.mpr ⟨fun i _ => ih, ?_⟩, List.nodup_singleton _, ?_⟩
      · refine his.imp fun {i j} hne g hi hj => hne ?_
        obtain ⟨r, -, hr⟩ := exists_of_mem_branch hi
        obtain ⟨r', -, hr'⟩ := exists_of_mem_branch hj
        have heq : i = j ∧ r = r' := by simpa using hinj _ _ _ hr hr'
        exact heq.1
      · intro g hg hf
        obtain rfl := List.mem_singleton.mp hf
        obtain ⟨i, -, hi⟩ := List.mem_flatMap.mp hg
        obtain ⟨r, -, hr⟩ := exists_of_mem_branch hi
        simpa using hinj _ _ _ hown hr

section Tree

variable [DecidableEq I] {own : Tree I F}

theorem Tree.find_insert (path : List I) (f : F) :
    (own.insert path f).find path = some f := AList.lookup_insert own

theorem Tree.find_insert_of_ne (h : path' ≠ path) :
    (own.insert path f).find path' = own.find path' :=
  AList.lookup_insert_ne h

theorem Tree.frames_insert (h : own.find path = none) :
    (own.insert path f).frames = f :: own.frames := by
  rw [frames, insert, AList.entries_insert_of_notMem (AList.lookup_eq_none.mp h)]
  rfl

theorem Tree.mem_frames : f ∈ own.frames ↔ ∃ path, own.find path = some f := by
  rw [frames, List.mem_map]
  constructor
  · rintro ⟨⟨path, g⟩, hmem, rfl⟩
    exact ⟨path, AList.mem_lookup_iff.mpr hmem⟩
  · rintro ⟨path, h⟩
    exact ⟨⟨path, f⟩, AList.mem_lookup_iff.mp h, rfl⟩

theorem Tree.mem_paths : path ∈ own.paths ↔ (own.find path).isSome = true := by
  rw [paths, List.mem_toFinset, ← AList.mem_keys, find, AList.lookup_isSome]

theorem Tree.card_paths : own.paths.card = own.frames.length := by
  rw [paths, List.toFinset_card_of_nodup own.keys_nodup, frames, List.length_map]
  exact List.length_map ..

/-- A frame is at the end of one path only. -/
theorem Tree.find_inj (hnodup : own.frames.Nodup) (h : own.find path = some f)
    (h' : own.find path' = some f) : path = path' :=
  congrArg Sigma.fst (List.inj_on_of_nodup_map hnodup (AList.mem_lookup_iff.mp h)
    (AList.mem_lookup_iff.mp h') rfl)

/-- The branch at the root is the tree. -/
theorem perm_branch (his : ∀ i, i ∈ is) (hnodup : is.Nodup) (hframes : own.frames.Nodup)
    (hclosed : ∀ path i, (own.find (path ++ [i])).isSome → (own.find path).isSome)
    (hlen : ∀ path, (own.find path).isSome → path.length ≤ d) :
    (branch own.find is d []).Perm own.frames := by
  refine (List.perm_ext_iff_of_nodup (nodup_branch hnodup fun _ _ _ => Tree.find_inj hframes)
    hframes).mpr fun f => ?_
  rw [Tree.mem_frames]
  constructor
  · intro hf
    obtain ⟨path, -, hpath⟩ := exists_of_mem_branch hf
    exact ⟨path, hpath⟩
  · rintro ⟨path, hpath⟩
    exact mem_branch [] his hclosed hpath (hlen path (Option.isSome_of_eq_some hpath))

end Tree

/-! ## Freeing -/

variable {rows : M → F → W} {free : M → F → M} {m : M}

/-- Freeing other frames keeps a row. -/
theorem rows_foldl (hfree : ∀ m f g, g ≠ f → rows (free m f) g = rows m g) {l : List F}
    (hf : f ∉ l) : rows (l.foldl free m) f = rows m f := by
  induction l generalizing m with
  | nil => rfl
  | cons g l ih =>
    rw [List.mem_cons, not_or] at hf
    rw [List.foldl_cons, ih hf.2, hfree m g f hf.1]

/-- **Walk.**  A loop over the words of a table whose steps free a branch each, and read only its
rows and the rows `reads`, frees what is below the table. -/
theorem walk_eq_foldl (hfree : ∀ m f g, g ≠ f → rows (free m f) g = rows m g)
    {walk : List I → M → M} (step : I → M → M) (reads : List F) (hnil : ∀ m, walk [] m = m)
    (hcons : ∀ i js m, walk (i :: js) m = walk js (step i m))
    (hstep : ∀ i m', (∀ f ∈ reads ++ branch own is d (path ++ [i]), rows m' f = rows m f) →
      step i m' = (branch own is d (path ++ [i])).foldl free m')
    (hnodup : (below own is (d + 1) path js).Nodup)
    (hreads : ∀ f ∈ reads, f ∉ below own is (d + 1) path js) :
    walk js m = (below own is (d + 1) path js).foldl free m := by
  have hsteps : ∀ i ∈ js, ∀ m',
    (∀ f ∈ reads ++ branch own is d (path ++ [i]), rows m' f = rows m f) →
      step i m' = (branch own is d (path ++ [i])).foldl free m' := fun i _ => hstep i
  clear hstep
  induction js generalizing m with
  | nil => exact hnil m
  | cons i js ih =>
    rw [below_succ, List.flatMap_cons, ← below_succ] at hnodup hreads ⊢
    obtain ⟨-, hrest, hdisj⟩ := List.nodup_append'.mp hnodup
    rw [hcons, List.foldl_append, hsteps i (.head _) m fun _ _ => rfl]
    refine ih hrest (fun f hf hmem => hreads f hf (List.mem_append_right _ hmem)) fun j hj m' hm' =>
      hsteps j (.tail _ hj) m' fun f hf => ?_
    -- what is freed is not read any more
    rw [hm' f hf]
    refine rows_foldl hfree fun hmem => ?_
    rcases List.mem_append.mp hf with hf | hf
    · exact hreads f hf (List.mem_append_left _ hmem)
    · exact hdisj hmem (List.mem_flatMap.mpr ⟨j, hj, hf⟩)

end Robu.Lib.Radix
