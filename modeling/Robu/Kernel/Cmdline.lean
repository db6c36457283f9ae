import Mathlib.Data.List.Forall2
import Robu.Spawn.Decode

/-!
# The command line of the kernel

`cmdline.c` cuts the command line into `key=value` tokens where it stands: the buffer keeps the
bytes, and zero bytes end the keys and the values that the tokens point to.  `cmdline_get` gives
out pointers into the buffer.
-/

namespace Robu

open Function (update update_of_ne update_self)
open Spawn (Mem Str place)

abbrev CStr := { s : Str // 0 ∉ s }

def CStr.mem (s : CStr) : Mem := fun i => s.1.getD i 0

/-- `cmdline_buf`, and `keys` and `values` with `ntokens` entries, which point into it. -/
structure Cmdline where
  buf : Mem
  tokens : List (Nat × Nat)

/-- `strncmp` of what is at `i` and at `j`. -/
def strncmp (a b : Mem) : Nat → Nat → Nat → Int
  | 0, _, _ => 0
  | n + 1, i, j =>
    if a i ≠ b j then (a i).toNat - (b j).toNat
    else if a i = 0 then 0
    else strncmp a b n (i + 1) (j + 1)

namespace Cmdline

/-- A loop that moves `p` on while `q` holds, `n` bytes before the end of the buffer. -/
def scan (buf : Mem) (q : BitVec 8 → Bool) : Nat → Nat → Nat
  | 0, p => p
  | n + 1, p => if q (buf p) then scan buf q n (p + 1) else p

/-- The branch for a token with `=` at `p`: the key ends there, and the value at the next space. -/
def endToken (key p : Nat) (c : Cmdline) : Nat × Cmdline :=
  let buf := update c.buf p 0
  let value := p + 1
  let p := scan buf (fun b => b ≠ 0 ∧ b ≠ 32) 256 value
  let tokens := c.tokens ++ [(key, value)]
  if buf p ≠ 0 then (p + 1, ⟨update buf p 0, tokens⟩) else (p, ⟨buf, tokens⟩)

def parseLoop : Nat → Nat → Cmdline → Cmdline
  | 0, _, c => c
  | n + 1, p, c =>
    if c.buf p ≠ 0 ∧ c.tokens.length < 16 then
      let key := scan c.buf (· = 32) 256 p
      if c.buf key = 0 then c
      else
        let p := scan c.buf (fun b => b ≠ 0 ∧ b ≠ 32 ∧ b ≠ 61) 256 key
        if c.buf p = 61 then parseLoop n (endToken key p c).1 (endToken key p c).2
        else parseLoop n (if c.buf p ≠ 0 then p + 1 else p) c
    else c

def cmdlineParse (c : Cmdline) : Option CStr → Cmdline
  | none => ⟨update c.buf 0 0, []⟩
  | some raw =>
    let len := if 256 ≤ raw.1.length then 255 else raw.1.length
    parseLoop 256 0 ⟨update (place c.buf 0 (raw.1.take len)) len 0, []⟩

def cmdlineGet (c : Cmdline) (key : CStr) : Option Nat :=
  (c.tokens.find? fun t => strncmp c.buf key.mem (key.1.length + 1) t.1 0 = 0).map Prod.snd

/-! ## What the command line says -/

/-- A token with `=` is a key and a value: what stands before the first `=` and after it. -/
def keyValue (token : Str) : Option (Str × Str) :=
  if 61 ∈ token then some (token.takeWhile (· ≠ 61), (token.dropWhile (· ≠ 61)).tail) else none

def pairs (line : Str) : List (Str × Str) := (line.splitOn 32).filterMap keyValue

def lookup (raw key : Str) : Option Str := ((pairs (raw.take 255)).take 16).lookup key

def Holds (buf : Mem) : Nat → Str → Prop
  | p, [] => buf p = 0
  | p, b :: s => buf p = b ∧ b ≠ 0 ∧ Holds buf (p + 1) s

variable {buf buf' : Mem} {p p' i j n : Nat} {s r t w k v key : Str} {c c' : Cmdline}
  {q : BitVec 8 → Bool}
  {kvs : List (Str × Str)}

theorem keyValue_append (hk : 61 ∉ k) : keyValue (k ++ 61 :: v) = some (k, v) := by
  have hall : ∀ b ∈ k, decide (b ≠ 61) = true := by
    intro b hb
    simpa using ne_of_mem_of_not_mem hb hk
  rw [keyValue, if_pos (by simp), List.takeWhile_append_of_pos hall,
    List.dropWhile_append_of_pos hall]
  simp

theorem pairs_word (hw : 32 ∉ w) : pairs w = (keyValue w).toList := by
  rw [pairs, List.splitOn_eq_singleton hw, List.filterMap_cons]
  cases keyValue w <;> rfl

theorem pairs_append (hw : 32 ∉ w) : pairs (w ++ 32 :: s) = (keyValue w).toList ++ pairs s := by
  rw [pairs, List.splitOn_append_cons_self_of_not_mem hw, List.filterMap_cons]
  cases keyValue w <;> rfl

theorem pairs_spaces (ht : ∀ b ∈ t, b = 32) : pairs (t ++ s) = pairs s := by
  induction t with
  | nil => rfl
  | cons b t ih =>
    obtain rfl := ht b (.head _)
    rw [← ih fun b hb => ht b (.tail _ hb)]
    exact pairs_append (w := []) List.not_mem_nil

/-! ## Strings in the buffer -/

theorem holds_of_getD (hs : 0 ∉ s) (h : ∀ i ≤ s.length, buf (p + i) = s.getD i 0) :
    Holds buf p s := by
  induction s generalizing p with
  | nil => exact h 0 (Nat.le_refl _)
  | cons b s ih =>
    rw [List.mem_cons, not_or] at hs
    refine ⟨h 0 (Nat.zero_le _), Ne.symm hs.1, ih hs.2 fun i hi => ?_⟩
    rw [Nat.add_assoc, Nat.add_comm 1]
    exact h (i + 1) (Nat.succ_le_succ hi)

theorem Holds.back (h : Holds buf p (t ++ r)) : Holds buf (p + t.length) r := by
  induction t generalizing p with
  | nil => exact h
  | cons b t ih =>
    rw [List.length_cons, Nat.add_comm t.length, ← Nat.add_assoc]
    exact ih h.2.2

/-- A zero byte cuts the string off. -/
theorem Holds.front (h : Holds buf p (t ++ r)) (hsame : ∀ i < p + t.length, buf' i = buf i)
    (hzero : buf' (p + t.length) = 0) : Holds buf' p t := by
  induction t generalizing p with
  | nil => exact hzero
  | cons b t ih =>
    obtain ⟨hb, hne, h⟩ := h
    rw [List.length_cons, Nat.add_comm t.length, ← Nat.add_assoc] at hsame hzero
    exact ⟨(hsame p (by omega)).trans hb, hne, ih h hsame hzero⟩

theorem Holds.congr (h : Holds buf p s) (hsame : ∀ i, p ≤ i → buf' i = buf i) : Holds buf' p s := by
  induction s generalizing p with
  | nil => exact (hsame p (Nat.le_refl _)).trans h
  | cons b s ih =>
    obtain ⟨hb, hne, h⟩ := h
    exact ⟨(hsame p (Nat.le_refl _)).trans hb, hne, ih h fun i hi => hsame i (by omega)⟩

/-- A scan splits the string that it reads. -/
theorem exists_scan (h : Holds buf p s) (hq : q 0 = false) (hn : s.length ≤ n) :
    ∃ t r, s = t ++ r ∧ (∀ b ∈ t, q b = true) ∧ (∀ b ∈ r.head?, q b = false) ∧
      scan buf q n p = p + t.length ∧ Holds buf (p + t.length) r := by
  induction s generalizing p n with
  | nil =>
    refine ⟨[], [], rfl, by simp, by simp, ?_, h⟩
    cases n with
    | zero => rfl
    | succ n => rw [scan, if_neg (by rw [show buf p = 0 from h, hq]; exact Bool.false_ne_true)]; rfl
  | cons b s ih =>
    obtain ⟨n, rfl⟩ := Nat.exists_eq_add_of_lt (Nat.lt_of_lt_of_le (Nat.succ_pos _) hn)
    obtain ⟨hb, hne, hs⟩ := h
    rw [Nat.zero_add, scan, hb]
    cases hqb : q b with
    | false => exact ⟨[], b :: s, rfl, by simp, by simp [hqb], rfl, hb, hne, hs⟩
    | true =>
      obtain ⟨t, r, rfl, ht, hr, hscan, hrest⟩ := ih hs (n := n) (by simp at hn; omega)
      refine ⟨b :: t, r, rfl, by simpa [hqb] using ht, hr, ?_, ?_⟩
      · rw [if_pos rfl, hscan, List.length_cons]
        omega
      · rw [List.length_cons, Nat.add_comm t.length, ← Nat.add_assoc]
        exact hrest

theorem strncmp_eq_zero_iff {a b : Mem} (ha : Holds a i s) (hb : Holds b j t) :
    strncmp a b (t.length + 1) i j = 0 ↔ s = t := by
  induction t generalizing s i j with
  | nil =>
    rw [List.length_nil, strncmp, show b j = 0 from hb]
    cases s with
    | nil => simp [show a i = 0 from ha]
    | cons x s =>
      obtain ⟨hx, hne, -⟩ := ha
      rw [hx, if_pos hne]
      simpa [BitVec.toNat_eq] using hne
  | cons y t ih =>
    obtain ⟨hy, hny, hb⟩ := hb
    rw [List.length_cons, strncmp, hy]
    cases s with
    | nil =>
      rw [show a i = 0 from ha, if_pos hny.symm]
      simpa [BitVec.toNat_eq] using hny
    | cons x s =>
      obtain ⟨hx, hnx, ha⟩ := ha
      rw [hx]
      by_cases hxy : x = y
      · rw [if_neg (not_not.mpr hxy), if_neg hnx, ih ha hb]
        simp [hxy]
      · rw [if_pos hxy]
        have := BitVec.toNat_ne.mp hxy
        simp [hxy]
        omega

/-! ## Parsing -/

def Cut (p : Nat) (buf buf' : Mem) : Prop := ∀ i, buf' i = buf i ∨ p ≤ i ∧ buf' i = 0

theorem cut_update (h : p ≤ i) : Cut p buf (update buf i 0) := by
  intro j
  rcases eq_or_ne j i with rfl | hne
  · exact .inr ⟨h, update_self ..⟩
  · exact .inl (update_of_ne hne ..)

theorem Cut.mono (h : Cut p' buf buf') (hle : p ≤ p') : Cut p buf buf' := fun i =>
  (h i).imp_right fun ⟨hi, hz⟩ => ⟨hle.trans hi, hz⟩

theorem Cut.trans {buf'' : Mem} (h : Cut p buf buf') (hle : p ≤ p') (h' : Cut p' buf' buf'') :
    Cut p buf buf'' := by
  intro i
  rcases h' i with heq | ⟨hi, hz⟩
  · rw [heq]
    exact h i
  · exact .inr ⟨hle.trans hi, hz⟩

theorem Holds.cut (h : Holds buf i s) (hle : i + s.length ≤ p) (hcut : Cut p buf buf') :
    Holds buf' i s := by
  have hend : buf (i + s.length) = 0 := Holds.back (r := []) (by rwa [List.append_nil])
  refine Holds.front (r := []) (by rwa [List.append_nil]) (fun a ha => ?_) ?_
  · exact (hcut a).resolve_right fun hc => by omega
  · rcases hcut (i + s.length) with heq | ⟨-, hz⟩
    · exact heq.trans hend
    · exact hz

theorem pairs_nil : pairs [] = [] := by decide

/-- A token with `=` is ended: the strings it points to are its key and its value. -/
theorem endToken_spec (h : Holds c.buf i (k ++ 61 :: s)) (hspace : 32 ∉ k) (hequals : 61 ∉ k)
    (hs : s.length ≤ 256) : ∃ v r p buf, pairs (k ++ 61 :: s) = (k, v) :: pairs r ∧
      r.length ≤ s.length ∧
      endToken i (i + k.length) c = (p, ⟨buf, c.tokens ++ [(i, i + k.length + 1)]⟩) ∧
        Cut (i + k.length) c.buf buf ∧
      Holds buf i k ∧ Holds buf (i + k.length + 1) v ∧ i + k.length + 1 + v.length ≤ p ∧
        Holds buf p r := by
  have hrest : Holds c.buf (i + k.length + 1) s := h.back.2.2
  generalize he : i + k.length = e at *
  have hvalue : Holds (update c.buf e 0) (e + 1) s := hrest.congr fun a ha =>
    update_of_ne (by omega) ..
  have hkey : Holds (update c.buf e 0) i k := by
    refine h.front (fun a ha => update_of_ne (by omega) ..) ?_
    rw [he, update_self]
  obtain ⟨v, r, rfl, hv, hstop, hscan, hr⟩ :=
    exists_scan (q := fun b => b ≠ 0 ∧ b ≠ 32) (n := 256) hvalue (by decide) hs
  have hword : 32 ∉ k ++ 61 :: v := by
    rw [List.mem_append, List.mem_cons, not_or, not_or]
    exact ⟨hspace, by decide, fun hmem => (of_decide_eq_true (hv _ hmem)).2 rfl⟩
  unfold endToken
  dsimp only
  rw [hscan]
  generalize hz : e + 1 + v.length = z at *
  cases r with
  | nil =>
    have hzero : update c.buf e 0 z = 0 := hr
    rw [List.append_nil] at hvalue ⊢
    refine ⟨v, [], z, _, ?_, Nat.zero_le _, if_neg (not_not.mpr hzero), cut_update (Nat.le_refl _),
      hkey, hvalue, Nat.le_of_eq hz, hr⟩
    rw [pairs_word hword, keyValue_append hequals, pairs_nil]
    rfl
  | cons b r =>
    obtain ⟨hb, hne, hr⟩ := hr
    obtain rfl : b = 32 := by
      by_contra h
      exact of_decide_eq_false (hstop b rfl) ⟨hne, h⟩
    refine ⟨v, r, z + 1, _,
      ?_, by rw [List.length_append,
        List.length_cons]; omega, if_pos (by rw [hb]; exact hne),
        (cut_update (Nat.le_refl _)).trans (by omega) (cut_update (Nat.le_refl z)),
      hkey.cut (by omega) (cut_update (Nat.le_refl z)), ?_, by omega,
      hr.congr fun a ha => update_of_ne (by omega) ..⟩
    · rw [← List.cons_append, ← List.append_assoc, pairs_append hword, keyValue_append hequals]
      rfl
    · refine hvalue.front (fun a ha => update_of_ne (by omega) ..) ?_
      rw [hz, update_self]

/-- The loop has written from `p` on, and its new tokens point to the pairs. -/
def Parsed (p : Nat) (c c' : Cmdline) (kvs : List (Str × Str)) : Prop :=
  Cut p c.buf c'.buf ∧ ∃ new, c'.tokens = c.tokens ++ new ∧
    List.Forall₂ (fun t kv => Holds c'.buf t.1 kv.1 ∧ Holds c'.buf t.2 kv.2) new kvs

theorem Parsed.refl : Parsed p c c [] :=
  ⟨fun _ => .inl rfl, [], (List.append_nil _).symm, .nil⟩

theorem Parsed.mono (h : Parsed p' c c' kvs) (hle : p ≤ p') :
    Parsed p c c' kvs := ⟨h.1.mono hle, h.2⟩

/-- **Loop.**  By induction on the rounds: each ends behind the token it read. -/
theorem parsed_parseLoop (hs : Holds c.buf p s) (hn : s.length ≤ n) (hfit : s.length ≤ 256) :
    Parsed p c (parseLoop n p c) ((pairs s).take (16 - c.tokens.length)) := by
  induction n generalizing p s c with
  | zero =>
    rw [List.eq_nil_of_length_eq_zero (Nat.le_zero.mp hn), pairs_nil, List.take_nil]
    exact .refl
  | succ n ih =>
    rw [parseLoop]
    split
    case isFalse hstop =>
      have hnone : (pairs s).take (16 - c.tokens.length) = [] := by
        cases s with
        | nil => rw [pairs_nil, List.take_nil]
        | cons b s =>
          have hfull := mt (And.intro (hs.1 ▸ hs.2.1)) hstop
          rw [Nat.sub_eq_zero_of_le (Nat.le_of_not_lt hfull), List.take_zero]
      rw [hnone]
      exact .refl
    case isTrue hgo =>
    obtain ⟨t, s, rfl, ht, -, hscan, hkey⟩ :=
      exists_scan (q := fun b => b = 32) (n := 256) hs (by decide) hfit
    rw [List.length_append] at hn hfit
    rw [pairs_spaces fun b hb => of_decide_eq_true (ht b hb)]
    dsimp only
    rw [hscan]
    split
    case isTrue hend =>
      cases s with
      | nil =>
        rw [pairs_nil, List.take_nil]
        exact .refl
      | cons b s => exact absurd (hkey.1.symm.trans hend) hkey.2.1
    case isFalse hend =>
    obtain ⟨k, s, rfl, hk, hstop, hscan, hp⟩ :=
      exists_scan (q := fun b => b ≠ 0 ∧ b ≠ 32 ∧ b ≠ 61) (n := 256) hkey (by decide) (by omega)
    rw [List.length_append] at hn hfit
    have hspace : 32 ∉ k := fun hmem => (of_decide_eq_true (hk _ hmem)).2.1 rfl
    have hequals : 61 ∉ k := fun hmem => (of_decide_eq_true (hk _ hmem)).2.2 rfl
    have hnone : (keyValue k).toList = [] := by
      rw [keyValue, if_neg hequals]
      rfl
    rw [hscan]
    cases s with
    | nil =>
      have hzero : c.buf (p + t.length + k.length) = 0 := hp
      rw [if_neg (by rw [hzero]; decide), if_neg (not_not.mpr hzero), List.append_nil,
        pairs_word hspace, hnone, ← pairs_nil]
      exact (ih hp (Nat.zero_le _) (Nat.zero_le _)).mono (by omega)
    | cons b s =>
      rw [List.length_cons] at hn hfit
      rw [hp.1]
      split
      case isTrue heq =>
        subst heq
        obtain ⟨v, r, p', buf, hpairs, hlen, hend, hcut, hkey, hvalue, hle, hr⟩ :=
          endToken_spec hkey hspace hequals (by omega)
        rw [hend]
        dsimp only
        obtain ⟨hcut', new, hnew, hall⟩ :=
          ih (c := ⟨buf, c.tokens ++ [(p + t.length, p + t.length + k.length + 1)]⟩) hr (by omega)
            (by omega)
        rw [List.length_append, List.length_singleton] at hall
        rw [hpairs, show 16 - c.tokens.length = 16 - (c.tokens.length + 1) + 1 by
          omega, List.take_succ_cons]
        refine ⟨(hcut.mono (by omega)).trans (show p ≤ p' by omega) hcut',
          (p + t.length, p + t.length + k.length + 1) :: new, ?_,
          .cons ⟨hkey.cut (by omega) hcut', hvalue.cut hle hcut'⟩ hall⟩
        rw [hnew, List.append_assoc]
        rfl
      case isFalse heq =>
        obtain ⟨-, hne, hrest⟩ := hp
        obtain rfl : b = 32 := by
          by_contra h
          exact of_decide_eq_false (hstop b rfl) ⟨hne, h, heq⟩
        rw [if_pos hne, pairs_append hspace, hnone]
        exact (ih hrest (by omega) (by omega)).mono (by omega)

/-! ## Lookup -/

theorem cmdlineGet_spec (key : CStr)
    (h : List.Forall₂ (fun t kv => Holds c.buf t.1 kv.1 ∧ Holds c.buf t.2 kv.2) c.tokens kvs) :
    Option.Rel (Holds c.buf) (c.cmdlineGet key) (kvs.lookup key.1) := by
  have hkey : Holds key.mem 0 key.1 := holds_of_getD key.2 fun i _ => by rw [Nat.zero_add]; rfl
  unfold cmdlineGet
  generalize c.tokens = tokens at h
  induction h with
  | nil => exact .none
  | @cons t kv tokens kvs ht _ ih =>
    have hcmp := strncmp_eq_zero_iff ht.1 hkey
    rw [List.find?_cons]
    obtain ⟨k, v⟩ := kv
    by_cases heq : k = key.1
    · rw [List.lookup_cons, decide_eq_true (hcmp.mpr heq), heq, beq_self_eq_true]
      exact .some ht.2
    · rw [List.lookup_cons, decide_eq_false (mt hcmp.mp heq), beq_false_of_ne (Ne.symm heq)]
      exact ih

/-- **Lookup.**  Whatever was parsed before, `cmdline_get` points to the value of the key in the
command line, or is null if it has none. -/
theorem cmdlineGet_cmdlineParse (c : Cmdline) (raw : Option CStr) (key : CStr) :
    Option.Rel (Holds (c.cmdlineParse raw).buf) ((c.cmdlineParse raw).cmdlineGet key)
      (lookup (raw.elim [] Subtype.val) key.1) := by
  cases raw with
  | none => exact .none
  | some raw =>
    have hlen : (raw.1.take 255).length = if 256 ≤ raw.1.length then 255 else raw.1.length := by
      rw [List.length_take]
      split <;> omega
    have hcut : raw.1.take (raw.1.take 255).length = raw.1.take 255 := by
      rw [List.length_take, List.take_eq_take_iff]
      omega
    have hline : Holds (update (place c.buf 0 (raw.1.take 255)) (raw.1.take 255).length 0) 0
      (raw.1.take 255) := by
      refine holds_of_getD (fun hmem => raw.2 (List.mem_of_mem_take hmem)) fun i hi => ?_
      rw [Nat.zero_add]
      rcases Nat.lt_or_eq_of_le hi with hlt | rfl
      · rw [update_of_ne (by omega), place, if_pos (Nat.zero_le _), Nat.sub_zero,
          List.getD_eq_getElem?_getD, List.getElem?_eq_getElem hlt]
        rfl
      · rw [update_self]
        simp
    unfold cmdlineParse
    dsimp only [Option.elim_some]
    rw [← hlen, hcut]
    obtain ⟨-, new, hnew, hall⟩ :=
      parsed_parseLoop (c := ⟨_, []⟩) (n := 256) hline (by simp) (by simp)
    rw [List.nil_append] at hnew
    rw [← hnew] at hall
    exact cmdlineGet_spec key hall

end Cmdline

end Robu
