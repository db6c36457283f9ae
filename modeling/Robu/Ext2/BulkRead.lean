import Robu.Ext2.Overlay

/-!
# Reading a program in runs

`handle_read_bulk` reads blocks that follow each other on the disk with one device request.
What it hands over is what reading the file block by block gives.
-/

namespace Robu.Ext2

open Lib Fallible

variable {s : Server} {m n : Nat}

def readBlocks : List Nat → M (List Byte)
  | [] => pure []
  | b :: bs => do
    let geo := (← get).geo
    let buf ← blockRead b
    let rest ← readBlocks bs
    pure (getBytes buf 0 geo.blockSize ++ rest)

/-- A block size that `ext2_mount` accepts. -/
structure Geometry.Sized (geo : Geometry) : Prop where
  blockSize : geo.blockSize = 512 * geo.sectorsPerBlock
  pos : 0 < geo.sectorsPerBlock
  le : geo.sectorsPerBlock ≤ 8

namespace Server

def later (s : Server) (n : Nat) : Server :=
  { s with dev := { s.dev with time := s.dev.time + n } }

def Works (s : Server) (n : Nat) : Prop :=
  ∀ i < n, s.dev.faults (s.dev.time + i) = .none

def stretch (s : Server) (x n : Nat) : List Byte :=
  ((List.range' x n).map s.dev.disk).flatMap (getBytes · 0 512)

def content (s : Server) (blocks : List Nat) : List Byte :=
  blocks.flatMap fun b => s.stretch (b * s.geo.sectorsPerBlock) s.geo.sectorsPerBlock

theorem Works.later (h : s.Works (m + n)) : (s.later m).Works n := by
  intro i hi
  have := h (m + i) (by omega)
  rwa [← Nat.add_assoc] at this

theorem Works.of_add (h : s.Works (m + n)) : s.Works m := fun i hi => h i (by omega)

end Server

/-! ## Bytes of sectors and of blocks -/

theorem length_getBytes (buf : Bytes k) (off len : Nat) : (getBytes buf off len).length = len := by
  rw [getBytes, List.length_map, List.length_range]

theorem take_getBytes (buf : Bytes k) (off : Nat) (h : m ≤ n) :
    (getBytes buf off n).take m = getBytes buf off m := by
  rw [getBytes, ← List.map_take, List.take_range, Nat.min_eq_left h]
  rfl

/-- The bytes of a block are those of its sectors. -/
theorem getBytes_join (xs : List Sector) (h : xs.length ≤ 8) :
    getBytes (Bytes.join xs : Block) 0 (512 * xs.length) = xs.flatMap (getBytes · 0 512) := by
  have hbytes : getBytes (Bytes.join xs : Block) 0 (512 * xs.length) =
      (List.range (512 * xs.length)).map fun i => byteGet (xs.getD (i / 512) 0) (i % 512) := by
    refine List.map_congr_left fun i hi => BitVec.eq_of_getLsbD_eq fun j hj => ?_
    rw [List.mem_range] at hi
    have hdiv : (8 * i + j) / (8 * 512) = i / 512 := by omega
    have hmod : (8 * i + j) % (8 * 512) = 8 * (i % 512) + j := by omega
    rw [Nat.zero_add, byteGet, byteGet, Bytes.getLsbD_slice, Bytes.getLsbD_slice,
      Bytes.getLsbD_join _ (by omega) (by decide), hdiv, hmod]
  rw [hbytes]
  clear h hbytes
  induction xs with
  | nil => rfl
  | cons x xs ih =>
    rw [List.length_cons, Nat.mul_add_one 512, Nat.add_comm _ 512, List.range_add, List.map_append,
      List.map_map, List.flatMap_cons, ← ih]
    refine congrArg₂ _ (List.map_congr_left fun i hi => ?_) (List.map_congr_left fun i _ => ?_)
    · rw [List.mem_range] at hi
      rw [Nat.div_eq_of_lt hi, Nat.mod_eq_of_lt hi, Nat.zero_add, List.getD_cons_zero]
    · rw [Function.comp_apply, Nat.add_div_left i (by decide), Nat.add_mod_left,
        List.getD_cons_succ]

theorem stretch_add (x m n : Nat) : s.stretch x (m + n) = s.stretch x m ++ s.stretch (x + m) n := by
  rw [Server.stretch, ← List.range'_append_1, List.map_append, List.flatMap_append]
  rfl

/-- Blocks that follow each other are one stretch of the disk. -/
theorem content_range' (b n : Nat) :
    s.content (List.range' b n) = s.stretch (b * s.geo.sectorsPerBlock)
      (n * s.geo.sectorsPerBlock) := by
  induction n with
  | zero => rw [Nat.zero_mul]; rfl
  | succ n ih =>
    rw [List.range'_concat, Server.content, List.flatMap_append, ← Server.content, ih,
      List.flatMap_singleton, Nat.one_mul, Nat.add_mul b n, ← stretch_add, Nat.add_one_mul]

theorem length_content (hg : s.geo.Sized) (blocks : List Nat) :
    (s.content blocks).length = blocks.length * s.geo.blockSize := by
  simp [Server.content, Server.stretch, List.length_flatMap, length_getBytes, Function.comp_def,
    hg.blockSize, Nat.mul_comm 512]

/-! ## The two readers -/

theorem blockRead_works (hg : s.geo.Sized) (h : s.Works s.geo.sectorsPerBlock) (b : Nat) :
    ∃ buf, blockRead b s = (.ok buf, s.later s.geo.sectorsPerBlock) ∧
      getBytes buf 0 s.geo.blockSize = s.content [b] := by
  refine ⟨_, (bind_of_ok (get_apply s)).trans (bind_of_ok (blkdevRead_ok _ _ h)), ?_⟩
  have hjoin := getBytes_join
    ((List.range' (b * s.geo.sectorsPerBlock) s.geo.sectorsPerBlock).map s.dev.disk)
  rw [List.length_map, List.length_range', ← hg.blockSize] at hjoin
  rw [hjoin hg.le, Server.content, List.flatMap_singleton]
  rfl

theorem append_rest (m : M (List Byte)) (xs : List Byte) :
    ((do let rest ← m; pure (xs ++ rest)) s).1 = (m s).1.map (xs ++ ·) := by
  rw [bind_apply]
  obtain ⟨r | r, s'⟩ := m s <;> rfl

theorem readBlocks_works (hg : s.geo.Sized) {blocks : List Nat}
    (h : s.Works (blocks.length * s.geo.sectorsPerBlock)) : (readBlocks blocks s).1 =
      .ok (s.content blocks) := by
  induction blocks generalizing s with
  | nil => rfl
  | cons b bs ih =>
    rw [List.length_cons, Nat.succ_mul, Nat.add_comm] at h
    obtain ⟨buf, hread, hbuf⟩ := blockRead_works hg h.of_add b
    rw [readBlocks, bind_of_ok (get_apply s), bind_of_ok hread, append_rest,
      ih (s := s.later _) hg h.later, hbuf, Server.content, List.flatMap_singleton]
    rfl

theorem runLength_spec (limit b n : Nat) (bs : List Nat) :
    runLength limit b n bs ≤ n ∧ runLength limit b n bs ≤ bs.length ∧
      bs.take (runLength limit b n bs) = List.range' (b + 1) (runLength limit b n bs) := by
  fun_induction runLength with
  | case1 | case2 | case4 => simp
  | case3 limit b n c cs hc ih =>
    obtain ⟨rfl, hn⟩ := hc
    obtain ⟨h₁, h₂, h₃⟩ := ih
    rw [Nat.add_comm 1, List.take_succ_cons, h₃, List.range'_succ, List.length_cons]
    exact ⟨by omega, by omega, rfl⟩

/-- Without device errors the loop reads the file, if it is long enough. -/
theorem bulkRead_works {fuel : Nat} (hg : s.geo.Sized) {blocks : List Nat}
    (hfuel : blocks.length < fuel) (hz : 0 ∉ blocks)
    (h : s.Works (blocks.length * s.geo.sectorsPerBlock)) (size : Nat) :
    (bulkRead fuel blocks size s).1 = if (s.content blocks).length < size then .error (-1)
      else .ok ((s.content blocks).take size) := by
  induction fuel generalizing s blocks size with
  | zero => exact absurd hfuel (Nat.not_lt_zero _)
  | succ fuel ih =>
    cases blocks with
    | nil => cases size <;> rfl
    | cons b bs =>
      rw [List.length_cons] at hfuel h
      rw [List.mem_cons, not_or] at hz
      rw [bulkRead, bind_of_ok (get_apply s)]
      split
      · rename_i hs
        rw [hs, if_neg (Nat.not_lt_zero _)]
        rfl
      rw [if_neg (Ne.symm hz.1)]
      split
      · rename_i hs hlt
        -- the last piece of the file is less than a block
        rw [Nat.add_one_mul, Nat.add_comm] at h
        obtain ⟨buf, hread, hbuf⟩ := blockRead_works hg h.of_add b
        have hlen : size ≤ (s.content [b]).length := by
          rw [← hbuf, length_getBytes]
          exact hlt.le
        have hc : s.content (b :: bs) = s.content [b] ++ s.content bs :=
          @List.flatMap_append _ _ [b] bs _
        rw [bind_of_ok hread, append_rest, ih (s := s.later _) hg (by omega) hz.2 h.later, hc,
          if_neg (Nat.not_lt_zero _), if_neg (by rw [List.length_append]; omega),
            List.take_append_of_le_length hlen,
          ← hbuf, take_getBytes _ _ hlt.le]
        exact congrArg Except.ok (List.append_nil _)
      · rename_i hs hlt
        obtain ⟨hn, hlen, htake⟩ := runLength_spec (bulkReadSectors / s.geo.sectorsPerBlock - 1) b
          (size / s.geo.blockSize - 1) bs
        dsimp only
        generalize runLength _ b _ bs = more at hn hlen htake ⊢
        have hpos : 0 < s.geo.blockSize := hg.blockSize ▸ Nat.mul_pos (by decide) hg.pos
        have hone := Nat.div_pos (Nat.le_of_not_lt hlt) hpos
        have hle := (Nat.le_div_iff_mul_le hpos).mp
          (show 1 + more ≤ size / s.geo.blockSize by omega)
        have hl : bs.length + 1 = 1 + more + (bs.drop more).length := by
          rw [List.length_drop]
          omega
        have hc : s.content (b :: bs) = s.content (List.range' b (1 + more)) ++
          s.content (bs.drop more) := by
          rw [Server.content, Server.content, Server.content, ← List.flatMap_append, Nat.add_comm 1,
            List.range'_succ, ← htake, List.cons_append, List.take_append_drop]
        have hrun : (s.content (List.range' b (1 + more))).length =
          (1 + more) * s.geo.blockSize := by
          rw [length_content hg, List.length_range']
        rw [hl, Nat.add_mul (1 + more)] at h
        have hread := blkdevRead_ok (b * s.geo.sectorsPerBlock) _ h.of_add
        change _ = (_, s.later _) at hread
        rw [bind_of_ok hread, append_rest, hc,
          ih (s := s.later _) hg (by omega) (fun hm => hz.2 (List.mem_of_mem_drop hm)) h.later]
        rw [List.length_append, List.take_append, hrun,
          @List.take_of_length_le _ size _ (hrun.trans_le hle), content_range']
        change Except.map _ (if (s.content _).length < _ then _ else .ok ((s.content _).take _)) = _
        split
        · rw [if_pos (by omega)]
          rfl
        · rw [if_neg (by omega)]
          rfl

/-- **Reading in runs is reading block by block.**  If the device reads succeed, a file without
holes is read as by the loop over its blocks: the first `size` bytes of what that reads are
handed over, and it fails exactly when the blocks are too few. -/
theorem bulkRead_eq_readBlocks (hg : s.geo.Sized) (blocks : List Nat) (hz : 0 ∉ blocks)
    (h : s.Works (blocks.length * s.geo.sectorsPerBlock)) (size : Nat) :
    ∃ bytes, (readBlocks blocks s).1 = .ok bytes ∧ bytes.length = blocks.length * s.geo.blockSize ∧
      (bulkRead (blocks.length + 1) blocks size s).1 =
        if bytes.length < size then .error (-1) else .ok (bytes.take size) :=
  ⟨s.content blocks, readBlocks_works hg h, length_content hg blocks,
    bulkRead_works hg (Nat.lt_succ_self _) hz h size⟩

/-- Three blocks of the blank volume, the first two one run. -/
theorem bulkRead_eq_readBlocks_blank :
    ∃ bytes, (readBlocks [40, 41, 50] (blankServer fun _ => .none)).1 = .ok bytes ∧
      bytes.length = 3 * 1024 ∧
      (bulkRead 4 [40, 41, 50] 2500 (blankServer fun _ => .none)).1 =
        if bytes.length < 2500 then .error (-1) else .ok (bytes.take 2500) :=
  bulkRead_eq_readBlocks ⟨rfl, by decide, by decide⟩ _ (by decide) (fun _ _ => rfl) _

end Robu.Ext2
