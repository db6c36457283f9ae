import Robu.Lib.Memory
import Robu.Spawn.Decode

/-!
# USB disks

`xhci_rw` reads and writes sectors of a disk behind two bulk endpoints.  Each SCSI command takes
three transfers, through one buffer of 64 KiB: a command block, the data, and a status block.

The disk obeys the protocols, but a transfer may end with an error or not at all, and a command may
fail.  What the disk decides is its `Fate`, one for each transfer.
-/

namespace Robu.Usb

open Lib Lib.Fallible
open Spawn (Mem wordAt)

/-! ## Blocks -/

def le32 (x : BitVec 32) : List (BitVec 8) :=
  [x.extractLsb' 0 8, x.extractLsb' 8 8, x.extractLsb' 16 8, x.extractLsb' 24 8]

def be32 (x : BitVec 32) : List (BitVec 8) := (le32 x).reverse

def be16 (x : BitVec 16) : List (BitVec 8) := [x.extractLsb' 8 8, x.extractLsb' 0 8]

def bytes (xs : List (BitVec 8)) : Mem := fun i => xs.getD i 0

def cbw (tag transferLength : BitVec 32) (dataIn : Bool) (cdb : List (BitVec 8)) : Mem :=
  bytes (le32 0x43425355 ++ le32 tag ++ le32 transferLength ++
    [if dataIn then 0x80 else 0, 0, BitVec.ofNat 8 cdb.length] ++ cdb)

def csw (tag residue : BitVec 32) (status : BitVec 8) : Mem :=
  bytes (le32 0x53425355 ++ le32 tag ++ le32 residue ++ [status])

/-! ## The disk -/

structure Command where
  tag : BitVec 32
  length : Nat
  dataIn : Bool
  opcode : BitVec 8
  lba : Nat
  blocks : Nat

def Command.ofBytes (b : Mem) : Command where
  tag := wordAt b 4
  length := (wordAt b 8).toNat
  dataIn := b 12 = 0x80
  opcode := b 15
  lba := (b 17 ++ b 18 ++ b 19 ++ b 20).toNat
  blocks := (b 22 ++ b 23).toNat

inductive Phase
  | idle
  | data (c : Command)
  /-- It has the status of a command. -/
  | status (tag : BitVec 32) (good : Bool)
  /-- A transfer did not complete, or is not one of the protocol. -/
  | stuck

structure Fate where
  completes : Bool
  passes : Bool
  bytes : Mem
  residue : BitVec 32

structure Disk where
  medium : Mem
  capacity : Nat
  phase : Phase := .idle

namespace Disk
variable (f : Fate) (d : Disk)

def Fits (c : Command) (dataIn : Bool) (opcode : BitVec 8) (len : Nat) : Prop :=
  c.dataIn = dataIn ∧ c.opcode = opcode ∧ len = c.length ∧ c.length = c.blocks * 512 ∧
    c.lba + c.blocks ≤ d.capacity
deriving Decidable

def receive (len : Nat) (b : Mem) : Disk :=
  match d.phase with
  | .idle =>
    let c := Command.ofBytes b
    if len = 31 ∧ wordAt b 0 = 0x43425355 then
      { d with phase := if c.length = 0 then .status c.tag f.passes else .data c }
    else { d with phase := .stuck }
  | .data c =>
    -- a command that fails may have written some of its sectors
    if d.Fits c false 0x2A len then
      { d with
        medium := copy d.medium (c.lba * 512) len (if f.passes then b else f.bytes)
        phase := .status c.tag f.passes }
    else { d with phase := .status c.tag false }
  | _ => { d with phase := .stuck }

def send (len : Nat) : Mem × Disk :=
  match d.phase with
  | .data c =>
    if d.Fits c true 0x28 len ∧ f.passes then
      (fun i => d.medium (c.lba * 512 + i), { d with phase := .status c.tag true })
    else (f.bytes, { d with phase := .status c.tag false })
  | .status tag good =>
    (csw tag f.residue (if good then 0 else 1),
      { d with phase := if len = 13 then .idle else .stuck })
  | _ => (f.bytes, { d with phase := .stuck })

def abort : Disk :=
  match d.phase with
  | .data c =>
    if d.Fits c false 0x2A c.length then
      { d with medium := copy d.medium (c.lba * 512) c.length f.bytes, phase := .stuck }
    else { d with phase := .stuck }
  | _ => { d with phase := .stuck }

end Disk

/-! ## The driver -/

/-- `g_data`, `g_capacity` and `g_tag`, the disk, and what was done so far: the commands, and the
parts of the buffer that were transferred. -/
structure Host where
  data : Mem
  capacity : Nat
  tag : BitVec 32
  disk : Disk
  commands : List Command := []
  transfers : List (Nat × Nat) := []

abbrev M := Fallible Host PUnit

def Host.transfer (h : Host) (f : Fate) (dataIn : Bool) (off len : Nat) : Host :=
  { h with
    transfers := h.transfers ++ [(off, len)]
    data := if dataIn then
      copy h.data off len (if f.completes then (h.disk.send f len).1 else f.bytes) else h.data
    disk := if f.completes then if dataIn then
      (h.disk.send f len).2 else h.disk.receive f len fun i => h.data (off + i)
      else h.disk.abort f }

section
variable (w : Nat → Fate)

def transferSubmit (dataIn : Bool) (off len : Nat) : M PUnit := do
  let f := w (← get).transfers.length
  modify fun h => h.transfer f dataIn off len
  failIf (f.completes = false) ⟨⟩

/-- The three transfers of `bot_command`, and the check of the status block. -/
def exchange (dataIn : Bool) (bytes : Nat) : M PUnit := do
  let tag := (← get).tag
  transferSubmit w false 0 31
  onlyIf (bytes ≠ 0) (transferSubmit w dataIn 64 bytes)
  transferSubmit w true (65536 - 16) 13
  let data := (← get).data
  failIf (wordAt data (65536 - 16) ≠ 0x53425355 ∨ wordAt data (65536 - 12) ≠ tag ∨
    data (65536 - 4) ≠ 0) ⟨⟩

def botCommand (cdb : List (BitVec 8)) (dataIn : Bool) (bytes : Nat) : M PUnit := do
  failIf (65536 - 64 - 13 < bytes) ⟨⟩
  modify fun h =>
    let tag := h.tag + 1
    let data := copy h.data 0 31 (cbw tag (BitVec.ofNat 32 bytes) dataIn cdb)
    { h with tag, data, commands := h.commands ++ [Command.ofBytes data] }
  exchange w dataIn bytes

def rwCdb (write : Bool) (sector chunk : Nat) : List (BitVec 8) :=
  [if write then 0x2A else 0x28, 0] ++ be32 (BitVec.ofNat 32 sector) ++ [0] ++
    be16 (BitVec.ofNat 16 chunk) ++ [0]

/-- The loop of `xhci_rw`, from byte `pos` of the caller's buffer on. -/
def rwLoop (write : Bool) : Nat → Nat → Nat → Nat → Mem → M Mem
  | 0, _, _, _, buf => pure buf
  | fuel + 1, sector, count, pos, buf =>
    if count = 0 then pure buf
    else do
      let chunk := if 127 < count then 127 else count
      let byteCount := chunk * 512
      failIf (0xFFFFFFFF < sector) ⟨⟩
      onlyIf write (modify fun h =>
        { h with data := copy h.data 64 byteCount fun i => buf (pos + i) })
      botCommand w (rwCdb write sector chunk) (!write) byteCount
      let data := (← get).data
      rwLoop write fuel (sector + chunk) (count - chunk) (pos + byteCount)
        (if write then buf else copy buf pos byteCount fun i => data (64 + i))

def xhciRw (sector count : Nat) (buf : Mem) (write : Bool) : M Mem := do
  let capacity := (← get).capacity
  failIf (capacity = 0 ∨ capacity ≤ sector ∨ capacity - sector < count) ⟨⟩
  rwLoop w write count sector count 0 buf

end

/-! ## Transfers -/

variable {w : Nat → Fate} {f : Fate} {h h' : Host} {mem buf b : Mem} {x : Nat × Nat}
variable {pos off len sector chunk count : Nat} {dataIn write : Bool} {tag : BitVec 32}

theorem append_bytes32 (y : BitVec 32) :
    y.extractLsb' 24 8 ++ y.extractLsb' 16 8 ++ y.extractLsb' 8 8 ++ y.extractLsb' 0 8 = y := by
  rw [BitVec.extractLsb'_append_extractLsb'_eq_extractLsb' (by omega),
    BitVec.extractLsb'_append_extractLsb'_eq_extractLsb' (by omega),
    BitVec.extractLsb'_append_extractLsb'_eq_extractLsb' (by omega)]
  exact BitVec.extractLsb'_eq_self

theorem append_bytes16 (y : BitVec 16) : y.extractLsb' 8 8 ++ y.extractLsb' 0 8 = y := by
  rw [BitVec.extractLsb'_append_extractLsb'_eq_extractLsb' (by omega)]
  exact BitVec.extractLsb'_eq_self

def rwCommand (tag : BitVec 32) (write : Bool) (sector chunk : Nat) : Command :=
  ⟨tag, chunk * 512, !write, if write then 0x2A else 0x28, sector, chunk⟩

/-- The disk reads the command that the driver wrote. -/
theorem ofBytes_cbw (hs : sector < 2 ^ 32) (hn : chunk ≤ 127)
    (hb : ∀ i < 31, b i = cbw tag (BitVec.ofNat 32 (chunk * 512)) (!write)
      (rwCdb write sector chunk) i) :
    wordAt b 0 = 0x43425355 ∧ Command.ofBytes b = rwCommand tag write sector chunk := by
  have hword : ∀ off < 28,
    wordAt b off = wordAt
    (cbw tag (BitVec.ofNat 32 (chunk * 512)) (!write) (rwCdb write sector chunk)) off := by
    intro off hoff
    rw [wordAt, wordAt, hb _ (by omega), hb _ (by omega), hb _ (by omega), hb _ (by omega)]
  refine ⟨(hword 0 (by decide)).trans (append_bytes32 _), ?_⟩
  unfold Command.ofBytes rwCommand
  congr 1
  · exact (hword 4 (by decide)).trans (append_bytes32 _)
  · rw [(hword 8 (by decide)).trans (append_bytes32 _), BitVec.toNat_ofNat]
    omega
  · rw [hb 12 (by decide)]
    cases write <;> rfl
  · exact hb 15 (by decide)
  · rw [hb 17 (by decide), hb 18 (by decide), hb 19 (by decide), hb 20 (by decide)]
    refine (congrArg BitVec.toNat (append_bytes32 _)).trans ?_
    rw [BitVec.toNat_ofNat]
    omega
  · rw [hb 22 (by decide), hb 23 (by decide)]
    refine (congrArg BitVec.toNat (append_bytes16 _)).trans ?_
    rw [BitVec.toNat_ofNat]
    omega

theorem ends_transferSubmit : Ends (transferSubmit w dataIn off len) h
    (fun _ h' => ∃ f : Fate, f.completes = true ∧ h' = h.transfer f dataIn off len)
    (fun _ h' => ∃ f : Fate, f.completes = false ∧ h' = h.transfer f dataIn off len) :=
  .get_bind (.modify_bind (.failIf (fun hc => ⟨_, hc, rfl⟩) fun hc =>
    ⟨_, Bool.not_eq_false _ ▸ hc, rfl⟩))

/-- The part of the buffer is the command block, the status block, or apart from both. -/
def Apart (x : Nat × Nat) : Prop := x = (0, 31) ∨ x = (65520, 13) ∨ 31 ≤ x.1 ∧ x.1 + x.2 ≤ 65520

/-- **Safe.**  New transfers are of parts that do not overlap, and new commands stay below the
capacity. -/
structure Safe (h h' : Host) : Prop where
  capacity : h'.capacity = h.capacity
  transfers : ∀ x ∈ h'.transfers, x ∈ h.transfers ∨ Apart x
  commands : ∀ c ∈ h'.commands, c ∈ h.commands ∨ c.lba + c.blocks ≤ h.capacity

theorem Safe.refl : Safe h h := ⟨rfl, fun _ => .inl, fun _ => .inl⟩

theorem Safe.trans {h'' : Host} (hs : Safe h h') (hs' : Safe h' h'') : Safe h h'' := by
  refine ⟨hs'.capacity.trans hs.capacity, fun x hx => ?_, fun c hc => ?_⟩
  · exact (hs'.transfers x hx).elim (hs.transfers x) .inr
  · exact (hs'.commands c hc).elim (hs.commands c) fun hlt => .inr (hs.capacity ▸ hlt)

theorem Safe.transfer (hs : Safe h h') (hx : Apart (off, len)) :
    Safe h (h'.transfer f dataIn off len) := by
  refine hs.trans ⟨rfl, fun y hy => ?_, fun _ => .inl⟩
  rcases List.mem_append.mp hy with hy | hy
  · exact .inl hy
  · rw [List.mem_singleton.mp hy]
    exact .inr hx

/-- What a command has done: the sectors are in the buffer, or have what was there. -/
def Carried (write : Bool) (sector n : Nat) (h h' : Host) : Prop :=
  if write then h'.disk.medium = copy h.disk.medium (sector * 512) n fun i => h.data (64 + i)
  else h'.disk.medium = h.disk.medium ∧ ∀ i < n, h'.data (64 + i) = h.disk.medium (sector * 512 + i)

/-- The data of a command that passes. -/
theorem carried_transfer (hc : f.completes = true)
    (hphase : h.disk.phase = .data (rwCommand tag write sector chunk)) : ∃ good,
      (h.transfer f (!write) 64 (chunk * 512)).disk.phase = .status tag good ∧
      (good = true → Carried write sector (chunk * 512) h
        (h.transfer f (!write) 64 (chunk * 512))) := by
  unfold Host.transfer Carried
  dsimp only
  rw [if_pos hc]
  cases write with
  | true =>
    rw [Bool.not_true, if_neg Bool.false_ne_true, Disk.receive, hphase]
    dsimp only
    split
    · refine ⟨f.passes, rfl, fun hgood => ?_⟩
      rw [if_pos rfl, hgood]
      rfl
    · exact ⟨false, rfl, nofun⟩
  | false =>
    rw [Bool.not_false, if_pos rfl, if_pos rfl, if_neg Bool.false_ne_true, if_pos hc,
      Disk.send, hphase]
    dsimp only
    split
    · exact ⟨true, rfl, fun _ => ⟨rfl, fun i hi => copy_add hi⟩⟩
    · exact ⟨false, rfl, nofun⟩

theorem status_transfer {good : Bool} (hc : f.completes = true)
    (hphase : h.disk.phase = .status tag good) : (h.transfer f true 65520 13).disk.phase = .idle ∧
      (h.transfer f true 65520 13).disk.medium = h.disk.medium ∧
      ((h.transfer f true 65520 13).data 65532 = 0 → good = true) ∧
      ∀ a < 65520, (h.transfer f true 65520 13).data a = h.data a := by
  unfold Host.transfer
  dsimp only
  rw [if_pos hc, if_pos rfl, if_pos rfl, if_pos hc, Disk.send, hphase]
  refine ⟨rfl, rfl, fun hzero => ?_, fun a ha => if_neg (by omega)⟩
  have hstatus : (if good then 0 else 1 : BitVec 8) = 0 :=
    (copy_add (i := 12) (by decide)).symm.trans hzero
  cases good with
  | true => rfl
  | false => cases hstatus

/-- **Exchange.**  It ends well only if the disk says that the command was carried out. -/
theorem ends_exchange (hidle : h.disk.phase = .idle) (hpos : 0 < chunk) (hn : chunk ≤ 127)
    (hsignature : wordAt h.data 0 = 0x43425355)
    (hcommand : Command.ofBytes h.data = rwCommand h.tag write sector chunk) :
    Ends (exchange w (!write) (chunk * 512)) h
      (fun _ h' => h'.disk.phase = .idle ∧ Safe h h' ∧ Carried write sector (chunk * 512) h h')
      (fun _ h' => Safe h h') := by
  have hdata : Apart (64, chunk * 512) := .inr (.inr (by dsimp only; omega))
  -- the command
  refine .get_bind (.bind (P := fun _ h₁ => Safe h h₁ ∧ h₁.data = h.data ∧
    h₁.disk = { h.disk with phase := .data (rwCommand h.tag write sector chunk) })
      (ends_transferSubmit.mono ?_ ?_) ?_)
  · rintro _ _ ⟨f, hc, rfl⟩
    refine ⟨Safe.refl.transfer (.inl rfl), rfl, ?_⟩
    unfold Host.transfer
    dsimp only
    simp only [Nat.zero_add]
    rw [if_pos hc, if_neg Bool.false_ne_true, Disk.receive, hidle]
    dsimp only
    rw [if_pos ⟨rfl, hsignature⟩, hcommand,
      if_neg (show (rwCommand h.tag write sector chunk).length ≠ 0 from
      (by omega : chunk * 512 ≠ 0))]
  · rintro _ _ ⟨f, -, rfl⟩
    exact Safe.refl.transfer (.inl rfl)
  rintro _ h₁ ⟨hsafe, hsame, hdisk⟩
  -- the data
  refine .bind (P := fun _ h₂ => Safe h h₂ ∧ ∃ good, h₂.disk.phase = .status h.tag good ∧
    (good = true → Carried write sector (chunk * 512) h h₂))
      (.onlyIf (fun _ => ends_transferSubmit.mono ?_ ?_) fun hzero => ?_) ?_
  · rintro _ _ ⟨f, hc, rfl⟩
    have hphase : h₁.disk.phase = .data (rwCommand h.tag write sector chunk) := by rw [hdisk]
    obtain ⟨good, hphase, hcarried⟩ := carried_transfer hc hphase
    refine ⟨hsafe.transfer hdata, good, hphase, fun hgood => ?_⟩
    have := hcarried hgood
    unfold Carried at this ⊢
    rwa [hdisk, hsame] at this
  · rintro _ _ ⟨f, -, rfl⟩
    exact hsafe.transfer hdata
  · exact absurd (of_decide_eq_false hzero) (not_not.mpr (by omega))
  rintro _ h₂ ⟨hsafe, good, hphase, hcarried⟩
  -- the status
  refine .bind (P := fun _ h₃ => h₃.disk.phase = .idle ∧ Safe h h₃ ∧
    (h₃.data (65536 - 4) = 0 → Carried write sector (chunk * 512) h h₃))
      (ends_transferSubmit.mono ?_ ?_) ?_
  · rintro _ _ ⟨f, hc, rfl⟩
    obtain ⟨hidle, hmedium, hgood, hbelow⟩ := status_transfer hc hphase
    refine ⟨hidle, hsafe.transfer (.inr (.inl rfl)), fun hzero => ?_⟩
    have hdone := hcarried (hgood hzero)
    unfold Carried at hdone ⊢
    rw [hmedium]
    split
    · rwa [if_pos ‹_›] at hdone
    · rw [if_neg ‹_›] at hdone
      exact ⟨hdone.1, fun i hi => (hbelow _ (by omega)).trans (hdone.2 i hi)⟩
  · rintro _ _ ⟨f, -, rfl⟩
    exact hsafe.transfer (.inr (.inl rfl))
  rintro _ h₃ ⟨hidle, hsafe, hcarried⟩
  refine .get_bind (.failIf (fun _ => hsafe) fun hstatus => ⟨hidle, hsafe, hcarried ?_⟩)
  rw [not_or, not_or, not_not, not_not, not_not] at hstatus
  exact hstatus.2.2

/-- **Command.** -/
theorem ends_botCommand (hidle : h.disk.phase = .idle) (hs : sector < 2 ^ 32) (hpos : 0 < chunk)
    (hn : chunk ≤ 127) (hcap : sector + chunk ≤ h.capacity) :
    Ends (botCommand w (rwCdb write sector chunk) (!write) (chunk * 512)) h
      (fun _ h' => h'.disk.phase = .idle ∧ Safe h h' ∧ Carried write sector (chunk * 512) h h')
      (fun _ h' => Safe h h') := by
  refine .check (fun hlarge => absurd hlarge (by omega)) fun _ => .modify_bind ?_
  dsimp only
  generalize hblock : copy h.data 0 31 _ = data
  have hbytes : ∀ i < 31, data i = cbw (h.tag + 1) (BitVec.ofNat 32 (chunk * 512)) (!write)
    (rwCdb write sector chunk) i :=
    fun i hi => hblock ▸ if_pos ⟨Nat.zero_le i, by omega⟩
  have hrest : ∀ i, data (64 + i) = h.data (64 + i) := fun i => hblock ▸ if_neg (by omega)
  obtain ⟨hsignature, hcommand⟩ := ofBytes_cbw hs hn hbytes
  rw [hcommand]
  have hsafe : Safe h { h with
      data, tag := h.tag + 1, commands :=
        h.commands ++ [rwCommand (h.tag + 1) write sector chunk] } := by
    refine ⟨rfl, fun _ => .inl, fun c hc => (List.mem_append.mp hc).imp_right fun hc => ?_⟩
    rw [List.mem_singleton.mp hc]
    exact hcap
  refine (ends_exchange (h := { h with data, tag := _, commands := _ }) hidle hpos hn hsignature
    hcommand).mono ?_
    fun _ _ => hsafe.trans
  rintro _ h' ⟨hidle', hsafe', hcarried⟩
  refine ⟨hidle', hsafe.trans hsafe', ?_⟩
  unfold Carried at hcarried ⊢
  simpa only [hrest] using hcarried

/-- What a call has done: the sectors have the bytes of the buffer, or the buffer those of the
sectors. -/
def Moved (write : Bool) (sector count pos : Nat) (buf buf' medium medium' : Mem) : Prop :=
  if write then buf' = buf ∧ medium' = copy medium (sector * 512) (count * 512) fun i =>
    buf (pos + i)
  else medium' = medium ∧ buf' = copy buf pos (count * 512) fun i => medium (sector * 512 + i)

theorem moved_zero : Moved write sector 0 pos buf buf mem mem := by
  unfold Moved
  rw [Nat.zero_mul, copy_zero, copy_zero]
  split <;> exact ⟨rfl, rfl⟩

/-- **Loop.**  By induction on the rounds: each moves the sectors of one command. -/
theorem ends_rwLoop {fuel : Nat} (hidle : h.disk.phase = .idle) (hfuel : count ≤ fuel)
    (hcap : sector + count ≤ h.capacity) :
    Ends (rwLoop w write fuel sector count pos buf) h
      (fun buf' h' => Safe h h' ∧
        Moved write sector count pos buf buf' h.disk.medium h'.disk.medium)
      (fun _ h' => Safe h h') := by
  induction fuel generalizing sector count pos buf h with
  | zero =>
    obtain rfl := Nat.le_zero.mp hfuel
    exact .pure ⟨.refl, moved_zero⟩
  | succ fuel ih =>
    rw [rwLoop]
    split
    · rename_i hzero
      subst hzero
      exact .pure ⟨.refl, moved_zero⟩
    generalize hchunk : (if 127 < count then 127 else count) = chunk
    have hfit : 0 < chunk ∧ chunk ≤ 127 ∧ chunk ≤ count := by split at hchunk <;> omega
    dsimp only
    refine .check (fun _ => .refl) fun hsector =>
      .bind (P := fun _ h₀ => Safe h h₀ ∧ h₀.disk = h.disk ∧
        (write = true → ∀ i < chunk * 512, h₀.data (64 + i) = buf (pos + i)))
        (.onlyIf (fun _ => .modify ?_) ?_) ?_
    · exact ⟨⟨rfl, fun _ => .inl, fun _ => .inl⟩, rfl, fun _ _ hi =>
        copy_add (f := fun i => buf (pos + i)) hi⟩
    · rintro rfl
      exact ⟨.refl, rfl, nofun⟩
    rintro _ h₀ ⟨hsafe, hdisk, hout⟩
    refine .bind ((ends_botCommand (hdisk ▸ hidle)
      (by omega) hfit.1 hfit.2.1 (by rw [hsafe.capacity]; omega)).mono (fun _ _ => id) fun _ _ =>
        hsafe.trans) ?_
    rintro _ h₁ ⟨hidle₁, hsafe₁, hcarried⟩
    replace hsafe := hsafe.trans hsafe₁
    refine .get_bind ((ih hidle₁ (by omega) (by rw [hsafe.capacity]; omega)).mono ?_ fun _ _ =>
      hsafe.trans)
    rintro buf' h' ⟨hsafe', hmoved⟩
    refine ⟨hsafe.trans hsafe', ?_⟩
    unfold Carried at hcarried
    unfold Moved at hmoved ⊢
    rw [hdisk] at hcarried
    rw [Nat.add_mul] at hmoved
    rw [show count * 512 = chunk * 512 + (count - chunk) * 512 by omega]
    cases write with
    | true =>
      obtain ⟨rfl, hmedium⟩ := hmoved
      refine ⟨rfl, hmedium.trans ?_⟩
      rw [show h₁.disk.medium = _ from hcarried]
      exact copy_copy (hout rfl) fun i => by rw [if_pos rfl, Nat.add_assoc]
    | false =>
      obtain ⟨hmedium, hin⟩ := hcarried
      refine ⟨hmoved.1.trans hmedium, hmoved.2.trans ?_⟩
      rw [hmedium]
      exact copy_copy hin fun i => by rw [Nat.add_assoc]

/-- **Exact.**  With no transfer outstanding, a read that succeeds returns the bytes of the
sectors, and a write that succeeds changes these sectors, to the bytes it was given.  However it
ends, all commands stay below the capacity, and the data is apart from the command block and the
status block. -/
theorem xhciRw_exact (hidle : h.disk.phase = .idle) (w : Nat → Fate) (sector count : Nat)
    (buf : Mem) : (∀ buf' h', xhciRw w sector count buf false h = (.ok buf', h') →
      h'.disk.medium = h.disk.medium ∧ buf' = copy buf 0 (count * 512) fun i =>
        h.disk.medium (sector * 512 + i)) ∧
    (∀ buf' h', xhciRw w sector count buf true h = (.ok buf', h') →
      h'.disk.medium = copy h.disk.medium (sector * 512) (count * 512) buf) ∧
    ∀ write, Safe h (xhciRw w sector count buf write h).2 := by
  have hends : ∀ write, Ends (xhciRw w sector count buf write) h
      (fun buf' h' => Safe h h' ∧ Moved write sector count 0 buf buf' h.disk.medium h'.disk.medium)
      (fun _ h' => Safe h h') := by
    intro write
    refine .get_bind (.check (fun _ => .refl) fun hin => ends_rwLoop hidle (Nat.le_refl _) ?_)
    omega
  refine ⟨fun buf' h' hrun => ((hends false).ok buf' h' hrun).2, fun buf' h' hrun =>
    ?_, fun write => ?_⟩
  · have hmoved := ((hends true).ok buf' h' hrun).2.2
    simpa only [Nat.zero_add] using hmoved
  · exact Ends.snd ((hends write).mono (fun _ _ => And.left) fun _ _ => id)

def fourSectors : Host where
  data _ := 0
  capacity := 4
  tag := 0
  disk := { medium := fun a => BitVec.ofNat 8 (a / 512), capacity := 4 }

theorem xhciRw_exact_fourSectors : ∃ buf' h',
    xhciRw (fun _ => ⟨true, true, fun _ => 0, 0⟩) 1 3 (fun _ => 0) false fourSectors =
      (.ok buf', h') ∧
      buf' = copy (fun _ => 0) 0 1536 fun i => BitVec.ofNat 8 ((512 + i) / 512) := by
  obtain ⟨buf', hbuf⟩ : ∃ buf',
    (xhciRw (fun _ => ⟨true, true, fun _ => 0, 0⟩) 1 3 (fun _ => 0) false fourSectors).1 =
    .ok buf' :=
    ⟨_, rfl⟩
  exact ⟨buf', _, Prod.ext hbuf rfl, ((xhciRw_exact rfl _ 1 3 _).1 buf' _ (Prod.ext hbuf rfl)).2⟩

end Robu.Usb
