import Robu.Ext2.Frames
import Robu.Ext2.Image

/-!
# Which program is loaded

A program is looked up by its name in five directories of the tree.  The server resolves their
paths for the first program it loads, and keeps the inode numbers from then on: whatever clients
do to the tree meanwhile, later programs are looked up in the directories of the first load
(`bulkSearchDirs_calls`).  A directory that is renamed, removed or created later is not noticed.
-/

namespace Robu.Ext2

open Lib Fallible

/-! ## The file a name stands for -/

def programIn (dirs : List Nat) (name : List Byte) (s : Server) : Option Nat :=
  (bulkResolveName dirs 8 (cString (name.take 24)) s).1.toOption.map Found.ino

def searchDirs (s : Server) : List Nat :=
  (bulkResolveSearchDirs bulkSearchPaths s).1.toOption.getD []

/-- **The tree.**  The inode that a name stands for: the search paths are resolved in the tree as it
is, and the name is looked up in the directories they lead to. -/
def inTree (name : List Byte) (s : Server) : Option Nat := programIn (searchDirs s) name s

def chosen (name : List Byte) (s : Server) : Option Nat :=
  (bulkFind name s).1.toOption.map Found.ino

def firstDirs : List Call → Server → Option (List Nat)
  | [], _ => none
  | c :: cs, s =>
    match c.request with
    | .readBulk _ _ => some (searchDirs (s.receive c))
    | _ => firstDirs cs (call c s).2

/-! ## Namespace events -/

def Server.quiet (s : Server) : Server := { s with dev := { s.dev with faults := fun _ => .none } }

def Stays : List Call → Server → Prop
  | [], _ => True
  | c :: cs, s => searchDirs (call c s).2.quiet = searchDirs s.quiet ∧ Stays cs (call c s).2

/-- No request from the first load on changes where a search path leads, and the first load meets no
device error. -/
def Settled : List Call → Server → Prop
  | [], _ => True
  | c :: cs, s =>
    match c.request with
    | .readBulk _ _ => (∀ n, c.faults n = .none) ∧ Stays (c :: cs) s
    | _ => Settled cs (call c s).2

/-! ## States with the same tree -/

def Server.Calm (s : Server) : Prop := ∀ n, s.dev.faults n = .none

/-- The states have the same tree, and the same device errors. -/
structure SameTree (s s' : Server) : Prop where
  geo : s.geo = s'.geo
  journal : s.journal = s'.journal
  disk : s.dev.disk = s'.dev.disk
  faults : s.dev.faults = s'.dev.faults

instance : TickFrame SameTree where
  refl _ := ⟨rfl, rfl, rfl, rfl⟩
  trans _ _ _ h h' := ⟨h.geo.trans h'.geo, h.journal.trans h'.journal, h.disk.trans h'.disk,
    h.faults.trans h'.faults⟩
  tick _ := ⟨rfl, rfl, rfl, rfl⟩

def SameCalm (s s' : Server) : Prop := s.Calm ∧ SameTree s s'

/-- Without errors, it does not matter when something is read. -/
instance : ReadFrame SameCalm where
  geo h := h.2.geo
  journal h := h.2.journal
  read x := by
    rintro s s' ⟨hcalm, h⟩
    have hcalm' : s'.dev.faults s'.dev.time = .none := by rw [← h.faults, hcalm]
    unfold readSector
    rw [hcalm, hcalm', h.disk]
    exact ⟨rfl, hcalm, h.geo, h.journal, h.disk, h.faults⟩

variable {s s' : Server}

theorem searchDirs_congr (h : SameCalm s s') : searchDirs s = searchDirs s' := by
  rw [searchDirs, searchDirs, (reads_bulkResolveSearchDirs bulkSearchPaths s s' h).1]

theorem programIn_congr (h : SameCalm s s') (dirs : List Nat) (name : List Byte) :
    programIn dirs name s = programIn dirs name s' := by
  rw [programIn, programIn, (reads_bulkResolveName dirs 8 (cString (name.take 24)) s s' h).1]

/-- A request without device errors finds the search paths where the one before left them. -/
theorem searchDirs_receive {c : Call} (hc : ∀ n, c.faults n = .none) (s : Server) :
    searchDirs (s.receive c) = searchDirs s.quiet :=
  searchDirs_congr ⟨hc, rfl, rfl, rfl, funext hc⟩

/-! ## The directories of the first load -/

/-- Resolving a search path does not fail: a path that leads nowhere counts as 0. -/
theorem bulkResolveSearchDirs_ok (paths : List (List Byte)) (s : Server) :
    ∃ dirs s', bulkResolveSearchDirs paths s = (.ok dirs, s') := by
  induction paths generalizing s with
  | nil => exact ⟨[], s, rfl⟩
  | cons path paths ih =>
    have hdir : ∃ ino s', bulkSearchDir path s = (.ok ino, s') := by
      unfold bulkSearchDir
      refine attempt_bind_ok (fun dir s => ?_) s
      cases dir <;> exact ⟨_, _, rfl⟩
    obtain ⟨ino, s₁, hdir⟩ := hdir
    obtain ⟨dirs, s₂, hrest⟩ := ih s₁
    refine ⟨ino :: dirs, s₂, ?_⟩
    unfold bulkResolveSearchDirs
    rw [bind_of_ok hdir, bind_of_ok hrest]
    rfl

/-- **The cache.**  Programs are looked up in the directories kept, or else in those that the search
paths lead to now, which are kept. -/
theorem bulkDirs_eq (s : Server) :
    ∃ s', bulkDirs s = (.ok (s.bulkSearchDirs.getD (searchDirs s)), s') ∧ SameTree s s' ∧
      s'.bulkSearchDirs = some (s.bulkSearchDirs.getD (searchDirs s)) := by
  unfold bulkDirs
  rw [bind_of_ok (get_apply s)]
  cases hcached : s.bulkSearchDirs with
  | some dirs => exact ⟨s, rfl, refl_of SameTree s, hcached⟩
  | none =>
    obtain ⟨dirs, s₁, hdirs⟩ := bulkResolveSearchDirs_ok bulkSearchPaths s
    have hsame : SameTree s s₁ := (keeps_bulkResolveSearchDirs bulkSearchPaths).of_ok hdirs
    have hval : searchDirs s = dirs := by
      rw [searchDirs, hdirs]
      rfl
    rw [hval]
    exact ⟨_, bind_of_ok hdirs, ⟨hsame.geo, hsame.journal, hsame.disk, hsame.faults⟩, rfl⟩

def Searched (s s' : Server) : Prop := s'.bulkSearchDirs = s.bulkSearchDirs

instance : HandleFrame Searched where
  refl _ := rfl
  trans _ _ _ h h' := Eq.trans h' h
  tick _ := rfl
  sb _ _ := rfl
  cursorBit _ _ _ := rfl
  cursorGroup _ _ := rfl
  record _ _ _ _ _ := rfl
  store _ _ _ _ := rfl
  write _ _ _ := rfl
  journal _ _ := rfl
  handles _ _ := rfl

instance : RequestFrame Searched where
  handle _ _ _ := rfl
  flush _ := keeps_flushWriteState_of fun _ => rfl
  begins hk := .bind (.orFail keeps_journalBegin) hk

theorem bulkSearchDirs_handleReadBulk (name : List Byte) (shm : BulkShm) (s : Server) :
    (handleReadBulk name shm s).2.bulkSearchDirs = some (s.bulkSearchDirs.getD (searchDirs s)) := by
  obtain ⟨s₁, hdirs, -, hkept⟩ := bulkDirs_eq s
  have hrest : Keeps Searched (orFail (-1) (bulkResolveName (s.bulkSearchDirs.getD (searchDirs s)) 8
      (cString (name.take 24))) >>= bulkLoad shm) :=
    .bind (.orFail (keeps_bulkResolveName _ _ _)) fun _ => keeps_bulkLoad _ _
  have hrun : handleReadBulk name shm s =
    (orFail (-1) (bulkResolveName (s.bulkSearchDirs.getD (searchDirs s)) 8
      (cString (name.take 24))) >>= bulkLoad shm) s₁ :=
    (bind_bind ..).trans (bind_of_ok hdirs)
  rw [hrun, hrest s₁, hkept]

/-- **Whole runs.**  The directories that are kept are those of the first load. -/
theorem bulkSearchDirs_calls (cs : List Call) (s : Server) :
    (calls cs s).bulkSearchDirs = s.bulkSearchDirs.or (firstDirs cs s) := by
  induction cs generalizing s with
  | nil => simp [calls, firstDirs]
  | cons c cs ih =>
    rw [calls, ih, firstDirs, call, serve_snd]
    split
    · rename_i name shm hload
      rw [hload, dispatch, bulkSearchDirs_handleReadBulk]
      cases hcached : s.bulkSearchDirs <;> simp [Server.receive, hcached]
    · rename_i hload
      have hkept := keeps_dispatch (R := Searched) c.request (fun name shm h =>
        absurd h (hload name shm)) (s.receive c)
      rw [hkept]
      rfl

theorem searchDirs_of_stays {cs : List Call} (h : Stays cs s) :
    searchDirs (calls cs s).quiet = searchDirs s.quiet := by
  induction cs generalizing s with
  | nil => rfl
  | cons c cs ih => exact (ih h.2).trans h.1

/-- **Whole runs.**  While no request changes where a search path leads, the directories of the
first load are those of the tree. -/
theorem firstDirs_of_settled {cs : List Call} {dirs : List Nat} (h : Settled cs s)
    (hfirst : firstDirs cs s = some dirs) : dirs = searchDirs (calls cs s).quiet := by
  induction cs generalizing s with
  | nil => cases hfirst
  | cons c cs ih =>
    unfold Settled at h
    unfold firstDirs at hfirst
    split at hfirst
    · rename_i name shm hload
      rw [hload] at h
      rw [← Option.some.inj hfirst, searchDirs_receive h.1]
      exact (searchDirs_of_stays h.2).symm
    · rename_i hload
      split at h
      · rename_i name shm hload'
        exact absurd hload' (hload name shm)
      · exact ih h hfirst

/-! ## Following the tree -/

/-- The choice is made in the directories kept, or else in those of the tree. -/
theorem chosen_eq (hcalm : s.Calm) (name : List Byte) :
    chosen name s = programIn (s.bulkSearchDirs.getD (searchDirs s)) name s := by
  obtain ⟨s₁, hdirs, hsame, -⟩ := bulkDirs_eq s
  rw [chosen, bulkFind, bind_of_ok hdirs, programIn_congr ⟨hcalm, hsame⟩, programIn, orFail,
    tryCatch_apply]
  split <;> rename_i heq <;> rw [heq]
  rfl

/-- **Programs.**  After any requests to a server that loaded no program before, and while the
device does not fail, the inode chosen for a name is that of the tree, exactly if no program was
loaded meanwhile or the directories of the first load have now what the tree has under this name.
It is as long as no request changes where a search path leads. -/
theorem chosen_eq_inTree_iff (cs : List Call) (s : Server) (c : Call) (name : List Byte)
    (hs : s.bulkSearchDirs = none) (hc : ∀ n, c.faults n = .none) : let t := (calls cs s).receive c
    (chosen name t = inTree name t ↔ ∀ dirs, firstDirs cs s = some dirs →
      programIn dirs name t = inTree name t) ∧
      (Settled cs s → chosen name t = inTree name t) := by
  intro t
  have hkept : t.bulkSearchDirs = firstDirs cs s := by
    rw [show t.bulkSearchDirs = (calls cs s).bulkSearchDirs from rfl, bulkSearchDirs_calls, hs,
      Option.none_or]
  have hiff : chosen name t = inTree name t ↔
      ∀ dirs, firstDirs cs s = some dirs → programIn dirs name t = inTree name t := by
    rw [chosen_eq (s := t) hc, hkept]
    cases firstDirs cs s with
    | none => exact ⟨fun _ _ h => (by cases h), fun _ => rfl⟩
    | some dirs => exact ⟨fun h _ hd => Option.some.inj hd ▸ h, fun h => h dirs rfl⟩
  refine ⟨hiff, fun h => hiff.mpr fun dirs hfirst => ?_⟩
  rw [firstDirs_of_settled h hfirst, inTree, searchDirs_receive hc]

def oneProgram : Contents where
  inodes := [(12, fileInode 0x41ED 2 4096 8 [263]), (13, fileInode 0x81ED 1 5 8 [264])]
  entries := [(4048, 12, 2, [0x78])]
  blocks := [(263, dirBlock [(12, 12, 2, dot), (12, 2, 2, dotdot), (4072, 13, 1, [0x61])]),
    (264, 0x4141414141)]

/-- The server that is asked for the program `a`, after these requests. -/
def asked (before : List Request) : Server :=
  (calls (before.map now) (mounted oneProgram)).receive (now (.readBulk [0x61] ⟨0, 0⟩))

/-- The directory gets the name of a search directory before any program is asked for. -/
theorem chosen_eq_inTree_renamed :
    chosen [0x61] (asked [.rename [0x78] [0x62, 0x69, 0x6E]]) = some 13 :=
  ((chosen_eq_inTree_iff [now (.rename [0x78] [0x62, 0x69, 0x6E])] (mounted oneProgram)
    (now (.readBulk [0x61] ⟨0, 0⟩)) [0x61] (by decide +kernel) fun _ => rfl).1.mpr fun _ h =>
      (by cases h)).trans
      (by decide +kernel)

/-- The program is asked for, without success; `x` is renamed to `bin`; and the program is asked for
again: now it is `bin/a`, and it is not found. -/
theorem chosen_ne_inTree_asked_before :
    let s := asked [.readBulk [0x61] ⟨0, 0⟩, .rename [0x78] [0x62, 0x69, 0x6E]]
    inTree [0x61] s = some 13 ∧ chosen [0x61] s = none := by
  decide +kernel

end Robu.Ext2
