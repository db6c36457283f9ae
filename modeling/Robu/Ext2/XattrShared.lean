import Robu.Ext2.Pairing
import Robu.Ext2.Image

/-!
# Attribute blocks with several owners

A block of attributes may belong to several files; its header counts them.  The server has
no way to give one of them a block of its own, and `xattr_write_entries` fails for such a
block, with a result of its own.  The caller sees nothing of that result: `journal_finish`
turns every failure into one, which is answered as lack of space.  A request is answered as
not supported only for what was found before, and the count of owners plays no part in it.
-/

namespace Robu.Ext2

open Lib Fallible

/-- The request is well formed, but the attribute it names is not one of the user's, or the
attributes of the file cannot be taken apart. -/
def XattrUnsupported (r : XattrRequest) (s : Server) : Prop :=
  ∃ h size data, openHandle errInvalid r.handle s = (.ok h, s) ∧ r.malformed = false ∧
    r.badFlags = false ∧
    xattrShm r s = (.ok (size, data), s) ∧
      (xattrUserName (r.nameBytes data) = none ∨
        (xattrLoad (s.handles h).ino s).1 = .error errNotSupported)

theorem xattrShm_cases (r : XattrRequest) (s : Server) : (∃ x, xattrShm r s = (.ok x, s)) ∨
    ∃ e, e ≠ errNotSupported ∧ xattrShm r s = (.error e, s) := by
  unfold xattrShm
  cases r.shmSize with
  | none => exact .inr ⟨_, by decide, rfl⟩
  | some size =>
    by_cases hc : size < if r.cmd = xattrList then r.valueLen else r.nameLen + r.valueLen
    · exact .inr ⟨_, by decide, bind_of_error (failIf_of hc _ s)⟩
    · simp only [bind_of_ok (failIf_of_not hc _ s)]
      cases r.shm with
      | none => exact .inr ⟨_, by decide, rfl⟩
      | some data => exact .inl ⟨_, rfl⟩

/-- What the writer found is lost: a failed transaction is answered as lack of space. -/
theorem ends_xattrCommit (ino : Nat) (inode : Inode) (x : XattrBlock) (s : Server) :
    Ends (do xattrCommit ino inode x; pure (Reply.value 0 [])) s (fun _ _ => True)
      (fun e _ => e ≠ errNotSupported) := by
  refine .seq (.seq ?_ fun _ _ => ?_) fun _ _ => .pure trivial
  all_goals
    exact .orFail (.mono .any (fun _ _ h => h) fun _ _ _ =>
      (by decide : errNoSpace ≠ errNotSupported))

section Request
variable {r : XattrRequest} {s : Server} (hcmd : r.cmd = xattrSet ∨ r.cmd = xattrRemove)
include hcmd

theorem xattrTarget_eq (data : List Byte) :
    xattrTarget r data s = match xattrUserName (r.nameBytes data) with
    | none => (.error errNotSupported, s)
    | some name => (.ok name, s) := by
  have hlist : r.cmd ≠ xattrList := by rcases hcmd with h | h <;> simp [h]
  rw [xattrTarget, if_neg hlist]
  cases xattrUserName (r.nameBytes data) <;> rfl

theorem ends_xattrChange (size ino : Nat) (inode : Inode) (x : XattrBlock) (name value : List Byte)
    (s : Server) : Ends (if r.cmd = xattrGet then xattrGetValue r size x name
      else if r.cmd = xattrList then xattrListNames r size x
      else if r.cmd = xattrSet then xattrSetValue r ino inode x name value
      else xattrRemoveName ino inode x name) s (fun _ _ => True)
        (fun e _ => e ≠ errNotSupported) := by
  refine .ite (fun h => ?_) fun _ => .ite (fun h => ?_) fun _ => .ite (fun _ => ?_) fun _ => ?_
  · simp [h] at hcmd
  · simp [h] at hcmd
  · refine .check (fun _ => by decide) fun _ => .check (fun _ => by decide) fun _ =>
      .check (fun _ => by decide) fun _ => ends_xattrCommit ..
  · exact .check (fun _ => by decide) fun _ => ends_xattrCommit ..

/-- The status is returned only where attributes are not supported. -/
theorem xattrUnsupported_of_status (h : (handleXattr r s).1 = .error errNotSupported) :
    XattrUnsupported r s := by
  suffices hends : Ends (handleXattr r) s (fun _ _ => True)
      (fun e _ => e = errNotSupported → XattrUnsupported r s) from
    hends.error _ (handleXattr r s).2 (Prod.ext h rfl) rfl
  rcases openHandle_cases errInvalid r.handle s with ⟨hlt, -, hop⟩ | hop
  · refine .ok_bind hop <| .check (fun _ he => absurd he (by decide)) fun hm =>
      .check (fun _ he => absurd he (by decide)) fun hf => ?_
    rcases xattrShm_cases r s with ⟨⟨size, data⟩, hshm⟩ | ⟨e, hne, hshm⟩
    · have hunsupported (h) : XattrUnsupported r s :=
        ⟨_, size, data, hop, eq_false_of_ne_true hm, eq_false_of_ne_true hf, hshm, h⟩
      refine .ok_bind hshm ?_
      have htarget := xattrTarget_eq (s := s) hcmd data
      cases hn : xattrUserName (r.nameBytes data) with
      | none =>
        exact .of_error (bind_of_error (htarget.trans (by rw [hn]))) fun _ => hunsupported (.inl hn)
      | some name =>
        refine .ok_bind (htarget.trans (by rw [hn]))
          (.get_bind (.seq ⟨fun _ _ _ => trivial, ?_⟩ fun _ s' => ?_))
        · intro e s' hload he
          exact hunsupported (.inr (by rw [hload, he]))
        · exact (ends_xattrChange hcmd ..).mono (fun _ _ h => h) fun _ _ hne he => absurd he hne
    · exact .of_error (bind_of_error hshm) fun he => absurd he hne
  · exact .of_error (bind_of_error hop) fun he => absurd he (by decide)

/-- **What is refused as not supported.**  A request to set or to remove an attribute is
refused so, with nothing changed, exactly if its name or the form of the block is not
supported; how many files own the block is not looked at. -/
theorem xattr_refused_iff :
    ((handleXattr r s).1 = .error errNotSupported ∧ Ticked s (handleXattr r s).2) ↔
      XattrUnsupported r s := by
  refine ⟨fun h => xattrUnsupported_of_status hcmd h.1, ?_⟩
  rintro ⟨h, size, data, hop, hm, hf, hshm, hname⟩
  have hrun : handleXattr r s = _ := (bind_of_ok hop).trans <|
    (bind_of_ok (failIf_of_not (by simp [hm]) _ s)).trans <|
      (bind_of_ok (failIf_of_not (by simp [hf]) _ s)).trans (bind_of_ok hshm)
  have htarget := xattrTarget_eq (s := s) hcmd data
  cases hn : xattrUserName (r.nameBytes data) with
  | none =>
    rw [hrun.trans (bind_of_error (htarget.trans (by rw [hn])))]
    exact ⟨rfl, refl_of Ticked s⟩
  | some name =>
    have hload : (xattrLoad (s.handles h).ino s).1 = .error errNotSupported :=
      hname.resolve_left (by simp [hn])
    have hticked : Ticked s (xattrLoad (s.handles h).ino s).2 := keeps_xattrLoad _ s
    rw [hrun.trans <| (bind_of_ok (htarget.trans (by rw [hn]))).trans <|
      (bind_of_ok (get_apply s)).trans <| bind_of_error (Prod.ext hload rfl)]
    exact ⟨rfl, hticked⟩

end Request

/-- Two files, `f` and `g`, with one block of attributes: `user.a` of one byte. -/
def twoOwners : Contents where
  inodes := [12, 13].map fun ino => (ino, u32Set (fileInode 0x81A4 1 0 8 []) fileAcl 264)
  entries := [(12, 12, 1, [0x66]), (4036, 13, 1, [0x67])]
  blocks := (xattrBuildBlock 4096 [⟨[0x61], [0x41]⟩]).toList.map fun b => (264, u32Set b 4 2)

def removing (name : List Byte) : XattrRequest :=
  ⟨xattrRemove, 0, 0, name.length, 0, some 4096, some name⟩

/-- An attribute of the system cannot be removed. -/
theorem xattr_refused_iff_system :
    let s := { mounted twoOwners with
        handles := fun _ => ⟨true, 12, fun _ => 0, 0, 0, 0, false, false, 0, 0⟩ }
    (handleXattr (removing [0x73, 0x79, 0x73, 0x2E, 0x61, 0x62]) s).1 = .error errNotSupported :=
  ((xattr_refused_iff (.inr rfl)).2 ⟨0, 4096, _, rfl, rfl, rfl, rfl, .inl (by decide)⟩).1

/-- The only attribute of `f` is removed: the request succeeds, and the block is free though
`g` still names it. -/
theorem xattr_frees_shared_block :
    let s := calls [now (.open [0x66] 0)] (mounted twoOwners)
    let x := handleXattr (removing [0x75, 0x73, 0x65, 0x72, 0x2E, 0x61]) s
    let used := fun s : Server => (metadataBlockRead 2 s).1.map fun b => (b.getLsbD 264 : Bool)
    (xattrLoad 12 s).1.map (fun x => x.2.refcount) = .ok 2 ∧ used s = .ok true ∧
      x.1 = .ok (.value 0 []) ∧
      used x.2 = .ok false ∧ (xattrLoad 13 x.2).1.map (fun x => x.2.block) = .ok 264 := by
  decide +kernel

end Robu.Ext2
