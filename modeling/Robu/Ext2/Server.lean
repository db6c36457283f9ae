import Robu.Ext2.Bulk
import Robu.Ext2.Mount
import Robu.Ext2.Xattr

/-!
# The server

The main loop of `ext2fs.c`: one request after the other, each answered before the next
is received.  The clock is read from the kernel's information page, which may have
changed since the last request; and each request meets its own device errors.
-/

namespace Robu.Ext2

open Lib Fallible

inductive Request
  | open (name : List Byte) (flags : Nat)
  | read (handle len : Nat)
  | write (handle : Nat) (bytes : List Byte)
  | close (handle : Nat)
  | stat (name : List Byte)
  | fstat (handle : Nat)
  | mkdir (name : List Byte)
  | symlink (name target : List Byte)
  | readdir (dirIno index : Nat)
  | rename (oldName newName : List Byte)
  | unlink (name : List Byte)
  | quiesce
  | rmdir (name : List Byte)
  | readBulk (name : List Byte) (shm : BulkShm)
  | caps
  | xattr (request : XattrRequest)
  | utimens (handle flags : Nat) (atime mtime ctime : Int)
  | deviceRead (src : Nat) (msg : Bytes 48)
  | other

def vfsFeatures : Nat := 0x3FF

def vfsAbi : Nat := 1 * 2 ^ 32 + 2

def dispatch : Request → M Reply
  | .open name flags => handleOpen name flags
  | .read h len => handleRead h len
  | .write h bytes => handleWrite h bytes
  | .close h => handleClose h
  | .stat name => handleStat name
  | .fstat h => handleFstat h
  | .mkdir name => handleMkdir name
  | .symlink name target => handleSymlink name target
  | .readdir dirIno index => handleReaddir dirIno index
  | .rename oldName newName => handleRename oldName newName
  | .unlink name => handleUnlink name
  | .quiesce => handleQuiesce
  | .rmdir name => handleRmdir name
  | .readBulk name shm => handleReadBulk name shm
  | .caps => pure (.caps vfsAbi vfsFeatures)
  | .xattr r => handleXattr r
  | .utimens h flags atime mtime ctime => handleUtimens h flags atime mtime ctime
  | .deviceRead src msg => handleDeviceRead src msg
  | .other => throw errNotSupported

def serve (r : Request) (s : Server) : Reply × Server :=
  match dispatch r s with
  | (.ok reply, s') => (reply, s')
  | (.error status, s') => (.error status, s')

/-- A request, with what it meets: the kernel's information page, and how the device answers
each of the server's requests while it is served. -/
structure Call where
  kinfo : Kinfo
  faults : Nat → Fault
  request : Request

def Server.receive (s : Server) (c : Call) : Server :=
  { s with kinfo := c.kinfo, dev := { s.dev with faults := c.faults, time := 0 } }

def call (c : Call) (s : Server) : Reply × Server :=
  serve c.request (s.receive c)

def calls : List Call → Server → Server
  | [], s => s
  | c :: cs, s => calls cs (call c s).2

end Robu.Ext2
