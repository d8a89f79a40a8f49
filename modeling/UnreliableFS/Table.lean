import UnreliableFS.Ops

/-!
# The FUSE table

A `Request` is one call of an entry of `unreliable_ops` (`init` and `destroy`
do nothing and have none), with the arguments of the entry except the
`fuse_file_info`, which is part of the memory the body is run on.
-/

namespace UnreliableFS

open Interaction

inductive Request
  | getattr (path : CStr)
  | readlink (path : CStr) (bufsiz : Nat)
  | mknod (path : CStr) (mode dev : Nat)
  | mkdir (path : CStr) (mode : Nat)
  | unlink (path : CStr)
  | rmdir (path : CStr)
  | symlink (target linkpath : CStr)
  | rename (oldpath newpath : CStr)
  | link (oldpath newpath : CStr)
  | chmod (path : CStr) (mode : Nat)
  | chown (path : CStr) (owner group : OwnerArg)
  | truncate (path : CStr) (length : Int)
  | open (path : CStr) (flags : OpenFlags)
  | read (path : CStr) (size : Nat) (offset : Int)
  | write (path : CStr) (data : List UInt8) (offset : Int)
  | statfs (path : CStr)
  | flush (path : CStr)
  | release (path : CStr)
  | fsync (path : CStr) (datasync : Bool)
  | setxattr (path name : CStr) (value : List UInt8) (flags : Nat)
  | getxattr (path name : CStr) (size : Nat)
  | listxattr (path : CStr) (size : Nat)
  | removexattr (path name : CStr)
  | opendir (path : CStr)
  | readdir (path : CStr) (filler : Filler)
  | releasedir (path : CStr)
  | fsyncdir (path : CStr) (datasync : Bool)
  | access (path : CStr) (mode : Nat)
  | create (path : CStr) (flags : OpenFlags) (mode : Nat)
  | ftruncate (path : CStr) (length : Int)
  | fgetattr (path : CStr)
  | lock (path : CStr) (cmd : LockCmd) (fl : Flock)
  | ioctl (path : CStr) (cmd : Int) (arg : Nat)
  | flock (path : CStr) (op : FlockOp)
  | fallocate (path : CStr) (mode : Nat) (offset len : Int)
  | utimens (path : CStr) (atime mtime : SetTime)

namespace Request

/-- The entry of `unreliable_ops`. `fuel` bounds the loop of `readdir`. -/
def operation (fuel : Nat) : Request → Operation
  | .getattr path => unreliableGetattr path
  | .readlink path bufsiz => unreliableReadlink path bufsiz
  | .mknod path mode dev => unreliableMknod path mode dev
  | .mkdir path mode => unreliableMkdir path mode
  | .unlink path => unreliableUnlink path
  | .rmdir path => unreliableRmdir path
  | .symlink target linkpath => unreliableSymlink target linkpath
  | .rename oldpath newpath => unreliableRename oldpath newpath
  | .link oldpath newpath => unreliableLink oldpath newpath
  | .chmod path mode => unreliableChmod path mode
  | .chown path owner group => unreliableChown path owner group
  | .truncate path length => unreliableTruncate path length
  | .open path _ => unreliableOpen path
  | .read path size offset => unreliableRead path size offset
  | .write path data offset => unreliableWrite path data offset
  | .statfs path => unreliableStatfs path
  | .flush path => unreliableFlush path
  | .release path => unreliableRelease path
  | .fsync path datasync => unreliableFsync path datasync
  | .setxattr path name value flags => unreliableSetxattr path name value flags
  | .getxattr path name size => unreliableGetxattr path name size
  | .listxattr path size => unreliableListxattr path size
  | .removexattr path name => unreliableRemovexattr path name
  | .opendir path => unreliableOpendir path
  | .readdir path filler => unreliableReaddir fuel path filler
  | .releasedir path => unreliableReleasedir path
  | .fsyncdir path datasync => unreliableFsyncdir path datasync
  | .access path mode => unreliableAccess path mode
  | .create path _ mode => unreliableCreate path mode
  | .ftruncate path length => unreliableFtruncate path length
  | .fgetattr path => unreliableFgetattr path
  | .lock path cmd fl => unreliableLock path cmd fl
  | .ioctl path cmd arg => unreliableIoctl path cmd arg
  | .flock path op => unreliableFlock path op
  | .fallocate path mode offset len => unreliableFallocate path mode offset len
  | .utimens path atime mtime => unreliableUtimens path atime mtime

def path (r : Request) : CStr := (r.operation 0).path

def op (r : Request) : FuseOp := (r.operation 0).op

@[simp] theorem operation_path (fuel : Nat) (r : Request) : (r.operation fuel).path = r.path := by
  cases r <;> rfl

@[simp] theorem operation_op (fuel : Nat) (r : Request) : (r.operation fuel).op = r.op := by
  cases r <;> rfl

def opens? : Request → Option OpenFlags
  | .open _ flags | .create _ flags _ => some flags
  | .opendir _ => some {}
  | _ => none

def closes : Request → Bool
  | .release .. | .releasedir .. => true
  | _ => false

inductive HandleKind
  | file | dir
  deriving DecidableEq, Repr

def handleKind? : Request → Option HandleKind
  | .read .. | .write .. | .flush .. | .release .. | .fsync .. | .ftruncate .. | .fgetattr ..
  | .lock .. | .ioctl .. | .flock .. | .fallocate .. => some .file
  | .readdir .. | .releasedir .. | .fsyncdir .. => some .dir
  | _ => none

end Request

end UnreliableFS
