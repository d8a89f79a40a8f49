import UnreliableFS.Errinj
import UnreliableFS.Sys

/-!
# The operations

`unreliablefs_ops.c`. Every operation asks `error_inject` first, about one path
and its own `fuse_op`, and runs its body only for the answer 0: `Operation.call`.
Most bodies make one call and return 0 or its negated errno (`forward`); the
others are written out. A null pointer from `opendir` or `readdir` is -1 here.
-/

namespace UnreliableFS

open Interaction

/-- An operation of the file system: what it passes to `error_inject`, and what
it does when it is let through. -/
structure Operation where
  path : CStr
  op : FuseOp
  body : Body Int

abbrev fullSig : Sig := daemonSig.sum sysSig

def Operation.call (E : Setup) (o : Operation) : StateT Local (Prog fullSig) Int := fun l => do
  let ret ← (errorInject E o.path o.op).inl
  if ret = -ERRNO_NOOP then return (0, l)
  else if ret ≠ 0 then return (ret, l)
  else (o.body l).inr

def forward (c : Sys) : Body Int := do
  let ret ← sys c
  if ret = -1 then return -(← errno)
  return 0

section
variable {σ : Type} {K : Handler sysSig σ} {c : Sys} {l : Local} {s : σ}

theorem forward_run_fail {e : Errno} (h : (K c s).1 = .fail e) :
    (forward c l).run K s = some ((-(e.code : Int), l.fail e), (K c s).2) := by
  unfold forward
  rw [Body.bind_apply, sys_run_fail h]
  rfl

theorem forward_run_done {ret : Nat} {d : Data} (h : (K c s).1 = .done ret d) :
    (forward c l).run K s = some ((0, l.store d), (K c s).2) := by
  unfold forward
  rw [Body.bind_apply, sys_run_done h]
  rfl

theorem forward_trace : (forward c l).trace K s = [⟨s, c, (K c s).1⟩] := by
  unfold forward
  rw [Body.bind_apply]
  rcases h : (K c s).1 with e | ⟨ret, d⟩
  · rw [sys_trace_fail h]
    rfl
  · rw [sys_trace_done h]
    rfl

end

/-- Not in the FUSE table, but an operation of its own for `error_inject`. -/
def unreliableLstat (path : CStr) : Operation :=
  .mk path .lstat do
    modify fun l => { l with stat := {} }
    forward (.lstat path)

def unreliableGetattr (path : CStr) : Operation :=
  .mk path .getattr do
    modify fun l => { l with stat := {} }
    forward (.lstat path)

def unreliableReadlink (path : CStr) (bufsiz : Nat) : Operation :=
  .mk path .readlink do
    let ret := toInt (← sys (.readlink path bufsiz))
    if ret = -1 then return -(← errno)
    -- buf[ret] = 0, wherever that is
    modify fun l => { l with buf := fun i => if (i : Int) = ret then 0 else l.buf i }
    return 0

def unreliableMknod (path : CStr) (mode dev : Nat) : Operation :=
  .mk path .mknod (forward (.mknod path mode dev))

def unreliableMkdir (path : CStr) (mode : Nat) : Operation :=
  .mk path .mkdir (forward (.mkdir path mode))

def unreliableUnlink (path : CStr) : Operation :=
  .mk path .unlink (forward (.unlink path))

def unreliableRmdir (path : CStr) : Operation :=
  .mk path .rmdir (forward (.rmdir path))

/-- The decision is about the target. -/
def unreliableSymlink (target linkpath : CStr) : Operation :=
  .mk target .symlink (forward (.symlink target linkpath))

def unreliableRename (oldpath newpath : CStr) : Operation :=
  .mk oldpath .rename (forward (.rename oldpath newpath))

def unreliableLink (oldpath newpath : CStr) : Operation :=
  .mk oldpath .link (forward (.link oldpath newpath))

def unreliableChmod (path : CStr) (mode : Nat) : Operation :=
  .mk path .chmod (forward (.chmod path mode))

def unreliableChown (path : CStr) (owner group : OwnerArg) : Operation :=
  .mk path .chown (forward (.chown path owner group))

def unreliableTruncate (path : CStr) (length : Int) : Operation :=
  .mk path .truncate (forward (.truncate path length))

def unreliableOpen (path : CStr) : Operation :=
  .mk path .open do
    let ret ← sys (.open path (← fiFlags) 0)
    if ret = -1 then return -(← errno)
    setFh ret
    return 0

def unreliableRead (path : CStr) (size : Nat) (offset : Int) : Operation :=
  .mk path .read do
    let fd ← if ← fiIsNull then sys (.open path O_RDONLY 0) else pure (toInt (← fh))
    if fd = -1 then return -(← errno)
    let ret := toInt (← sys (.pread fd size offset))
    let ret ← if ret = -1 then pure (-(← errno)) else pure ret
    if ← fiIsNull then
      let _ ← sys (.close fd)
    return ret

def unreliableWrite (path : CStr) (buf : List UInt8) (offset : Int) : Operation :=
  .mk path .write do
    let fd ← if ← fiIsNull then sys (.open path O_WRONLY 0) else pure (toInt (← fh))
    if fd = -1 then return -(← errno)
    let ret := toInt (← sys (.pwrite fd buf offset))
    let ret ← if ret = -1 then pure (-(← errno)) else pure ret
    if ← fiIsNull then
      let _ ← sys (.close fd)
    return ret

def unreliableStatfs (path : CStr) : Operation :=
  .mk path .statfs (forward (.statvfs path))

/-- `close(dup(fi->fh))`: a failed `dup` hands -1 to `close`. -/
def unreliableFlush (path : CStr) : Operation :=
  .mk path .flush do
    let fd ← sys (.dup (toInt (← fh)))
    forward (.close fd)

def unreliableRelease (path : CStr) : Operation :=
  .mk path .release do forward (.close (toInt (← fh)))

def unreliableFsync (path : CStr) (datasync : Bool) : Operation :=
  .mk path .fsync do
    let fd := toInt (← fh)
    if datasync then forward (.fdatasync fd) else forward (.fsync fd)

def unreliableSetxattr (path name : CStr) (value : List UInt8) (flags : Nat) : Operation :=
  .mk path .setxattr (forward (.setxattr path name value flags))

/-- The size is not returned, unlike in `unreliable_listxattr`. -/
def unreliableGetxattr (path name : CStr) (size : Nat) : Operation :=
  .mk path .getxattr do
    let ret := toInt (← sys (.getxattr path name size))
    if ret = -1 then return -(← errno)
    return 0

def unreliableListxattr (path : CStr) (size : Nat) : Operation :=
  .mk path .listxattr do
    let ret := toInt (← sys (.listxattr path size))
    if ret = -1 then return -(← errno)
    return ret

def unreliableRemovexattr (path name : CStr) : Operation :=
  .mk path .removexattr (forward (.removexattr path name))

def unreliableOpendir (path : CStr) : Operation :=
  .mk path .opendir do
    let dir ← sys (.opendir path)
    if dir = -1 then return -(← errno)
    setFh dir
    return 0

/-- What the filler callback answers, given what it has been passed so far and
the new entry; true refuses the entry. -/
abbrev Filler := List Dirent → Dirent → Bool

/-- `while ((de = readdir(dp)) != NULL)`, at most `fuel` times. -/
def readdirLoop (filler : Filler) (dp : Int) : Nat → Body Unit
  | 0 => fun _ => .stuck
  | fuel + 1 => do
    let entry ← sys (.readdir dp)
    if entry ≤ 0 then return ()
    let l ← get
    let de := { l.de with type := l.de.type <<< 12 }
    set { l with filled := l.filled ++ [de] }
    if filler l.filled de then return ()
    readdirLoop filler dp fuel

def unreliableReaddir (fuel : Nat) (path : CStr) (filler : Filler) : Operation :=
  .mk path .readdir do
    let dp ← sys (.opendir path)
    if dp = -1 then return -(← errno)
    readdirLoop filler dp fuel
    let _ ← sys (.closedir dp)
    return 0

def unreliableReleasedir (path : CStr) : Operation :=
  .mk path .releasedir do forward (.closedir (← fh))

/-- A failed sync returns without `closedir`. -/
def unreliableFsyncdir (path : CStr) (datasync : Bool) : Operation :=
  .mk path .fsyncdir do
    let dir ← sys (.opendir path)
    if dir = -1 then return -(← errno)
    let fd ← sys (.dirfd dir)
    let ret ← if datasync then sys (.fdatasync fd) else sys (.fsync fd)
    if ret = -1 then return -(← errno)
    let _ ← sys (.closedir dir)
    return 0

def unreliableAccess (path : CStr) (mode : Nat) : Operation :=
  .mk path .access (forward (.access path mode))

def unreliableCreate (path : CStr) (mode : Nat) : Operation :=
  .mk path .creat do
    let ret ← sys (.open path (← fiFlags) mode)
    if ret = -1 then return -(← errno)
    setFh ret
    return 0

/-- By path, with the descriptor at hand. -/
def unreliableFtruncate (path : CStr) (length : Int) : Operation :=
  .mk path .ftruncate (forward (.truncate path length))

def unreliableFgetattr (path : CStr) : Operation :=
  .mk path .fgetattr do forward (.fstat (toInt (← fh)))

def unreliableLock (path : CStr) (cmd : LockCmd) (fl : Flock) : Operation :=
  .mk path .lock do forward (.fcntl (toInt (← fh)) cmd fl)

def unreliableIoctl (path : CStr) (cmd : Int) (arg : Nat) : Operation :=
  .mk path .ioctl do
    let ret ← sys (.ioctl (toInt (← fh)) cmd arg)
    if ret = -1 then return -(← errno)
    return ret

def unreliableFlock (path : CStr) (op : FlockOp) : Operation :=
  .mk path .flock do forward (.flock (toInt (← fh)) op)

/-- The descriptor is opened into `fd`, but the call takes it from `fi`. -/
def unreliableFallocate (path : CStr) (mode : Nat) (offset len : Int) : Operation :=
  .mk path .fallocate do
    if mode ≠ 0 then return -(Errno.EOPNOTSUPP.code : Int)
    let fd ← if ← fiIsNull then sys (.open path O_WRONLY 0) else pure (toInt (← fh))
    if fd = -1 then return -(← errno)
    let ret ← sys (.fallocate (toInt (← fh)) mode offset len)
    if ret = -1 then return -(← errno)
    if ← fiIsNull then
      let _ ← sys (.close fd)
    return 0

/-- The descriptor 0 that goes with the path does not matter for an absolute one. -/
def unreliableUtimens (path : CStr) (atime mtime : SetTime) : Operation :=
  .mk path .utimens (forward (.utimensat 0 path atime mtime))

end UnreliableFS
