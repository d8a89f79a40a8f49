import UnreliableFS.Posix.Calls
import UnreliableFS.Posix.Locks
import UnreliableFS.World

/-!
# The kernel under the daemon

The base file system with the process state of the daemon: its descriptors,
directory streams and locks. `kernel` answers every system call of the bodies,
and `posix` is the operating system it makes. A call that would wait for a lock
fails instead.
-/

namespace UnreliableFS.Posix

open Interaction

/-- A descriptor refers to an open file description, known by its number `id`. -/
structure Desc where
  id : Nat
  ino : Ino
  acc : AccMode
  append : Bool
  deriving DecidableEq, Repr

structure DirStream where
  fd : Nat
  rest : List Dirent

structure FileLock where
  desc : Nat
  ino : Ino
  exclusive : Bool

structure Base where
  tree : Tree
  cwd : Place := []
  pid : Nat := 1
  nofile : Nat
  nofile_le : nofile ≤ 2 ^ 31
  fds : Nat → Option Desc
  nextDesc : Nat
  streams : Nat → Option DirStream
  locks : List RecordLock := []
  flocks : List FileLock := []

/-- What the results of a call depend on besides the base. Where `malloc` puts a
directory stream is up to it, but for the places in use. -/
structure Platform where
  malloc : (Nat → Bool) → Option Nat
  malloc_free : ∀ used a, malloc used = some a → used a = false ∧ 0 < a ∧ a < 2 ^ 64
  statvfs : Tree → StatVfs
  ioctl : Node → Int → Nat → Except Errno (Fin (2 ^ 31))

namespace Base

variable (P : Platform) (b : Base)

-- ---------------------------------------------------------------------------
-- Descriptors
-- ---------------------------------------------------------------------------

def desc (fd : Int) : Except Errno Desc :=
  if fd < 0 then throw .EBADF
  else match b.fds fd.toNat with
    | some d => return d
    | none => throw .EBADF

def freeFd : Except Errno Nat :=
  match (List.range b.nofile).find? fun fd => (b.fds fd).isNone with
  | some fd => return fd
  | none => throw .EMFILE

def setFd (fd : Nat) (d : Option Desc) : Base := { b with fds := Function.update b.fds fd d }

def install (fd : Nat) (i : Ino) (acc : AccMode) (append : Bool) : Base :=
  { b.setFd fd (some ⟨b.nextDesc, i, acc, append⟩) with nextDesc := b.nextDesc + 1 }

/-- Closing any descriptor of an object drops all record locks of the process on
it; closing the last one of a description drops its lock by `flock`. -/
def closeFd (fd : Nat) (d : Desc) : Base :=
  let shared := (List.range b.nofile).any fun fd' => fd' ≠ fd && (b.fds fd').any (·.id = d.id)
  { b.setFd fd none with
    locks := dropLocks b.locks b.pid d.ino
    flocks := if shared then b.flocks else b.flocks.filter (·.desc ≠ d.id) }

def stream (dir : Int) : Except Errno DirStream :=
  if dir < 0 then throw .EBADF
  else match b.streams dir.toNat with
    | some s => return s
    | none => throw .EBADF

def setStream (dir : Nat) (s : Option DirStream) : Base :=
  { b with streams := Function.update b.streams dir s }

def direntType (t : Tree) (i : Ino) : Nat :=
  match (t.node i).content with
  | .regular _ => 8
  | .directory => 4
  | .symlink _ => 10
  | .special => 2

def entries (p : Place) (i : Ino) : List Dirent :=
  ⟨i, 4, dot⟩ :: ⟨(b.tree.at? p.dropLast).getD i, 4, dotdot⟩ ::
    (b.tree.children p).map fun e => ⟨e.2, direntType b.tree e.2, e.1⟩

-- ---------------------------------------------------------------------------
-- Answers
-- ---------------------------------------------------------------------------

abbrev Outcome := SysReply × Base

def inspect : Except Errno (Nat × Data) → Outcome
  | .error e => (.fail e, b)
  | .ok (ret, data) => (.done ret data, b)

def alter : Except Errno (Tree × Nat) → Outcome
  | .error e => (.fail e, b)
  | .ok (tree, ret) => (.done ret .none, { b with tree })

def enter : Except Errno (Nat × Data × Base) → Outcome
  | .error e => (.fail e, b)
  | .ok (ret, data, b') => (.done ret data, b')

def silent (r : Except Errno Tree) : Except Errno (Tree × Nat) := r.map (·, 0)

def openCall (path : CStr) (flags : OpenFlags) (mode : Nat) : Except Errno (Nat × Data × Base) := do
  let fd ← b.freeFd
  let (tree, i) ← b.tree.openFile b.cwd path flags mode
  return (fd, .none, { b with tree }.install fd i flags.acc flags.append)

def pread (fd : Int) (size : Nat) (offset : Int) : Except Errno (Nat × Data) := do
  let d ← b.desc fd
  refuse (d.acc = .wronly) .EBADF
  refuse (offset < 0) .EINVAL
  let data ← b.tree.dataOf d.ino
  let bytes := Extents.readAt data offset.toNat (min size Tree.MAX_RW_COUNT)
  return (bytes.length, .bytes bytes)

def pwrite (fd : Int) (data : List UInt8) (offset : Int) : Except Errno (Tree × Nat) := do
  let d ← b.desc fd
  refuse (d.acc = .rdonly) .EBADF
  refuse (offset < 0) .EINVAL
  let old ← b.tree.dataOf d.ino
  let data := data.take Tree.MAX_RW_COUNT
  let at_ := if d.append then old.length else offset.toNat
  return (b.tree.setData d.ino (Extents.writeAt 0 old at_ data), data.length)

def dup (fd : Int) : Except Errno (Nat × Data × Base) := do
  let d ← b.desc fd
  let new ← b.freeFd
  return (new, .none, b.setFd new (some d))

def close (fd : Int) : Except Errno (Nat × Data × Base) := do
  let d ← b.desc fd
  return (0, .none, b.closeFd fd.toNat d)

def opendir (path : CStr) : Except Errno (Nat × Data × Base) := do
  let (p, i) ← b.tree.find b.cwd true path
  refuse ((b.tree.node i).content ≠ .directory) .ENOTDIR
  refuse (¬b.tree.permits (b.tree.node i) 4) .EACCES
  let fd ← b.freeFd
  match P.malloc fun a => (b.streams a).isSome with
  | none => throw .ENOMEM
  | some a => return (a, .none, (b.install fd i .rdonly false).setStream a (some ⟨fd, b.entries p i⟩))

/-- A result of 0 is the null pointer at the end of the directory. -/
def readdir (dir : Int) : Except Errno (Nat × Data × Base) := do
  let s ← b.stream dir
  match s.rest with
  | [] => return (0, .none, b)
  | de :: rest => return (1, .dirent de, b.setStream dir.toNat (some ⟨s.fd, rest⟩))

def closedir (dir : Int) : Except Errno (Nat × Data × Base) := do
  let s ← b.stream dir
  let d ← b.desc s.fd
  return (0, .none, (b.closeFd s.fd d).setStream dir.toNat none)

def flockOf (l : RecordLock) : Flock where
  type := if l.write then .wrlck else .rdlck
  start := l.range.start
  len := l.range.stop.elim 0 (· - l.range.start)
  pid := l.owner

/-- Record locks belong to the process, whatever the descriptor. -/
def fcntl (fd : Int) (cmd : LockCmd) (fl : Flock) : Except Errno (Nat × Data × Base) := do
  let d ← b.desc fd
  let range := Range.ofFlock fl.start fl.len
  let lock : RecordLock := ⟨b.pid, d.ino, range, fl.type = .wrlck⟩
  match cmd, fl.type with
  | .getlk, .unlck => throw .EINVAL
  | .getlk, _ =>
    match conflict? b.locks lock with
    | some l => return (0, .flock (flockOf l), b)
    | none => return (0, .flock { fl with type := .unlck }, b)
  | _, .unlck => return (0, .none, { b with locks := clearRange b.locks b.pid d.ino range })
  | _, type =>
    refuse (d.acc = (if type = .wrlck then .rdonly else .wronly)) .EBADF
    match conflict? b.locks lock with
    | some _ => throw .EAGAIN
    | none => return (0, .none, { b with locks := setRange b.locks lock })

/-- A lock that is to be another one is given up before that is asked for, so that a
conversion may lose it. -/
def flock (fd : Int) (op : FlockOp) : Outcome :=
  match b.desc fd with
  | .error e => (.fail e, b)
  | .ok d =>
    let others := b.flocks.filter (·.desc ≠ d.id)
    if op = .un then (.done 0 .none, { b with flocks := others })
    else if others.any fun l => l.ino = d.ino && (l.exclusive || op = .ex) then
      (.fail .EAGAIN, { b with flocks := others })
    else (.done 0 .none, { b with flocks := ⟨d.id, d.ino, op = .ex⟩ :: others })

def fallocate (fd : Int) (mode : Nat) (offset len : Int) : Except Errno Tree := do
  let d ← b.desc fd
  refuse (mode ≠ 0) .EOPNOTSUPP
  refuse (d.acc = .rdonly) .EBADF
  refuse (offset < 0 ∨ len ≤ 0) .EINVAL
  let data ← b.tree.dataOf d.ino
  return b.tree.setData d.ino (Extents.resize 0 data (max data.length (offset + len).toNat))

/-- Where a relative path starts: in the directory of a descriptor. -/
def placeAt (dirfd : Int) (path : CStr) : Except Errno Place := do
  if path = [] ∨ path.head? = some slash then return b.cwd
  let d ← b.desc dirfd
  refuse ((b.tree.node d.ino).content ≠ .directory) .ENOTDIR
  match b.tree.names.find? fun e => e.2 = d.ino with
  | some e => return e.1
  | none => throw .ENOENT

/-- With both times left as they are nothing is looked up. -/
def utimensat (dirfd : Int) (path : CStr) (atime mtime : SetTime) : Except Errno Tree := do
  if atime = .omit ∧ mtime = .omit then return b.tree
  let cwd ← b.placeAt dirfd path
  b.tree.utimensat cwd path atime mtime

end Base

-- ---------------------------------------------------------------------------
-- The kernel
-- ---------------------------------------------------------------------------

def kernel (P : Platform) : Handler sysSig Base := fun c b =>
  match c with
  | .lstat path => b.inspect do
    let (_, i) ← b.tree.find b.cwd false path
    return (0, .stat (b.tree.stat i))
  | .readlink path bufsiz => b.inspect (b.tree.readlink b.cwd path bufsiz)
  | .mknod path mode _ => b.alter (Base.silent (b.tree.mknod b.cwd path mode))
  | .mkdir path mode => b.alter (Base.silent (b.tree.mkdir b.cwd path mode))
  | .unlink path => b.alter (Base.silent (b.tree.unlink b.cwd path))
  | .rmdir path => b.alter (Base.silent (b.tree.rmdir b.cwd path))
  | .symlink target linkpath => b.alter (Base.silent (b.tree.symlink b.cwd target linkpath))
  | .rename oldpath newpath => b.alter (Base.silent (b.tree.rename b.cwd oldpath newpath))
  | .link oldpath newpath => b.alter (Base.silent (b.tree.link b.cwd oldpath newpath))
  | .chmod path mode => b.alter (Base.silent (b.tree.chmod b.cwd path mode))
  | .chown path owner group => b.alter (Base.silent (b.tree.chown b.cwd path owner group))
  | .truncate path length => b.alter (Base.silent (b.tree.truncate b.cwd path length))
  | .open path flags mode => b.enter (b.openCall path flags mode)
  | .pread fd size offset => b.inspect (b.pread fd size offset)
  | .pwrite fd data offset => b.alter (b.pwrite fd data offset)
  | .statvfs path => b.inspect do
    let _ ← b.tree.find b.cwd true path
    return (0, .statvfs (P.statvfs b.tree))
  | .dup fd => b.enter (b.dup fd)
  | .close fd => b.enter (b.close fd)
  | .fdatasync fd | .fsync fd => b.inspect do
    let _ ← b.desc fd
    return (0, .none)
  | .setxattr path name value flags =>
    b.alter (Base.silent (b.tree.setxattr b.cwd path name value flags))
  | .getxattr path name size => b.inspect (b.tree.getxattr b.cwd path name size)
  | .listxattr path size => b.inspect (b.tree.listxattr b.cwd path size)
  | .removexattr path name => b.alter (Base.silent (b.tree.removexattr b.cwd path name))
  | .opendir path => b.enter (b.opendir P path)
  | .readdir dir => b.enter (b.readdir dir)
  | .closedir dir => b.enter (b.closedir dir)
  | .dirfd dir => b.inspect do
    let s ← b.stream dir
    return (s.fd, .none)
  | .access path mode => b.inspect do
    b.tree.access b.cwd path mode
    return (0, .none)
  | .fstat fd => b.inspect do
    let d ← b.desc fd
    return (0, .stat (b.tree.stat d.ino))
  | .fcntl fd cmd fl => b.enter (b.fcntl fd cmd fl)
  | .ioctl fd cmd arg => b.inspect do
    let d ← b.desc fd
    let ret ← P.ioctl (b.tree.node d.ino) cmd arg
    return (ret, .none)
  | .flock fd op => b.flock fd op
  | .fallocate fd mode offset len => b.alter (Base.silent (b.fallocate fd mode offset len))
  | .utimensat dirfd path atime mtime => b.alter (Base.silent (b.utimensat dirfd path atime mtime))

/-- A directory opens and has nothing to read. A special file is taken not to load: for
another process to open a FIFO the daemon would wait, which is not modelled. -/
def Base.slurp (b : Base) (path : CStr) : Option (List UInt8) :=
  match b.tree.find b.cwd true path with
  | .error _ => none
  | .ok (_, i) =>
    match (b.tree.node i).content with
    | .regular data => if b.tree.permits (b.tree.node i) 4 then some data else none
    | .directory => if b.tree.permits (b.tree.node i) 4 then some [] else none
    | _ => none

/-- The file that has been read is closed, which drops the locks of the process on it. -/
def Base.slurped (b : Base) (path : CStr) : Base :=
  match b.slurp path, b.tree.find b.cwd true path with
  | some _, .ok (_, i) => { b with locks := dropLocks b.locks b.pid i }
  | _, _ => b

def posix (P : Platform) : OS Base where
  kernel := kernel P
  access := fun b path =>
    match b.tree.find b.cwd true path with
    | .ok _ => 0
    | .error _ => -1
  slurp := Base.slurp
  slurped := Base.slurped

-- ---------------------------------------------------------------------------
-- A small machine
-- ---------------------------------------------------------------------------

def Tree.root : Tree where
  names := [([], 0)]
  node := fun _ => { content := .directory, mode := 0o755 }
  next := 1
  lt_next := by decide

def Platform.small : Platform where
  malloc := fun used => if used 4096 then none else some 4096
  malloc_free := by
    intro used a h
    split at h
    · cases h
    · rename_i hn
      cases h
      exact ⟨by simpa using hn, by decide⟩
  statvfs := fun _ => ⟨4096, 0, 0, 0⟩
  ioctl := fun _ _ _ => .error .ENOTTY

def Base.boot (tree : Tree) : Base where
  tree := tree
  nofile := 16
  nofile_le := by decide
  fds := fun fd => if fd < 3 then some ⟨fd, 0, .rdwr, false⟩ else none
  nextDesc := 3
  streams := fun _ => none

def bootWorld (tree : Tree) (errors : Option (List ErrinjConf)) : World Base where
  base := .boot tree
  errors := errors
  draws := fun _ => 0
  caller := none

def smallSetup (configPath : CStr) : Setup where
  build := Linux.build fun _ => 0
  regcomp := fun _ => (0, fun _ => 0)
  configPath := configPath

end UnreliableFS.Posix
