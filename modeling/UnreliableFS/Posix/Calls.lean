import UnreliableFS.Posix.Tree

/-!
# Calls that act on the tree

Each either fails and leaves the tree as it is, or returns the new tree. Which
of `lstat`, `link`, `rename` and `utimensat` follow a final symbolic link, and
that `chown` and the attribute calls do, is as on Linux.
-/

namespace UnreliableFS.Posix.Tree

variable (t : Tree) (cwd : Place)

def MAX_RW_COUNT : Nat := 0x7ffff000
def PATH_MAX : Nat := 4096
def XATTR_SIZE_MAX : Nat := 65536
def S_IFMT : Nat := 0o170000
def S_IFREG : Nat := 0o100000
def S_IXGRP : Nat := 0o010

def fresh (content : Content) (mode : Nat) : Node :=
  { content, mode := mode &&& 0o7777, uid := t.uid, gid := t.gid, atime := t.clock, mtime := t.clock,
    ctime := t.clock }

-- ---------------------------------------------------------------------------
-- Names
-- ---------------------------------------------------------------------------

def mknod (path : CStr) (mode : Nat) : Except Errno Tree := do
  let p ← t.vacant cwd path false
  let type := mode &&& S_IFMT
  return t.add p (t.fresh (if type = 0 ∨ type = S_IFREG then .regular [] else .special) mode)

def mkdir (path : CStr) (mode : Nat) : Except Errno Tree := do
  let p ← t.vacant cwd path true
  return t.add p (t.fresh .directory mode)

def symlink (target linkpath : CStr) : Except Errno Tree := do
  refuse (target = []) .ENOENT
  let p ← t.vacant cwd linkpath false
  return t.add p (t.fresh (.symlink target) 0o777)

def unlink (path : CStr) : Except Errno Tree := do
  let (p, i) ← t.find cwd false path
  refuse ((t.node i).content = .directory) .EISDIR
  return t.remove p

def rmdir (path : CStr) : Except Errno Tree := do
  let (p, i) ← t.find cwd false path
  refuse ((t.node i).content ≠ .directory) .ENOTDIR
  refuse (p = []) .EBUSY
  refuse (t.children p ≠ []) .ENOTEMPTY
  return t.remove p

def replaces (i : Ino) (q : Place) (j : Ino) : Except Errno Unit :=
  match (t.node i).content, (t.node j).content with
  | .directory, .directory => refuse (t.children q ≠ []) .ENOTEMPTY
  | .directory, _ => throw .ENOTDIR
  | _, .directory => throw .EISDIR
  | _, _ => return ()

def rename (oldpath newpath : CStr) : Except Errno Tree := do
  let (p, i) ← t.find cwd false oldpath
  let q ← t.resolve cwd false newpath
  refuse (p = [] ∨ q = []) .EBUSY
  refuse (newpath.getLast? = some slash ∧ (t.node i).content ≠ .directory) .ENOTDIR
  refuse (p.isPrefixOf q ∧ p ≠ q) .EINVAL
  refuse (q.isPrefixOf p ∧ p ≠ q) .ENOTEMPTY
  match t.at? q with
  | some j =>
    if i = j then return t
    t.replaces i q j
    return t.move p q
  | none => return t.move p q

def link (oldpath newpath : CStr) : Except Errno Tree := do
  let (p, i) ← t.find cwd false oldpath
  refuse ((t.node i).content = .directory) .EPERM
  let q ← t.vacant cwd newpath false
  return t.bind q p

-- ---------------------------------------------------------------------------
-- Attributes
-- ---------------------------------------------------------------------------

def chmod (path : CStr) (mode : Nat) : Except Errno Tree := do
  let (_, i) ← t.find cwd true path
  return t.modify i fun n => { n with mode := mode &&& 0o7777, ctime := t.clock }

/-- The mode of an object whose owner changes. A file is no longer one that runs as its
owner or its group. -/
def modeDisowned (n : Node) : Nat :=
  if n.content = .directory then n.mode
  else if n.mode &&& S_IXGRP = 0 then n.mode &&& 0o3777
  else n.mode &&& 0o1777

def chown (path : CStr) (owner group : OwnerArg) : Except Errno Tree := do
  let (_, i) ← t.find cwd true path
  return t.modify i fun n =>
    { n with uid := owner.getD n.uid, gid := group.getD n.gid, mode := modeDisowned n, ctime := t.clock }

def SetTime.apply (old clock : Int) : SetTime → Int
  | .at t => t
  | .now => clock
  | .omit => old

def utimensat (path : CStr) (atime mtime : SetTime) : Except Errno Tree := do
  let (_, i) ← t.find cwd false path
  return t.modify i fun n => { n with
    atime := SetTime.apply n.atime t.clock atime
    mtime := SetTime.apply n.mtime t.clock mtime
    ctime := t.clock }

def access (path : CStr) (mode : Nat) : Except Errno Unit := do
  let (_, i) ← t.find cwd true path
  refuse ([4, 2, 1].any fun bit => mode &&& bit ≠ 0 && !t.permits (t.node i) bit) .EACCES

/-- Flags: 1 only creates, 2 only replaces. -/
def setxattr (path name : CStr) (value : List UInt8) (flags : Nat) : Except Errno Tree := do
  let (_, i) ← t.find cwd true path
  let present := ((t.node i).xattrs.lookup name).isSome
  refuse (flags &&& 1 ≠ 0 ∧ present) .EEXIST
  refuse (flags &&& 2 ≠ 0 ∧ ¬present) .ENODATA
  refuse (value.length > XATTR_SIZE_MAX) .E2BIG
  return t.modify i fun n => { n with
    xattrs := (name, value) :: n.xattrs.filter fun a => a.1 ≠ name
    ctime := t.clock }

def removexattr (path name : CStr) : Except Errno Tree := do
  let (_, i) ← t.find cwd true path
  refuse (((t.node i).xattrs.lookup name).isNone) .ENODATA
  return t.modify i fun n => { n with xattrs := n.xattrs.filter fun a => a.1 ≠ name, ctime := t.clock }

/-- A value for a buffer of some size; size 0 only asks for the length. -/
def sized (value : List UInt8) (size : Nat) : Except Errno (Nat × Data) := do
  refuse (value.length > XATTR_SIZE_MAX) .E2BIG
  refuse (0 < size ∧ size < value.length) .ERANGE
  return (value.length, if size = 0 then .none else .bytes value)

def getxattr (path name : CStr) (size : Nat) : Except Errno (Nat × Data) := do
  let (_, i) ← t.find cwd true path
  match (t.node i).xattrs.lookup name with
  | some value => sized value size
  | none => throw .ENODATA

def listxattr (path : CStr) (size : Nat) : Except Errno (Nat × Data) := do
  let (_, i) ← t.find cwd true path
  sized ((t.node i).xattrs.flatMap fun a => a.1 ++ [0]) size

-- ---------------------------------------------------------------------------
-- Contents
-- ---------------------------------------------------------------------------

def readlink (path : CStr) (bufsiz : Nat) : Except Errno (Nat × Data) := do
  refuse (bufsiz = 0) .EINVAL
  let (_, i) ← t.find cwd false path
  match (t.node i).content with
  | .symlink target =>
    let bytes := target.take (min bufsiz PATH_MAX)
    return (bytes.length, .bytes bytes)
  | _ => throw .EINVAL

def dataOf (i : Ino) : Except Errno (List UInt8) :=
  match (t.node i).content with
  | .regular data => return data
  | .directory => throw .EISDIR
  | _ => throw .EINVAL

def truncate (path : CStr) (length : Int) : Except Errno Tree := do
  refuse (length < 0) .EINVAL
  let (_, i) ← t.find cwd true path
  let data ← t.dataOf i
  refuse (¬t.permits (t.node i) 2) .EACCES
  return t.setData i (Extents.resize 0 data length.toNat)

def openable (n : Node) (flags : OpenFlags) (writes : Bool) : Except Errno Unit := do
  refuse (n.content = .directory && (writes || flags.creat)) .EISDIR
  refuse (flags.acc ≠ .wronly && !t.permits n 4) .EACCES
  refuse (writes && !t.permits n 2) .EACCES

/-- The object `open` opens, and the tree with it created or cut. -/
def openFile (path : CStr) (flags : OpenFlags) (mode : Nat) : Except Errno (Tree × Ino) := do
  let p ← t.resolve cwd (!(flags.creat && flags.excl)) path
  match t.at? p with
  | none =>
    refuse (¬flags.creat) .ENOENT
    refuse (path.getLast? = some slash) .EISDIR
    return (t.add p (t.fresh (.regular []) mode), t.next)
  | some i =>
    refuse (flags.creat && flags.excl) .EEXIST
    t.openable (t.node i) flags (flags.acc ≠ .rdonly || flags.trunc)
    match (t.node i).content with
    | .symlink _ => throw .ELOOP
    | .regular _ => return (if flags.trunc then t.setData i [] else t, i)
    | _ => return (t, i)

end UnreliableFS.Posix.Tree
