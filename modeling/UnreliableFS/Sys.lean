import UnreliableFS.CString
import UnreliableFS.Interaction.Wp

/-!
# System calls and the memory of an operation

The calls the bodies of the operations make, as a signature. A call fails with
an errno, or returns a number and may hand back data. `Local` is the memory a
body works on: `errno`, the `fuse_file_info` and the output buffers its caller
passed; `sys` performs a call the way C sees it, -1 and `errno` for a failure.
-/

namespace UnreliableFS

open Interaction

inductive AccMode
  | rdonly | wronly | rdwr
  deriving DecidableEq, Repr

structure OpenFlags where
  acc : AccMode := .rdonly
  creat : Bool := false
  excl : Bool := false
  trunc : Bool := false
  append : Bool := false
  deriving DecidableEq, Repr

def O_RDONLY : OpenFlags := {}
def O_WRONLY : OpenFlags := { acc := .wronly }

structure Stat where
  ino : Nat := 0
  mode : Nat := 0
  nlink : Nat := 0
  uid : Nat := 0
  gid : Nat := 0
  size : Nat := 0
  atime : Int := 0
  mtime : Int := 0
  ctime : Int := 0
  deriving DecidableEq, Repr

structure StatVfs where
  bsize : Nat
  blocks : Nat
  bfree : Nat
  files : Nat
  deriving DecidableEq, Repr

structure Dirent where
  ino : Nat
  type : Nat
  name : CStr
  deriving DecidableEq, Repr

inductive LockType
  | rdlck | wrlck | unlck
  deriving DecidableEq, Repr

/-- `struct flock` relative to the start of the file; length 0 is up to its end. -/
structure Flock where
  type : LockType
  start : Nat
  len : Nat
  pid : Int := 0
  deriving DecidableEq, Repr

inductive LockCmd
  | getlk | setlk | setlkw
  deriving DecidableEq, Repr

inductive FlockOp
  | sh | ex | un
  deriving DecidableEq, Repr

inductive SetTime
  | at (t : Int) | now | omit
  deriving DecidableEq, Repr

/-- `none` is the user or group -1, which `chown` leaves as it is. -/
abbrev OwnerArg := Option Nat

inductive Sys
  | lstat (path : CStr)
  | readlink (path : CStr) (bufsiz : Nat)
  | mknod (path : CStr) (mode dev : Nat)
  | mkdir (path : CStr) (mode : Nat)
  | unlink (path : CStr)
  | rmdir (path : CStr)
  | symlink (target linkpath : CStr)
  | rename (oldpath newpath : CStr)
  | link (oldpath newpath : CStr)
  | chmod (path : CStr) (mode : Nat)
  | chown (path : CStr) (owner group : OwnerArg)
  | truncate (path : CStr) (length : Int)
  | open (path : CStr) (flags : OpenFlags) (mode : Nat)
  | pread (fd : Int) (size : Nat) (offset : Int)
  | pwrite (fd : Int) (data : List UInt8) (offset : Int)
  | statvfs (path : CStr)
  | dup (fd : Int)
  | close (fd : Int)
  | fdatasync (fd : Int)
  | fsync (fd : Int)
  | setxattr (path name : CStr) (value : List UInt8) (flags : Nat)
  | getxattr (path name : CStr) (size : Nat)
  | listxattr (path : CStr) (size : Nat)
  | removexattr (path name : CStr)
  | opendir (path : CStr)
  | readdir (dir : Int)
  | closedir (dir : Int)
  | dirfd (dir : Int)
  | access (path : CStr) (mode : Nat)
  | fstat (fd : Int)
  | fcntl (fd : Int) (cmd : LockCmd) (fl : Flock)
  | ioctl (fd : Int) (cmd : Int) (arg : Nat)
  | flock (fd : Int) (op : FlockOp)
  | fallocate (fd : Int) (mode : Nat) (offset len : Int)
  | utimensat (dirfd : Int) (path : CStr) (atime mtime : SetTime)
  deriving DecidableEq

def Sys.descriptor? : Sys → Option Int
  | .pread fd .. | .pwrite fd .. | .dup fd | .close fd | .fdatasync fd | .fsync fd | .fstat fd
  | .fcntl fd .. | .ioctl fd .. | .flock fd .. | .fallocate fd .. => some fd
  | _ => none

def Sys.stream? : Sys → Option Int
  | .readdir dir | .closedir dir | .dirfd dir => some dir
  | _ => none

/-- What a successful call stores through the pointers it was given. -/
inductive Data
  | none
  | bytes (data : List UInt8)
  | stat (st : Stat)
  | statvfs (st : StatVfs)
  | dirent (de : Dirent)
  | flock (fl : Flock)

inductive SysReply
  | fail (e : Errno)
  | done (ret : Nat) (data : Data)

def SysReply.isDone : SysReply → Bool
  | .fail _ => false
  | .done .. => true

abbrev sysSig : Sig := ⟨Sys, fun _ => SysReply⟩

-- ---------------------------------------------------------------------------
-- The memory of one operation
-- ---------------------------------------------------------------------------

structure FuseFileInfo where
  flags : OpenFlags := {}
  fh : Nat := 0
  deriving DecidableEq, Repr

/-- Positions of `buf` from the size of the caller's buffer on are memory next
to it. -/
structure Local where
  errno : Nat
  fi : Option FuseFileInfo
  buf : Nat → UInt8
  stat : Stat
  statvfs : StatVfs
  flock : Flock
  de : Dirent
  /-- The entries passed to the filler of `readdir`. -/
  filled : List Dirent

def Local.zero : Local where
  errno := 0
  fi := none
  buf := fun _ => 0
  stat := {}
  statvfs := ⟨0, 0, 0, 0⟩
  flock := ⟨.unlck, 0, 0, 0⟩
  de := ⟨0, 0, []⟩
  filled := []

def overlay (buf : Nat → UInt8) (data : List UInt8) : Nat → UInt8 :=
  fun i => if h : i < data.length then data[i] else buf i

def Local.store (l : Local) : Data → Local
  | .none => l
  | .bytes data => { l with buf := overlay l.buf data }
  | .stat st => { l with stat := st }
  | .statvfs st => { l with statvfs := st }
  | .dirent de => { l with de }
  | .flock fl => { l with flock := fl }

def Local.fail (l : Local) (e : Errno) : Local := { l with errno := e.code }

@[simp] theorem Local.fi_fail (l : Local) (e : Errno) : (l.fail e).fi = l.fi := rfl
@[simp] theorem Local.errno_fail (l : Local) (e : Errno) : (l.fail e).errno = e.code := rfl
@[simp] theorem Local.errno_store (l : Local) (d : Data) : (l.store d).errno = l.errno := by
  cases d <;> rfl
@[simp] theorem Local.fi_store (l : Local) (d : Data) : (l.store d).fi = l.fi := by
  cases d <;> rfl

abbrev Body := StateT Local (Prog sysSig)

/-- A call as C sees it: -1 stands for a null pointer too. -/
def sys (c : Sys) : Body Int := fun l =>
  .call c fun
    | .fail e => .done (-1, l.fail e)
    | .done ret data => .done (ret, l.store data)

/-- What a call returns with a success is not taken for a failure. -/
@[simp] theorem natCast_ne_neg_one (n : Nat) : (n : Int) ≠ -1 := by omega

def errno : Body Int := fun l => .done (l.errno, l)

/-- `fi == NULL`. -/
def fiIsNull : Body Bool := fun l => .done (l.fi.isNone, l)

/-- `fi->fh`; the null pointer has no such field. -/
def fh : Body Nat := fun l =>
  match l.fi with
  | some fi => .done (fi.fh, l)
  | none => .stuck

/-- `fi->flags`. -/
def fiFlags : Body OpenFlags := fun l =>
  match l.fi with
  | some fi => .done (fi.flags, l)
  | none => .stuck

/-- `fi->fh = value`, a conversion to `uint64_t`. -/
def setFh (value : Int) : Body Unit := fun l =>
  .done ((), { l with fi := l.fi.map fun fi => { fi with fh := (value % 2 ^ 64).toNat } })

-- ---------------------------------------------------------------------------
-- Bodies as programs
-- ---------------------------------------------------------------------------

section
variable {α γ : Type} (l : Local)

@[simp] theorem Body.bind_apply (x : Body α) (f : α → Body γ) :
    (x >>= f) l = x l >>= fun p => f p.1 p.2 := rfl

@[simp] theorem Body.pure_apply (a : α) : (pure a : Body α) l = .done (a, l) := rfl

@[simp] theorem Body.get_apply : (get : Body Local) l = .done (l, l) := rfl

@[simp] theorem Body.set_apply (l' : Local) : (set l' : Body Unit) l = .done ((), l') := rfl

@[simp] theorem Body.modify_apply (f : Local → Local) :
    (modify f : Body Unit) l = .done ((), f l) := rfl

@[simp] theorem errno_apply : errno l = .done ((l.errno : Int), l) := rfl

@[simp] theorem fiIsNull_apply : fiIsNull l = .done (l.fi.isNone, l) := rfl

theorem fh_apply {fi : FuseFileInfo} (h : l.fi = some fi) : fh l = .done (fi.fh, l) := by
  simp only [fh, h]

theorem fiFlags_apply {fi : FuseFileInfo} (h : l.fi = some fi) :
    fiFlags l = .done (fi.flags, l) := by
  simp only [fiFlags, h]

@[simp] theorem setFh_apply (value : Int) : setFh value l =
    .done ((), { l with fi := l.fi.map fun fi => { fi with fh := (value % 2 ^ 64).toNat } }) := rfl

end

section
variable {σ : Type} {K : Handler sysSig σ} {s : σ} {l : Local} {c : Sys}

theorem sys_run_fail {α : Type} {f : Int × Local → Prog sysSig α} {e : Errno}
    (h : (K c s).1 = .fail e) :
    (sys c l >>= f).run K s = (f (-1, l.fail e)).run K (K c s).2 := by
  simp only [sys, Prog.call_bind, Prog.run_call, h]
  rfl

theorem sys_run_done {α : Type} {f : Int × Local → Prog sysSig α} {ret : Nat} {d : Data}
    (h : (K c s).1 = .done ret d) :
    (sys c l >>= f).run K s = (f (ret, l.store d)).run K (K c s).2 := by
  simp only [sys, Prog.call_bind, Prog.run_call, h]
  rfl

/-- A call fails with some errno or returns. -/
theorem sys_wp {α : Type} {f : Int × Local → Prog sysSig α} {Q : α → σ → Prop}
    (hfail : ∀ e, (K c s).1 = .fail e → (f (-1, l.fail e)).wp K Q (K c s).2)
    (hdone : ∀ ret d, (K c s).1 = .done ret d → (f (ret, l.store d)).wp K Q (K c s).2) :
    (sys c l >>= f).wp K Q s := by
  rw [Prog.wp_iff_run]
  rcases h : (K c s).1 with e | ⟨ret, d⟩
  · rw [sys_run_fail h, ← Prog.wp_iff_run]
    exact hfail e h
  · rw [sys_run_done h, ← Prog.wp_iff_run]
    exact hdone ret d h

theorem sys_trace_fail {α : Type} {f : Int × Local → Prog sysSig α} {e : Errno}
    (h : (K c s).1 = .fail e) :
    (sys c l >>= f).trace K s =
      ⟨s, c, .fail e⟩ :: (f (-1, l.fail e)).trace K (K c s).2 := by
  simp only [sys, Prog.call_bind, Prog.trace_call, h]
  rfl

theorem sys_trace_done {α : Type} {f : Int × Local → Prog sysSig α} {ret : Nat} {d : Data}
    (h : (K c s).1 = .done ret d) :
    (sys c l >>= f).trace K s = ⟨s, c, .done ret d⟩ :: (f (ret, l.store d)).trace K (K c s).2 := by
  simp only [sys, Prog.call_bind, Prog.trace_call, h]
  rfl

end

end UnreliableFS
