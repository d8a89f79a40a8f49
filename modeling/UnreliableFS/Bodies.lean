import UnreliableFS.Table
import Mathlib.Tactic.ByContra

/-!
# Bodies of one call

All bodies but those of `flush`, `readdir` and `fsyncdir` make one system call
when they are given a `fuse_file_info`: `Request.call?` says which and
`Request.finish` what becomes of its reply.
-/

namespace UnreliableFS

open Interaction

namespace Request

/-- The call on a descriptor in `fi->fh`, which is an `int` to it. -/
def onDescriptor (fi : Option FuseFileInfo) (c : Int → Sys) : Option Sys :=
  fi.bind fun fi => if toInt fi.fh = -1 then none else some (c (toInt fi.fh))

def call? (fi : Option FuseFileInfo) : Request → Option Sys
  | .getattr path => some (.lstat path)
  | .readlink path bufsiz => some (.readlink path bufsiz)
  | .mknod path mode dev => some (.mknod path mode dev)
  | .mkdir path mode => some (.mkdir path mode)
  | .unlink path => some (.unlink path)
  | .rmdir path => some (.rmdir path)
  | .symlink target linkpath => some (.symlink target linkpath)
  | .rename oldpath newpath => some (.rename oldpath newpath)
  | .link oldpath newpath => some (.link oldpath newpath)
  | .chmod path mode => some (.chmod path mode)
  | .chown path owner group => some (.chown path owner group)
  | .truncate path length => some (.truncate path length)
  | .open path _ => fi.map fun fi => .open path fi.flags 0
  | .read _ size offset => onDescriptor fi (.pread · size offset)
  | .write _ data offset => onDescriptor fi (.pwrite · data offset)
  | .statfs path => some (.statvfs path)
  | .flush _ => none
  | .release _ => fi.map fun fi => .close (toInt fi.fh)
  | .fsync _ datasync => fi.map fun fi =>
    if datasync then .fdatasync (toInt fi.fh) else .fsync (toInt fi.fh)
  | .setxattr path name value flags => some (.setxattr path name value flags)
  | .getxattr path name size => some (.getxattr path name size)
  | .listxattr path size => some (.listxattr path size)
  | .removexattr path name => some (.removexattr path name)
  | .opendir path => some (.opendir path)
  | .readdir .. => none
  | .releasedir _ => fi.map fun fi => .closedir fi.fh
  | .fsyncdir .. => none
  | .access path mode => some (.access path mode)
  | .create path _ mode => fi.map fun fi => .open path fi.flags mode
  | .ftruncate path length => some (.truncate path length)
  | .fgetattr _ => fi.map fun fi => .fstat (toInt fi.fh)
  | .lock _ cmd fl => fi.map fun fi => .fcntl (toInt fi.fh) cmd fl
  | .ioctl _ cmd arg => fi.map fun fi => .ioctl (toInt fi.fh) cmd arg
  | .flock _ op => fi.map fun fi => .flock (toInt fi.fh) op
  | .fallocate _ mode offset len =>
    if mode = 0 then onDescriptor fi (.fallocate · 0 offset len) else none
  | .utimens path atime mtime => some (.utimensat 0 path atime mtime)

def prepare (l : Local) : Request → Local
  | .getattr _ => { l with stat := {} }
  | _ => l

/-- The result of a body whose call has succeeded. An `int ret` of -1 is taken
for a failure. -/
def succeed (l : Local) (ret : Nat) : Request → Int × Local
  | .open .. | .create .. | .opendir .. =>
    (0, { l with fi := l.fi.map fun fi => { fi with fh := ((ret : Int) % 2 ^ 64).toNat } })
  | .read .. | .write .. | .listxattr .. => (if toInt ret = -1 then -l.errno else toInt ret, l)
  | .getxattr .. => (if toInt ret = -1 then -l.errno else 0, l)
  | .readlink .. => if toInt ret = -1 then (-l.errno, l)
    else (0, { l with buf := fun i => if (i : Int) = toInt ret then 0 else l.buf i })
  | .ioctl .. => (ret, l)
  | _ => (0, l)

def finish (r : Request) (l : Local) : SysReply → Int × Local
  | .fail e => (-e.code, (r.prepare l).fail e)
  | .done ret d => r.succeed ((r.prepare l).store d) ret

end Request

theorem Request.finish_fail_neg (r : Request) (l : Local) (e : Errno) :
    (r.finish l (.fail e)).1 < 0 := by
  have hpos := e.pos
  simp only [finish]
  omega

theorem Request.prepare_opens {r : Request} {flags : OpenFlags} (h : r.opens? = some flags)
    (l : Local) : r.prepare l = l := by
  cases r <;> first | rfl | cases h

theorem Request.succeed_opens {r : Request} {flags : OpenFlags} (h : r.opens? = some flags)
    {l : Local} {fi : FuseFileInfo} (hfi : l.fi = some fi) {ret : Nat} (hret : ret < 2 ^ 64) :
    r.succeed l ret = (0, { l with fi := some { fi with fh := ret } }) := by
  have hfh : ((ret : Int) % 2 ^ 64).toNat = ret := by omega
  cases r with
  | «open» | create | opendir => simp only [succeed, hfi, Option.map_some, hfh]
  | _ => cases h

-- ---------------------------------------------------------------------------
-- The bodies
-- ---------------------------------------------------------------------------

variable {l : Local} {c : Sys} {fi : FuseFileInfo}

theorem sys_bind_eq {α : Type} {f : Int × Local → Prog sysSig α} {g : SysReply → α}
    (hfail : ∀ e, f (-1, l.fail e) = .done (g (.fail e)))
    (hdone : ∀ ret d, f ((ret : Nat), l.store d) = .done (g (.done ret d))) :
    (sys c l >>= f) = .call c fun reply => .done (g reply) := by
  simp only [sys, Prog.call_bind]
  congr 1
  funext reply
  cases reply with
  | fail e => exact hfail e
  | done ret d => exact hdone ret d

theorem forward_eq : forward c l = .call c fun reply => .done (
    match reply with
    | .fail e => (-e.code, l.fail e)
    | .done _ d => (0, l.store d)) := by
  unfold forward
  rw [Body.bind_apply]
  exact sys_bind_eq (fun e => rfl) (fun ret d => rfl)

namespace Request

variable {fuel : Nat} {r : Request}

theorem body_forward (h : (r.operation fuel).body l = forward c (r.prepare l))
    (hs : ∀ l ret, r.succeed l ret = (0, l)) :
    (r.operation fuel).body l = .call c fun reply => .done (r.finish l reply) := by
  rw [h, forward_eq]
  congr 1
  funext reply
  cases reply with
  | fail e => rfl
  | done ret d => rw [finish, hs]

/-- `int ret = call(..); if (ret == -1) return -errno;` and a value of `ret`. -/
theorem body_checked (value : Int → Local → Int × Local) (h : (r.operation fuel).body l =
      (do
        let ret := toInt (← sys c)
        if ret = -1 then return -(← errno)
        fun l => .done (value ret l) : Body Int) l)
    (hp : r.prepare l = l)
    (hs : ∀ l ret, r.succeed l ret = if toInt ret = -1 then (-(l.errno : Int), l)
      else value (toInt ret) l) :
    (r.operation fuel).body l = .call c fun reply => .done (r.finish l reply) := by
  rw [h, Body.bind_apply]
  refine sys_bind_eq (fun e => ?_) (fun ret d => ?_)
  · rw [finish, hp]
    rfl
  · rw [finish, hp, hs]
    dsimp only
    split
    · rfl
    · rfl

/-- A body that opens something into `fi->fh`. -/
theorem body_opening (h : (r.operation fuel).body l = (do
      let ret ← sys c
      if ret = -1 then return -(← errno)
      setFh ret
      return 0 : Body Int) l)
    (hp : r.prepare l = l)
    (hs : ∀ l ret, r.succeed l ret =
      (0, { l with fi := l.fi.map fun fi => { fi with fh := ((ret : Int) % 2 ^ 64).toNat } })) :
    (r.operation fuel).body l = .call c fun reply => .done (r.finish l reply) := by
  rw [h, Body.bind_apply]
  refine sys_bind_eq (fun e => ?_) (fun ret d => ?_)
  · rw [finish, hp]
    rfl
  · rw [finish, hp, hs]
    simp only [natCast_ne_neg_one, ↓reduceIte]
    rfl

-- ---------------------------------------------------------------------------
-- Reading and writing
-- ---------------------------------------------------------------------------

def transfer (opening : Sys) (io : Int → Sys) : Body Int := do
  let fd ← if ← fiIsNull then sys opening else pure (toInt (← fh))
  if fd = -1 then return -(← errno)
  let ret := toInt (← sys (io fd))
  let ret ← if ret = -1 then pure (-(← errno)) else pure ret
  if ← fiIsNull then
    let _ ← sys (.close fd)
  return ret

def afterTransfer (fd : Int) (ret : Int) : Body Int := do
  let ret ← if ret = -1 then pure (-(← errno)) else pure ret
  if ← fiIsNull then
    let _ ← sys (.close fd)
  return ret

theorem afterTransfer_handle (hfi : l.fi = some fi) (fd ret : Int) :
    afterTransfer fd ret l = .done (if ret = -1 then -(l.errno : Int) else ret, l) := by
  unfold afterTransfer
  by_cases h : ret = -1
  · simp [h, hfi]
  · simp [h, hfi]

variable (opening : Sys) (io : Int → Sys)

theorem transfer_handle (hfi : l.fi = some fi) (hfd : toInt fi.fh ≠ -1) :
    transfer opening io l = sys (io (toInt fi.fh)) l >>= fun p =>
      afterTransfer (toInt fi.fh) (toInt p.1) p.2 := by
  unfold transfer
  simp only [Body.bind_apply, fiIsNull_apply, hfi, Option.isNone_some, Bool.false_eq_true,
    ↓reduceIte, Prog.done_bind, fh_apply l hfi, Body.pure_apply, hfd]
  rfl

theorem body_transfer (h : (r.operation fuel).body l = transfer opening io l)
    (hp : r.prepare l = l)
    (hs : ∀ l ret, r.succeed l ret = (if toInt ret = -1 then -(l.errno : Int) else toInt ret, l))
    (hfi : l.fi = some fi) (hfd : toInt fi.fh ≠ -1) :
    (r.operation fuel).body l = .call (io (toInt fi.fh)) fun reply => .done (r.finish l reply) := by
  rw [h, transfer_handle opening io hfi hfd]
  refine sys_bind_eq (fun e => ?_) (fun ret d => ?_)
  · have hfi' : (l.fail e).fi = some fi := hfi
    dsimp only
    rw [afterTransfer_handle hfi', finish, hp]
    rfl
  · have hfi' : (l.store d).fi = some fi := by rw [Local.fi_store, hfi]
    dsimp only
    rw [afterTransfer_handle hfi', finish, hp, hs]

-- ---------------------------------------------------------------------------
-- Every body of one call
-- ---------------------------------------------------------------------------

def fallocateFd (fd : Int) (offset len : Int) : Body Int := do
  let ret ← sys (.fallocate (toInt (← fh)) 0 offset len)
  if ret = -1 then return -(← errno)
  if ← fiIsNull then
    let _ ← sys (.close fd)
  return 0

theorem fallocate_body_handle (path : CStr) (offset len : Int) (hfi : l.fi = some fi) :
    ((Request.fallocate path 0 offset len).operation fuel).body l =
      if toInt fi.fh = -1 then .done (-(l.errno : Int), l)
      else fallocateFd (toInt fi.fh) offset len l := by
  simp only [operation, unreliableFallocate, ne_eq, not_true_eq_false, ↓reduceIte,
    Body.bind_apply, fiIsNull_apply, Prog.done_bind, hfi, Option.isNone_some, Bool.false_eq_true,
    fh_apply l hfi, Body.pure_apply]
  split
  · rfl
  · rfl

theorem onDescriptor_eq_some {io : Int → Sys} {fi? : Option FuseFileInfo}
    (h : onDescriptor fi? io = some c) :
    ∃ fi, fi? = some fi ∧ toInt fi.fh ≠ -1 ∧ io (toInt fi.fh) = c := by
  unfold onDescriptor at h
  obtain ⟨fi, hfi, h⟩ := Option.bind_eq_some_iff.mp h
  split at h
  · cases h
  · rename_i hfd
    exact ⟨fi, hfi, hfd, Option.some.inj h⟩

theorem onDescriptor_eq_none {io : Int → Sys} {fi? : Option FuseFileInfo}
    (h : onDescriptor fi? io = none) : fi? = none ∨ ∃ fi, fi? = some fi ∧ toInt fi.fh = -1 := by
  cases fi? with
  | none => exact .inl rfl
  | some fi =>
    refine .inr ⟨fi, rfl, ?_⟩
    by_contra hfd
    simp [onDescriptor, hfd] at h

/-- A descriptor of -1 is reported with the `errno` of some earlier call. -/
theorem transfer_no_descriptor (hfi : l.fi = some fi) (hfd : toInt fi.fh = -1) :
    transfer opening io l = .done (-(l.errno : Int), l) := by
  unfold transfer
  simp only [Body.bind_apply, fiIsNull_apply, hfi, Option.isNone_some, Bool.false_eq_true,
    ↓reduceIte, Prog.done_bind, fh_apply l hfi, Body.pure_apply, hfd, errno_apply]

theorem body_of_call? (h : r.call? l.fi = some c) :
    (r.operation fuel).body l = .call c fun reply => .done (r.finish l reply) := by
  cases r with
  | getattr | mknod | mkdir | unlink | rmdir | symlink | rename | link | chmod | chown | truncate
  | statfs | setxattr | removexattr | access | ftruncate | utimens =>
    cases h
    exact body_forward rfl fun _ _ => rfl
  | release | fsync | releasedir | fgetattr | lock | flock =>
    obtain ⟨fi, hfi, rfl⟩ := Option.map_eq_some_iff.mp h
    refine body_forward ?_ fun _ _ => rfl
    simp only [operation, unreliableRelease, unreliableFsync, unreliableReleasedir,
      unreliableFgetattr, unreliableLock, unreliableFlock, Body.bind_apply, fh_apply l hfi,
      Prog.done_bind]
    first | rfl | (split <;> rfl)
  | readlink path bufsiz =>
    cases h
    exact body_checked (fun ret l =>
      (0, { l with buf := fun i => if (i : Int) = ret then 0 else l.buf i })) rfl rfl fun _ _ => rfl
  | listxattr path size =>
    cases h
    refine body_checked (fun ret l => (ret, l)) rfl rfl fun l ret => ?_
    show (if toInt ret = -1 then -(l.errno : Int) else toInt ret, l) = _
    split
    · rfl
    · rfl
  | getxattr path name size =>
    cases h
    refine body_checked (fun _ l => (0, l)) rfl rfl fun l ret => ?_
    show (if toInt ret = -1 then -(l.errno : Int) else 0, l) = _
    split
    · rfl
    · rfl
  | opendir path =>
    cases h
    exact body_opening rfl rfl fun _ _ => rfl
  | «open» | create =>
    obtain ⟨fi, hfi, rfl⟩ := Option.map_eq_some_iff.mp h
    refine body_opening ?_ rfl fun _ _ => rfl
    simp only [operation, unreliableOpen, unreliableCreate, Body.bind_apply, fiFlags_apply l hfi,
      Prog.done_bind]
  | ioctl path cmd arg =>
    obtain ⟨fi, hfi, rfl⟩ := Option.map_eq_some_iff.mp h
    simp only [operation, unreliableIoctl, Body.bind_apply, fh_apply l hfi, Prog.done_bind]
    refine sys_bind_eq (fun e => rfl) (fun ret d => ?_)
    simp only [natCast_ne_neg_one, ↓reduceIte]
    rfl
  | read path size offset =>
    simp only [call?] at h
    obtain ⟨fi, hfi, hfd, rfl⟩ := onDescriptor_eq_some h
    exact body_transfer (.open path O_RDONLY 0) (.pread · size offset) rfl rfl
      (fun _ _ => rfl) hfi hfd
  | write path data offset =>
    simp only [call?] at h
    obtain ⟨fi, hfi, hfd, rfl⟩ := onDescriptor_eq_some h
    exact body_transfer (.open path O_WRONLY 0) (.pwrite · data offset) rfl rfl
      (fun _ _ => rfl) hfi hfd
  | fallocate path mode offset len =>
    simp only [call?] at h
    split at h
    · rename_i hm
      obtain ⟨fi, hfi, hfd, rfl⟩ := onDescriptor_eq_some h
      subst hm
      rw [fallocate_body_handle path offset len hfi, if_neg hfd]
      simp only [fallocateFd, Body.bind_apply, fh_apply l hfi, Prog.done_bind]
      refine sys_bind_eq (fun e => rfl) (fun ret d => ?_)
      have hfi' : (l.store d).fi = some fi := by rw [Local.fi_store, hfi]
      simp only [natCast_ne_neg_one, ↓reduceIte, Body.bind_apply, fiIsNull_apply, hfi',
        Option.isNone_some, Prog.done_bind, Bool.false_eq_true, Body.pure_apply]
      rfl
    · cases h
  | flush | readdir | fsyncdir => cases h

section
variable {σ : Type} {K : Handler sysSig σ} {s : σ}

theorem run_of_call? (h : r.call? l.fi = some c) :
    ((r.operation fuel).body l).run K s = some (r.finish l (K c s).1, (K c s).2) := by
  rw [body_of_call? h]
  rfl

theorem trace_of_call? (h : r.call? l.fi = some c) :
    ((r.operation fuel).body l).trace K s = [⟨s, c, (K c s).1⟩] := by
  rw [body_of_call? h]
  rfl

end

end Request

end UnreliableFS
