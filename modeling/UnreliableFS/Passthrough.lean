import UnreliableFS.Bodies
import UnreliableFS.Posix.Laws
import Mathlib.Algebra.Order.Ring.Int
import Mathlib.Data.Int.Cast.Lemmas

/-!
# Results of operations that are let through

What an operation owes its caller is a function of the calls its body makes:
the negated errno of the first one that failed, and otherwise the success value
of the operation. `Request.Unmasked` says for which answers of the kernel the
bodies keep to it.
-/

namespace UnreliableFS

open Interaction

variable {β σ : Type}

def firstFailure (tr : List (Event sysSig σ)) : Option Errno :=
  tr.findSome? fun e =>
    match e.reply with
    | .fail err => some err
    | .done .. => none

def returned (tr : List (Event sysSig σ)) : Nat :=
  (tr.findSome? fun e =>
    match e.call, e.reply with
    | .pread .., .done ret _ | .pwrite .., .done ret _ | .getxattr .., .done ret _
    | .listxattr .., .done ret _ | .ioctl .., .done ret _ => some ret
    | _, _ => none).getD 0

namespace Request

def successValue (r : Request) (tr : List (Event sysSig σ)) : Int :=
  match r with
  | .read .. | .write .. | .getxattr .. | .listxattr .. | .ioctl .. => returned tr
  | _ => 0

def expected (r : Request) (tr : List (Event sysSig σ)) : Int :=
  match firstFailure tr with
  | some err => -err.code
  | none => r.successValue tr

/-- The body ends, with the result its calls ask for. -/
def BodyFaithful (K : Handler sysSig σ) (fuel : Nat) (r : Request) (l : Local) (s : σ) : Prop :=
  ∃ l' s', ((r.operation fuel).body l).run K s =
    some ((r.expected (((r.operation fuel).body l).trace K s), l'), s')

def Faithful (r : Request) (os : OS β) (E : Setup) (fuel : Nat) (l : Local) (w : World β) : Prop :=
  ∃ l' w', ((r.operation fuel).call E l).run os.handler w =
    some ((r.expected ((r.operation fuel).sysTrace os E l w), l'), w')

def needsFileInfo : Request → Bool
  | .open .. | .create .. | .opendir .. | .flush .. | .release .. | .fsync .. | .releasedir ..
  | .fgetattr .. | .lock .. | .ioctl .. | .flock .. => true
  | _ => false

end Request

-- ---------------------------------------------------------------------------
-- Where the result is masked
-- ---------------------------------------------------------------------------

def Succeeds (K : Handler sysSig σ) (c : Sys) (s : σ) : Prop := ∃ ret d, (K c s).1 = .done ret d

def Sys.transfers : Sys → Bool
  | .readlink .. | .pread .. | .pwrite .. | .getxattr .. | .listxattr .. => true
  | _ => false

/-- Documented of the kernel: a call transfers at most `0x7ffff000` bytes, so the
number fits into an `int`. -/
structure ResultsFit (K : Handler sysSig σ) : Prop where
  lt : ∀ c s ret d, Sys.transfers c = true → (K c s).1 = .done ret d → ret < 2 ^ 31

theorem ResultsFit.toInt_eq {K : Handler sysSig σ} (hK : ResultsFit K) {c : Sys} {s : σ} {ret : Nat}
    {d : Data} (ho : Sys.transfers c = true) (hc : (K c s).1 = .done ret d) :
    toInt ret = ret := by
  have hlt := hK.lt c s ret d ho hc
  exact toInt_of_small (by omega) (by omega)

/-- A descriptor opened for one transfer is closed without an error. -/
def TransferUnmasked (K : Handler sysSig σ) (l : Local) (s : σ) (opening : Sys) (io : Int → Sys) :
    Prop :=
  l.fi = none → ∀ fd d, (K opening s).1 = .done fd d →
    Succeeds K (io fd) (K opening s).2 → Succeeds K (.close fd) (K (io fd) (K opening s).2).2

/-- What the kernel answers when the result of an operation is that of its calls. -/
def Request.Unmasked (K : Handler sysSig σ) (l : Local) (s : σ) : Request → Prop
  | .read path size offset => TransferUnmasked K l s (.open path O_RDONLY 0) (.pread · size offset)
  | .write path data offset => TransferUnmasked K l s (.open path O_WRONLY 0) (.pwrite · data offset)
  | .getxattr path name size => ∀ ret d, (K (.getxattr path name size) s).1 = .done ret d → ret = 0
  | .flush _ => ∀ fi, l.fi = some fi → ∀ e, (K (.dup (toInt fi.fh)) s).1 = .fail e →
      (K (.close (-1)) (K (.dup (toInt fi.fh)) s).2).1 = .fail e
  | .fsyncdir path datasync => ∀ dir d, (K (.opendir path) s).1 = .done dir d →
      let s₁ := (K (.opendir path) s).2
      let s₂ := (K (.dirfd dir) s₁).2
      let sync (fd : Int) : Sys := if datasync then .fdatasync fd else .fsync fd
      match (K (.dirfd dir) s₁).1 with
      | .fail e => (K (sync (-1)) s₂).1 = .fail e
      | .done fd _ => Succeeds K (sync fd) s₂ → Succeeds K (.closedir dir) (K (sync fd) s₂).2
  | .fallocate path _ _ _ => l.fi = none → ¬Succeeds K (.open path O_WRONLY 0) s
  | _ => True

theorem Errno.neg_code_ne (e : Errno) (n : Nat) : (n : Int) ≠ -(e.code : Int) := by
  have hp := e.pos
  omega

namespace Request

variable {K : Handler sysSig σ} {fuel : Nat} {r : Request} {l : Local} {s : σ} {c : Sys}

@[simp] theorem firstFailure_nil : firstFailure ([] : List (Event sysSig σ)) = none := rfl

@[simp] theorem firstFailure_fail (tr : List (Event sysSig σ)) (e : Errno) :
    firstFailure (⟨s, c, .fail e⟩ :: tr) = some e := rfl

@[simp] theorem firstFailure_done (tr : List (Event sysSig σ)) (ret : Nat) (d : Data) :
    firstFailure (⟨s, c, .done ret d⟩ :: tr) = firstFailure tr := rfl

theorem bodyFaithful_iff {x : Int × Local} {s' : σ} {tr : List (Event sysSig σ)}
    (hr : ((r.operation fuel).body l).run K s = some (x, s'))
    (ht : ((r.operation fuel).body l).trace K s = tr) :
    BodyFaithful K fuel r l s ↔ x.1 = r.expected tr := by
  unfold BodyFaithful
  rw [hr, ht]
  constructor
  · rintro ⟨l'', s'', h⟩
    cases h
    rfl
  · intro h
    rw [← h]
    exact ⟨_, _, rfl⟩

theorem faithful_of_call? (h : r.call? l.fi = some c) :
    BodyFaithful K fuel r l s ↔ ∀ ret d, (K c s).1 = .done ret d →
      (r.succeed ((r.prepare l).store d) ret).1 = r.successValue [⟨s, c, .done ret d⟩] := by
  rw [bodyFaithful_iff (run_of_call? h) (trace_of_call? h)]
  rcases hc : (K c s).1 with e | ⟨ret, d⟩
  · simp [finish, expected]
  · simp only [finish, expected, firstFailure_done, firstFailure_nil, SysReply.done.injEq, and_imp]
    exact ⟨by rintro h _ _ rfl rfl; exact h, fun h => h _ _ rfl rfl⟩

-- ---------------------------------------------------------------------------
-- Without a `fuse_file_info`
-- ---------------------------------------------------------------------------

theorem afterTransfer_null (hfi : l.fi = none) (fd ret : Int) :
    afterTransfer fd ret l = sys (.close fd) l >>= fun p =>
      .done (if ret = -1 then -(l.errno : Int) else ret, p.2) := by
  unfold afterTransfer
  by_cases h : ret = -1
  · simp only [h, ↓reduceIte, Body.bind_apply, errno_apply, Prog.done_bind, Body.pure_apply,
      fiIsNull_apply, hfi, Option.isNone_none]
  · simp only [h, ↓reduceIte, Body.bind_apply, Prog.done_bind, Body.pure_apply, fiIsNull_apply, hfi,
      Option.isNone_none]

theorem afterTransfer_null_run (hfi : l.fi = none) (fd ret : Int) : ∃ l' s',
    (afterTransfer fd ret l).run K s =
      some ((if ret = -1 then -(l.errno : Int) else ret, l'), s') := by
  rw [afterTransfer_null hfi]
  rcases hc : (K (.close fd) s).1 with e | ⟨n, d⟩
  · exact ⟨_, _, sys_run_fail hc⟩
  · exact ⟨_, _, sys_run_done hc⟩

theorem afterTransfer_null_trace (hfi : l.fi = none) (fd ret : Int) :
    (afterTransfer fd ret l).trace K s = [⟨s, .close fd, (K (.close fd) s).1⟩] := by
  rw [afterTransfer_null hfi]
  rcases hc : (K (.close fd) s).1 with e | ⟨n, d⟩
  · exact sys_trace_fail hc
  · exact sys_trace_done hc

variable {opening : Sys} {io : Int → Sys}

theorem transfer_null (hfi : l.fi = none) :
    transfer opening io l = sys opening l >>= fun q =>
      if q.1 = -1 then .done (-(q.2.errno : Int), q.2)
      else sys (io q.1) q.2 >>= fun p => afterTransfer q.1 (toInt p.1) p.2 := by
  unfold transfer
  simp only [Body.bind_apply, fiIsNull_apply, hfi, Option.isNone_none, ↓reduceIte, Prog.done_bind]
  congr 1
  funext q
  split
  · rfl
  · rfl

theorem faithful_transfer_null (opening : Sys) (io : Int → Sys) (hK : ResultsFit K)
    (hio : ∀ fd, Sys.transfers (io fd) = true)
    (h : (r.operation fuel).body l = transfer opening io l)
    (hv : ∀ (fd : Int) (s' : σ) fd' d d' ret tr, r.successValue
      (⟨s, opening, .done fd' d'⟩ :: ⟨s', io fd, .done ret d⟩ :: tr) = ret)
    (hfi : l.fi = none) : BodyFaithful K fuel r l s ↔ TransferUnmasked K l s opening io := by
  unfold BodyFaithful expected TransferUnmasked
  rw [h, transfer_null hfi]
  rcases ho : (K opening s).1 with e | ⟨fd, d⟩
  · rw [sys_run_fail ho, sys_trace_fail ho, firstFailure_fail]
    simp
  rw [sys_run_done ho, sys_trace_done ho, if_neg (natCast_ne_neg_one _), firstFailure_done]
  dsimp only
  rcases hc : (K (io fd) (K opening s).2).1 with e | ⟨ret, d'⟩
  · have hm : toInt (-1) = -1 := rfl
    have hfi' : ((l.store d).fail e).fi = none := by rw [Local.fi_fail, Local.fi_store, hfi]
    obtain ⟨l', s', hr⟩ := afterTransfer_null_run (K := K) (s := (K (io fd) (K opening s).2).2) hfi' fd
      (toInt (-1))
    rw [sys_run_fail hc, sys_trace_fail hc, firstFailure_fail, hr, hm, if_pos rfl]
    constructor
    · rintro - - _ _ ⟨rfl, rfl⟩ ⟨_, _, hs⟩
      rw [hc] at hs
      cases hs
    · intro _
      exact ⟨_, _, rfl⟩
  · have hfi' : ((l.store d).store d').fi = none := by rw [Local.fi_store, Local.fi_store, hfi]
    obtain ⟨l', s', hr⟩ := afterTransfer_null_run (K := K) (s := (K (io fd) (K opening s).2).2) hfi' fd ret
    rw [sys_run_done hc, sys_trace_done hc, firstFailure_done, hK.toInt_eq (hio _) hc, hr,
      afterTransfer_null_trace hfi', if_neg (natCast_ne_neg_one _)]
    rcases hx : (K (.close fd) (K (io fd) (K opening s).2).2).1 with e | ⟨n, d''⟩
    · rw [firstFailure_fail]
      constructor
      · rintro ⟨_, _, hr⟩
        simp only [Option.some.injEq, Prod.mk.injEq] at hr
        exact absurd hr.1.1 (Errno.neg_code_ne e ret)
      · intro hu
        obtain ⟨_, _, hs⟩ := hu hfi fd d rfl ⟨_, _, hc⟩
        rw [hx] at hs
        cases hs
    · rw [firstFailure_done, firstFailure_nil]
      simp only [hv]
      constructor
      · rintro - - _ _ ⟨rfl, rfl⟩ -
        exact ⟨_, _, hx⟩
      · intro _
        exact ⟨_, _, rfl⟩

-- ---------------------------------------------------------------------------
-- Bodies of several calls
-- ---------------------------------------------------------------------------

theorem fallocate_body_null (path : CStr) (offset len : Int) (hfi : l.fi = none) :
    ((Request.fallocate path 0 offset len).operation fuel).body l =
      sys (.open path O_WRONLY 0) l >>= fun p =>
        if p.1 = -1 then .done (-(p.2.errno : Int), p.2) else fallocateFd p.1 offset len p.2 := by
  simp only [operation, unreliableFallocate, ne_eq, not_true_eq_false, ↓reduceIte,
    Body.bind_apply, fiIsNull_apply, Prog.done_bind, hfi, Option.isNone_none]
  congr 1
  funext p
  split
  · rfl
  · rfl

theorem faithful_fallocate_null (path : CStr) (offset len : Int) (hfi : l.fi = none) :
    BodyFaithful K fuel (.fallocate path 0 offset len) l s ↔
      (Request.fallocate path 0 offset len).Unmasked K l s := by
  unfold BodyFaithful expected Unmasked
  rw [fallocate_body_null path offset len hfi]
  rcases ho : (K (.open path O_WRONLY 0) s).1 with e | ⟨fd, d⟩
  · rw [sys_run_fail ho, sys_trace_fail ho, firstFailure_fail]
    simp [Succeeds, ho]
  · -- the descriptor is there, and `fi->fh` is read through a null pointer
    have hfi' : (l.store d).fi = none := by rw [Local.fi_store, hfi]
    have hstuck : fh (l.store d) = .stuck := by simp only [fh, hfi']
    rw [sys_run_done ho, if_neg (natCast_ne_neg_one _)]
    simp only [fallocateFd, Body.bind_apply, hstuck, Prog.stuck_bind, Prog.run_stuck]
    simp [hfi, Succeeds, ho]

theorem faithful_flush (path : CStr) {fi : FuseFileInfo} (hfi : l.fi = some fi) :
    BodyFaithful K fuel (.flush path) l s ↔ (Request.flush path).Unmasked K l s := by
  unfold BodyFaithful expected Unmasked
  simp only [operation, unreliableFlush, Body.bind_apply, fh_apply l hfi, Prog.done_bind, hfi,
    Option.some.injEq, forall_eq']
  rcases hd : (K (.dup (toInt fi.fh)) s).1 with e | ⟨fd, d⟩
  · rw [sys_run_fail hd, sys_trace_fail hd, firstFailure_fail]
    simp only [SysReply.fail.injEq, forall_eq']
    rcases hc : (K (.close (-1)) (K (.dup (toInt fi.fh)) s).2).1 with e' | ⟨n, d'⟩
    · rw [forward_run_fail hc]
      simp [Errno.code_inj]
    · rw [forward_run_done hc]
      simpa using Errno.neg_code_ne e 0
  · rw [sys_run_done hd, sys_trace_done hd, firstFailure_done]
    dsimp only
    rw [forward_trace]
    rcases hc : (K (.close fd) (K (.dup (toInt fi.fh)) s).2).1 with e' | ⟨n, d'⟩
    · rw [forward_run_fail hc]
      simp
    · rw [forward_run_done hc]
      simp [successValue]

def syncThenClose (c : Sys) (dir : Int) : Body Int := do
  let ret ← sys c
  if ret = -1 then return -(← errno)
  let _ ← sys (.closedir dir)
  return 0

theorem syncThenClose_run_fail (dir : Int) {e : Errno} (hc : (K c s).1 = .fail e) :
    (syncThenClose c dir l).run K s = some ((-(e.code : Int), l.fail e), (K c s).2) := by
  unfold syncThenClose
  rw [Body.bind_apply, sys_run_fail hc]
  rfl

theorem syncThenClose_run_done (dir : Int) {ret : Nat} {d : Data} (hc : (K c s).1 = .done ret d) :
    ∃ l' s', (syncThenClose c dir l).run K s = some ((0, l'), s') := by
  unfold syncThenClose
  rw [Body.bind_apply, sys_run_done hc]
  simp only [natCast_ne_neg_one, ↓reduceIte, Body.bind_apply]
  rcases hd : (K (.closedir dir) (K c s).2).1 with e | ⟨n, d'⟩
  · rw [sys_run_fail hd]
    exact ⟨_, _, rfl⟩
  · rw [sys_run_done hd]
    exact ⟨_, _, rfl⟩

theorem syncThenClose_trace_fail (dir : Int) {e : Errno} (hc : (K c s).1 = .fail e) :
    (syncThenClose c dir l).trace K s = [⟨s, c, .fail e⟩] := by
  unfold syncThenClose
  rw [Body.bind_apply, sys_trace_fail hc]
  rfl

theorem syncThenClose_trace_done (dir : Int) {ret : Nat} {d : Data} (hc : (K c s).1 = .done ret d) :
    (syncThenClose c dir l).trace K s =
      [⟨s, c, .done ret d⟩, ⟨(K c s).2, .closedir dir, (K (.closedir dir) (K c s).2).1⟩] := by
  unfold syncThenClose
  rw [Body.bind_apply, sys_trace_done hc]
  simp only [natCast_ne_neg_one, ↓reduceIte, Body.bind_apply]
  rcases hd : (K (.closedir dir) (K c s).2).1 with e | ⟨n, d'⟩
  · rw [sys_trace_fail hd]
    rfl
  · rw [sys_trace_done hd]
    rfl

theorem fsyncdir_body (path : CStr) (datasync : Bool) :
    ((Request.fsyncdir path datasync).operation fuel).body l = sys (.opendir path) l >>= fun p =>
      if p.1 = -1 then .done (-(p.2.errno : Int), p.2)
      else sys (.dirfd p.1) p.2 >>= fun q =>
        syncThenClose (if datasync then .fdatasync q.1 else .fsync q.1) p.1 q.2 := by
  simp only [operation, unreliableFsyncdir, Body.bind_apply]
  congr 1
  funext p
  split
  · rfl
  · cases datasync <;> rfl

theorem faithful_fsyncdir (path : CStr) (datasync : Bool) :
    BodyFaithful K fuel (.fsyncdir path datasync) l s ↔
      (Request.fsyncdir path datasync).Unmasked K l s := by
  unfold BodyFaithful expected Unmasked
  rw [fsyncdir_body]
  rcases ho : (K (.opendir path) s).1 with e | ⟨dir, d⟩
  · rw [sys_run_fail ho, sys_trace_fail ho, firstFailure_fail]
    simp [ho]
  rw [sys_run_done ho, sys_trace_done ho, firstFailure_done]
  simp only [ho, natCast_ne_neg_one, ↓reduceIte, SysReply.done.injEq, and_imp, forall_eq',
    forall_apply_eq_imp_iff]
  set s₁ := (K (.opendir path) s).2
  rcases hd : (K (.dirfd dir) s₁).1 with e | ⟨fd, d'⟩
  · rw [sys_run_fail hd, sys_trace_fail hd, firstFailure_fail]
    dsimp only
    set c : Sys := if datasync then .fdatasync (-1) else .fsync (-1)
    rcases hc : (K c (K (.dirfd dir) s₁).2).1 with e' | ⟨n, d'⟩
    · rw [syncThenClose_run_fail dir hc]
      simp [Errno.code_inj]
    · obtain ⟨l', s', hr⟩ := syncThenClose_run_done (l := (l.store d).fail e) dir hc
      rw [hr]
      simpa using Errno.neg_code_ne e 0
  · rw [sys_run_done hd, sys_trace_done hd, firstFailure_done]
    dsimp only
    set c : Sys := if datasync then .fdatasync fd else .fsync fd
    rcases hc : (K c (K (.dirfd dir) s₁).2).1 with e' | ⟨n, d''⟩
    · rw [syncThenClose_run_fail dir hc, syncThenClose_trace_fail dir hc]
      simp [Succeeds, hc]
    · obtain ⟨l', s', hr⟩ := syncThenClose_run_done (l := (l.store d).store d') dir hc
      rw [hr, syncThenClose_trace_done dir hc]
      rcases hx : (K (.closedir dir) (K c (K (.dirfd dir) s₁).2).2).1 with e' | ⟨n', d₃⟩
      · simpa [Succeeds, hc, hx] using Errno.neg_code_ne e' 0
      · simp [Succeeds, hc, hx, successValue]

-- ---------------------------------------------------------------------------
-- Every operation
-- ---------------------------------------------------------------------------

def ReportsOneResult : Request → Prop
  | .readdir .. => False
  | .fallocate _ mode _ _ => mode = 0
  | _ => True

theorem succeed_value (hK : ResultsFit K) (hg : ∀ path name size, r ≠ .getxattr path name size)
    (hc : r.call? l.fi = some c) {ret : Nat} {d : Data} (hd : (K c s).1 = .done ret d) (l' : Local) :
    (r.succeed l' ret).1 = r.successValue [(⟨s, c, .done ret d⟩ : Event sysSig σ)] := by
  cases r with
  | getxattr path name size => exact absurd rfl (hg path name size)
  | read | write =>
    simp only [call?] at hc
    obtain ⟨fi, -, -, rfl⟩ := onDescriptor_eq_some hc
    simp only [succeed, hK.toInt_eq rfl hd, natCast_ne_neg_one, ↓reduceIte]
    rfl
  | listxattr | readlink =>
    cases hc
    simp only [succeed, hK.toInt_eq rfl hd, natCast_ne_neg_one, ↓reduceIte]
    rfl
  | ioctl =>
    obtain ⟨fi, -, rfl⟩ := Option.map_eq_some_iff.mp hc
    rfl
  | _ => rfl

theorem faithful_getxattr (hK : ResultsFit K) (path name : CStr) (size : Nat) :
    BodyFaithful K fuel (.getxattr path name size) l s ↔
      (Request.getxattr path name size).Unmasked K l s := by
  rw [faithful_of_call? (c := .getxattr path name size) rfl]
  refine forall_congr' fun ret => forall_congr' fun d => forall_congr' fun hd => ?_
  simp only [succeed, hK.toInt_eq rfl hd, natCast_ne_neg_one, ↓reduceIte, successValue, returned,
    List.findSome?_cons, Option.getD_some]
  omega

theorem unmasked_of_call? (hg : ∀ path name size, r ≠ .getxattr path name size)
    (hc : r.call? l.fi = some c) : r.Unmasked K l s := by
  cases r with
  | getxattr path name size => exact absurd rfl (hg path name size)
  | read | write | fallocate =>
    intro hnull
    simp only [call?, hnull, onDescriptor, Option.bind_none, ite_self, reduceCtorEq] at hc
  | flush | readdir | fsyncdir => cases hc
  | _ => trivial

theorem bodyFaithful_iff_unmasked (hK : ResultsFit K) (hone : r.ReportsOneResult)
    (hfi : r.needsFileInfo = true → l.fi ≠ none)
    (hcall : ((r.operation fuel).body l).trace K s ≠ []) :
    BodyFaithful K fuel r l s ↔ r.Unmasked K l s := by
  have hhandle (h : r.needsFileInfo = true) : ∃ fi, l.fi = some fi :=
    Option.ne_none_iff_exists'.mp (hfi h)
  rcases hc : r.call? l.fi with _ | c
  · -- several calls, no descriptor or no `fuse_file_info`
    cases r with
    | readdir => exact hone.elim
    | flush path =>
      obtain ⟨fi, hl⟩ := hhandle rfl
      exact faithful_flush path hl
    | fsyncdir path datasync => exact faithful_fsyncdir path datasync
    | read path size offset =>
      simp only [call?] at hc
      obtain hl | ⟨fi, hl, hfd⟩ := onDescriptor_eq_none hc
      · exact faithful_transfer_null (.open path O_RDONLY 0) (.pread · size offset) hK (fun _ => rfl) rfl
          (fun _ _ _ _ _ _ _ => rfl) hl
      · exact absurd (congrArg (Prog.trace K · s) (transfer_no_descriptor _ _ hl hfd)) hcall
    | write path data offset =>
      simp only [call?] at hc
      obtain hl | ⟨fi, hl, hfd⟩ := onDescriptor_eq_none hc
      · exact faithful_transfer_null (.open path O_WRONLY 0) (.pwrite · data offset) hK (fun _ => rfl) rfl
          (fun _ _ _ _ _ _ _ => rfl) hl
      · exact absurd (congrArg (Prog.trace K · s) (transfer_no_descriptor _ _ hl hfd)) hcall
    | fallocate path mode offset len =>
      obtain rfl : mode = 0 := hone
      simp only [call?, ↓reduceIte] at hc
      obtain hl | ⟨fi, hl, hfd⟩ := onDescriptor_eq_none hc
      · exact faithful_fallocate_null path offset len hl
      · rw [fallocate_body_handle path offset len hl, if_pos hfd] at hcall
        exact absurd rfl hcall
    | «open» | create | release | fsync | releasedir | fgetattr | lock | ioctl | flock =>
      obtain ⟨fi, hl⟩ := hhandle rfl
      simp only [call?, hl, Option.map_some, reduceCtorEq] at hc
    | _ => simp only [call?, reduceCtorEq] at hc
  · by_cases hg : ∃ path name size, r = .getxattr path name size
    · obtain ⟨path, name, size, rfl⟩ := hg
      exact faithful_getxattr hK path name size
    · push Not at hg
      refine iff_of_true ?_ (unmasked_of_call? hg hc)
      rw [faithful_of_call? hc]
      intro ret d hd
      exact succeed_value hK hg hc hd _

end Request

-- ---------------------------------------------------------------------------
-- The kernel of `Posix`
-- ---------------------------------------------------------------------------

section
open Posix

theorem sized_fits {value : List UInt8} {size ret : Nat} {d : Data}
    (h : Tree.sized value size = .ok (ret, d)) : ret < 2 ^ 31 := by
  simp only [Tree.sized, bind_ok, refuse_ok, pure_ok] at h
  obtain ⟨-, hmax, -, -, he⟩ := h
  cases he
  unfold Tree.XATTR_SIZE_MAX at hmax
  omega

theorem posix_resultsFit (P : Platform) : ResultsFit (posix P).kernel where
  lt := by
    intro c b ret d ht h
    have hmax : Tree.MAX_RW_COUNT < 2 ^ 31 := by decide
    cases c with
    | readlink path bufsiz =>
      have hr := Base.inspect_done h
      simp only [Tree.readlink, bind_ok] at hr
      obtain ⟨-, -, ⟨p, i⟩, -, hr⟩ := hr
      split at hr
      · cases hr
        have hpath : Tree.PATH_MAX < 2 ^ 31 := by decide
        rw [List.length_take]
        omega
      · cases hr
    | pread fd size offset =>
      have hr := Base.inspect_done h
      simp only [Base.pread, bind_ok, pure_ok] at hr
      obtain ⟨_, -, _, -, _, -, data, -, he⟩ := hr
      cases he
      simp only [Extents.readAt, List.length_take]
      omega
    | pwrite fd data offset =>
      obtain ⟨tree, hr, -⟩ := Base.alter_done h
      simp only [Base.pwrite, bind_ok, pure_ok] at hr
      obtain ⟨_, -, _, -, _, -, old, -, he⟩ := hr
      cases he
      rw [List.length_take]
      omega
    | getxattr path name size =>
      have hr := Base.inspect_done h
      simp only [Tree.getxattr, bind_ok] at hr
      obtain ⟨⟨p, i⟩, -, hr⟩ := hr
      split at hr
      · exact sized_fits hr
      · cases hr
    | listxattr path size =>
      have hr := Base.inspect_done h
      simp only [Tree.listxattr, bind_ok] at hr
      obtain ⟨⟨p, i⟩, -, hr⟩ := hr
      exact sized_fits hr
    | _ => cases ht

end

-- ---------------------------------------------------------------------------
-- Served requests
-- ---------------------------------------------------------------------------

namespace Request
open Posix

/-- A served request to which no code was injected reports what its system calls
ask for exactly when the kernel's answers are not masked. -/
theorem faithful_iff_unmasked (os : OS β) (E : Setup) (fuel : Nat) (r : Request) (l : Local)
    (w : World β) (hK : ResultsFit os.kernel) (hone : r.ReportsOneResult)
    (hfi : r.needsFileInfo = true → l.fi ≠ none) (hd : w.decision os E r.path r.op = 0)
    (hcall : (r.operation fuel).sysTrace os E l w ≠ []) :
    r.Faithful os E fuel l w ↔ r.Unmasked os.kernel l (os.atBody E w.base r.path) := by
  have hne : ¬(0 : Int) = -ERRNO_NOOP := by decide
  rw [Operation.sysTrace_eq, operation_path, operation_op, if_pos hd] at hcall
  rw [← bodyFaithful_iff_unmasked hK hone hfi hcall]
  unfold Faithful BodyFaithful
  rw [Operation.call_run, Operation.sysTrace_eq, operation_path, operation_op, hd, if_neg hne,
    if_neg (not_not_intro rfl), if_pos rfl]
  constructor
  · rintro ⟨l', w', hr⟩
    obtain ⟨⟨rl, s'⟩, hb, he⟩ := Option.map_eq_some_iff.mp hr
    cases he
    exact ⟨_, _, hb⟩
  · rintro ⟨l', s', hr⟩
    rw [hr]
    exact ⟨_, _, rfl⟩

def attributed : World Base :=
  bootWorld (Tree.root.add [ascii "a"]
    { content := .regular [], xattrs := [(ascii "user.x", ascii "hello")] }) none

theorem listxattr_faithful : (Request.listxattr (ascii "/a") 64).Faithful (posix .small)
    (smallSetup (ascii "/c")) 0 .zero attributed :=
  (faithful_iff_unmasked (posix .small) (smallSetup (ascii "/c")) 0 (.listxattr (ascii "/a") 64) .zero
    attributed (posix_resultsFit .small) trivial (by rintro ⟨⟩) (by decide)
    (by
      intro h
      have hl : (((Request.listxattr (ascii "/a") 64).operation 0).sysTrace (posix .small)
        (smallSetup (ascii "/c")) .zero attributed).length = 1 := by decide
      rw [h] at hl
      cases hl)).mpr trivial

/-- `getxattr` on it is let through and succeeds, and does not. -/
theorem getxattr_not_faithful :
    attributed.decision (posix .small) (smallSetup (ascii "/c")) (ascii "/a") .getxattr = 0 ∧
      (((Request.getxattr (ascii "/a") (ascii "user.x") 64).operation 0).sysTrace (posix .small)
        (smallSetup (ascii "/c")) .zero attributed).length = 1 ∧
      ¬(Request.getxattr (ascii "/a") (ascii "user.x") 64).Faithful (posix .small)
        (smallSetup (ascii "/c")) 0 .zero attributed := by
  refine ⟨by decide, by decide, ?_⟩
  rintro ⟨l', w', h⟩
  have hrun : ((((Request.getxattr (ascii "/a") (ascii "user.x") 64).operation 0).call
      (smallSetup (ascii "/c")) .zero).run (posix .small).handler attributed).map (·.1.1) = some 0 := by
    decide
  have hexp : (Request.getxattr (ascii "/a") (ascii "user.x") 64).expected
      (((Request.getxattr (ascii "/a") (ascii "user.x") 64).operation 0).sysTrace (posix .small)
        (smallSetup (ascii "/c")) .zero attributed) = 5 := by
    decide
  rw [h, hexp] at hrun
  cases hrun

end Request

end UnreliableFS
