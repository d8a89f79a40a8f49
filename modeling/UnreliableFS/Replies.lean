import UnreliableFS.AllOrNothing
import UnreliableFS.Interaction.Lockstep
import UnreliableFS.Listing
import UnreliableFS.Metadata

/-!
# What replies carry

The reply to a request is its return value and, if that is no error, what the
caller reads of the buffers it passed. Two runs of a request over buffers with
different contents show whether a reply depends on these.
-/

namespace UnreliableFS

open Interaction

inductive Output
  | none
  | attr (st : Stat)
  | link (target : CStr)
  | bytes (data : List UInt8)
  | statfs (st : StatVfs)
  | entries (filled : List Dirent)
  | lock (fl : Flock)
  | handle (fh : Option Nat)
  deriving DecidableEq

def Local.front (l : Local) (n : Nat) : List UInt8 := (List.range n).map l.buf

/-- What the caller of a request reads after a success. With a size of 0 the calls
about extended attributes have no buffer. -/
def Request.output (rc : Int) (l : Local) : Request → Output
  | .getattr _ | .fgetattr _ => .attr l.stat
  | .readlink _ bufsiz => .link (cstr (l.front bufsiz))
  | .read .. => .bytes (l.front rc.toNat)
  | .getxattr _ _ size | .listxattr _ size => if size = 0 then .none else .bytes (l.front rc.toNat)
  | .statfs _ => .statfs l.statvfs
  | .readdir .. => .entries l.filled
  | .lock _ .getlk _ => .lock l.flock
  | .open .. | .create .. | .opendir .. => .handle (l.fi.map (·.fh))
  | _ => .none

def Request.reply (r : Request) (out : Int × Local) : Int × Output :=
  (out.1, if out.1 < 0 then .none else r.output out.1 out.2)

/-- What the manual pages of the calls say that a success hands back. -/
def delivers (c : Sys) : SysReply → Prop
  | .fail _ => True
  | .done ret d =>
    match c with
    | .lstat _ | .fstat _ => ∃ st, d = .stat st
    | .statvfs _ => ∃ st, d = .statvfs st
    | .readlink _ bufsiz => ∃ target, d = .bytes target ∧ target.length = ret ∧ ret ≤ bufsiz ∧
      ret ≤ Posix.Tree.PATH_MAX
    | .pread _ size _ => ∃ data, d = .bytes data ∧ data.length = ret ∧ ret ≤ size
    | .getxattr _ _ size | .listxattr _ size =>
      size ≠ 0 → ∃ data, d = .bytes data ∧ data.length = ret ∧ ret ≤ size
    | .readdir _ => ret = 0 ∨ ∃ de, d = .dirent de
    | .fcntl _ .getlk _ => ∃ fl, d = .flock fl
    | _ => True

/-- Two memories that differ in the contents of buffers only, and in these not
before a position. -/
structure Local.Agrees (n : Nat) (l l' : Local) : Prop where
  errno : l'.errno = l.errno
  fi : l'.fi = l.fi
  filled : l'.filled = l.filled
  buf : ∀ i, i < n → l'.buf i = l.buf i

/-- Two results that a caller cannot tell apart. -/
structure Request.SameReply (r : Request) (out out' : Int × Local) : Prop where
  reply : r.reply out' = r.reply out
  fi : out'.2.fi = out.2.fi

-- ---------------------------------------------------------------------------
-- Memories
-- ---------------------------------------------------------------------------

variable {n m : Nat} {l l' : Local}

theorem Local.Agrees.mono (h : l.Agrees n l') (hm : m ≤ n) : l.Agrees m l' :=
  ⟨h.errno, h.fi, h.filled, fun i hi => h.buf i (Nat.lt_of_lt_of_le hi hm)⟩

theorem Local.Agrees.fail (h : l.Agrees n l') (e : Errno) : (l.fail e).Agrees n (l'.fail e) :=
  ⟨rfl, h.fi, h.filled, h.buf⟩

theorem Local.Agrees.store (h : l.Agrees n l') (d : Data) : (l.store d).Agrees n (l'.store d) := by
  cases d with
  | bytes data =>
    refine ⟨h.errno, h.fi, h.filled, fun i hi => ?_⟩
    simp only [Local.store, overlay, h.buf i hi]
  | _ => exact ⟨h.errno, h.fi, h.filled, h.buf⟩

theorem Local.Agrees.loaded (h : l.Agrees n l') (data : List UInt8) :
    (l.store (.bytes data)).Agrees data.length (l'.store (.bytes data)) := by
  refine ⟨h.errno, h.fi, h.filled, fun i hi => ?_⟩
  simp only [Local.store, overlay, hi, ↓reduceDIte]

theorem front_congr (h : ∀ i, i < n → l'.buf i = l.buf i) : l'.front n = l.front n :=
  List.map_congr_left fun i hi => h i (List.mem_range.mp hi)

theorem cstr_append_zero (s t : List UInt8) : cstr (s ++ 0 :: t) = cstr s := by
  unfold cstr
  induction s with
  | nil => rfl
  | cons c s ih => simp only [List.cons_append, List.takeWhile_cons, ih]

theorem cstr_front (hn : n < m) (h₀ : l.buf n = 0) : cstr (l.front m) = cstr (l.front n) := by
  obtain ⟨k, rfl⟩ := Nat.exists_eq_add_of_lt hn
  have hsplit : l.front (n + k + 1) = l.front n ++ 0 :: (List.range k).map fun i => l.buf (n + 1 + i) := by
    unfold Local.front
    rw [Nat.add_assoc, Nat.add_comm k, List.range_add, List.map_append, List.range_add, List.map_append]
    simp [h₀, Nat.add_assoc]
  rw [hsplit, cstr_append_zero]

theorem toInt_toNat_le (n : Nat) : (toInt n).toNat ≤ n := by
  simp only [toInt, BitVec.toInt_ofInt, Int.bmod]
  omega

-- ---------------------------------------------------------------------------
-- One call
-- ---------------------------------------------------------------------------

namespace Request

variable {r : Request} {c : Sys} {rc : Int} {ret : Nat} {d : Data} {fuel : Nat}

theorem SameReply.of_output (hfi : l'.fi = l.fi) (h : 0 ≤ rc → r.output rc l' = r.output rc l) :
    r.SameReply (rc, l) (rc, l') := by
  refine ⟨?_, hfi⟩
  unfold Request.reply
  by_cases hrc : rc < 0
  · simp [hrc]
  · simp [hrc, h (Int.not_lt.mp hrc)]

theorem SameReply.returns {out out' : Int × Local} (h : r.SameReply out out') : out'.1 = out.1 :=
  (Prod.mk.inj h.reply).1

theorem prepare_agrees (h : l.Agrees 0 l') : (r.prepare l).Agrees 0 (r.prepare l') := by
  cases r with
  | getattr path => exact ⟨h.errno, h.fi, h.filled, h.buf⟩
  | _ => exact h

theorem loaded_front (h : l.Agrees 0 l') {data : List UInt8} (hlen : data.length = ret) :
    (l'.store (.bytes data)).front (toInt ret).toNat =
      (l.store (.bytes data)).front (toInt ret).toNat := by
  refine front_congr fun i hi => (h.loaded data).buf i ?_
  have hle := toInt_toNat_le ret
  omega

theorem linked_front (h : l.Agrees 0 l') {target : List UInt8} (hlen : target.length = ret)
    {bufsiz : Nat} (hle : ret ≤ bufsiz) :
    cstr (Local.front { l'.store (.bytes target) with
        buf := fun i => if (i : Int) = ret then 0 else (l'.store (.bytes target)).buf i } bufsiz) =
      cstr (Local.front { l.store (.bytes target) with
        buf := fun i => if (i : Int) = ret then 0 else (l.store (.bytes target)).buf i } bufsiz) := by
  have hfront : ∀ i, i < ret →
      (if (i : Int) = ret then 0 else (l'.store (.bytes target)).buf i) =
        if (i : Int) = ret then 0 else (l.store (.bytes target)).buf i := by
    intro i hi
    rw [(h.loaded target).buf i (by omega)]
  obtain hlt | rfl := Nat.lt_or_eq_of_le hle
  · rw [cstr_front hlt (by simp), cstr_front hlt (by simp)]
    exact congrArg cstr (front_congr hfront)
  · exact congrArg cstr (front_congr hfront)

theorem count_sameReply (h : l.Agrees 0 l') (hout : r.output (toInt ret) l' = r.output (toInt ret) l)
    (hzero : r.output (-(l.errno : Int)) l' = r.output (-(l.errno : Int)) l) :
    r.SameReply (if toInt ret = -1 then -(l.errno : Int) else toInt ret, l)
      (if toInt ret = -1 then -(l'.errno : Int) else toInt ret, l') := by
  rw [h.errno]
  split
  · exact .of_output h.fi fun _ => hzero
  · exact .of_output h.fi fun _ => hout

theorem succeed_sameReply (h : l.Agrees 0 l') (hc : r.call? l.fi = some c)
    (hd : delivers c (.done ret d)) :
    r.SameReply (r.succeed (l.store d) ret) (r.succeed (l'.store d) ret) := by
  have hs := h.store d
  cases r with
  | getattr path =>
    cases hc
    obtain ⟨st, rfl⟩ := hd
    exact .of_output hs.fi fun _ => rfl
  | fgetattr path =>
    obtain ⟨fi, hfi, rfl⟩ := Option.map_eq_some_iff.mp hc
    obtain ⟨st, rfl⟩ := hd
    exact .of_output hs.fi fun _ => rfl
  | statfs path =>
    cases hc
    obtain ⟨st, rfl⟩ := hd
    exact .of_output hs.fi fun _ => rfl
  | lock path cmd fl =>
    obtain ⟨fi, hfi, rfl⟩ := Option.map_eq_some_iff.mp hc
    cases cmd with
    | getlk =>
      obtain ⟨fl', rfl⟩ := hd
      exact .of_output hs.fi fun _ => rfl
    | _ => exact .of_output hs.fi fun _ => rfl
  | readlink path bufsiz =>
    cases hc
    obtain ⟨target, rfl, hlen, hle, hmax⟩ := hd
    have hret : toInt ret = ret := by
      unfold Posix.Tree.PATH_MAX at hmax
      exact toInt_of_small (by omega) (by omega)
    simp only [succeed, hret, natCast_ne_neg_one, ↓reduceIte]
    exact .of_output hs.fi fun _ => congrArg Output.link (linked_front h hlen hle)
  | read path size offset =>
    simp only [call?] at hc
    obtain ⟨fi, -, -, rfl⟩ := onDescriptor_eq_some hc
    obtain ⟨data, rfl, hlen, -⟩ := hd
    exact count_sameReply hs (congrArg Output.bytes (loaded_front h hlen)) (by simp [output, Local.front])
  | listxattr path size =>
    cases hc
    refine count_sameReply hs ?_ (by simp [output, Local.front])
    by_cases hsize : size = 0
    · simp [output, hsize]
    · obtain ⟨data, rfl, hlen, -⟩ := hd hsize
      simp only [output, hsize, ↓reduceIte, loaded_front h hlen]
  | getxattr path name size =>
    simp only [succeed, hs.errno]
    refine .of_output hs.fi fun _ => ?_
    split
    · simp [output, Local.front]
    · simp [output, Local.front]
  | write path data offset => exact count_sameReply hs rfl rfl
  | «open» | create | opendir =>
    refine .of_output ?_ fun _ => ?_
    · simp only [hs.fi]
    · simp only [output, hs.fi]
  | readdir => cases hc
  | _ => exact .of_output hs.fi fun _ => rfl

theorem finish_sameReply (h : l.Agrees 0 l') (hc : r.call? l.fi = some c) {reply : SysReply}
    (hd : delivers c reply) : r.SameReply (r.finish l reply) (r.finish l' reply) := by
  have hp : (r.prepare l).Agrees 0 (r.prepare l') := prepare_agrees h
  cases reply with
  | fail e =>
    have hpos := e.pos
    exact .of_output hp.fi fun hrc => by omega
  | done ret d =>
    have hfi : (r.prepare l).fi = l.fi := by cases r <;> rfl
    exact succeed_sameReply hp (hfi ▸ hc) hd

-- ---------------------------------------------------------------------------
-- Several calls
-- ---------------------------------------------------------------------------

theorem sys_lockstep {γ : Type} {R : γ → γ → Prop} {f g : Int × Local → Prog sysSig γ}
    (hfail : ∀ e, (f (-1, l.fail e)).Lockstep delivers R (g (-1, l'.fail e)))
    (hdone : ∀ ret d, delivers c (.done ret d) →
      (f ((ret : Nat), l.store d)).Lockstep delivers R (g ((ret : Nat), l'.store d))) :
    (sys c l >>= f).Lockstep delivers R (sys c l' >>= g) := by
  refine .call fun reply hr => ?_
  cases reply with
  | fail e => exact hfail e
  | done ret d => exact hdone ret d hr

theorem last_lockstep {f g : Local → Int × Local} (h : l.Agrees n l')
    (hsame : ∀ b b' : Local, b.Agrees n b' → r.SameReply (f b) (g b')) :
    (sys c l >>= fun p => .done (f p.2)).Lockstep delivers r.SameReply
      (sys c l' >>= fun p => .done (g p.2)) :=
  sys_lockstep (fun e => .done (hsame _ _ (h.fail e))) fun _ d _ => .done (hsame _ _ (h.store d))

def Dataless (r : Request) : Prop := ∀ rc l, r.output rc l = .none

theorem Dataless.sameReply (hr : r.Dataless) (h : l.Agrees n l') : r.SameReply (rc, l) (rc, l') :=
  .of_output h.fi fun _ => by rw [hr, hr]

theorem Dataless.forward (hr : r.Dataless) (h : l.Agrees n l') :
    (forward c l).Lockstep delivers r.SameReply (UnreliableFS.forward c l') := by
  rw [forward_eq, forward_eq]
  refine .call fun reply _ => .done ?_
  cases reply with
  | fail e => exact hr.sameReply (h.fail e)
  | done ret d => exact hr.sameReply (h.store d)

/-- Without a `fuse_file_info` the descriptor is closed after the transfer. -/
theorem afterTransfer_lockstep (hfi : l.fi = none) (h : l.Agrees n l') (fd : Int)
    (hzero : ∀ b b' : Local, b.Agrees n b' →
      r.output (-(l.errno : Int)) b' = r.output (-(l.errno : Int)) b)
    (hout : ∀ b b' : Local, b.Agrees n b' → r.output rc b' = r.output rc b) :
    (afterTransfer fd rc l).Lockstep delivers r.SameReply (afterTransfer fd rc l') := by
  rw [afterTransfer_null hfi, afterTransfer_null (h.fi.trans hfi), h.errno]
  refine last_lockstep h fun b b' hb => ?_
  split
  · exact .of_output hb.fi fun _ => hzero b b' hb
  · exact .of_output hb.fi fun _ => hout b b' hb

theorem transfer_lockstep (opening : Sys) (io : Int → Sys) (hfi : l.fi = none) (h : l.Agrees 0 l')
    (hzero : ∀ (rc : Int) (b b' : Local), rc ≤ 0 → b.Agrees 0 b' → r.output rc b' = r.output rc b)
    (hio : ∀ fd ret d, delivers (io fd) (.done ret d) → ∃ k,
      (∀ b b' : Local, b.Agrees 0 b' → (b.store d).Agrees k (b'.store d)) ∧
        ∀ b b' : Local, b.Agrees k b' → r.output (toInt ret) b' = r.output (toInt ret) b) :
    (transfer opening io l).Lockstep delivers r.SameReply (transfer opening io l') := by
  have hneg (e : Nat) : -(e : Int) ≤ 0 := by omega
  rw [transfer_null hfi, transfer_null (h.fi.trans hfi)]
  refine sys_lockstep (fun e => ?_) fun fd d _ => ?_
  · simp only [↓reduceIte]
    exact .done (.of_output h.fi fun _ => hzero _ _ _ (hneg _) (h.fail e))
  · have hs := h.store d
    have hfi' : (l.store d).fi = none := by rw [Local.fi_store, hfi]
    simp only [natCast_ne_neg_one, ↓reduceIte]
    refine sys_lockstep (fun e => ?_) fun ret d' hd => ?_
    · have hfail : ((l.store d).fail e).fi = none := hfi'
      have hminus : toInt (-1) ≤ 0 := by decide
      refine afterTransfer_lockstep hfail (hs.fail e) fd ?_ ?_
      · exact fun b b' hb => hzero _ b b' (hneg _) hb
      · exact fun b b' hb => hzero _ b b' hminus hb
    · obtain ⟨k, hk, hout⟩ := hio fd ret d' hd
      refine afterTransfer_lockstep ?_ (hk _ _ hs) fd ?_ hout
      · rw [Local.fi_store, hfi']
      · exact fun b b' hb => hzero _ b b' (hneg _) (hb.mono (Nat.zero_le k))

theorem syncThenClose_lockstep (hr : r.Dataless) (h : l.Agrees 0 l') (dir : Int) :
    (syncThenClose c dir l).Lockstep delivers r.SameReply (syncThenClose c dir l') := by
  unfold syncThenClose
  simp only [Body.bind_apply]
  refine sys_lockstep (fun e => .done (hr.sameReply (h.fail e))) fun ret d _ => ?_
  simp only [natCast_ne_neg_one, ↓reduceIte, Body.bind_apply]
  exact last_lockstep (h.store d) fun _ _ hb => hr.sameReply hb

theorem fsyncdir_lockstep (path : CStr) (datasync : Bool) (h : l.Agrees 0 l') :
    (((Request.fsyncdir path datasync).operation fuel).body l).Lockstep delivers
      (Request.fsyncdir path datasync).SameReply
      (((Request.fsyncdir path datasync).operation fuel).body l') := by
  have hr : (Request.fsyncdir path datasync).Dataless := fun _ _ => rfl
  rw [fsyncdir_body, fsyncdir_body]
  refine sys_lockstep (fun e => ?_) fun dir d _ => ?_
  · simp only [↓reduceIte]
    exact .done (hr.sameReply (h.fail e))
  · simp only [natCast_ne_neg_one, ↓reduceIte]
    exact sys_lockstep (fun e => syncThenClose_lockstep hr ((h.store d).fail e) _) fun _ d' _ =>
      syncThenClose_lockstep hr ((h.store d).store d') _

theorem readdirLoop_lockstep (filler : Filler) (dir : Int) (h : l.Agrees 0 l') :
    (readdirLoop filler dir fuel l).Lockstep delivers (fun p q => p.2.Agrees 0 q.2)
      (readdirLoop filler dir fuel l') := by
  induction fuel generalizing l l' with
  | zero => exact .stuck
  | succ fuel ih =>
    simp only [readdirLoop, Body.bind_apply]
    refine sys_lockstep (fun e => .done (h.fail e)) fun ret d hd => ?_
    by_cases hz : (ret : Int) ≤ 0
    · simp only [hz, ↓reduceIte]
      exact .done (h.store d)
    · obtain rfl | ⟨de, rfl⟩ := hd
      · exact absurd (Int.le_refl 0) hz
      · simp only [hz, ↓reduceIte, Body.bind_apply, Body.get_apply, Prog.done_bind, Body.set_apply]
        have hs := h.store (.dirent de)
        have hpass : (l.pass de).Agrees 0 (l'.pass de) :=
          ⟨hs.errno, hs.fi, by simp only [Local.pass, h.filled], hs.buf⟩
        change Prog.Lockstep delivers _
          ((if filler l.filled de.passed then pure () else readdirLoop filler dir fuel) (l.pass de))
          ((if filler l'.filled de.passed then pure () else readdirLoop filler dir fuel) (l'.pass de))
        rw [h.filled]
        split
        · exact .done hpass
        · exact ih hpass

theorem readdir_lockstep (path : CStr) (filler : Filler) (h : l.Agrees 0 l') :
    (((Request.readdir path filler).operation fuel).body l).Lockstep delivers
      (Request.readdir path filler).SameReply
      (((Request.readdir path filler).operation fuel).body l') := by
  have hsame {rc : Int} {b b' : Local} (hb : b.Agrees 0 b') :
      (Request.readdir path filler).SameReply (rc, b) (rc, b') :=
    .of_output hb.fi fun _ => congrArg Output.entries hb.filled
  simp only [operation, unreliableReaddir, Body.bind_apply]
  refine sys_lockstep (fun e => ?_) fun dir d _ => ?_
  · simp only [↓reduceIte]
    exact .done (hsame (h.fail e))
  · simp only [natCast_ne_neg_one, ↓reduceIte, Body.bind_apply]
    refine (readdirLoop_lockstep filler dir (h.store d)).bind fun p q hpq => ?_
    exact last_lockstep hpq fun _ _ hb => hsame hb

theorem flush_lockstep (path : CStr) (h : l.Agrees 0 l') :
    (((Request.flush path).operation fuel).body l).Lockstep delivers
      (Request.flush path).SameReply (((Request.flush path).operation fuel).body l') := by
  have hr : (Request.flush path).Dataless := fun _ _ => rfl
  cases hfi : l.fi with
  | none =>
    have hfi' : l'.fi = none := h.fi.trans hfi
    simp only [operation, unreliableFlush, Body.bind_apply, fh, hfi, hfi', Prog.stuck_bind]
    exact .stuck
  | some fi =>
    have hfi' : l'.fi = some fi := h.fi.trans hfi
    simp only [operation, unreliableFlush, Body.bind_apply, fh_apply l hfi, fh_apply l' hfi',
      Prog.done_bind]
    exact sys_lockstep (fun e => hr.forward (h.fail e)) fun ret d _ => hr.forward (h.store d)

theorem fallocate_lockstep (path : CStr) (mode : Nat) (offset len : Int) (h : l.Agrees 0 l')
    (hc : (Request.fallocate path mode offset len).call? l.fi = none) :
    (((Request.fallocate path mode offset len).operation fuel).body l).Lockstep delivers
      (Request.fallocate path mode offset len).SameReply
      (((Request.fallocate path mode offset len).operation fuel).body l') := by
  have hr : (Request.fallocate path mode offset len).Dataless := fun _ _ => rfl
  by_cases hm : mode = 0
  · subst hm
    simp only [call?, ↓reduceIte] at hc
    obtain hfi | ⟨fi, hfi, hfd⟩ := onDescriptor_eq_none hc
    · -- `fi->fh` is read through a null pointer
      rw [fallocate_body_null path offset len hfi,
        fallocate_body_null path offset len (h.fi.trans hfi)]
      refine sys_lockstep (fun e => ?_) fun fd d _ => ?_
      · simp only [↓reduceIte]
        exact .done (hr.sameReply (h.fail e))
      · have hs := h.store d
        have hfi₁ : (l.store d).fi = none := by rw [Local.fi_store, hfi]
        have hfi₂ : (l'.store d).fi = none := by rw [Local.fi_store, h.fi, hfi]
        simp only [natCast_ne_neg_one, ↓reduceIte, fallocateFd, Body.bind_apply, fh, hfi₁, hfi₂,
          Prog.stuck_bind]
        exact .stuck
    · rw [fallocate_body_handle path offset len hfi,
        fallocate_body_handle path offset len (h.fi.trans hfi), if_pos hfd, if_pos hfd, h.errno]
      exact .done (hr.sameReply h)
  · simp only [operation, unreliableFallocate, ne_eq, hm, not_false_eq_true, ↓reduceIte]
    exact .done (hr.sameReply h)

theorem body_stuck (hn : r.needsFileInfo = true) (ho : ∀ path, r ≠ .opendir path)
    (hfi : l.fi = none) : (r.operation fuel).body l = .stuck := by
  cases r with
  | opendir path => exact absurd rfl (ho path)
  | «open» | create =>
    simp only [operation, unreliableOpen, unreliableCreate, Body.bind_apply, fiFlags, hfi,
      Prog.stuck_bind]
  | flush | release | fsync | releasedir | fgetattr | lock | ioctl | flock =>
    simp only [operation, unreliableFlush, unreliableRelease, unreliableFsync, unreliableReleasedir,
      unreliableFgetattr, unreliableLock, unreliableIoctl, unreliableFlock, Body.bind_apply, fh, hfi,
      Prog.stuck_bind]
  | _ => cases hn

theorem front_nonpos (hrc : rc ≤ 0) : l'.front rc.toNat = l.front rc.toNat := by
  rw [Int.toNat_of_nonpos hrc]
  rfl

variable (fuel) in
theorem body_lockstep (r : Request) (h : l.Agrees 0 l') :
    ((r.operation fuel).body l).Lockstep delivers r.SameReply ((r.operation fuel).body l') := by
  cases hc : r.call? l.fi with
  | some c =>
    rw [body_of_call? hc, body_of_call? (h.fi ▸ hc)]
    exact .call fun reply hd => .done (finish_sameReply h hc hd)
  | none =>
    have hnull (hn : r.needsFileInfo = true) (ho : ∀ path, r ≠ .opendir path) (hfi : l.fi = none) :
        ((r.operation fuel).body l).Lockstep delivers r.SameReply ((r.operation fuel).body l') := by
      rw [body_stuck hn ho hfi, body_stuck hn ho (h.fi.trans hfi)]
      exact .stuck
    have hbytes {rc : Int} {b b' : Local} (hrc : rc ≤ 0) :
        Output.bytes (b'.front rc.toNat) = .bytes (b.front rc.toNat) :=
      congrArg Output.bytes (front_nonpos hrc)
    have herrno : -(l.errno : Int) ≤ 0 := by omega
    cases r with
    | flush path => exact flush_lockstep path h
    | readdir path filler => exact readdir_lockstep path filler h
    | fsyncdir path datasync => exact fsyncdir_lockstep path datasync h
    | fallocate path mode offset len => exact fallocate_lockstep path mode offset len h hc
    | read path size offset =>
      simp only [call?] at hc
      obtain hfi | ⟨fi, hfi, hfd⟩ := onDescriptor_eq_none hc
      · refine transfer_lockstep (.open path O_RDONLY 0) (.pread · size offset) hfi h
          (fun _ _ _ hrc _ => hbytes hrc) fun fd ret d hd => ?_
        obtain ⟨data, rfl, hlen, -⟩ := hd
        refine ⟨data.length, fun b b' hb => hb.loaded data, fun b b' hb => ?_⟩
        have hle := toInt_toNat_le ret
        exact congrArg Output.bytes (front_congr fun i hi => hb.buf i (by omega))
      · change (transfer (.open path O_RDONLY 0) (.pread · size offset) l).Lockstep delivers _
          (transfer (.open path O_RDONLY 0) (.pread · size offset) l')
        rw [transfer_no_descriptor _ _ hfi hfd, transfer_no_descriptor _ _ (h.fi.trans hfi) hfd, h.errno]
        exact .done (.of_output h.fi fun _ => hbytes herrno)
    | write path data offset =>
      simp only [call?] at hc
      obtain hfi | ⟨fi, hfi, hfd⟩ := onDescriptor_eq_none hc
      · exact transfer_lockstep (.open path O_WRONLY 0) (.pwrite · data offset) hfi h
          (fun _ _ _ _ _ => rfl) fun fd ret d _ => ⟨0, fun b b' hb => hb.store d, fun _ _ _ => rfl⟩
      · change (transfer (.open path O_WRONLY 0) (.pwrite · data offset) l).Lockstep delivers _
          (transfer (.open path O_WRONLY 0) (.pwrite · data offset) l')
        rw [transfer_no_descriptor _ _ hfi hfd, transfer_no_descriptor _ _ (h.fi.trans hfi) hfd, h.errno]
        exact .done (.of_output h.fi fun _ => rfl)
    | «open» | create | release | fsync | releasedir | fgetattr | lock | ioctl | flock =>
      exact hnull rfl (fun path => by simp) (Option.map_eq_none_iff.mp hc)
    | _ => cases hc

end Request

-- ---------------------------------------------------------------------------
-- The kernel of `Posix`
-- ---------------------------------------------------------------------------

section
open Posix

theorem sized_delivers {value : List UInt8} {size ret : Nat} {d : Data}
    (h : Tree.sized value size = .ok (ret, d)) (hsize : size ≠ 0) :
    ∃ data, d = .bytes data ∧ data.length = ret ∧ ret ≤ size := by
  simp only [Tree.sized, bind_ok, refuse_ok, pure_ok] at h
  obtain ⟨-, -, -, hfits, he⟩ := h
  rw [if_neg hsize] at he
  cases he
  exact ⟨value, rfl, rfl, by omega⟩

theorem fcntl_delivers {b b' : Base} {fd : Int} {fl : Flock} {ret : Nat} {d : Data}
    (h : b.fcntl fd .getlk fl = .ok (ret, d, b')) : ∃ fl, d = .flock fl := by
  simp only [Base.fcntl, bind_ok] at h
  obtain ⟨desc, -, h⟩ := h
  split at h
  · cases h
  · split at h
    · cases h
      exact ⟨_, rfl⟩
    · cases h
      exact ⟨_, rfl⟩
  · rename_i hcmd
    exact absurd rfl hcmd
  · rename_i hcmd _ _
    exact absurd rfl hcmd

theorem readdir_delivers {b b' : Base} {dir : Int} {ret : Nat} {d : Data}
    (h : b.readdir dir = .ok (ret, d, b')) : ret = 0 ∨ ∃ de, d = .dirent de := by
  simp only [Base.readdir, bind_ok] at h
  obtain ⟨s, -, h⟩ := h
  split at h
  · cases h
    exact .inl rfl
  · cases h
    exact .inr ⟨_, rfl⟩

theorem kernel_delivers (P : Platform) : (kernel P).Keeps delivers := by
  intro c b
  rcases h : (kernel P c b).1 with e | ⟨ret, d⟩
  · trivial
  cases c with
  | lstat path | fstat fd | statvfs path =>
    have hr := Base.inspect_done h
    simp only [bind_ok, pure_ok] at hr
    obtain ⟨_, -, he⟩ := hr
    cases he
    exact ⟨_, rfl⟩
  | readlink path bufsiz =>
    have hr := Base.inspect_done h
    simp only [Tree.readlink, bind_ok] at hr
    obtain ⟨-, -, ⟨p, i⟩, -, hr⟩ := hr
    split at hr
    · rename_i target htarget
      cases hr
      have hlen := List.length_take_le (min bufsiz Tree.PATH_MAX) target
      exact ⟨_, rfl, rfl, by omega, by omega⟩
    · cases hr
  | pread fd size offset =>
    have hr := Base.inspect_done h
    simp only [Base.pread, bind_ok, pure_ok] at hr
    obtain ⟨_, -, _, -, _, -, data, -, he⟩ := hr
    cases he
    have hlen := List.length_take_le (min size Tree.MAX_RW_COUNT) (data.drop offset.toNat)
    exact ⟨_, rfl, rfl, Nat.le_trans hlen (Nat.min_le_left ..)⟩
  | getxattr path name size =>
    have hr := Base.inspect_done h
    simp only [Tree.getxattr, bind_ok] at hr
    obtain ⟨⟨p, i⟩, -, hr⟩ := hr
    split at hr
    · exact sized_delivers hr
    · cases hr
  | listxattr path size =>
    have hr := Base.inspect_done h
    simp only [Tree.listxattr, bind_ok] at hr
    obtain ⟨⟨p, i⟩, -, hr⟩ := hr
    exact sized_delivers hr
  | readdir dir =>
    obtain ⟨b', -, hr⟩ := Base.enter_done h
    exact readdir_delivers hr
  | fcntl fd cmd fl =>
    cases cmd with
    | getlk =>
      obtain ⟨b', -, hr⟩ := Base.enter_done h
      exact fcntl_delivers hr
    | _ => trivial
  | _ => trivial

end

-- ---------------------------------------------------------------------------
-- Served requests
-- ---------------------------------------------------------------------------

variable {β σ : Type}

namespace Request

def readsOnZero : Request → Bool
  | .getattr _ | .fgetattr _ | .readlink .. | .statfs _ | .lock _ .getlk _ => true
  | _ => false

def Fits (K : Handler sysSig σ) (s : σ) : Request → Prop
  | .readlink path bufsiz => ∀ ret d, (K (.readlink path bufsiz) s).1 = .done ret d → ret < bufsiz
  | _ => True

/-- The structures are those their calls have returned, and a link's target is a
string in its buffer. -/
def Defined (K : Handler sysSig σ) (s : σ) (l l' : Local) : Request → Prop
  | .getattr path => ∃ ret st, (K (.lstat path) s).1 = .done ret (.stat st) ∧ l'.stat = st
  | .fgetattr _ => ∃ fi ret st, l.fi = some fi ∧
    (K (.fstat (toInt fi.fh)) s).1 = .done ret (.stat st) ∧ l'.stat = st
  | .statfs path => ∃ ret st, (K (.statvfs path) s).1 = .done ret (.statvfs st) ∧ l'.statvfs = st
  | .readlink path bufsiz => ∃ target,
    (K (.readlink path bufsiz) s).1 = .done target.length (.bytes target) ∧
      target.length < bufsiz ∧ l'.front target.length = target ∧ l'.buf target.length = 0 ∧
      ∀ n, bufsiz ≤ n → l'.buf n = l.buf n
  | _ => True

variable {K : Handler sysSig σ} {s : σ} {r : Request} {rc : Int} {fuel : Nat}

theorem output_zero (hr : r.readsOnZero = false) (h : l.Agrees 0 l') :
    r.output 0 l' = r.output 0 l := by
  cases r with
  | getattr | fgetattr | readlink | statfs => cases hr
  | lock path cmd fl =>
    cases cmd with
    | getlk => cases hr
    | _ => rfl
  | readdir path filler => exact congrArg Output.entries h.filled
  | «open» | create | opendir => simp only [output, h.fi]
  | getxattr | listxattr => simp [output, Local.front]
  | _ => rfl

theorem front_store (l : Local) (data : List UInt8) :
    (l.store (.bytes data)).front data.length = data := by
  refine List.ext_getElem (by simp [Local.front]) fun i hi _ => ?_
  have hlt : i < data.length := by simpa [Local.front] using hi
  simp [Local.front, Local.store, overlay, hlt]

theorem readlink_defined {path : CStr} {bufsiz ret : Nat} {d : Data}
    (hc : (K (.readlink path bufsiz) s).1 = .done ret d)
    (hd : delivers (.readlink path bufsiz) (.done ret d)) (hlt : ret < bufsiz) :
    (Request.readlink path bufsiz).Defined K s l
      ((Request.readlink path bufsiz).succeed (l.store d) ret).2 := by
  obtain ⟨target, rfl, rfl, -, hmax⟩ := hd
  have hret : toInt target.length = target.length := by
    unfold Posix.Tree.PATH_MAX at hmax
    exact toInt_of_small (by omega) (by omega)
  simp only [succeed, hret, natCast_ne_neg_one, ↓reduceIte]
  refine ⟨target, hc, hlt, ?_, by simp, fun n hle => ?_⟩
  · refine Eq.trans (front_congr fun i hi => ?_) (front_store l target)
    have hne : ¬(i : Int) = target.length := by omega
    simp only [hne, ↓reduceIte]
  · have hne : ¬(n : Int) = target.length := by omega
    have hnlt : ¬n < target.length := by omega
    simp only [hne, ↓reduceIte, Local.store, overlay, hnlt, ↓reduceDIte]

theorem finish_defined (hK : K.Keeps delivers) (hfits : r.Fits K s) {c : Sys}
    (hc : r.call? l.fi = some c) (h₀ : 0 ≤ (r.finish l (K c s).1).1) :
    r.Defined K s l (r.finish l (K c s).1).2 := by
  have hd := hK c s
  rcases hk : (K c s).1 with e | ⟨ret, d⟩
  · rw [hk] at h₀
    exact absurd h₀ (Int.not_le.mpr (finish_fail_neg r l e))
  · rw [hk] at hd
    cases r with
    | getattr path | statfs path =>
      cases hc
      obtain ⟨st, rfl⟩ := hd
      exact ⟨ret, st, hk, rfl⟩
    | fgetattr path =>
      obtain ⟨fi, hfi, rfl⟩ := Option.map_eq_some_iff.mp hc
      obtain ⟨st, rfl⟩ := hd
      exact ⟨fi, ret, st, hfi, hk, rfl⟩
    | readlink path bufsiz =>
      cases hc
      exact readlink_defined hk hd (hfits ret d hk)
    | _ => trivial

theorem body_defined (hK : K.Keeps delivers) (hfits : r.Fits K s) {out : Int × Local} {s' : σ}
    (h : ((r.operation fuel).body l).run K s = some (out, s')) (h₀ : 0 ≤ out.1) :
    r.Defined K s l out.2 := by
  cases hc : r.call? l.fi with
  | some c =>
    rw [run_of_call? hc] at h
    cases h
    exact finish_defined hK hfits hc h₀
  | none =>
    cases r with
    | getattr | readlink | statfs => cases hc
    | fgetattr path =>
      rw [body_stuck rfl (by simp) (Option.map_eq_none_iff.mp hc)] at h
      cases h
    | _ => trivial

end Request

theorem reply_executed {os : OS β} {E : Setup} {fuel : Nat} {s s' : Session β} {i : Incoming}
    (hK : os.kernel.Keeps delivers) (hc : s.code i os E = 0) {memory : Local}
    (hm : i.memory.Agrees 0 memory) {out : Int × Local}
    (h : s.serve os E fuel i = some (out, s')) :
    ∃ out', s.serve os E fuel { i with memory } = some (out', s') ∧
      i.request.reply out' = i.request.reply out := by
  have hl : (s.locals i).Agrees 0 (s.locals { i with memory }) := ⟨hm.errno, rfl, hm.filled, hm.buf⟩
  have hc' : s.code { i with memory } os E = 0 := hc
  rw [Session.serve_body hc] at h
  obtain ⟨⟨out₀, b⟩, hb, he⟩ := Option.map_eq_some_iff.mp h
  cases he
  obtain ⟨out', hb', hsame⟩ := (Request.body_lockstep fuel i.request hl).run hK hb
  refine ⟨out', ?_, hsame.reply⟩
  have hb'' : ((i.request.operation fuel).body (s.locals { i with memory })).run os.kernel
      (s.baseAtBody { i with memory } os E) = some (out', b) := hb'
  rw [Session.serve_body hc', hb'', Option.map_some, hsame.returns, hsame.fi]
  rfl

/-- What a request that is let through, or replaced by nothing, hands back. -/
theorem replies_defined (os : OS β) (E : Setup) (fuel : Nat) (s : Session β) (i : Incoming)
    (hK : os.kernel.Keeps delivers) :
    (s.code i os E = 0 → i.request.Fits os.kernel (s.baseAtBody i os E) →
      ∀ out s', s.serve os E fuel i = some (out, s') → 0 ≤ out.1 →
        i.request.Defined os.kernel (s.baseAtBody i os E) (s.locals i) out.2) ∧
      (s.code i os E = -ERRNO_NOOP → ∃ s', s.serve os E fuel i = some ((0, s.locals i), s')) ∧
      (s.code i os E = 0 ∨ s.code i os E = -ERRNO_NOOP ∧ i.request.readsOnZero = false →
        ∀ memory, i.memory.Agrees 0 memory →
          ∀ out s', s.serve os E fuel i = some (out, s') →
            ∃ out', s.serve os E fuel { i with memory } = some (out', s') ∧
              i.request.reply out' = i.request.reply out) := by
  refine ⟨fun hc hfits out s' h h₀ => ?_, fun hn => ⟨_, Session.serve_replaced hn⟩, ?_⟩
  · obtain ⟨b', hb, -, -⟩ := Session.serve_executed hc h
    exact Request.body_defined hK hfits hb h₀
  · rintro (hc | ⟨hn, hr⟩) memory hm out s' h
    · exact reply_executed hK hc hm h
    · have hn' : s.code { i with memory } os E = -ERRNO_NOOP := hn
      have hl : (s.locals i).Agrees 0 (s.locals { i with memory }) :=
        ⟨hm.errno, rfl, hm.filled, hm.buf⟩
      rw [Session.serve_replaced hn] at h
      cases h
      refine ⟨_, Session.serve_replaced hn', ?_⟩
      exact congrArg (Prod.mk (0 : Int)) (Request.output_zero hr hl)

section
open Posix

def fileOpen (errors : Option (List ErrinjConf)) : Session Base where
  world := { bootWorld linkTree errors with
    base := { Base.boot linkTree with
      fds := fun fd => if fd < 4 then some ⟨fd, if fd < 3 then 0 else 1, .rdwr, false⟩ else none
      nextDesc := 4 } }
  handles := fun id =>
    if id = 0 then some ⟨{ flags := { acc := .rdwr }, fh := 3 }, ascii "/f", .file⟩ else none

def sevens : Local := { Local.zero with buf := fun _ => 7, stat := { ino := 7 } }

theorem agrees_sevens : Local.zero.Agrees 0 sevens := ⟨rfl, rfl, rfl, by rintro i ⟨⟩⟩

def readLink (bufsiz : Nat) (memory : Local) : Incoming := ⟨.readlink (ascii "/l") bufsiz, 0, memory⟩

theorem replies_defined_readlink : ∃ out s',
    (fileOpen none).serve (posix .small) (smallSetup (ascii "/c")) 0 (readLink 3 .zero) =
        some (out, s') ∧
      (Request.readlink (ascii "/l") 3).Defined (kernel .small) (fileOpen none).world.base
        ((fileOpen none).locals (readLink 3 .zero)) out.2 ∧
      ∃ out', (fileOpen none).serve (posix .small) (smallSetup (ascii "/c")) 0 (readLink 3 sevens) =
          some (out', s') ∧
        (Request.readlink (ascii "/l") 3).reply out' = (Request.readlink (ascii "/l") 3).reply out := by
  have hc : (fileOpen none).code (readLink 3 .zero) (posix .small) (smallSetup (ascii "/c")) = 0 :=
    decision_of_none rfl _ _
  have h := replies_defined (posix .small) (smallSetup (ascii "/c")) 0 (fileOpen none)
    (readLink 3 .zero) (kernel_delivers .small)
  obtain ⟨⟨out, s'⟩, hs⟩ := Option.isSome_iff_exists.mp
    (by decide : ((fileOpen none).serve (posix .small) (smallSetup (ascii "/c")) 0
      (readLink 3 .zero)).isSome)
  have hrc : ((fileOpen none).serve (posix .small) (smallSetup (ascii "/c")) 0
      (readLink 3 .zero)).map (·.1.1) = some 0 := by decide
  rw [hs] at hrc
  refine ⟨out, s', hs, h.1 hc ?_ out s' hs (Int.le_of_eq (Option.some.inj hrc).symm), ?_⟩
  · rintro ret d hd
    cases hd
    decide
  · exact h.2.2 (.inl hc) sevens agrees_sevens out s' hs

/-- Replaced by nothing, a write of one byte returns 0, and the reply to a getattr
is what the memory held. The NUL behind a link that fills the buffer is written
next to it. -/
theorem replies_undefined :
    (∃ out s', (fileOpen (some [noopEntry])).serve (posix .small) (smallSetup (ascii "/c")) 0
        ⟨.write (ascii "/f") [1] 0, 0, .zero⟩ = some (out, s') ∧ out.1 = 0) ∧
      (∃ out out' s', (fileOpen (some [noopEntry])).serve (posix .small) (smallSetup (ascii "/c")) 0
            ⟨.getattr (ascii "/f"), 0, .zero⟩ = some (out, s') ∧
          (fileOpen (some [noopEntry])).serve (posix .small) (smallSetup (ascii "/c")) 0
            ⟨.getattr (ascii "/f"), 0, sevens⟩ = some (out', s') ∧
          out.1 = 0 ∧ (Request.getattr (ascii "/f")).reply out' ≠
            (Request.getattr (ascii "/f")).reply out) ∧
      ∃ out s', (fileOpen none).serve (posix .small) (smallSetup (ascii "/c")) 0 (readLink 2 sevens) =
          some (out, s') ∧ out.1 = 0 ∧ sevens.buf 2 = 7 ∧ out.2.buf 2 = 0 :=
  ⟨⟨_, _, rfl, rfl⟩, ⟨_, _, _, rfl, rfl, rfl, by decide⟩, _, _, rfl, rfl, rfl, rfl⟩

end

end UnreliableFS
