import UnreliableFS.Bodies
import UnreliableFS.Interaction.Reach
import UnreliableFS.World
import Mathlib.Logic.Function.Basic

/-!
# Serving requests

`libfuse` keeps a `fuse_file_info` for every handle it has given out: the one
the open left, which it passes again with each request on the handle. A session
is a world with these handles, and `serve` is the machine that takes one request
at a time.
-/

namespace UnreliableFS

open Interaction

structure Handle where
  fi : FuseFileInfo
  path : CStr
  kind : Request.HandleKind

structure Session (β : Type) where
  world : World β
  handles : Nat → Option Handle

/-- A request on a handle, or for a new one, with the buffers it comes with. The
`fuse_file_info` in `memory` is not used. -/
structure Incoming where
  request : Request
  handle : Nat := 0
  memory : Local

theorem Request.opens?_of_handleKind? {r : Request} {k : Request.HandleKind}
    (hk : r.handleKind? = some k) : r.opens? = none := by
  cases r with
  | «open» | create | opendir => cases hk
  | _ => rfl

namespace Session

variable {β : Type} (s : Session β) (i : Incoming)

/-- Cleared for a new handle, and otherwise as its open left it. -/
def fileInfo : Option FuseFileInfo :=
  match i.request.opens? with
  | some flags => some { flags }
  | none => (s.handles i.handle).map (·.fi)

def locals : Local := { i.memory with fi := s.fileInfo i }

def kindOpened : Request → Request.HandleKind
  | .opendir _ => .dir
  | _ => .file

/-- A handle is live from an open that returned 0 to its release, whatever the
release returns. -/
def handlesAfter (rc : Int) (fi : Option FuseFileInfo) : Nat → Option Handle :=
  match i.request.opens?, fi with
  | some _, some fi =>
    if rc = 0 then
      Function.update s.handles i.handle (some ⟨fi, i.request.path, kindOpened i.request⟩)
    else s.handles
  | _, _ => if i.request.closes then Function.update s.handles i.handle none else s.handles

variable (os : OS β) (E : Setup) (fuel : Nat)

def serve : Machine (Session β) Incoming (Int × Local) := fun s i =>
  (((i.request.operation fuel).call E (s.locals i)).run os.handler s.world).map fun r =>
    (r.1, ⟨r.2, s.handlesAfter i r.1.1 r.1.2.fi⟩)

def calls : List (Event sysSig β) := (i.request.operation fuel).sysTrace os E (s.locals i) s.world

/-- What `libfuse` and the kernel see to: a new handle is none of the live ones,
and a request about a handle comes with a live one of its kind. -/
structure Proper : Prop where
  fresh : i.request.opens? ≠ none → s.handles i.handle = none
  live : ∀ k, i.request.handleKind? = some k → ∃ h, s.handles i.handle = some h ∧ h.kind = k

def baseAtBody : β := os.atBody E s.world.base i.request.path

def atBody : Session β := ⟨{ s.world with base := s.baseAtBody i os E }, s.handles⟩

def code : Int := s.world.decision os E i.request.path i.request.op

-- ---------------------------------------------------------------------------
-- One step
-- ---------------------------------------------------------------------------

variable {s i os E fuel} {out : Int × Local} {s' : Session β}

/-- A request that a code was injected into changes neither the base nor the
`fuse_file_info`. -/
theorem serve_injected (hc : s.code i os E ≠ 0) (h : serve os E fuel s i = some (out, s')) :
    out = (if s.code i os E = -ERRNO_NOOP then 0 else s.code i os E, s.locals i) ∧
      s'.world = s.world.decided os E i.request.path i.request.op ∧
      s'.handles = s.handlesAfter i out.1 (s.fileInfo i) := by
  unfold serve at h
  rw [Operation.call_run, Request.operation_path, Request.operation_op] at h
  unfold code at hc ⊢
  rw [if_pos hc] at h
  split at h
  · rename_i hn
    cases h
    rw [if_pos hn]
    exact ⟨rfl, rfl, rfl⟩
  · rename_i hn
    cases h
    rw [if_neg hn]
    exact ⟨rfl, rfl, rfl⟩

theorem serve_replaced (hc : s.code i os E = -ERRNO_NOOP) : serve os E fuel s i =
    some ((0, s.locals i), ⟨s.world.decided os E i.request.path i.request.op,
      s.handlesAfter i 0 (s.fileInfo i)⟩) := by
  unfold serve
  unfold code at hc
  rw [Operation.call_run, Request.operation_path, Request.operation_op, hc, if_pos rfl]
  rfl

theorem serve_body (hc : s.code i os E = 0) : serve os E fuel s i =
    (((i.request.operation fuel).body (s.locals i)).run os.kernel (s.baseAtBody i os E)).map fun r =>
      (r.1, ⟨{ s.world.decided os E i.request.path i.request.op with base := r.2 },
        s.handlesAfter i r.1.1 r.1.2.fi⟩) := by
  have hn : ¬(0 : Int) = -ERRNO_NOOP := by decide
  unfold code at hc
  unfold serve
  rw [Operation.call_run, Request.operation_path, Request.operation_op, hc, if_neg hn,
    if_neg (not_not_intro rfl), Option.map_map]
  rfl

theorem serve_executed (hc : s.code i os E = 0) (h : serve os E fuel s i = some (out, s')) :
    ∃ b', ((i.request.operation fuel).body (s.locals i)).run os.kernel (s.baseAtBody i os E) =
        some (out, b') ∧
      s'.world = { s.world.decided os E i.request.path i.request.op with base := b' } ∧
      s'.handles = s.handlesAfter i out.1 out.2.fi := by
  rw [serve_body hc] at h
  obtain ⟨r, hb, he⟩ := Option.map_eq_some_iff.mp h
  cases he
  exact ⟨_, hb, rfl, rfl⟩

theorem serve_done (hc : s.code i os E = 0) {c : Sys}
    (hcall : i.request.call? (s.locals i).fi = some c) (h : serve os E fuel s i = some (out, s'))
    (hrc : out.1 = 0) : ∃ ret d, (os.kernel c (s.baseAtBody i os E)).1 = .done ret d ∧
      out = i.request.succeed ((i.request.prepare (s.locals i)).store d) ret ∧
      s'.world.base = (os.kernel c (s.baseAtBody i os E)).2 ∧
      s'.handles = s.handlesAfter i out.1 out.2.fi := by
  obtain ⟨b', hb, hw, hh⟩ := serve_executed hc h
  rw [Request.run_of_call? hcall, Option.some.injEq, Prod.mk.injEq] at hb
  obtain ⟨hout, rfl⟩ := hb
  rcases hk : (os.kernel c (s.baseAtBody i os E)).1 with e | ⟨ret, d⟩
  · rw [hk] at hout
    rw [← hout] at hrc
    exact absurd hrc (Int.ne_of_lt (Request.finish_fail_neg ..))
  · rw [hk] at hout
    exact ⟨ret, d, rfl, hout.symm, congrArg World.base hw, hh⟩

/-- A request on the configuration's path loads it before anything else is done. -/
theorem serve_errors (h : serve os E fuel s i = some (out, s')) : s'.world.errors =
    if i.request.path = E.configPath then os.loaded s.world.base E.configPath
    else s.world.errors := by
  have hd : s'.world.errors = (s.world.decided os E i.request.path i.request.op).errors := by
    by_cases hc : s.code i os E = 0
    · obtain ⟨b', -, hw, -⟩ := serve_executed hc h
      rw [hw]
    · obtain ⟨-, hw, -⟩ := serve_injected hc h
      rw [hw]
  rw [hd]
  split
  · rename_i hp
    rw [hp, decided_config]
  · rename_i hp
    obtain ⟨draws, hd⟩ := decided_other os hp s.world i.request.op
    rw [hd]
    rfl

theorem calls_injected (hc : s.code i os E ≠ 0) : s.calls i os E fuel = [] := by
  unfold calls
  rw [Operation.sysTrace_eq, Request.operation_path, Request.operation_op]
  exact if_neg hc

theorem calls_executed (hc : s.code i os E = 0) : s.calls i os E fuel =
    ((i.request.operation fuel).body (s.locals i)).trace os.kernel (s.baseAtBody i os E) := by
  unfold calls
  rw [Operation.sysTrace_eq, Request.operation_path, Request.operation_op]
  exact if_pos hc

theorem fi_locals_live {k : Request.HandleKind} (hk : i.request.handleKind? = some k) {h : Handle}
    (hh : s.handles i.handle = some h) : (s.locals i).fi = some h.fi := by
  simp only [locals, fileInfo, Request.opens?_of_handleKind? hk, hh, Option.map_some]

theorem Proper.fileInfo (hp : s.Proper i)
    {k : Request.HandleKind} (hk : i.request.handleKind? = some k) :
    ∃ h, s.handles i.handle = some h ∧ h.kind = k ∧ (s.locals i).fi = some h.fi := by
  obtain ⟨h, hh, hkind⟩ := hp.live k hk
  exact ⟨h, hh, hkind, fi_locals_live hk hh⟩

theorem fi_locals_opens {flags : OpenFlags} (hopen : i.request.opens? = some flags) :
    (s.locals i).fi = some { flags } := by
  simp only [locals, Session.fileInfo, hopen]

theorem handlesAfter_opened {flags : OpenFlags} {ret : Nat} {d : Data}
    (hopen : i.request.opens? = some flags) (hret : ret < 2 ^ 64)
    (hout : out = i.request.succeed ((i.request.prepare (s.locals i)).store d) ret) :
    out.1 = 0 ∧ s.handlesAfter i out.1 out.2.fi = Function.update s.handles i.handle
      (some ⟨{ flags, fh := ret }, i.request.path, kindOpened i.request⟩) := by
  have hfi : ((i.request.prepare (s.locals i)).store d).fi = some { flags } := by
    rw [Request.prepare_opens hopen, Local.fi_store, fi_locals_opens hopen]
  rw [Request.succeed_opens hopen hfi hret] at hout
  subst hout
  simp [handlesAfter, hopen]

theorem handlesAfter_closed (hopen : i.request.opens? = none) (rc : Int)
    (fi : Option FuseFileInfo) : s.handlesAfter i rc fi =
      if i.request.closes then Function.update s.handles i.handle none else s.handles := by
  simp [handlesAfter, hopen]

end Session

end UnreliableFS
