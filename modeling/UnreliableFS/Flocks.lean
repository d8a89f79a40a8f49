import UnreliableFS.Objects
import UnreliableFS.Posix.FileLocks
import UnreliableFS.Interaction.Only

/-!
# Locks of whole files

Every open handle has an open file description of its own, so the locks that `flock`
requests take through different handles exclude each other, in one client as between
clients. They last until the handle gives them back or is released: no other request
takes them away, the flush of a client's `close` as little as any.
-/

namespace UnreliableFS

open Interaction Posix

-- ---------------------------------------------------------------------------
-- The calls of the bodies
-- ---------------------------------------------------------------------------

def Body.Every {α : Type} (C : Sys → Prop) (x : Body α) : Prop := ∀ l, (x l).Every C

def Sys.Other (c : Sys) : Prop := ∀ fd op, c ≠ .flock fd op

section
variable {α γ : Type} {C : Sys → Prop} {c : Sys}

theorem every_pure (a : α) : Body.Every C (pure a) := fun _ => trivial

theorem every_bind {x : Body α} {f : α → Body γ} (hx : Body.Every C x)
    (hf : ∀ a, Body.Every C (f a)) : Body.Every C (x >>= f) :=
  fun l => (hx l).bind fun r => hf r.1 r.2

theorem every_ite {p : Prop} [Decidable p] {x y : Body α} (hx : Body.Every C x)
    (hy : Body.Every C y) : Body.Every C (if p then x else y) := by
  split
  · exact hx
  · exact hy

theorem every_modify (f : Local → Local) : Body.Every C (modify f : Body Unit) := fun _ => trivial

theorem every_fh : Body.Every C fh := by
  intro l
  unfold fh
  cases l.fi with
  | none => trivial
  | some fi => trivial

theorem every_fiFlags : Body.Every C fiFlags := by
  intro l
  unfold fiFlags
  cases l.fi with
  | none => trivial
  | some fi => trivial

theorem every_sys (hc : C c) : Body.Every C (sys c) := by
  refine fun l => ⟨hc, fun r => ?_⟩
  cases r with
  | fail e => trivial
  | done ret d => trivial

theorem every_checked {p : Prop} [Decidable p] {x : Body Int} (hx : Body.Every C x) :
    Body.Every C (if p then (do return -(← errno)) else x) :=
  every_ite (every_bind (fun _ => trivial) fun _ => every_pure _) hx

theorem every_forward (hc : C c) : Body.Every C (forward c) :=
  every_bind (every_sys hc) fun _ => every_checked (every_pure _)

theorem every_transfer {opening : Sys} {io : Int → Sys} (hopen : C opening) (hio : ∀ fd, C (io fd))
    (hclose : ∀ fd, C (.close fd)) : Body.Every C (Request.transfer opening io) := by
  unfold Request.transfer
  refine every_bind (fun _ => trivial) fun null => ?_
  extract_lets rest
  have hrest : ∀ fd, Body.Every C (rest fd) := by
    refine fun fd => every_checked (every_bind (every_sys (hio fd)) fun ret => ?_)
    extract_lets _ done
    have hdone : ∀ ret, Body.Every C (done ret) := by
      refine fun ret => every_bind (fun _ => trivial) fun null => every_ite ?_ (every_pure _)
      exact every_bind (every_sys (hclose fd)) fun _ => every_pure _
    exact every_ite (every_bind (fun _ => trivial) fun _ => hdone _) (hdone _)
  refine every_ite (every_bind (every_sys hopen) hrest) ?_
  exact every_bind every_fh fun _ => hrest _

theorem every_readdirLoop (filler : Filler) {dp : Int} (hc : C (.readdir dp)) (fuel : Nat) :
    Body.Every C (readdirLoop filler dp fuel) := by
  induction fuel with
  | zero => exact fun _ => trivial
  | succ fuel ih =>
    refine every_bind (every_sys hc) fun _ => every_ite (every_pure _) ?_
    refine every_bind (fun _ => trivial) fun l => every_bind (fun _ => trivial) fun _ => ?_
    exact every_ite (every_pure _) ih

end

theorem body_other {r : Request} (hr : ∀ path op, r ≠ .flock path op) (fuel : Nat) :
    Body.Every Sys.Other (r.operation fuel).body := by
  cases r with
  | flock path op => exact absurd rfl (hr path op)
  | mknod | mkdir | unlink | rmdir | symlink | rename | link | chmod | chown | truncate | statfs
  | setxattr | removexattr | access | ftruncate | utimens => exact every_forward nofun
  | getattr => exact every_bind (every_modify _) fun _ => every_forward nofun
  | release | releasedir | fgetattr | lock =>
    exact every_bind every_fh fun _ => every_forward nofun
  | fsync =>
    exact every_bind every_fh fun _ => every_ite (every_forward nofun) (every_forward nofun)
  | flush =>
    refine every_bind every_fh fun _ => every_bind (every_sys nofun) fun _ => ?_
    exact every_forward nofun
  | readlink =>
    refine every_bind (every_sys nofun) fun _ => every_checked ?_
    exact every_bind (every_modify _) fun _ => every_pure _
  | getxattr | listxattr =>
    exact every_bind (every_sys nofun) fun _ => every_checked (every_pure _)
  | ioctl =>
    refine every_bind every_fh fun _ => every_bind (every_sys nofun) fun _ => ?_
    exact every_checked (every_pure _)
  | «open» | create =>
    refine every_bind every_fiFlags fun _ => every_bind (every_sys nofun) fun _ => ?_
    exact every_checked (every_bind (fun _ => trivial) fun _ => every_pure _)
  | opendir =>
    refine every_bind (every_sys nofun) fun _ => every_checked ?_
    exact every_bind (fun _ => trivial) fun _ => every_pure _
  | read | write => exact every_transfer nofun nofun nofun
  | readdir path filler =>
    refine every_bind (every_sys nofun) fun dp => every_checked ?_
    refine every_bind (every_readdirLoop filler nofun fuel) fun _ => ?_
    exact every_bind (every_sys nofun) fun _ => every_pure _
  | fsyncdir path datasync =>
    refine every_bind (every_sys nofun) fun dir => every_checked ?_
    refine every_bind (every_sys nofun) fun fd => ?_
    extract_lets rest
    have hrest : ∀ ret, Body.Every Sys.Other (rest ret) :=
      fun ret => every_checked (every_bind (every_sys nofun) fun _ => every_pure _)
    exact every_ite (every_bind (every_sys nofun) hrest) (every_bind (every_sys nofun) hrest)
  | fallocate path mode offset len =>
    refine every_ite (every_pure _) (every_bind (fun _ => trivial) fun null => ?_)
    extract_lets _ rest
    have hrest : ∀ fd, Body.Every Sys.Other (rest fd) := by
      refine fun fd => every_checked (every_bind every_fh fun _ => ?_)
      refine every_bind (every_sys nofun) fun _ => every_checked ?_
      refine every_bind (fun _ => trivial) fun _ => every_ite ?_ (every_pure _)
      exact every_bind (every_sys nofun) fun _ => every_pure _
    exact every_ite (every_bind (every_sys nofun) hrest) (every_bind every_fh fun _ => hrest _)

-- ---------------------------------------------------------------------------
-- Runs
-- ---------------------------------------------------------------------------

/-- A lock as its client knows of it. If a later request for another has failed, it may
be gone: a conversion is not atomic. -/
structure Grant where
  exclusive : Bool
  kept : Bool := true

/-- A run, and for every handle the lock it has been given. -/
structure Leased where
  watched : Watched
  grants : Nat → Option Grant

namespace Leased

def start (w : World Base) : Leased := ⟨Watched.start w, fun _ => none⟩

variable (P : Platform) (E : Setup) (fuel : Nat) (t : Leased)

def session : Session Base := t.watched.session

def base : Base := t.watched.base

def grantsAfter (i : Incoming) (rc : Int) : Nat → Option Grant :=
  match i.request with
  | .flock _ .un => if rc = 0 then Function.update t.grants i.handle none else t.grants
  | .flock _ op =>
    Function.update t.grants i.handle <|
      if rc = 0 then some { exclusive := op = .ex }
      else (t.grants i.handle).map fun g => { g with kept := false }
  | r => if r.closes then Function.update t.grants i.handle none else t.grants

def serve : Machine Leased Happening (Option (Int × Local)) := fun t happening =>
  (t.watched.serve P E fuel happening).map fun r =>
    (r.1, ⟨r.2, match happening, r.1 with
      | .request i, some out => t.grantsAfter i out.1
      | _, _ => t.grants⟩)

def Guarded (t : Leased) : Happening → Prop := t.watched.Guarded P E

end Leased

/-- The locks of the handles exclude each other, and a request for one fails only if
the lock of another handle on the object is in the way. -/
structure Excludes (P : Platform) (E : Setup) (t : Leased) : Prop where
  apart : ∀ id id' g g', id ≠ id' → t.grants id = some g → t.grants id' = some g' →
    t.watched.object id = t.watched.object id' → g.kept = true → g'.kept = true →
      g.exclusive = false
  given : ∀ (i : Incoming) (path : CStr) (op : FlockOp) (fuel : Nat), i.request = .flock path op →
    t.session.Called (posix P) E i →
    (op = .un ∨ ∀ id g, id ≠ i.handle → t.grants id = some g →
      t.watched.object id = t.watched.object i.handle → op ≠ .ex ∧ g.exclusive = false) →
    ∃ out s', t.session.serve (posix P) E fuel i = some (out, s') ∧ out.1 = 0

-- ---------------------------------------------------------------------------
-- The invariant
-- ---------------------------------------------------------------------------

def OfHandle (s : Session Base) (id : Nat) (l : FileLock) : Prop := ∃ h d,
  s.handles id = some h ∧ h.kind = .file ∧ s.world.base.fds h.fi.fh = some d ∧ l.desc = d.id ∧
    l.ino = d.ino

def Unshared (b₀ b : Base) : Prop := ∀ fd fd' d d', b₀.fds fd = none → b.fds fd = some d →
  b.fds fd' = some d' → d'.id = d.id → fd' = fd

structure GrantInv (b₀ : Base) (t : Leased) : Prop where
  objects : ObjectInv b₀ t.watched
  regular : t.base.Regular
  unshared : Unshared b₀ t.base
  held : ∀ id g, t.grants id = some g → g.kept = true →
    ∃ l ∈ t.base.flocks, OfHandle t.session id l ∧ l.exclusive = g.exclusive
  only : ∀ l ∈ t.base.flocks, ∃ id g, t.grants id = some g ∧ g.kept = true ∧
    OfHandle t.session id l ∧ l.exclusive = g.exclusive

section
variable {P : Platform} {E : Setup} {fuel : Nat} {b₀ : Base} {s s' : Session Base} {i : Incoming}
  {out : Int × Local} {id id' : Nat} {l l' : FileLock} {t t' : Leased} {rc : Int}

theorem Unshared.step (h : Unshared b₀ s.world.base) (hr : s.world.base.Regular)
    (hs : s.Step (fun b => b) i rc s') : Unshared b₀ s'.world.base := by
  have hnew {fd : Nat} {d : Desc} (hd : d.id = s.world.base.nextDesc)
      (hfds : s'.world.base.fds = Function.update s.world.base.fds fd (some d)) :
      Unshared b₀ s'.world.base := by
    intro fd₁ fd₂ d₁ d₂ h₀ h₁ h₂ hid
    rw [hfds, update_some_eq] at h₁ h₂
    obtain ⟨rfl, rfl⟩ | ⟨-, h₁⟩ := h₁
    · obtain ⟨rfl, -⟩ | ⟨-, h₂⟩ := h₂
      · rfl
      · have hlt := (hr.bounded fd₂ d₂ h₂).2
        omega
    · obtain ⟨rfl, rfl⟩ | ⟨-, h₂⟩ := h₂
      · have hlt := (hr.bounded fd₁ d₁ h₁).2
        omega
      · exact h fd₁ fd₂ d₁ d₂ h₀ h₁ h₂ hid
  have hgone {fd : Nat} (hfds : s'.world.base.fds = Function.update s.world.base.fds fd none) :
      Unshared b₀ s'.world.base := by
    intro fd₁ fd₂ d₁ d₂ h₀ h₁ h₂ hid
    rw [hfds, update_none_eq] at h₁ h₂
    exact h fd₁ fd₂ d₁ d₂ h₀ h₁.2 h₂.2 hid
  cases hs with
  | kept hb _ =>
    have hfds : s'.world.base.fds = s.world.base.fds := hb.fds
    unfold Unshared
    rw [hfds]
    exact h
  | openFile _ _ _ _ hb _ => exact hnew (d := ⟨_, _, _, _⟩) rfl (congrArg Base.fds hb)
  | openDir _ _ _ _ _ hb _ => exact hnew (d := ⟨_, _, _, _⟩) rfl (congrArg Base.fds hb)
  | closeFile _ _ _ hb _ => exact hgone (congrArg Base.fds hb)
  | closeDir _ _ _ _ hb _ => exact hgone (congrArg Base.fds hb)

theorem opens?_of_closes {r : Request} (hc : r.closes = true) : r.opens? = none := by
  cases r with
  | release | releasedir => rfl
  | _ => cases hc

theorem live_after (hg : s.Called (posix P) E i) {h : Handle} (hid : s.handles id = some h)
    (hn : i.request.closes = true → id ≠ i.handle) (rc : Int) (fi : Option FuseFileInfo) :
    s.handlesAfter i rc fi id = some h := by
  cases hopen : i.request.opens? with
  | none =>
    rw [Session.handlesAfter_closed hopen]
    split
    · rename_i hclose
      rw [Function.update_of_ne (hn hclose), hid]
    · exact hid
  | some flags =>
    have hne : id ≠ i.handle := by
      rintro rfl
      rw [hg.fresh (by simp [hopen])] at hid
      cases hid
    cases fi with
    | none => simpa [Session.handlesAfter, hopen, Request.closes_of_opens? hopen] using hid
    | some fi =>
      by_cases hrc : rc = 0
      · simpa [Session.handlesAfter, hopen, hrc, hne] using hid
      · simpa [Session.handlesAfter, hopen, hrc] using hid

namespace GrantInv

theorem ofHandle_unique (hi : GrantInv b₀ t) (h : OfHandle t.session id l)
    (h' : OfHandle t.session id' l') (hl : l.desc = l'.desc) : id = id' := by
  obtain ⟨g, d, hid, hk, hd, he, -⟩ := h
  obtain ⟨g', d', hid', hk', hd', he', -⟩ := h'
  obtain ⟨opened, hinv⟩ := hi.objects.tracks
  obtain ⟨-, hn, -⟩ := (hinv.owns id g hid).file hk
  have hfd := hi.unshared _ _ d d' hn hd hd' (he'.symm.trans (hl.symm.trans he))
  refine hinv.holds_unique hid hid' (holds_file hk) ?_
  rw [← hfd]
  exact holds_file hk'

theorem ofHandle_object (hi : GrantInv b₀ t) (h : OfHandle t.session id l) :
    t.watched.object id = some l.ino := by
  obtain ⟨g, d, hid, hk, hd, -, hino⟩ := h
  obtain ⟨o, ho, hobject⟩ := hi.objects.same id g hid
  simp only [Handle.object?, hk] at hobject
  have hd' : t.watched.base.fds g.fi.fh = some d := hd
  rw [objectAt_natCast, hd'] at hobject
  cases hobject
  rw [ho, hino]

theorem apart (hi : GrantInv b₀ t) {g g' : Grant} (hne : id ≠ id') (hg : t.grants id = some g)
    (hg' : t.grants id' = some g') (ho : t.watched.object id = t.watched.object id')
    (hk : g.kept = true) (hk' : g'.kept = true) : g.exclusive = false := by
  obtain ⟨l, hl, hof, he⟩ := hi.held id g hg hk
  obtain ⟨l', hl', hof', -⟩ := hi.held id' g' hg' hk'
  rw [hi.ofHandle_object hof, hi.ofHandle_object hof', Option.some.injEq] at ho
  rw [← he]
  exact hi.regular.exclusion l hl l' hl' (fun hd => hne (hi.ofHandle_unique hof hof' hd)) ho

theorem closed (hi : GrantInv b₀ t)
    (hs : (t.session.atBody i (posix P) E).Step (fun b => b) i rc s')
    (hgone : s'.handles i.handle = none) (hof : OfHandle t.session i.handle l) :
    ¬s'.world.base.Open l.desc := by
  obtain ⟨h, d, hid, hk, hd, hdesc, -⟩ := hof
  obtain ⟨opened, hinv⟩ := hi.objects.tracks
  obtain ⟨-, hn, -⟩ := (hinv.owns i.handle h hid).file hk
  have hid : (t.session.atBody i (posix P) E).handles i.handle = some h := hid
  cases hs with
  | kept _ hh =>
    rw [hh, hid] at hgone
    cases hgone
  | openFile _ _ _ hfresh _ _ | openDir _ _ _ _ hfresh _ _ =>
    rw [hfresh] at hid
    cases hid
  | closeFile _ hid' _ hb _ =>
    cases hid.symm.trans hid'
    rintro ⟨fd', d', hd', he⟩
    have hfds : s'.world.base.fds = _ := congrArg Base.fds hb
    rw [hfds] at hd'
    obtain ⟨hne, hd'⟩ := update_none_eq.mp hd'
    have hd' := (congrFun (alike_atBody P E t.base i.request.path).fds fd').symm.trans hd'
    exact hne (hi.unshared _ _ d d' hn hd hd' (he.trans hdesc))
  | closeDir _ hid' hk' _ _ _ =>
    cases hid.symm.trans hid'
    rw [hk] at hk'
    cases hk'

theorem other (hi : GrantInv b₀ t) (hg : t.session.Called (posix P) E i)
    (hr : ∀ path op, i.request ≠ .flock path op)
    (hs : t.session.serve (posix P) E fuel i = some (out, s')) :
    GrantInv b₀ ⟨⟨s', t.watched.objectAfter i out.1⟩, t.grantsAfter i out.1⟩ := by
  obtain ⟨b', hrun, hw, hafter⟩ := Session.serve_executed hg.through hs
  obtain ⟨hstep, -⟩ := hi.objects.tracks.serve (posix_follows P) hg (closes_of_run hrun) hs
  have hbase : s'.world.base = b' := by rw [hw]
  subst hbase
  have halike := alike_atBody P E t.base i.request.path
  obtain ⟨hregular, hfollow⟩ :=
    run_locksFollow (hi.regular.congr halike) ((body_other hr fuel _).trace _ _) hrun
  have hgrants : t.grantsAfter i out.1 =
      if i.request.closes then Function.update t.grants i.handle none else t.grants := by
    unfold Leased.grantsAfter
    cases hreq : i.request with
    | flock path op => exact absurd hreq (hr path op)
    | _ => rfl
  have hkept {id : Nat} {l : FileLock} (hof : OfHandle t.session id l)
      (hn : i.request.closes = true → id ≠ i.handle) : OfHandle s' id l := by
    obtain ⟨h, d, hid, hk, hd, hl⟩ := hof
    have hid' : s'.handles id = some h := by
      rw [hafter]
      exact live_after hg hid hn ..
    obtain ⟨-, hfds⟩ :=
      hstep.frame (hi.objects.tracks.atBody (posix_follows P) i) hid hid' (holds_file hk)
    exact ⟨h, d, hid', hk, hfds.trans ((congrFun halike.fds _).trans hd), hl⟩
  have hunshared : Unshared b₀ (t.session.atBody i (posix P) E).world.base := by
    intro fd fd' d d' h₀ hd hd'
    exact hi.unshared fd fd' d d' h₀ (congrFun halike.fds fd ▸ hd) (congrFun halike.fds fd' ▸ hd')
  refine ⟨hi.objects.request hg hs, hregular, hunshared.step (hi.regular.congr halike) hstep, ?_, ?_⟩
  · intro id g hgrant hkept'
    have hold : t.grants id = some g ∧ (i.request.closes = true → id ≠ i.handle) := by
      rw [hgrants] at hgrant
      split at hgrant
      · obtain ⟨hne, hgrant⟩ := update_none_eq.mp hgrant
        exact ⟨hgrant, fun _ => hne⟩
      · rename_i hclose
        exact ⟨hgrant, fun h => absurd h hclose⟩
    obtain ⟨l, hl, hof, he⟩ := hi.held id g hold.1 hkept'
    have hof' := hkept hof hold.2
    refine ⟨l, (hfollow.locks l).mpr ⟨halike.flocks.symm ▸ hl, ?_⟩, hof', he⟩
    obtain ⟨h, d, -, -, hd, hdesc, -⟩ := hof'
    exact ⟨_, d, hd, hdesc.symm⟩
  · intro l hl
    obtain ⟨hl, hopen⟩ := (hfollow.locks l).mp hl
    obtain ⟨id, g, hgrant, hkept', hof, he⟩ := hi.only l (halike.flocks ▸ hl)
    have hn : i.request.closes = true → id ≠ i.handle := by
      rintro hclose rfl
      refine hi.closed hstep ?_ hof hopen
      rw [hafter, Session.handlesAfter_closed (opens?_of_closes hclose), if_pos hclose,
        Function.update_self]
    refine ⟨id, g, ?_, hkept', hkept hof hn, he⟩
    show t.grantsAfter i out.1 id = some g
    rw [hgrants]
    split
    · rename_i hclose
      rw [Function.update_of_ne (hn hclose), hgrant]
    · exact hgrant

variable (fuel) in
theorem flock (hi : GrantInv b₀ t) (hg : t.session.Called (posix P) E i) {path : CStr}
    {op : FlockOp} (hr : i.request = .flock path op) : ∃ h d out s',
      t.session.handles i.handle = some h ∧ h.kind = .file ∧ t.base.fds h.fi.fh = some d ∧
      t.session.serve (posix P) E fuel i = some (out, s') ∧ s'.handles = t.session.handles ∧
      (op = .un ∧ out.1 = 0 ∧ Alike { t.base with flocks := t.base.others d } s'.world.base ∨
        op ≠ .un ∧ out.1 = 0 ∧
            (∀ l ∈ t.base.others d, l.ino = d.ino → l.exclusive = false ∧ op ≠ .ex) ∧
            Alike { t.base with flocks := ⟨d.id, d.ino, op = .ex⟩ :: t.base.others d } s'.world.base ∨
        op ≠ .un ∧ out.1 ≠ 0 ∧
            (∃ l ∈ t.base.others d, l.ino = d.ino ∧ (l.exclusive = true ∨ op = .ex)) ∧
            Alike { t.base with flocks := t.base.others d } s'.world.base) := by
  obtain ⟨h, hid, hk, hfi⟩ := hg.handle (k := .file) (by rw [hr]; rfl) (by rw [hr]; rfl)
  obtain ⟨d, hd, -⟩ := hi.objects.desc hid hk
  have hcall : i.request.call? (t.session.locals i).fi = some (.flock (toInt h.fi.fh) op) := by
    rw [hr, hfi]
    rfl
  have hkeeps : i.request.opensOrCloses = false := by
    rw [hr]
    rfl
  obtain ⟨s', hs, hb, hh⟩ := Session.serve_of_call? fuel hg hcall
  rw [Session.handlesAfter_kept hkeeps] at hh
  have hfd : t.base.fds h.fi.fh = some d := by
    obtain ⟨opened, hinv⟩ := hi.objects.tracks
    obtain ⟨hlt, -⟩ := (hinv.owns i.handle h hid).file hk
    have hfh : toInt h.fi.fh = h.fi.fh := toInt_of_small (by omega) (by omega)
    rw [hfh] at hd
    exact (Base.desc_ok.mp hd).2
  refine ⟨h, d, _, s', hid, hk, hfd, hs, hh, ?_⟩
  have halike := alike_atBody P E t.base i.request.path
  have hd' : (t.session.baseAtBody i (posix P) E).desc (toInt h.fi.fh) = .ok d :=
    (atBody_desc P E t.base _ _).trans hd
  have hothers : (t.session.baseAtBody i (posix P) E).others d = t.base.others d := by
    unfold Base.others
    exact congrArg _ halike.flocks
  have hlike (flocks : List FileLock) : Alike { t.base with flocks }
      { t.session.baseAtBody i (posix P) E with flocks } :=
    ⟨halike.nofile, halike.fds, halike.nextDesc, rfl⟩
  have hkernel := kernel_flock (P := P) hd' op
  rw [hothers] at hkernel
  have hk' : (posix P).kernel (.flock (toInt h.fi.fh) op) (t.session.baseAtBody i (posix P) E) =
    kernel P (.flock (toInt h.fi.fh) op) (t.session.baseAtBody i (posix P) E) := rfl
  rw [hk'] at hb ⊢
  obtain ⟨hop, hkernel⟩ | ⟨hop, hfree, hkernel⟩ | ⟨hop, hbusy, hkernel⟩ := hkernel
  · rw [hkernel] at hb ⊢
    refine .inl ⟨hop, ?_, hb ▸ hlike _⟩
    rw [hr]
    rfl
  · rw [hkernel] at hb ⊢
    refine .inr (.inl ⟨hop, ?_, hfree, hb ▸ hlike _⟩)
    rw [hr]
    rfl
  · rw [hkernel] at hb ⊢
    exact .inr (.inr ⟨hop, Int.ne_of_lt (Request.finish_fail_neg ..), hbusy, hb ▸ hlike _⟩)

/-- The locks of other descriptions are the locks of other handles. -/
theorem mem_others (hi : GrantInv b₀ t) {h : Handle} {d : Desc} (hid : t.session.handles id = some h)
    (hk : h.kind = .file) (hd : t.base.fds h.fi.fh = some d) (hof : OfHandle t.session id' l) :
    l ∈ t.base.others d ↔ l ∈ t.base.flocks ∧ id' ≠ id := by
  rw [Base.mem_others]
  refine and_congr_right fun _ => not_congr ⟨fun he => ?_, ?_⟩
  · have hself : OfHandle t.session id ⟨d.id, d.ino, false⟩ := ⟨h, d, hid, hk, hd, rfl, rfl⟩
    exact hi.ofHandle_unique hof hself he
  · rintro rfl
    obtain ⟨h', d', hid', -, hd', he, -⟩ := hof
    cases hid.symm.trans hid'
    cases hd.symm.trans hd'
    exact he

theorem relocked (hi : GrantInv b₀ t) {object : Nat → Option Ino} {flocks : List FileLock}
    {grants : Nat → Option Grant} (hobjects : ObjectInv b₀ ⟨s', object⟩)
    (hh : s'.handles = t.session.handles) (hb : Alike { t.base with flocks } s'.world.base)
    (hregular : ({ t.base with flocks } : Base).Regular)
    (hheld : ∀ id g, grants id = some g → g.kept = true →
      ∃ l ∈ flocks, OfHandle t.session id l ∧ l.exclusive = g.exclusive)
    (honly : ∀ l ∈ flocks, ∃ id g, grants id = some g ∧ g.kept = true ∧ OfHandle t.session id l ∧
      l.exclusive = g.exclusive) :
    GrantInv b₀ ⟨⟨s', object⟩, grants⟩ := by
  have hfds : s'.world.base.fds = t.base.fds := hb.fds
  have hlocks : s'.world.base.flocks = flocks := hb.flocks
  have hof {id : Nat} {l : FileLock} : OfHandle s' id l ↔ OfHandle t.session id l := by
    unfold OfHandle
    rw [hh, hfds]
    rfl
  refine ⟨hobjects, hregular.congr hb, ?_, fun id g hgrant hkept => ?_, fun l hl => ?_⟩
  · intro fd fd' d d' h₀ hd hd'
    exact hi.unshared fd fd' d d' h₀ (hfds ▸ hd) (hfds ▸ hd')
  · obtain ⟨l, hl, hl', he⟩ := hheld id g hgrant hkept
    exact ⟨l, hlocks.symm ▸ hl, hof.mpr hl', he⟩
  · obtain ⟨id, g, hgrant, hkept, hl', he⟩ := honly l (hlocks ▸ hl)
    exact ⟨id, g, hgrant, hkept, hof.mpr hl', he⟩

theorem asked (hi : GrantInv b₀ t) (hg : t.session.Called (posix P) E i) {path : CStr}
    {op : FlockOp} (hr : i.request = .flock path op)
    (hs : t.session.serve (posix P) E fuel i = some (out, s')) :
    GrantInv b₀ ⟨⟨s', t.watched.objectAfter i out.1⟩, t.grantsAfter i out.1⟩ := by
  have hobjects := hi.objects.request hg hs
  obtain ⟨h, d, out', s'', hid, hk, hd, hs', hh, hcases⟩ := hi.flock fuel hg hr
  cases hs.symm.trans hs'
  have hheld {id : Nat} {g : Grant} (hne : id ≠ i.handle) (hgrant : t.grants id = some g)
      (hkept : g.kept = true) :
      ∃ l ∈ t.base.others d, OfHandle t.session id l ∧ l.exclusive = g.exclusive := by
    obtain ⟨l, hl, hof, he⟩ := hi.held id g hgrant hkept
    exact ⟨l, (hi.mem_others hid hk hd hof).mpr ⟨hl, hne⟩, hof, he⟩
  have honly {l : FileLock} (hl : l ∈ t.base.others d) : ∃ id g, id ≠ i.handle ∧
      t.grants id = some g ∧ g.kept = true ∧ OfHandle t.session id l ∧
        l.exclusive = g.exclusive := by
    obtain ⟨id, g, hgrant, hkept, hof, he⟩ := hi.only l (Base.mem_others.mp hl).1
    exact ⟨id, g, ((hi.mem_others hid hk hd hof).mp hl).2, hgrant, hkept, hof, he⟩
  obtain ⟨rfl, hrc, hb⟩ | ⟨hop, hrc, hfree, hb⟩ | ⟨hop, hrc, -, hb⟩ := hcases
  · have hgrants : t.grantsAfter i out.1 = Function.update t.grants i.handle none := by
      simp [Leased.grantsAfter, hr, hrc]
    rw [hgrants]
    refine hi.relocked hobjects hh hb (hi.regular.unlock d) (fun id g hgrant hkept => ?_) fun l hl => ?_
    · obtain ⟨hne, hgrant⟩ := update_none_eq.mp hgrant
      exact hheld hne hgrant hkept
    · obtain ⟨id, g, hne, hgrant, hof⟩ := honly hl
      exact ⟨id, g, update_none_eq.mpr ⟨hne, hgrant⟩, hof⟩
  · have hgrants : t.grantsAfter i out.1 =
        Function.update t.grants i.handle (some { exclusive := op = .ex }) := by
      cases op with
      | un => exact absurd rfl hop
      | sh | ex => simp [Leased.grantsAfter, hr, hrc]
    have hself : OfHandle t.session i.handle ⟨d.id, d.ino, op = .ex⟩ := ⟨h, d, hid, hk, hd, rfl, rfl⟩
    rw [hgrants]
    refine hi.relocked hobjects hh hb (hi.regular.lock hd _ fun l hl hino => ?_)
      (fun id g hgrant hkept => ?_) fun l hl => ?_
    · exact (hfree l hl hino).imp_right decide_eq_false
    · obtain ⟨rfl, rfl⟩ | ⟨hne, hgrant⟩ := update_some_eq.mp hgrant
      · exact ⟨_, List.mem_cons_self, hself, rfl⟩
      · obtain ⟨l, hl, hof⟩ := hheld hne hgrant hkept
        exact ⟨l, List.mem_cons_of_mem _ hl, hof⟩
    · obtain rfl | hl := List.mem_cons.mp hl
      · exact ⟨i.handle, _, Function.update_self .., rfl, hself, rfl⟩
      · obtain ⟨id, g, hne, hgrant, hof⟩ := honly hl
        exact ⟨id, g, update_some_eq.mpr (.inr ⟨hne, hgrant⟩), hof⟩
  · have hgrants : t.grantsAfter i out.1 = Function.update t.grants i.handle
        ((t.grants i.handle).map fun g => { g with kept := false }) := by
      cases op with
      | un => exact absurd rfl hop
      | sh | ex => simp [Leased.grantsAfter, hr, hrc]
    rw [hgrants]
    refine hi.relocked hobjects hh hb (hi.regular.unlock d) (fun id g hgrant hkept => ?_) fun l hl => ?_
    · by_cases hne : id = i.handle
      · -- the lock to be converted is lost
        subst hne
        rw [Function.update_self, Option.map_eq_some_iff] at hgrant
        obtain ⟨_, -, rfl⟩ := hgrant
        cases hkept
      · rw [Function.update_of_ne hne] at hgrant
        exact hheld hne hgrant hkept
    · obtain ⟨id, g, hne, hgrant, hof⟩ := honly hl
      exact ⟨id, g, (Function.update_of_ne hne ..).trans hgrant, hof⟩

theorem step (hi : GrantInv b₀ t) {happening : Happening} {out : Option (Int × Local)}
    (hg : t.Guarded P E happening) (hs : t.serve P E fuel happening = some (out, t')) :
    GrantInv b₀ t' := by
  obtain ⟨⟨out, watched⟩, hserve, he⟩ := Option.map_eq_some_iff.mp hs
  cases he
  cases happening with
  | request i =>
    obtain ⟨⟨out, s'⟩, hs', he⟩ := Option.map_eq_some_iff.mp hserve
    cases he
    by_cases hr : ∃ path op, i.request = .flock path op
    · obtain ⟨path, op, hr⟩ := hr
      exact hi.asked hg hr hs'
    · exact hi.other hg (fun path op h => hr ⟨path, op, h⟩) hs'
  | outside tree =>
    cases hserve
    exact ⟨hi.objects.outside tree, hi.regular.congr ⟨rfl, rfl, rfl, rfl⟩, hi.unshared, hi.held, hi.only⟩

theorem start {w : World Base} (hr : w.base.Regular) (hn : w.base.flocks = []) :
    GrantInv w.base (.start w) where
  objects := .start w
  regular := hr
  unshared := fun fd fd' d d' h₀ h => by
    cases h₀.symm.trans h
  held := by rintro _ _ ⟨⟩
  only := by
    intro l hl
    have hl' : l ∈ w.base.flocks := hl
    rw [hn] at hl'
    cases hl'

theorem run {w : World Base} (hr : w.base.Regular) (hn : w.base.flocks = [])
    (h : Reachable (Leased.serve P E fuel) (Leased.Guarded P E) (Leased.start w) t) :
    GrantInv w.base t :=
  h.invariant (fun _ _ _ _ hi hg hs => hi.step hg hs) (.start hr hn)

theorem excludes (hi : GrantInv b₀ t) : Excludes P E t where
  apart _ _ _ _ hne hg hg' ho hk hk' := hi.apart hne hg hg' ho hk hk'
  given i path op fuel hr hg hfree := by
    obtain ⟨h, d, out, s', hid, hk, hd, hs, -, hcases⟩ := hi.flock fuel hg hr
    refine ⟨out, s', hs, ?_⟩
    obtain ⟨-, hrc, -⟩ | ⟨-, hrc, -⟩ | ⟨hop, -, ⟨l, hl, hino, hbusy⟩, -⟩ := hcases
    · exact hrc
    · exact hrc
    · -- the lock in the way is of another handle on the object
      obtain ⟨id, g, hgrant, -, hof, he⟩ := hi.only l (Base.mem_others.mp hl).1
      have hne := ((hi.mem_others hid hk hd hof).mp hl).2
      have hself : OfHandle t.session i.handle ⟨d.id, d.ino, false⟩ := ⟨h, d, hid, hk, hd, rfl, rfl⟩
      have ho : t.watched.object id = t.watched.object i.handle := by
        rw [hi.ofHandle_object hof, hi.ofHandle_object hself, hino]
      obtain ⟨hnex, hshared⟩ := (hfree.resolve_left hop) id g hne hgrant ho
      rw [he, hshared] at hbusy
      obtain h | h := hbusy
      · cases h
      · exact absurd h hnex

end GrantInv
end

/-- In every state of a run, whatever is done to the names and objects of the base in
between, the locks of the handles exclude each other, and a request for one that is in
no other handle's way returns 0. -/
theorem flocks_exclude (P : Platform) (E : Setup) (fuel : Nat) (w : World Base) (t : Leased)
    (hr : w.base.Regular) (hn : w.base.flocks = [])
    (h : Reachable (Leased.serve P E fuel) (Leased.Guarded P E) (Leased.start w) t) :
    Excludes P E t :=
  (GrantInv.run hr hn h).excludes

theorem regular_boot (tree : Tree) : (Base.boot tree).Regular where
  bounded := by
    intro fd d hd
    simp only [Base.boot, Option.ite_none_right_eq_some, Option.some.injEq] at hd
    obtain ⟨hlt, rfl⟩ := hd
    simp only [Base.boot]
    omega
  object := by
    intro fd fd' d d' hd hd' _
    simp only [Base.boot, Option.ite_none_right_eq_some, Option.some.injEq] at hd hd'
    rw [← hd.2, ← hd'.2]
  locked := fun _ h => nomatch h
  single := fun _ h => nomatch h
  exclusion := fun _ h => nomatch h

def lockA : Incoming := ⟨.flock (ascii "/a") .ex, 0, .zero⟩
def openSecond : Incoming := ⟨.open (ascii "/a") {}, 1, .zero⟩
def lockSecond : Incoming := ⟨.flock (ascii "/a") .sh, 1, .zero⟩

theorem Leased.reach_small (t₀ : Leased) {t : Leased} {i : Incoming} {r : Option (Int × Local) × Leased}
    (h : Reachable (Leased.serve .small (smallSetup (ascii "/c")) 0)
      (Leased.Guarded .small (smallSetup (ascii "/c"))) t₀ t)
    (hc : t.session.Called (posix .small) (smallSetup (ascii "/c")) i)
    (hs : t.serve .small (smallSetup (ascii "/c")) 0 (.request i) = some r) :
    Reachable (Leased.serve .small (smallSetup (ascii "/c")) 0)
      (Leased.Guarded .small (smallSetup (ascii "/c"))) t₀ r.2 :=
  h.step (i := .request i) hc hs

theorem flocks_exclude_second : ∃ t : Leased, Excludes .small (smallSetup (ascii "/c")) t ∧
    t.grants 0 = some { exclusive := true } ∧ t.watched.object 1 = t.watched.object 0 ∧
    (t.session.serve (posix .small) (smallSetup (ascii "/c")) 0 lockSecond).map (·.1.1) = some (-11) := by
  have h := Leased.reach_small (.start (bootWorld .root none)) (i := createA) .refl
    ⟨fun _ => rfl, by rintro _ ⟨⟩, rfl⟩ rfl
  have h := Leased.reach_small _ (i := lockA) h
    ⟨fun hopen => absurd rfl hopen, by rintro _ ⟨⟩; exact .inl ⟨_, rfl, rfl⟩, rfl⟩ rfl
  have h := Leased.reach_small _ (i := openSecond) h ⟨fun _ => rfl, by rintro _ ⟨⟩, rfl⟩ rfl
  refine ⟨_, flocks_exclude .small (smallSetup (ascii "/c")) 0 _ _ (regular_boot _) rfl h, rfl, rfl, ?_⟩
  decide

end UnreliableFS
