import UnreliableFS.Contents
import UnreliableFS.Descriptors

/-!
# The object behind a handle

A handle is opened on an object of the base, and names may come to stand for
other objects while it is open: through the mount or in the base directory itself.
The bodies that go by `fi->fh` keep to the object of the handle; those of
`ftruncate`, `readdir` and `fsyncdir` go by the path again.
-/

namespace UnreliableFS

open Interaction Posix

namespace Posix

variable {P : Platform} {b b' : Base} {c : Sys} {o : Ino}

def Base.objectAt (b : Base) (fd : Int) : Option Ino := (b.desc fd).toOption.map (·.ino)

def Base.streamObject (b : Base) (dir : Int) : Option Ino :=
  (b.stream dir).toOption.bind fun st => b.objectAt st.fd

def Base.objectNamed (b : Base) (path : CStr) : Option Ino :=
  (b.tree.find b.cwd true path).toOption.map (·.2)

/-- The object a call is about, of the calls that are made for a handle. -/
def Sys.object? (b : Base) : Sys → Option Ino
  | .truncate path _ | .opendir path => b.objectNamed path
  | .readdir dir | .closedir dir | .dirfd dir => b.streamObject dir
  | c => (Sys.descriptor? c).bind b.objectAt

theorem objectAt_eq_some {fd : Int} : b.objectAt fd = some o ↔ ∃ d, b.desc fd = .ok d ∧ d.ino = o := by
  unfold Base.objectAt
  cases b.desc fd with
  | error e => simp [Except.toOption]
  | ok d => simp [Except.toOption]

theorem objectNamed_eq_some {path : CStr} : b.objectNamed path = some o ↔
    ∃ p, b.tree.find b.cwd true path = .ok (p, o) := by
  unfold Base.objectNamed
  cases b.tree.find b.cwd true path with
  | error e => simp [Except.toOption]
  | ok r => simp [Except.toOption, Prod.ext_iff, eq_comm]

theorem node_setData {t : Tree} {i j : Ino} (data : List UInt8) (hj : j ≠ i) :
    (t.setData i data).node j = t.node j := by
  simp [Tree.setData, Tree.modify, hj]

def keepsTree : Sys → Bool
  | .pread .. | .dup .. | .close .. | .fdatasync .. | .fsync .. | .opendir .. | .readdir ..
  | .closedir .. | .dirfd .. | .fstat .. | .fcntl .. | .ioctl .. | .flock .. => true
  | _ => false

theorem kernel_tree {ret : Nat} {data : Data} (h : (kernel P c b).1 = .done ret data)
    (hc : keepsTree c = true) : (kernel P c b).2.tree = b.tree := by
  cases c with
  | pread | fdatasync | fsync | dirfd | fstat | ioctl => simp only [kernel, Base.inspect_snd]
  | dup fd =>
    obtain ⟨d, -, -, hb⟩ := kernel_dup h
    rw [hb]
    rfl
  | close fd =>
    obtain ⟨d, -, hb⟩ := kernel_close h
    rw [hb]
    rfl
  | opendir path =>
    obtain ⟨p, i, fd, -, -, -, -, -, hb⟩ := kernel_opendir h
    rw [hb]
    rfl
  | closedir dir =>
    obtain ⟨st, d, -, -, hb⟩ := kernel_closedir h
    rw [hb]
    rfl
  | readdir dir =>
    obtain ⟨st, -, hb | ⟨rest, hb⟩⟩ := kernel_readdir h
    · rw [hb]
    · rw [hb]
      rfl
  | fcntl fd cmd fl =>
    obtain ⟨locks, hb⟩ := fcntl_snd (b := b) fd cmd fl
    simp only [kernel, hb]
  | flock fd op =>
    obtain ⟨flocks, hb⟩ := flock_snd (b := b) fd op
    simp only [kernel, hb]
  | _ => cases hc

/-- A call changes no object but the one it is about. -/
theorem kernel_others (h : Sys.object? b c = some o) {j : Ino} (hj : j ≠ o) :
    (kernel P c b).2.tree.node j = b.tree.node j := by
  rcases hc : (kernel P c b).1 with e | ⟨ret, d⟩
  · obtain ⟨flocks, hb⟩ := kernel_fail hc
    rw [hb]
  · have hdata {i : Ino} {new : List UInt8} (hi : i = o)
        (hb : (kernel P c b).2 = { b with tree := b.tree.setData i new }) :
        (kernel P c b).2.tree.node j = b.tree.node j := by
      rw [hb]
      exact node_setData new (hi ▸ hj)
    cases c with
    | truncate path length =>
      obtain ⟨p, i, old, -, hf, -, hb⟩ := kernel_truncate hc
      exact hdata (Option.some.inj ((objectNamed_eq_some.mpr ⟨p, hf⟩).symm.trans h)) hb
    | pwrite fd data offset =>
      obtain ⟨d, old, hd, -, -, hb⟩ := kernel_pwrite hc
      exact hdata (Option.some.inj ((objectAt_eq_some.mpr ⟨d, hd, rfl⟩).symm.trans h)) hb
    | fallocate fd mode offset len =>
      obtain ⟨d, old, hd, hb⟩ := kernel_fallocate hc
      exact hdata (Option.some.inj ((objectAt_eq_some.mpr ⟨d, hd, rfl⟩).symm.trans h)) hb
    | opendir | readdir | closedir | dirfd | pread | fdatasync | fsync | fstat | ioctl | dup | close
    | fcntl | flock => rw [kernel_tree hc rfl]
    | _ => cases h

theorem objectAt_natCast (b : Base) (fd : Nat) : b.objectAt fd = (b.fds fd).map (·.ino) := by
  unfold Base.objectAt Base.desc
  rw [if_neg (by omega), Int.toNat_natCast]
  cases b.fds fd with
  | none => rfl
  | some d => rfl

theorem streamObject_natCast {a : Nat} {st : DirStream} (h : b.streams a = some st) :
    b.streamObject a = b.objectAt st.fd := by
  unfold Base.streamObject
  rw [Base.stream_ok.mpr ⟨Int.natCast_nonneg a, h⟩]
  rfl

theorem object?_of_descriptor? {fd : Int} (h : Sys.descriptor? c = some fd) :
    Sys.object? b c = b.objectAt fd := by
  cases c with
  | truncate | opendir | readdir | closedir | dirfd => cases h
  | _ => simp only [Sys.object?, h, Option.bind_some]

theorem kernel_opendir_object {path : CStr} {a : Nat} {data : Data}
    (h : (kernel P (.opendir path) b).1 = .done a data) : ∃ o, b.objectNamed path = some o ∧
      (kernel P (.opendir path) b).2.streamObject a = some o := by
  obtain ⟨p, i, fd, hf, -, -, -, -, hb⟩ := kernel_opendir h
  refine ⟨i, objectNamed_eq_some.mpr ⟨p, hf⟩, ?_⟩
  rw [hb, streamObject_natCast (Function.update_self ..), objectAt_natCast]
  simp [Base.setStream, Base.install, Base.setFd]

theorem kernel_readdir_object (dir : Int) :
    (kernel P (.readdir dir) b).2.streamObject dir = b.streamObject dir := by
  rcases h : (kernel P (.readdir dir) b).1 with e | ⟨ret, data⟩
  · obtain ⟨flocks, hb⟩ := kernel_fail h
    rw [hb]
    rfl
  · obtain ⟨st, hst, hb | ⟨rest, hb⟩⟩ := kernel_readdir h
    · rw [hb]
    · obtain ⟨hdir, hst⟩ := Base.stream_ok.mp hst
      obtain ⟨a, rfl⟩ := Int.eq_ofNat_of_zero_le hdir
      rw [Int.toNat_natCast] at hst
      rw [hb, Int.toNat_natCast, streamObject_natCast (Function.update_self ..),
        streamObject_natCast hst]
      rfl

end Posix

-- ---------------------------------------------------------------------------
-- The calls of the bodies
-- ---------------------------------------------------------------------------

def Request.usesHandle : Request → Bool
  | .read .. | .write .. | .ftruncate .. | .fgetattr .. | .fsync .. | .lock .. | .flock .. | .ioctl ..
  | .fallocate .. | .readdir .. | .fsyncdir .. => true
  | _ => false

theorem Request.handleKind?_of_usesHandle {r : Request} (hu : r.usesHandle = true) :
    ∃ k, r.handleKind? = some k := by
  cases r with
  | readdir | fsyncdir => exact ⟨.dir, rfl⟩
  | read | write | ftruncate | fgetattr | fsync | lock | flock | ioctl | fallocate =>
    exact ⟨.file, rfl⟩
  | _ => cases hu

/-- Where a body goes by the path, the path leads to this object. -/
def Request.LeadsTo (b : Base) (o : Ino) : Request → Prop
  | .ftruncate path _ | .readdir path _ | .fsyncdir path _ => b.objectNamed path = some o
  | _ => True

section
variable {P : Platform} {r : Request} {l : Local} {fi : FuseFileInfo} {b : Base} {o : Ino}
  {fuel : Nat}

def AllAbout (o : Ino) (tr : List (Event sysSig Base)) : Prop :=
  ∀ e ∈ tr, Sys.object? e.state e.call = some o

theorem allAbout_nil (o : Ino) : AllAbout o [] := fun _ h => nomatch h

theorem allAbout_cons {e : Event sysSig Base} {tr : List (Event sysSig Base)} :
    AllAbout o (e :: tr) ↔ Sys.object? e.state e.call = some o ∧ AllAbout o tr := by
  simp [AllAbout]

theorem allAbout_append {tr tr' : List (Event sysSig Base)} :
    AllAbout o (tr ++ tr') ↔ AllAbout o tr ∧ AllAbout o tr' := by
  simp only [AllAbout, List.mem_append, or_imp, forall_and]

theorem quiet_leadsTo (hq : r.quiet = true) (hn : ∀ path n, r ≠ .ftruncate path n) :
    r.LeadsTo b o := by
  cases r with
  | ftruncate path n => exact absurd rfl (hn path n)
  | readdir | fsyncdir => cases hq
  | _ => trivial

theorem quiet_allAbout (hq : r.quiet = true) (hfi : l.fi = some fi)
    (ho : b.objectAt (toInt fi.fh) = some o) :
    AllAbout o (((r.operation fuel).body l).trace (kernel P) b) ↔ r.LeadsTo b o := by
  cases hc : r.call? l.fi with
  | none =>
    have hb : ∃ out, (r.operation fuel).body l = .done out := quiet_no_call hq hfi (hfi ▸ hc)
    obtain ⟨out, hb⟩ := hb
    rw [hb]
    refine iff_of_true (allAbout_nil o) (quiet_leadsTo hq ?_)
    rintro path n rfl
    cases hc
  | some c =>
    rw [Request.trace_of_call? hc, allAbout_cons]
    simp only [allAbout_nil, and_true]
    obtain ⟨-, -, hd | ⟨path, n, rfl, rfl⟩⟩ := quiet_call? hq (hfi ▸ hc)
    · rw [object?_of_descriptor? hd]
      refine iff_of_true ho (quiet_leadsTo hq ?_)
      rintro path n rfl
      cases hc
      cases hd
    · exact .rfl

variable (P l fuel) in
theorem readdirLoop_allAbout (filler : Filler) {a : Int} (ho : b.streamObject a = some o) :
    ∀ e ∈ (readdirLoop filler a fuel l).trace (kernel P) b,
      e.call = .readdir a ∧ e.state.streamObject a = some o := by
  induction fuel generalizing l b with
  | zero => exact fun _ h => nomatch h
  | succ fuel ih =>
    have ho' : (kernel P (.readdir a) b).2.streamObject a = some o := by
      rw [kernel_readdir_object, ho]
    simp only [readdirLoop, Body.bind_apply]
    rcases hd : (kernel P (.readdir a) b).1 with e | ⟨ret, d⟩
    · rw [sys_trace_fail hd]
      rintro _ he
      cases List.mem_singleton.mp he
      exact ⟨rfl, ho⟩
    · rw [sys_trace_done hd]
      rintro e he
      obtain rfl | he := List.mem_cons.mp he
      · exact ⟨rfl, ho⟩
      · dsimp only at he
        split at he
        · cases he
        · simp only [Body.bind_apply, Body.get_apply, Prog.done_bind, Body.set_apply] at he
          split at he
          · cases he
          · exact ih _ ho' e he

theorem readdir_allAbout (path : CStr) (filler : Filler) {out : (Int × Local) × Base}
    (hr : (((Request.readdir path filler).operation fuel).body l).run (kernel P) b = some out) :
    AllAbout o ((((Request.readdir path filler).operation fuel).body l).trace (kernel P) b) ↔
      (Request.readdir path filler).LeadsTo b o := by
  simp only [Request.operation, unreliableReaddir, Body.bind_apply] at hr ⊢
  rcases hd : (kernel P (.opendir path) b).1 with e | ⟨a, d⟩
  · rw [sys_trace_fail hd, allAbout_cons]
    simp only [Sys.object?, Request.LeadsTo, and_iff_left_iff_imp]
    exact fun _ => allAbout_nil o
  · rw [sys_run_done hd] at hr
    rw [sys_trace_done hd, allAbout_cons]
    simp only [natCast_ne_neg_one, ↓reduceIte, Body.bind_apply] at hr ⊢
    simp only [Sys.object?, Request.LeadsTo, and_iff_left_iff_imp]
    intro ho
    obtain ⟨_, hnamed, hstream⟩ := kernel_opendir_object hd
    cases hnamed.symm.trans ho
    rw [Prog.run_bind] at hr
    obtain ⟨⟨x, b₁⟩, hloop, -⟩ := Option.bind_eq_some_iff.mp hr
    have hcalls := readdirLoop_allAbout P (l.store d) fuel filler hstream
    have ho₁ : b₁.streamObject a = some o := by
      refine Prog.run_keeps_of_trace (I := fun b => b.streamObject a = some o) _ _ ?_ hstream hloop
      rintro e he hi
      rw [(hcalls e he).1, kernel_readdir_object, hi]
    rw [Prog.trace_bind _ _ _ hloop, allAbout_append]
    refine ⟨fun e he => ?_, ?_⟩
    · obtain ⟨hc, hs⟩ := hcalls e he
      rw [hc]
      exact hs
    · have hclose : Sys.object? b₁ (.closedir a) = some o := ho₁
      rcases hd' : (kernel P (.closedir a) b₁).1 with e | ⟨ret, d'⟩
      · rw [sys_trace_fail hd', allAbout_cons]
        exact ⟨hclose, allAbout_nil o⟩
      · rw [sys_trace_done hd', allAbout_cons]
        exact ⟨hclose, allAbout_nil o⟩

theorem opened_dirfd {path : CStr} {a : Nat} {d : Data}
    (h : (kernel P (.opendir path) b).1 = .done a d) :
    let b₁ := (kernel P (.opendir path) b).2
    ∃ fd : Nat, kernel P (.dirfd a) b₁ = (.done fd .none, b₁) ∧
      b₁.objectAt fd = b₁.streamObject a ∧ ∀ datasync, Succeeds (kernel P) (syncCall datasync fd) b₁ := by
  intro b₁
  have hwith : ∃ rest, WithDir b b₁ a rest := ((kernel_follows P).opendir_done h).2
  obtain ⟨rest, hwith⟩ := hwith
  clear_value b₁
  obtain ⟨fd, d, hst, hdesc, -⟩ := hwith.stream
  refine ⟨fd, ?_, ?_, fun datasync => (kernel_sync_iff datasync _ _).mpr ⟨d, hdesc⟩⟩
  · simp only [kernel, hst]
    rfl
  · simp only [Base.streamObject, hst, Except.toOption, Option.bind_some]

theorem fsyncdir_closes (path : CStr) (datasync : Bool) :
    (Request.fsyncdir path datasync).Closes (kernel P) l b := by
  intro a d ha
  obtain ⟨fd, hdirfd, -, hsync⟩ := opened_dirfd ha
  dsimp only
  rw [hdirfd]
  exact hsync datasync

theorem fsyncdir_allAbout (path : CStr) (datasync : Bool) :
    AllAbout o ((((Request.fsyncdir path datasync).operation fuel).body l).trace (kernel P) b) ↔
      (Request.fsyncdir path datasync).LeadsTo b o := by
  rw [Request.fsyncdir_body]
  rcases hd : (kernel P (.opendir path) b).1 with e | ⟨a, d⟩
  · rw [sys_trace_fail hd, allAbout_cons]
    simp only [Sys.object?, Request.LeadsTo, and_iff_left_iff_imp]
    exact fun _ => allAbout_nil o
  · obtain ⟨fd, hdirfd, hfd, hsync⟩ := opened_dirfd hd
    obtain ⟨ret, d', hs⟩ := hsync datasync
    rw [sys_trace_done hd, allAbout_cons]
    simp only [natCast_ne_neg_one, ↓reduceIte, Sys.object?, Request.LeadsTo, and_iff_left_iff_imp]
    intro ho
    obtain ⟨_, hnamed, hstream⟩ := kernel_opendir_object hd
    cases hnamed.symm.trans ho
    set b₁ := (kernel P (.opendir path) b).2
    have hdesc : Sys.descriptor? (syncCall datasync fd) = some fd := by
      cases datasync
      · rfl
      · rfl
    have hsync' : Sys.object? b₁ (syncCall datasync fd) = some o := by
      rw [object?_of_descriptor? hdesc, hfd, hstream]
    have hb₂ : (kernel P (syncCall datasync fd) b₁).2 = b₁ := by
      cases datasync
      · exact Base.inspect_snd _
      · exact Base.inspect_snd _
    rw [sys_trace_done (congrArg Prod.fst hdirfd), allAbout_cons, hdirfd]
    have htr := Request.syncThenClose_trace_done (l := (l.store d).store .none) a hs
    simp only [syncCall] at htr hsync' hb₂
    rw [htr, allAbout_cons, allAbout_cons, hb₂]
    exact ⟨hstream, hsync', hstream, allAbout_nil o⟩

/-- On its handle, every call of a body is about the object of the handle exactly if
no path leads it elsewhere. -/
theorem body_allAbout (hu : r.usesHandle = true) (hfi : l.fi = some fi)
    (ho : r.handleKind? = some .file → b.objectAt (toInt fi.fh) = some o)
    {out : (Int × Local) × Base}
    (hr : ((r.operation fuel).body l).run (kernel P) b = some out) :
    AllAbout o (((r.operation fuel).body l).trace (kernel P) b) ↔ r.LeadsTo b o := by
  cases r with
  | readdir path filler => exact readdir_allAbout path filler hr
  | fsyncdir path datasync => exact fsyncdir_allAbout path datasync
  | read | write | ftruncate | fgetattr | fsync | lock | flock | ioctl | fallocate =>
    exact quiet_allAbout rfl hfi (ho rfl)
  | _ => cases hu

theorem closes_of_run {out : (Int × Local) × Base}
    (hr : ((r.operation fuel).body l).run (kernel P) b = some out) : r.Closes (kernel P) l b := by
  cases r with
  | fsyncdir path datasync => exact fsyncdir_closes path datasync
  | fallocate path mode offset len =>
    by_contra hc
    rw [fallocate_stuck path mode offset len hc] at hr
    cases hr
  | _ => trivial

theorem closes_of_fileInfo (hfi : l.fi = some fi) : r.Closes (kernel P) l b := by
  cases r with
  | fsyncdir path datasync => exact fsyncdir_closes path datasync
  | fallocate path mode offset len =>
    rintro - hn
    rw [hfi] at hn
    cases hn
  | _ => trivial

end

-- ---------------------------------------------------------------------------
-- Handles and their objects
-- ---------------------------------------------------------------------------

def Handle.object? (b : Base) (h : Handle) : Option Ino :=
  match h.kind with
  | .file => b.objectAt h.fi.fh
  | .dir => b.streamObject h.fi.fh

theorem Handle.object?_of_holds {b : Base} {h : Handle} {fd : Nat} (hh : Holds b h fd) :
    h.object? b = (b.fds fd).map (·.ino) := by
  unfold Holds at hh
  unfold Handle.object?
  cases hk : h.kind with
  | file =>
    rw [hk] at hh
    subst hh
    exact objectAt_natCast b _
  | dir =>
    rw [hk] at hh
    obtain ⟨st, hst, rfl⟩ := hh
    exact (streamObject_natCast hst).trans (objectAt_natCast b _)

def Posix.Base.opens (b : Base) : Request → Option Ino
  | .opendir path => b.objectNamed path
  | r => b.named r

-- ---------------------------------------------------------------------------
-- Runs
-- ---------------------------------------------------------------------------

/-- A session, and for every handle the object its open came to be on. -/
structure Watched where
  session : Session Base
  object : Nat → Option Ino

/-- A request, or a change of the base that no request makes. -/
inductive Happening
  | request (i : Incoming)
  | outside (tree : Tree)

namespace Watched

def start (w : World Base) : Watched := ⟨⟨w, fun _ => none⟩, fun _ => none⟩

variable (P : Platform) (E : Setup) (fuel : Nat)

def base (t : Watched) : Base := t.session.world.base

def objectAfter (t : Watched) (i : Incoming) (rc : Int) : Nat → Option Ino :=
  if i.request.opens?.isSome ∧ rc = 0 then
    Function.update t.object i.handle (t.base.opens i.request)
  else t.object

/-- The base with other names and objects in it. -/
def outside (t : Watched) (tree : Tree) : Watched :=
  { t with session.world.base := { t.base with tree } }

def serve : Machine Watched Happening (Option (Int × Local)) := fun t happening =>
  match happening with
  | .request i => (t.session.serve (posix P) E fuel i).map fun r =>
    (some r.1, ⟨r.2, t.objectAfter i r.1.1⟩)
  | .outside tree => some (none, t.outside tree)

def Guarded (t : Watched) : Happening → Prop
  | .request i => t.session.Called (posix P) E i
  | .outside _ => True

end Watched

/-- What `fgetattr` reports of the size of an open file. -/
def ReportsSize (P : Platform) (E : Setup) (s : Session Base) (handle : Nat) (n : Int) : Prop :=
  ∀ (j : Incoming) (path : CStr) (fuel : Nat), j.request = .fgetattr path → j.handle = handle →
    s.Called (posix P) E j → ∃ out s', s.serve (posix P) E fuel j = some (out, s') ∧ out.1 = 0 ∧
      out.2.stat.size = n

/-- A request ends and is about one object only; a size it has set is the one
reported from then on. -/
structure ActedOn (P : Platform) (E : Setup) (fuel : Nat) (o : Ino) (s : Session Base) (i : Incoming)
    (rc : Int) (s' : Session Base) : Prop where
  about : AllAbout o (s.calls i (posix P) E fuel)
  others : ∀ j, j ≠ o → s'.world.base.tree.node j = s.world.base.tree.node j
  sized : ∀ path n, i.request = .ftruncate path n → rc = 0 → ReportsSize P E s' i.handle n

def ActsOn (P : Platform) (E : Setup) (o : Ino) (s : Session Base) (i : Incoming) : Prop :=
  ∃ n, ∀ fuel, n ≤ fuel → ∃ out s', s.serve (posix P) E fuel i = some (out, s') ∧
    ActedOn P E fuel o s i out.1 s'

-- ---------------------------------------------------------------------------
-- The invariant
-- ---------------------------------------------------------------------------

section
variable {P : Platform} {E : Setup} {fuel : Nat} {b₀ : Base} {s s' : Session Base} {i : Incoming}
  {out : Int × Local} {o : Ino} {t t' : Watched}

structure ObjectInv (b₀ : Base) (t : Watched) : Prop where
  tracks : t.session.Tracks id b₀
  same : ∀ id h, t.session.handles id = some h →
    ∃ o, t.object id = some o ∧ h.object? t.base = some o

theorem atBody_objects (P : Platform) (E : Setup) (s : Session Base) (i : Incoming) :
    (∀ path, (s.baseAtBody i (posix P) E).objectNamed path = s.world.base.objectNamed path) ∧
      (∀ r, (s.baseAtBody i (posix P) E).opens r = s.world.base.opens r) ∧
      (∀ h : Handle, h.object? (s.baseAtBody i (posix P) E) = h.object? s.world.base) ∧
      ∀ (r : Request) o, r.LeadsTo (s.baseAtBody i (posix P) E) o ↔ r.LeadsTo s.world.base o := by
  obtain ⟨locks, hb⟩ := posix_atBody P E s.world.base i.request.path
  unfold Session.baseAtBody
  rw [hb]
  exact ⟨fun _ => rfl, fun _ => rfl, fun _ => rfl, fun _ _ => .rfl⟩

theorem served_open (hg : s.Called (posix P) E i) {flags : OpenFlags}
    (hopen : i.request.opens? = some flags) {c : Sys}
    (hcall : i.request.call? (some { flags }) = some c)
    (hs : s.serve (posix P) E fuel i = some (out, s')) (hrc : out.1 = 0) : ∃ ret d,
      (kernel P c (s.baseAtBody i (posix P) E)).1 = .done ret d ∧
        s'.world.base = (kernel P c (s.baseAtBody i (posix P) E)).2 ∧
        (ret < 2 ^ 64 → s'.handles = Function.update s.handles i.handle
          (some ⟨{ flags, fh := ret }, i.request.path, Session.kindOpened i.request⟩)) := by
  have hfi : (s.locals i).fi = some { flags } := Session.fi_locals_opens hopen
  obtain ⟨ret, d, hc, hout, hb, hh⟩ := Session.serve_done hg.through (hfi ▸ hcall) hs hrc
  exact ⟨ret, d, hc, hb, fun hlt => hh.trans (Session.handlesAfter_opened hopen hlt hout).2⟩

theorem served_opens (hg : s.Called (posix P) E i) {flags : OpenFlags}
    (hopen : i.request.opens? = some flags) (hs : s.serve (posix P) E fuel i = some (out, s'))
    (hrc : out.1 = 0) : ∃ h o, s'.handles = Function.update s.handles i.handle (some h) ∧
      s.world.base.opens i.request = some o ∧ h.object? s'.world.base = some o := by
  obtain ⟨-, hopens, -⟩ := atBody_objects P E s i
  simp only [← hopens]
  have hfile {path : CStr} {mode : Nat} (hk : Session.kindOpened i.request = .file)
      (hcall : i.request.call? (some { flags }) = some (.open path flags mode))
      (hnamed : (s.baseAtBody i (posix P) E).opens i.request =
        ((s.baseAtBody i (posix P) E).tree.openFile (s.baseAtBody i (posix P) E).cwd path flags
          mode).toOption.map (·.2)) :
      ∃ h o, s'.handles = Function.update s.handles i.handle (some h) ∧
        (s.baseAtBody i (posix P) E).opens i.request = some o ∧ h.object? s'.world.base = some o := by
    obtain ⟨ret, d, hd, hb, hh⟩ := served_open hg hopen hcall hs hrc
    obtain ⟨hfree, tree, o, ho, hb'⟩ := kernel_open hd
    have hlt := (Base.freeFd_ok hfree).2
    have hle := (s.baseAtBody i (posix P) E).nofile_le
    refine ⟨_, o, hh (by omega), ?_, ?_⟩
    · rw [hnamed, ho]
      rfl
    · rw [hb, hb', hk]
      simp [Handle.object?, objectAt_natCast, Base.install, Base.setFd]
  cases hr : i.request with
  | «open» path flags =>
    rw [hr] at hopen
    cases hopen
    exact hr ▸ hfile (by rw [hr]; rfl) (by rw [hr]; rfl) (by rw [hr]; rfl)
  | create path flags mode =>
    rw [hr] at hopen
    cases hopen
    exact hr ▸ hfile (by rw [hr]; rfl) (by rw [hr]; rfl) (by rw [hr]; rfl)
  | opendir path =>
    obtain ⟨a, d, hd, hb, hh⟩ := served_open hg hopen (c := .opendir path) (by rw [hr]; rfl) hs hrc
    obtain ⟨-, -, -, -, -, -, -, hlt, -⟩ := kernel_opendir hd
    obtain ⟨o, hnamed, hstream⟩ := kernel_opendir_object hd
    have hk : Session.kindOpened i.request = .dir := by rw [hr]; rfl
    refine ⟨_, o, hh hlt, hnamed, ?_⟩
    rw [hb, hk]
    exact hstream
  | _ =>
    rw [hr] at hopen
    cases hopen

theorem ObjectInv.start (w : World Base) : ObjectInv w.base (Watched.start w) where
  tracks := .start w
  same := by rintro _ _ ⟨⟩

theorem live_before {rc : Int} (hn : ¬(i.request.opens?.isSome ∧ rc = 0)) {fi : Option FuseFileInfo}
    {id : Nat} {h : Handle} (hid : s.handlesAfter i rc fi id = some h) : s.handles id = some h := by
  cases hopen : i.request.opens? with
  | none =>
    rw [Session.handlesAfter_closed hopen] at hid
    split at hid
    · exact (update_none_eq.mp hid).2
    · exact hid
  | some flags =>
    have hrc : rc ≠ 0 := fun hrc => hn ⟨by simp [hopen], hrc⟩
    cases fi with
    | none | some => simpa [Session.handlesAfter, hopen, hrc, Request.closes_of_opens? hopen] using hid

theorem object?_kept (hi : s.Tracks id b₀) {rc : Int} (hs : s.Step id i rc s') {id : Nat} {h : Handle}
    (hold : s.handles id = some h) (hid : s'.handles id = some h) :
    h.object? s'.world.base = h.object? s.world.base := by
  have htracks := hi
  obtain ⟨_, hi⟩ := hi
  obtain ⟨fd, hholds⟩ := hi.holds hold
  obtain ⟨hholds', hfds⟩ := hs.frame htracks hold hid hholds
  exact (Handle.object?_of_holds hholds').trans
    ((congrArg _ hfds).trans (Handle.object?_of_holds hholds).symm)

theorem ObjectInv.request (hi : ObjectInv b₀ t) (hg : t.session.Called (posix P) E i)
    (hs : t.session.serve (posix P) E fuel i = some (out, s')) :
    ObjectInv b₀ ⟨s', t.objectAfter i out.1⟩ := by
  obtain ⟨_, hrun, -, hafter⟩ := Session.serve_executed hg.through hs
  obtain ⟨hstep, htracks⟩ := hi.tracks.serve (posix_follows P) hg (closes_of_run hrun) hs
  have hkept {id : Nat} {h : Handle} (hid : s'.handles id = some h)
      (hold : t.session.handles id = some h) :
      ∃ o, t.object id = some o ∧ h.object? s'.world.base = some o := by
    obtain ⟨o, ho, hobject⟩ := hi.same id h hold
    have hkept := object?_kept (hi.tracks.atBody (posix_follows P) i) hstep hold hid
    exact ⟨o, ho, hkept.trans (((atBody_objects P E t.session i).2.2.1 h).trans hobject)⟩
  refine ⟨htracks, fun id h hid => ?_⟩
  unfold Watched.objectAfter
  split
  · rename_i hopened
    obtain ⟨hopen, hrc⟩ := hopened
    obtain ⟨flags, hopen⟩ := Option.isSome_iff_exists.mp hopen
    obtain ⟨h', o, hh, ho, hobject⟩ := served_opens hg hopen hs hrc
    by_cases he : id = i.handle
    · subst he
      simp only [hh, Function.update_self, Option.some.injEq] at hid
      subst hid
      exact ⟨o, (Function.update_self ..).trans ho, hobject⟩
    · have hold : t.session.handles id = some h := by simpa [hh, he] using hid
      obtain ⟨o', ho', hobject'⟩ := hkept hid hold
      exact ⟨o', (Function.update_of_ne he ..).trans ho', hobject'⟩
  · rename_i hn
    exact hkept hid (live_before hn (hafter ▸ hid))

theorem ObjectInv.outside (hi : ObjectInv b₀ t) (tree : Tree) : ObjectInv b₀ (t.outside tree) := by
  obtain ⟨⟨opened, htracks⟩, hsame⟩ := hi
  exact ⟨⟨opened, htracks.congr ⟨rfl, rfl, Nat.le_refl _⟩ rfl rfl⟩, hsame⟩

theorem ObjectInv.run {w : World Base} (h : Reachable (Watched.serve P E fuel)
    (Watched.Guarded P E) (Watched.start w) t) : ObjectInv w.base t := by
  refine h.invariant ?_ (.start w)
  rintro t happening out t' hi hg hs
  cases happening with
  | request i =>
    obtain ⟨⟨out', s'⟩, hserve, he⟩ := Option.map_eq_some_iff.mp hs
    cases he
    exact hi.request hg hserve
  | outside tree =>
    cases hs
    exact hi.outside tree

-- ---------------------------------------------------------------------------
-- What a request acts on
-- ---------------------------------------------------------------------------

theorem ObjectInv.desc (hi : ObjectInv b₀ t) {id : Nat} {h : Handle}
    (hid : t.session.handles id = some h) (hk : h.kind = .file) :
    ∃ d, t.base.desc (toInt h.fi.fh) = .ok d ∧ t.object id = some d.ino := by
  obtain ⟨_, hinv⟩ := hi.tracks
  obtain ⟨hlt, -⟩ := (hinv.owns id h hid).file hk
  have hfh : toInt h.fi.fh = h.fi.fh := toInt_of_small (by omega) (by omega)
  obtain ⟨o, ho, hobject⟩ := hi.same id h hid
  simp only [Handle.object?, hk] at hobject
  obtain ⟨d, hd, rfl⟩ := objectAt_eq_some.mp hobject
  exact ⟨d, hfh.symm ▸ hd, ho⟩

theorem ObjectInv.reportsSize (hi : ObjectInv b₀ t) {id : Nat} (ho : t.object id = some o)
    {data : List UInt8} (hdata : (t.base.tree.node o).content = .regular data) :
    ReportsSize P E t.session id data.length := by
  intro j path fuel hr hid hg
  subst hid
  obtain ⟨h, hid, hk, hfi⟩ := hg.handle (k := .file) (by rw [hr]; rfl) (by rw [hr]; rfl)
  obtain ⟨d, hd, ho'⟩ := hi.desc hid hk
  cases ho.symm.trans ho'
  have hanswer : ((posix P).kernel (.fstat (toInt h.fi.fh)) (t.session.baseAtBody j (posix P) E)).1 =
      .done 0 (.stat (t.base.tree.stat d.ino)) := by
    have hd' : (t.session.baseAtBody j (posix P) E).desc (toInt h.fi.fh) = .ok d :=
      (atBody_desc P E t.base _ _).trans hd
    have htree : (t.session.baseAtBody j (posix P) E).tree = t.base.tree := atBody_tree P E t.base _
    change (kernel P (.fstat _) (t.session.baseAtBody j (posix P) E)).1 = _
    simp only [kernel, hd', htree, bind, Except.bind, pure, Except.pure, Base.inspect]
  have hcall : j.request.call? (t.session.locals j).fi = some (.fstat (toInt h.fi.fh)) := by
    rw [hr, hfi]
    rfl
  obtain ⟨s', hs, -, -⟩ := Session.serve_of_call? fuel hg hcall
  refine ⟨_, s', hs, ?_, ?_⟩
  · rw [hanswer, hr]
    rfl
  · rw [hanswer, hr]
    simp [Request.finish, Request.succeed, Local.store, Tree.stat, hdata]

theorem ObjectInv.truncated (hi : ObjectInv b₀ t) (hg : t.session.Called (posix P) E i)
    (hs : t.session.serve (posix P) E fuel i = some (out, s')) (hrc : out.1 = 0) {path : CStr}
    {n : Int} (hr : i.request = .ftruncate path n) (hnamed : t.base.objectNamed path = some o)
    (ho : t.object i.handle = some o) : ReportsSize P E s' i.handle n := by
  have hcall : i.request.call? (t.session.locals i).fi = some (.truncate path n) := by
    rw [hr]
    rfl
  obtain ⟨ret, data, hc, -, hb, -⟩ := Session.serve_done hg.through hcall hs hrc
  have hc : (kernel P (.truncate path n) (t.session.baseAtBody i (posix P) E)).1 = .done ret data := hc
  obtain ⟨p, _, old, hn, hf, -, hb'⟩ := kernel_truncate hc
  have hnamed' := ((atBody_objects P E t.session i).1 path).trans hnamed
  cases hnamed'.symm.trans (objectNamed_eq_some.mpr ⟨p, hf⟩)
  have hbase : s'.world.base = _ := hb.trans hb'
  have hafter : t.objectAfter i out.1 i.handle = some o := by
    simpa [Watched.objectAfter, hr, Request.opens?] using ho
  have hdata : (s'.world.base.tree.node o).content = .regular (Extents.resize 0 old n.toNat) := by
    simp [hbase, Tree.setData, Tree.modify]
  have hi' := hi.request hg hs
  have hsize := hi'.reportsSize (P := P) (E := E) hafter hdata
  simpa [Extents.length_resize, hn] using hsize

theorem ObjectInv.actsOn_iff (hi : ObjectInv b₀ t) (hg : t.session.Called (posix P) E i)
    (hu : i.request.usesHandle = true) {h : Handle} (hid : t.session.handles i.handle = some h) :
    ∃ o, t.object i.handle = some o ∧
      (ActsOn P E o t.session i ↔ i.request.LeadsTo t.base o) := by
  have hk : i.request.handleKind? = some h.kind := by
    obtain ⟨k, hk⟩ := Request.handleKind?_of_usesHandle hu
    obtain ⟨h', hid', hkind⟩ | ⟨-, hnone⟩ := hg.live k hk
    · cases hid.symm.trans hid'
      rw [hkind, hk]
    · cases hid.symm.trans hnone
  have hfi : (t.session.locals i).fi = some h.fi := Session.fi_locals_live hk hid
  obtain ⟨o, ho, -⟩ := hi.same i.handle h hid
  have hdesc (hfile : i.request.handleKind? = some .file) :
      (t.session.baseAtBody i (posix P) E).objectAt (toInt h.fi.fh) = some o := by
    obtain ⟨d, hd, hd'⟩ := hi.desc hid (Option.some.inj (hk.symm.trans hfile))
    refine objectAt_eq_some.mpr ⟨d, ?_, Option.some.inj (hd'.symm.trans ho)⟩
    exact (atBody_desc P E t.base _ _).trans hd
  have habout {fuel : Nat} {out : Int × Local} {s' : Session Base}
      (hs : t.session.serve (posix P) E fuel i = some (out, s')) :
      AllAbout o (t.session.calls i (posix P) E fuel) ↔ i.request.LeadsTo t.base o := by
    obtain ⟨_, hrun, -, -⟩ := Session.serve_executed hg.through hs
    rw [Session.calls_executed hg.through]
    exact (body_allAbout hu hfi hdesc hrun).trans ((atBody_objects P E t.session i).2.2.2 _ _)
  refine ⟨o, ho, ?_, fun hleads => ?_⟩
  · rintro ⟨n, hn⟩
    obtain ⟨out, s', hs, hact⟩ := hn n (Nat.le_refl n)
    exact (habout hs).mp hact.about
  · obtain ⟨n, hn⟩ := Session.serve_step (kernel_follows P) (hi.tracks.atBody (posix_follows P) i) hg
      (closes_of_fileInfo hfi)
    refine ⟨n, fun fuel hf => ?_⟩
    obtain ⟨out, s', hs, -⟩ := hn fuel hf
    have hcalls := (habout hs).mpr hleads
    refine ⟨out, s', hs, hcalls, fun j hj => ?_, ?_⟩
    · obtain ⟨b', hrun, hw, -⟩ := Session.serve_executed hg.through hs
      rw [Session.calls_executed hg.through] at hcalls
      rw [hw]
      have htree : (t.session.baseAtBody i (posix P) E).tree = t.base.tree := atBody_tree P E t.base _
      refine Prog.run_keeps_of_trace (I := fun b => b.tree.node j = t.base.tree.node j) _ _ ?_
        (by rw [htree]) hrun
      rintro e he hkept
      rw [← hkept]
      exact kernel_others (hcalls e he) hj
    · rintro path n hr hrc
      rw [hr] at hleads
      exact hi.truncated hg hs hrc hr hleads ho

end

/-- In every state of a run, whatever has been done to the base in between, the next
request on an open handle acts on the object that the handle was opened on, and on no
other, exactly if it is not one that leaves the handle for a path to another. -/
theorem handles_keep_objects_iff (P : Platform) (E : Setup) (fuel : Nat) (w : World Base)
    (t : Watched) (h : Reachable (Watched.serve P E fuel) (Watched.Guarded P E) (Watched.start w) t)
    (i : Incoming) (hg : t.session.Called (posix P) E i) (hu : i.request.usesHandle = true)
    (hlive : t.session.handles i.handle ≠ none) : ∃ o, t.object i.handle = some o ∧
      (ActsOn P E o t.session i ↔ i.request.LeadsTo t.base o) := by
  obtain ⟨g, hid⟩ := Option.ne_none_iff_exists'.mp hlive
  exact (ObjectInv.run h).actsOn_iff hg hu hid

/-- `mv a b; touch a` in the base directory. -/
def Posix.Tree.swapped (t : Tree) : Except Errno Tree := do
  let t ← t.rename [] (ascii "/a") (ascii "/b")
  t.mknod [] (ascii "/a") (Tree.S_IFREG ||| 0o644)

def createA : Incoming := ⟨.create (ascii "/a") { acc := .rdwr, creat := true } 0o644, 0, .zero⟩
def truncateA : Incoming := ⟨.ftruncate (ascii "/a") 3, 0, .zero⟩
def fgetattrA : Incoming := ⟨.fgetattr (ascii "/a"), 0, .zero⟩

theorem swapped_reached : ∃ t : Watched,
    Reachable (Watched.serve .small (smallSetup (ascii "/c")) 0)
        (Watched.Guarded .small (smallSetup (ascii "/c"))) (Watched.start (bootWorld .root none)) t ∧
      t.object 0 = some 1 ∧ t.base.objectNamed (ascii "/a") = some 2 ∧
      (∃ h, t.session.handles 0 = some h ∧ h.kind = .file) ∧ t.session.world.errors = none ∧
      (t.session.serve (posix .small) (smallSetup (ascii "/c")) 0 truncateA).map (fun r =>
        (r.1.1, (t.base.tree.stat 2).size, (r.2.world.base.tree.stat 2).size,
          (r.2.serve (posix .small) (smallSetup (ascii "/c")) 0 fgetattrA).map (·.1.2.stat.size))) =
        some (0, 0, 3, some 0) := by
  let t₀ := Watched.start (bootWorld .root none)
  have hg : t₀.Guarded .small (smallSetup (ascii "/c")) (.request createA) :=
    ⟨fun _ => rfl, by rintro _ ⟨⟩, rfl⟩
  have h : Reachable (Watched.serve .small (smallSetup (ascii "/c")) 0)
    (Watched.Guarded .small (smallSetup (ascii "/c"))) t₀ _ := Reachable.refl.step hg rfl
  have hswap {t : Watched} (h : Reachable (Watched.serve .small (smallSetup (ascii "/c")) 0)
      (Watched.Guarded .small (smallSetup (ascii "/c"))) t₀ t) :
      Reachable (Watched.serve .small (smallSetup (ascii "/c")) 0)
        (Watched.Guarded .small (smallSetup (ascii "/c"))) t₀
        (t.outside (t.base.tree.swapped.toOption.getD t.base.tree)) := by
    refine h.step (i := .outside _) ?_ rfl
    trivial
  refine ⟨_, hswap h, rfl, ?_, ⟨_, rfl, rfl⟩, rfl, ?_⟩
  · decide
  · decide

theorem called_swapped {s : Session Base} {i : Incoming} {h : Handle}
    (he : s.world.errors = none) (hid : s.handles i.handle = some h) (hk : h.kind = .file)
    (hfile : i.request.handleKind? = some .file) :
    s.Called (posix .small) (smallSetup (ascii "/c")) i := by
  refine ⟨fun hopen => absurd (Request.opens?_of_handleKind? hfile) hopen, fun k hk' => ?_,
    decision_of_none he ..⟩
  cases hfile.symm.trans hk'
  exact .inl ⟨h, hid, hk⟩

theorem handles_keep_objects_swapped : ∃ t : Watched, t.object 0 = some 1 ∧
    ActsOn .small (smallSetup (ascii "/c")) 1 t.session fgetattrA ∧
    ¬ActsOn .small (smallSetup (ascii "/c")) 1 t.session truncateA := by
  obtain ⟨t, h, ho, hnamed, ⟨g, hid, hk⟩, he, -⟩ := swapped_reached
  have hkeep := handles_keep_objects_iff .small (smallSetup (ascii "/c")) 0 _ t h
  have hlive : t.session.handles 0 ≠ none := by simp [hid]
  obtain ⟨o, ho', hget⟩ := hkeep fgetattrA (called_swapped he hid hk rfl) rfl hlive
  obtain ⟨o', ho'', htrunc⟩ := hkeep truncateA (called_swapped he hid hk rfl) rfl hlive
  cases ho.symm.trans ho'
  cases ho.symm.trans ho''
  refine ⟨t, ho, hget.mpr trivial, fun hacts => ?_⟩
  have hleads : t.base.objectNamed (ascii "/a") = some 1 := htrunc.mp hacts
  cases hnamed.symm.trans hleads

/-- The `ftruncate` returns 0 and sets the size of the other file. -/
theorem ftruncate_changes_other : ∃ (t : Watched) (out : Int × Local) (s' : Session Base),
    Reachable (Watched.serve .small (smallSetup (ascii "/c")) 0)
        (Watched.Guarded .small (smallSetup (ascii "/c"))) (Watched.start (bootWorld .root none)) t ∧
      t.session.Called (posix .small) (smallSetup (ascii "/c")) truncateA ∧ t.object 0 = some 1 ∧
      t.session.serve (posix .small) (smallSetup (ascii "/c")) 0 truncateA = some (out, s') ∧
      out.1 = 0 ∧ (t.base.tree.stat 2).size = 0 ∧ (s'.world.base.tree.stat 2).size = 3 ∧
      ¬ReportsSize .small (smallSetup (ascii "/c")) s' 0 3 ∧
      ¬ActsOn .small (smallSetup (ascii "/c")) 1 t.session truncateA := by
  obtain ⟨t, h, ho, hnamed, ⟨g, hid, hk⟩, he, hrun⟩ := swapped_reached
  have hg : t.session.Called (posix .small) (smallSetup (ascii "/c")) truncateA :=
    called_swapped he hid hk rfl
  obtain ⟨⟨out, s'⟩, hs, hr⟩ := Option.map_eq_some_iff.mp hrun
  simp only [Prod.mk.injEq] at hr
  obtain ⟨hrc, hbefore, hafter, hget⟩ := hr
  refine ⟨t, out, s', h, hg, ho, hs, hrc, hbefore, hafter, fun hsize => ?_, ?_⟩
  · have hid' : s'.handles 0 = some g := by
      obtain ⟨_, -, -, hh⟩ := Session.serve_executed hg.through hs
      rw [hh, Session.handlesAfter_kept rfl]
      exact hid
    have he' : s'.world.errors = none := by
      have hpath : truncateA.request.path ≠ (smallSetup (ascii "/c")).configPath := by decide
      rw [Session.serve_errors hs, if_neg hpath, he]
    obtain ⟨out', s'', hs', -, hthree⟩ := hsize fgetattrA (ascii "/a") 0 rfl rfl
      (called_swapped he' hid' hk rfl)
    rw [hs'] at hget
    have hzero : out'.2.stat.size = 0 := Option.some.inj hget
    rw [hzero] at hthree
    cases hthree
  · rintro ⟨n, hn⟩
    obtain ⟨out', s'', hs', hact⟩ := hn n (Nat.le_refl n)
    cases hs'.symm.trans (Session.serve_mono hg (Nat.zero_le n) hs)
    have hsame := hact.others 2 (by decide)
    simp only [Tree.stat, hsame] at hafter
    have hsizes : 0 = 3 := hbefore.symm.trans hafter
    cases hsizes

end UnreliableFS
