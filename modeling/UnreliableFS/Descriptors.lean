import UnreliableFS.Handles
import UnreliableFS.Passthrough
import UnreliableFS.Posix.Fallible

/-!
# What operations leave open

Whatever a body opens for itself it closes again, over any kernel that answers as
the one of `Posix` does or fails. Not so `fsyncdir`, which keeps its stream when
the sync fails; and `fallocate` without a `fuse_file_info` reads `fi->fh` through
a null pointer once its own open has succeeded. `Session.Step` is all that a
request can do to the handles and to what is open.
-/

namespace UnreliableFS

open Interaction Posix

-- ---------------------------------------------------------------------------
-- What the bodies leave open
-- ---------------------------------------------------------------------------

def Request.opensOrCloses (r : Request) : Bool := r.opens?.isSome || r.closes

section
variable {σ : Type} {P : Platform} {K : Handler sysSig σ} {base : σ → Base} {r : Request}
  {l : Local} {fi : FuseFileInfo} {fuel : Nat} {s : σ} {b : Base}

def descriptorOf : SysReply → Int
  | .done fd _ => fd
  | .fail _ => -1

def syncCall (datasync : Bool) (fd : Int) : Sys := if datasync then .fdatasync fd else .fsync fd

/-- Answers that let a body close what it has opened. -/
def Request.Closes (K : Handler sysSig σ) (l : Local) (s : σ) : Request → Prop
  | .fsyncdir path datasync => ∀ dir d, (K (.opendir path) s).1 = .done dir d →
    let s₁ := (K (.opendir path) s).2
    Succeeds K (syncCall datasync (descriptorOf (K (.dirfd dir) s₁).1)) (K (.dirfd dir) s₁).2
  | .fallocate path mode _ _ => mode = 0 → l.fi = none → ¬Succeeds K (.open path O_WRONLY 0) s
  | _ => True

theorem call?_changesTable (hr : r.opensOrCloses = false) {fi? : Option FuseFileInfo} {c : Sys}
    (hc : r.call? fi? = some c) : changesTable c = false := by
  cases r with
  | read | write =>
    simp only [Request.call?] at hc
    obtain ⟨_, -, -, rfl⟩ := Request.onDescriptor_eq_some hc
    rfl
  | fallocate path mode offset len =>
    simp only [Request.call?] at hc
    split at hc
    · obtain ⟨_, -, -, rfl⟩ := Request.onDescriptor_eq_some hc
      rfl
    · cases hc
  | fsync path datasync =>
    obtain ⟨_, -, rfl⟩ := Option.map_eq_some_iff.mp hc
    cases datasync
    · rfl
    · rfl
  | fgetattr | lock | ioctl | flock =>
    obtain ⟨_, -, rfl⟩ := Option.map_eq_some_iff.mp hc
    rfl
  | flush | readdir | fsyncdir => cases hc
  | «open» | create | opendir | release | releasedir => cases hr
  | _ =>
    cases hc
    rfl

theorem close_wp (hK : Follows P K base) {fd : Nat} (h : WithFd b (base s) fd) {α : Type}
    {f : Int × Local → α} : (sys (.close fd) l >>= fun p => .done (f p)).wp K
      (fun _ s' => SameOpen b (base s')) s :=
  sys_wp (fun _ _ => hK.close h) fun _ _ _ => hK.close h

theorem transfer_null_wp (hK : Follows P K base) (hfi : l.fi = none) (path : CStr)
    (flags : OpenFlags) (mode : Nat) {io : Int → Sys} (hio : ∀ fd, changesTable (io fd) = false) :
    (Request.transfer (.open path flags mode) io l).wp K (fun _ s' => SameOpen (base s) (base s'))
      s := by
  rw [Request.transfer_null hfi]
  refine sys_wp (fun e he => ?_) fun fd d hd => ?_
  · simp only [↓reduceIte, Prog.wp_done]
    exact hK.fail_sameOpen rfl he
  · have hw := (hK.open_done hd).congr (hK.sameTable (hio fd))
    simp only [natCast_ne_neg_one, ↓reduceIte]
    refine sys_wp (fun e _ => ?_) fun ret d' _ => ?_
    · rw [Request.afterTransfer_null (by rw [Local.fi_fail, Local.fi_store, hfi])]
      exact close_wp hK hw
    · rw [Request.afterTransfer_null (by rw [Local.fi_store, Local.fi_store, hfi])]
      exact close_wp hK hw

theorem flush_wp (hK : Follows P K base) (path : CStr) (hfi : l.fi = some fi) :
    (((Request.flush path).operation fuel).body l).wp K
      (fun _ s' => SameOpen (base s) (base s')) s := by
  simp only [Request.operation, unreliableFlush, Body.bind_apply, fh_apply l hfi, Prog.done_bind]
  refine sys_wp (fun e he => ?_) fun fd d hd => ?_
  · -- `close(-1)`
    rw [forward_eq, Prog.wp_call, Prog.wp_done, hK.close_none]
    exact hK.fail_sameOpen rfl he
  · rw [forward_eq, Prog.wp_call, Prog.wp_done]
    exact hK.close (hK.dup_done hd)

theorem readdirLoop_wp (hK : Follows P K base) (filler : Filler) {a : Nat} {rest : List Dirent}
    (h : WithDir b (base s) a rest) (hf : rest.length < fuel) :
    (readdirLoop filler a fuel l).wp K (fun _ s' => ∃ rest', WithDir b (base s') a rest') s := by
  induction fuel generalizing l s rest with
  | zero => omega
  | succ fuel ih =>
    simp only [readdirLoop, Body.bind_apply]
    refine sys_wp (fun e he => ?_) fun ret d hd => ?_
    · simp only [Int.reduceNeg, Int.reduceLE, ↓reduceIte]
      refine ⟨rest, ?_⟩
      rw [hK.fail_of_ne rfl (fun _ _ hc => by cases hc) he]
      exact h
    · obtain ⟨rfl, h'⟩ | ⟨de, rest', rfl, h'⟩ := hK.readdir_done h hd
      · exact ⟨rest, h'⟩
      · simp only [List.length_cons] at hf
        split
        · exact ⟨rest', h'⟩
        · simp only [Body.bind_apply, Body.get_apply, Prog.done_bind, Body.set_apply]
          split
          · exact ⟨rest', h'⟩
          · exact ih h' (by omega)

theorem readdirLoop_mono {filler : Filler} {dp : Int} {x : (Unit × Local) × σ} {fuel' : Nat}
    (h : (readdirLoop filler dp fuel l).run K s = some x) (hf : fuel ≤ fuel') :
    (readdirLoop filler dp fuel' l).run K s = some x := by
  induction fuel generalizing fuel' l s with
  | zero => cases h
  | succ fuel ih =>
    obtain ⟨m, rfl⟩ := Nat.exists_eq_succ_of_ne_zero (Nat.ne_of_gt (Nat.lt_of_lt_of_le fuel.succ_pos hf))
    simp only [readdirLoop, Body.bind_apply] at h ⊢
    rcases hd : (K (.readdir dp) s).1 with e | ⟨ret, d⟩
    · rw [sys_run_fail hd] at h ⊢
      exact h
    · rw [sys_run_done hd] at h ⊢
      dsimp only at h ⊢
      split at h
      · rename_i hz
        rw [if_pos hz]
        exact h
      · rename_i hz
        rw [if_neg hz]
        simp only [Body.bind_apply, Body.get_apply, Prog.done_bind, Body.set_apply] at h ⊢
        split at h
        · rename_i hfull
          rw [if_pos hfull]
          exact h
        · rename_i hfull
          rw [if_neg hfull]
          exact ih h (Nat.le_of_succ_le_succ hf)

theorem operation_mono {x : (Int × Local) × σ} {fuel' : Nat}
    (h : ((r.operation fuel).body l).run K s = some x) (hf : fuel ≤ fuel') :
    ((r.operation fuel').body l).run K s = some x := by
  cases r with
  | readdir path filler =>
    simp only [Request.operation, unreliableReaddir, Body.bind_apply] at h ⊢
    rcases hd : (K (.opendir path) s).1 with e | ⟨a, d⟩
    · rw [sys_run_fail hd] at h ⊢
      exact h
    · rw [sys_run_done hd] at h ⊢
      simp only [natCast_ne_neg_one, ↓reduceIte, Body.bind_apply, Prog.run_bind] at h ⊢
      obtain ⟨y, hy, h⟩ := Option.bind_eq_some_iff.mp h
      rw [readdirLoop_mono hy hf]
      exact h
  | _ => exact h

theorem readdir_wp (hK : Follows P K base) (path : CStr) (filler : Filler) : ∃ n, ∀ fuel, n ≤ fuel →
    (((Request.readdir path filler).operation fuel).body l).wp K
      (fun _ s' => SameOpen (base s) (base s')) s := by
  simp only [Request.operation, unreliableReaddir, Body.bind_apply]
  rcases ho : (K (.opendir path) s).1 with e | ⟨a, d⟩
  · refine ⟨0, fun fuel _ => sys_wp (fun e he => ?_) fun ret d hd => ?_⟩
    · simp only [↓reduceIte]
      exact hK.fail_sameOpen rfl he
    · rw [ho] at hd
      cases hd
  · obtain ⟨-, rest, h⟩ := hK.opendir_done ho
    refine ⟨rest.length + 1, fun fuel hf => sys_wp (fun e he => ?_) fun ret d' hd => ?_⟩
    · rw [ho] at he
      cases he
    · rw [ho] at hd
      cases hd
      simp only [natCast_ne_neg_one, ↓reduceIte, Body.bind_apply, Prog.wp_bind]
      refine (readdirLoop_wp hK filler h (by omega)).mono fun p s' h' => ?_
      obtain ⟨rest', h'⟩ := h'
      rw [← Prog.wp_bind]
      exact sys_wp (fun e _ => hK.closedir h') fun ret d _ => hK.closedir h'

theorem syncThenClose_wp (hK : Follows P K base) {c : Sys} (hc : changesTable c = false) {a : Nat}
    {rest : List Dirent} (h : WithDir b (base s) a rest) (hs : Succeeds K c s) :
    (Request.syncThenClose c a l).wp K (fun _ s' => SameOpen b (base s')) s := by
  obtain ⟨ret, d, hd⟩ := hs
  have h' := h.congr (hK.sameTable (s := s) hc)
  unfold Request.syncThenClose
  rw [Body.bind_apply]
  refine sys_wp (fun e he => ?_) fun ret' d' _ => ?_
  · rw [hd] at he
    cases he
  · simp only [natCast_ne_neg_one, ↓reduceIte, Body.bind_apply]
    exact sys_wp (fun e _ => hK.closedir h') fun _ _ _ => hK.closedir h'

theorem syncCall_changesTable (datasync : Bool) (fd : Int) :
    changesTable (syncCall datasync fd) = false := by
  cases datasync
  · rfl
  · rfl

theorem kernel_sync_iff (datasync : Bool) (fd : Int) (b : Base) :
    Succeeds (kernel P) (syncCall datasync fd) b ↔ ∃ d, b.desc fd = .ok d := by
  have hs : kernel P (syncCall datasync fd) b = b.inspect do
      let _ ← b.desc fd
      return (0, .none) := by
    cases datasync
    · rfl
    · rfl
  unfold Succeeds
  rw [hs]
  cases b.desc fd with
  | error e => simp [bind, Except.bind, Base.inspect]
  | ok d => simp [bind, Except.bind, pure, Except.pure, Base.inspect]

theorem fsyncdir_wp (hK : Follows P K base) (path : CStr) (datasync : Bool)
    (hc : (Request.fsyncdir path datasync).Closes K l s) :
    (((Request.fsyncdir path datasync).operation fuel).body l).wp K
      (fun _ s' => SameOpen (base s) (base s')) s := by
  rw [Request.fsyncdir_body]
  refine sys_wp (fun e he => ?_) fun a d ha => ?_
  · simp only [↓reduceIte, Prog.wp_done]
    exact hK.fail_sameOpen rfl he
  · obtain ⟨-, rest, h⟩ := hK.opendir_done ha
    have hsync := hc a d ha
    dsimp only at hsync
    have h' := h.congr (hK.sameTable (c := .dirfd a) rfl)
    simp only [natCast_ne_neg_one, ↓reduceIte]
    refine sys_wp (fun e he => ?_) fun fd d' hd => ?_
    · rw [he] at hsync
      exact syncThenClose_wp hK (syncCall_changesTable datasync _) h' hsync
    · rw [hd] at hsync
      exact syncThenClose_wp hK (syncCall_changesTable datasync _) h' hsync

theorem fsyncdir_leaks_wp (hK : Follows P K base) (path : CStr) (datasync : Bool)
    (hc : ¬(Request.fsyncdir path datasync).Closes K l s) :
    (((Request.fsyncdir path datasync).operation fuel).body l).wp K
      (fun _ s' => ∃ a rest, WithDir (base s) (base s') a rest) s := by
  simp only [Request.Closes, not_forall] at hc
  obtain ⟨a, d, ha, hsync⟩ := hc
  obtain ⟨-, rest, h⟩ := hK.opendir_done ha
  have h' := h.congr (hK.sameTable (c := .dirfd a) rfl)
  have hend (l : Local) {fd : Int} {s' : σ} (hw : WithDir (base s) (base s') a rest)
      (hf : ¬Succeeds K (syncCall datasync fd) s') :
      (Request.syncThenClose (syncCall datasync fd) a l).wp K
        (fun _ s' => ∃ a rest, WithDir (base s) (base s') a rest) s' := by
    rw [Prog.wp_iff_run]
    rcases hr : (K (syncCall datasync fd) s').1 with e | ⟨ret, d⟩
    · refine ⟨_, _, Request.syncThenClose_run_fail a hr, a, rest, ?_⟩
      exact hw.congr (hK.sameTable (syncCall_changesTable datasync fd))
    · exact absurd ⟨ret, d, hr⟩ hf
  rw [Request.fsyncdir_body]
  refine sys_wp (fun e he => ?_) fun a' d' ha' => ?_
  · rw [ha] at he
    cases he
  · cases ha.symm.trans ha'
    simp only [natCast_ne_neg_one, ↓reduceIte]
    refine sys_wp (fun e he => ?_) fun fd d' hd => ?_
    · rw [he] at hsync
      exact hend _ h' hsync
    · rw [hd] at hsync
      exact hend _ h' hsync

theorem fallocate_stuck (path : CStr) (mode : Nat) (offset len : Int)
    (hc : ¬(Request.fallocate path mode offset len).Closes K l s) :
    (((Request.fallocate path mode offset len).operation fuel).body l).run K s = none := by
  simp only [Request.Closes, Classical.not_imp, not_not] at hc
  obtain ⟨rfl, hfi, fd, d, hd⟩ := hc
  have hfi' : (l.store d).fi = none := by rw [Local.fi_store, hfi]
  have hstuck : fh (l.store d) = .stuck := by simp only [fh, hfi']
  rw [Request.fallocate_body_null path offset len hfi, sys_run_done hd, if_neg (natCast_ne_neg_one _)]
  simp only [Request.fallocateFd, Body.bind_apply, hstuck, Prog.stuck_bind, Prog.run_stuck]

theorem fallocate_null_wp (hK : Follows P K base) (path : CStr) (offset len : Int)
    (hfi : l.fi = none) (hc : (Request.fallocate path 0 offset len).Closes K l s) :
    (((Request.fallocate path 0 offset len).operation fuel).body l).wp K
      (fun _ s' => SameOpen (base s) (base s')) s := by
  rw [Request.fallocate_body_null path offset len hfi]
  refine sys_wp (fun e he => ?_) fun fd d hd => ?_
  · simp only [↓reduceIte, Prog.wp_done]
    exact hK.fail_sameOpen rfl he
  · exact absurd ⟨fd, d, hd⟩ (hc rfl hfi)

/-- An operation that neither gives out a handle nor takes one back ends, and leaves
open what it found open. -/
theorem body_restores (hK : Follows P K base) (hr : r.opensOrCloses = false)
    (hfi : r.needsFileInfo = true → l.fi ≠ none) (hc : r.Closes K l s) : ∃ n, ∀ fuel, n ≤ fuel →
    ((r.operation fuel).body l).wp K (fun _ s' => SameOpen (base s) (base s')) s := by
  have hrefl : SameOpen (base s) (base s) := (SameTable.refl _).sameOpen
  have hcall {c : Sys} (h : r.call? l.fi = some c) : ∃ n, ∀ fuel, n ≤ fuel →
      ((r.operation fuel).body l).wp K (fun _ s' => SameOpen (base s) (base s')) s := by
    refine ⟨0, fun fuel _ => ?_⟩
    rw [Request.body_of_call? h]
    exact (hK.sameTable (call?_changesTable hr h)).sameOpen
  have hquiet {fi : FuseFileInfo} (hq : r.quiet = true) (hl : l.fi = some fi) : ∃ n, ∀ fuel,
      n ≤ fuel → ((r.operation fuel).body l).wp K (fun _ s' => SameOpen (base s) (base s')) s := by
    cases h : r.call? l.fi with
    | some c => exact hcall h
    | none =>
      refine ⟨0, fun fuel _ => ?_⟩
      have hb : ∃ out, (r.operation fuel).body l = .done out := quiet_no_call hq hl (hl ▸ h)
      obtain ⟨out, hb⟩ := hb
      rw [hb]
      exact hrefl
  cases r with
  | flush path =>
    obtain ⟨fi, hl⟩ := Option.ne_none_iff_exists'.mp (hfi rfl)
    exact ⟨0, fun fuel _ => flush_wp hK path hl⟩
  | readdir path filler => exact readdir_wp hK path filler
  | fsyncdir path datasync => exact ⟨0, fun fuel _ => fsyncdir_wp hK path datasync hc⟩
  | read path size offset =>
    cases hl : l.fi with
    | none => exact ⟨0, fun _ _ => transfer_null_wp hK hl path O_RDONLY 0 fun _ => rfl⟩
    | some fi => exact hquiet rfl hl
  | write path data offset =>
    cases hl : l.fi with
    | none => exact ⟨0, fun _ _ => transfer_null_wp hK hl path O_WRONLY 0 fun _ => rfl⟩
    | some fi => exact hquiet rfl hl
  | fallocate path mode offset len =>
    cases hl : l.fi with
    | some fi => exact hquiet rfl hl
    | none =>
      by_cases hm : mode = 0
      · subst hm
        exact ⟨0, fun _ _ => fallocate_null_wp hK path offset len hl hc⟩
      · refine ⟨0, fun fuel _ => ?_⟩
        simp only [Request.operation, unreliableFallocate, ne_eq, hm, not_false_eq_true, ↓reduceIte]
        exact hrefl
  | fsync | fgetattr | lock | ioctl | flock =>
    obtain ⟨fi, hl⟩ := Option.ne_none_iff_exists'.mp (hfi rfl)
    exact hquiet rfl hl
  | «open» | create | opendir | release | releasedir => cases hr
  | _ => exact hcall rfl

end

-- ---------------------------------------------------------------------------
-- Sessions
-- ---------------------------------------------------------------------------

def heldSet (b : Base) : Set Nat × Set Nat := ({fd | b.fds fd ≠ none}, {a | b.streams a ≠ none})

theorem heldSet_of_sameOpen {b b' : Base} (h : SameOpen b b') : heldSet b' = heldSet b := by
  unfold heldSet
  rw [h.fds, h.streams]

/-- The operations whose bodies provide for a null `fuse_file_info`. -/
def Request.takesNull : Request → Bool
  | .read .. | .write .. | .fallocate .. => true
  | _ => false

theorem Request.handleKind?_of_needsFileInfo {r : Request} (hn : r.needsFileInfo = true)
    (hopen : r.opens? = none) : ∃ k, r.handleKind? = some k ∧ r.takesNull = false := by
  cases r with
  | flush | release | fsync | fgetattr | lock | ioctl | flock => exact ⟨.file, rfl, rfl⟩
  | releasedir => exact ⟨.dir, rfl, rfl⟩
  | «open» | create | opendir => cases hopen
  | _ => cases hn

theorem Request.closes_of_opens? {r : Request} {flags : OpenFlags} (h : r.opens? = some flags) :
    r.closes = false := by
  cases r with
  | release | releasedir => cases h
  | _ => rfl

section
variable {σ : Type}

def Session.onBase (base : σ → Base) (s : Session σ) : Session Base :=
  ⟨⟨base s.world.base, s.world.errors, s.world.draws, s.world.caller⟩, s.handles⟩

/-- A request that is let through, on a live handle of its kind, for a new one, or,
where that is provided for, without any. -/
structure Session.Called (os : OS σ) (E : Setup) (s : Session σ) (i : Incoming) : Prop where
  fresh : i.request.opens? ≠ none → s.handles i.handle = none
  live : ∀ k, i.request.handleKind? = some k → (∃ h, s.handles i.handle = some h ∧ h.kind = k) ∨
    i.request.takesNull = true ∧ s.handles i.handle = none
  through : s.code i os E = 0

/-- What a request that is let through does to what is open and to the handles. -/
inductive Session.Step (base : σ → Base) (s : Session σ) (i : Incoming) (rc : Int)
    (s' : Session σ) : Prop
  | kept : SameOpen (base s.world.base) (base s'.world.base) → s'.handles = s.handles →
      Step base s i rc s'
  | openFile {fd : Nat} {tree : Tree} {ino : Ino} {flags : OpenFlags} : rc = 0 →
      i.request.opensOrCloses = true → (base s.world.base).freeFd = .ok fd →
      s.handles i.handle = none →
      base s'.world.base =
        { base s.world.base with tree }.install fd ino flags.acc flags.append →
      s'.handles = Function.update s.handles i.handle
        (some ⟨{ flags, fh := fd }, i.request.path, .file⟩) → Step base s i rc s'
  | openDir {a fd : Nat} {ino : Ino} {rest : List Dirent} : rc = 0 →
      i.request.opensOrCloses = true → (base s.world.base).freeFd = .ok fd →
      (base s.world.base).streams a = none → s.handles i.handle = none →
      base s'.world.base =
        ((base s.world.base).install fd ino .rdonly false).setStream a (some ⟨fd, rest⟩) →
      s'.handles = Function.update s.handles i.handle
        (some ⟨{ fh := a }, i.request.path, .dir⟩) → Step base s i rc s'
  | closeFile {h : Handle} {d : Desc} : i.request.closes = true →
      s.handles i.handle = some h → h.kind = .file →
      base s'.world.base = (base s.world.base).closeFd h.fi.fh d →
      s'.handles = Function.update s.handles i.handle none → Step base s i rc s'
  | closeDir {h : Handle} {st : DirStream} {d : Desc} : i.request.closes = true →
      s.handles i.handle = some h → h.kind = .dir →
      (base s.world.base).streams h.fi.fh = some st →
      base s'.world.base = ((base s.world.base).closeFd st.fd d).setStream h.fi.fh none →
      s'.handles = Function.update s.handles i.handle none → Step base s i rc s'

/-- The live handles are on what their own opens obtained. -/
def Session.Tracks (base : σ → Base) (b₀ : Base) (s : Session σ) : Prop :=
  ∃ opened, HandleInv b₀ ⟨s.onBase base, opened⟩ True

namespace Session

variable {P : Platform} {os : OS σ} {base : σ → Base} {E : Setup} {fuel : Nat} {b₀ : Base}
  {s s' : Session σ} {i : Incoming} {out : Int × Local}

theorem Tracks.start (w : World σ) : Tracks base (base w.base) ⟨w, fun _ => none⟩ :=
  ⟨fun _ => none, HandleInv.start ⟨base w.base, w.errors, w.draws, w.caller⟩⟩

theorem Tracks.mapped (h : s.Tracks base b₀) : Mapped b₀ (s.onBase base) := by
  obtain ⟨_, hi⟩ := h
  exact hi.mapped trivial

theorem Tracks.step (h : s.Tracks base b₀) {rc : Int} (hs : s.Step base i rc s') :
    s'.Tracks base b₀ := by
  obtain ⟨opened, hi⟩ := h
  cases hs with
  | kept hb hh => exact ⟨opened, hi.congr hb hh rfl⟩
  | openFile _ _ hfree hfresh hb hh =>
    exact ⟨Function.update opened i.handle (some (base s.world.base).nextDesc),
      hi.opened_file hfree hfresh hb hh rfl⟩
  | openDir _ _ hfree hstream hfresh hb hh =>
    exact ⟨Function.update opened i.handle (some (base s.world.base).nextDesc),
      hi.opened_dir hfree hstream hfresh hb hh rfl⟩
  | closeFile _ hid hk hb hh => exact ⟨opened, hi.closed_file hid hk hb hh rfl⟩
  | closeDir _ hid hk hst hb hh => exact ⟨opened, hi.closed_dir hid hk hst hb hh rfl⟩

/-- A handle that is live before and after a request keeps its descriptor. -/
theorem Step.frame (hi : s.Tracks base b₀) {rc : Int} (hs : s.Step base i rc s') {id fd : Nat}
    {h : Handle} (hold : s.handles id = some h) (hid : s'.handles id = some h)
    (hh : Holds (base s.world.base) h fd) : Holds (base s'.world.base) h fd ∧
      (base s'.world.base).fds fd = (base s.world.base).fds fd := by
  obtain ⟨opened, hi⟩ := hi
  obtain ⟨-, d, hd, -⟩ := hi.holds_desc hold hh
  have hd : (base s.world.base).fds fd = some d := hd
  cases hs with
  | kept hb _ => exact ⟨holds_congr (fun _ _ => by rw [hb.streams]) hh, by rw [hb.fds]⟩
  | openFile _ _ hfree _ hb _ =>
    rw [hb]
    refine ⟨holds_congr (fun _ _ => rfl) hh, Function.update_of_ne ?_ ..⟩
    rintro rfl
    rw [(Base.freeFd_ok hfree).1] at hd
    cases hd
  | openDir _ _ hfree hstream _ hb _ =>
    rw [hb]
    refine ⟨holds_congr (fun _ ha => Function.update_of_ne ?_ ..) hh, Function.update_of_ne ?_ ..⟩
    · rintro rfl
      exact ha hstream
    · rintro rfl
      rw [(Base.freeFd_ok hfree).1] at hd
      cases hd
  | closeFile _ hlive hk hb hafter =>
    have hne : id ≠ i.handle := by
      rintro rfl
      simp [hafter] at hid
    rw [hb]
    refine ⟨holds_congr (fun _ _ => rfl) hh, Function.update_of_ne ?_ ..⟩
    exact (hi.apart hlive hold hne (holds_file hk)).1 fd hh
  | closeDir _ hlive hk hst hb hafter =>
    have hne : id ≠ i.handle := by
      rintro rfl
      simp [hafter] at hid
    obtain ⟨hfd, hstream⟩ := hi.apart hlive hold hne (holds_dir hk hst)
    rw [hb]
    exact ⟨holds_congr (fun hk' _ => Function.update_of_ne (hstream hk hk') ..) hh,
      Function.update_of_ne (hfd fd hh) ..⟩

theorem Tracks.atBody (hK : FollowsPosix P os base) (h : s.Tracks base b₀) (i : Incoming) :
    (s.atBody i os E).Tracks base b₀ := by
  obtain ⟨opened, hi⟩ := h
  obtain ⟨locks, hb⟩ := hK.atBody E s.world.base i.request.path
  refine ⟨opened, hi.congr (SameTable.sameOpen ?_) rfl rfl⟩
  show SameTable (base s.world.base) (base (os.atBody E s.world.base i.request.path))
  rw [hb]
  exact ⟨rfl, rfl, rfl⟩

theorem Called.handle (hg : s.Called os E i) {k : Request.HandleKind}
    (hk : i.request.handleKind? = some k) (hn : i.request.takesNull = false) :
    ∃ h, s.handles i.handle = some h ∧ h.kind = k ∧ (s.locals i).fi = some h.fi := by
  obtain ⟨h, hid, hkind⟩ | ⟨ht, -⟩ := hg.live k hk
  · exact ⟨h, hid, hkind, fi_locals_live hk hid⟩
  · rw [hn] at ht
    cases ht

theorem Called.fileInfo (hg : s.Called os E i) (hn : i.request.needsFileInfo = true) :
    (s.locals i).fi ≠ none := by
  cases hopen : i.request.opens? with
  | some flags => simp [fi_locals_opens hopen]
  | none =>
    obtain ⟨k, hk, ht⟩ := Request.handleKind?_of_needsFileInfo hn hopen
    obtain ⟨h, -, -, hfi⟩ := hg.handle hk ht
    simp [hfi]

theorem handlesAfter_kept (hr : i.request.opensOrCloses = false) (rc : Int)
    (fi : Option FuseFileInfo) : s.handlesAfter i rc fi = s.handles := by
  simp only [Request.opensOrCloses, Bool.or_eq_false_iff, Option.isSome_eq_false_iff,
    Option.isNone_iff_eq_none] at hr
  rw [handlesAfter_closed hr.1, hr.2]
  rfl

variable (fuel) in
theorem serve_of_call? (hg : s.Called os E i) {c : Sys}
    (hc : i.request.call? (s.locals i).fi = some c) : ∃ s',
    serve os E fuel s i = some (i.request.finish (s.locals i) (os.kernel c (s.baseAtBody i os E)).1, s') ∧
      s'.world.base = (os.kernel c (s.baseAtBody i os E)).2 ∧
      s'.handles = s.handlesAfter i
        (i.request.finish (s.locals i) (os.kernel c (s.baseAtBody i os E)).1).1
        (i.request.finish (s.locals i) (os.kernel c (s.baseAtBody i os E)).1).2.fi := by
  rw [serve_body hg.through, Request.run_of_call? hc]
  exact ⟨_, rfl, rfl, rfl⟩

theorem serve_mono (hg : s.Called os E i) {fuel' : Nat} (hf : fuel ≤ fuel')
    (h : serve os E fuel s i = some (out, s')) : serve os E fuel' s i = some (out, s') := by
  rw [serve_body hg.through] at h ⊢
  obtain ⟨x, hx, he⟩ := Option.map_eq_some_iff.mp h
  rw [operation_mono hx hf]
  exact congrArg some he

theorem serve_restores (hg : s.Called os E i) (hr : i.request.opensOrCloses = false)
    (hw : ((i.request.operation fuel).body (s.locals i)).wp os.kernel
      (fun _ b' => SameOpen (base (s.baseAtBody i os E)) (base b')) (s.baseAtBody i os E)) :
    ∃ out s', serve os E fuel s i = some (out, s') ∧ (s.atBody i os E).Step base i out.1 s' := by
  obtain ⟨out, b', hrun, hb⟩ := Prog.wp_iff_run.mp hw
  rw [serve_body hg.through, hrun]
  exact ⟨_, _, rfl, .kept hb (handlesAfter_kept hr _ _)⟩

theorem handlesAfter_failed {flags : OpenFlags} (hopen : i.request.opens? = some flags) (l : Local)
    (e : Errno) : s.handlesAfter i (i.request.finish l (.fail e)).1
      (i.request.finish l (.fail e)).2.fi = s.handles := by
  have hrc : (i.request.finish l (.fail e)).1 ≠ 0 := Int.ne_of_lt (Request.finish_fail_neg ..)
  unfold handlesAfter
  simp only [hopen, hrc, Request.closes_of_opens? hopen]
  split
  · rfl
  · rfl

theorem serve_open (hK : Follows P os.kernel base) (hg : s.Called os E i)
    {flags : OpenFlags} {path : CStr} {mode : Nat} (hopen : i.request.opens? = some flags)
    (hk : kindOpened i.request = .file)
    (hcall : i.request.call? (some { flags }) = some (.open path flags mode)) :
    ∃ out s', serve os E fuel s i = some (out, s') ∧ (s.atBody i os E).Step base i out.1 s' := by
  have hfi : (s.locals i).fi = some { flags } := fi_locals_opens hopen
  obtain ⟨s', hs, hb, hh⟩ := serve_of_call? fuel hg (hfi ▸ hcall)
  refine ⟨_, s', hs, ?_⟩
  rcases hc : (os.kernel (.open path flags mode) (s.baseAtBody i os E)).1 with e | ⟨ret, d⟩
  · rw [hc, handlesAfter_failed hopen] at hh
    refine .kept ?_ hh
    rw [hb]
    exact hK.fail_sameOpen rfl hc
  · obtain ⟨hd, hbase⟩ := hK.done hc
    obtain ⟨hfree, tree, ino, -, hb'⟩ := kernel_open hd
    have hlt := (Base.freeFd_ok hfree).2
    have hlt' := (base (s.baseAtBody i os E)).nofile_le
    obtain ⟨hrc, hafter⟩ := handlesAfter_opened (s := s) (d := d) hopen
      (show ret < 2 ^ 64 by omega) rfl
    rw [hc] at hh
    rw [hk] at hafter
    exact .openFile hrc (by simp [Request.opensOrCloses, hopen]) hfree (hg.fresh (by simp [hopen]))
      ((congrArg base hb).trans (hbase.trans hb')) (hh.trans hafter)

theorem serve_opendir (hK : Follows P os.kernel base) (hg : s.Called os E i) {path : CStr}
    (hr : i.request = .opendir path) :
    ∃ out s', serve os E fuel s i = some (out, s') ∧ (s.atBody i os E).Step base i out.1 s' := by
  have hopen : i.request.opens? = some {} := by rw [hr]; rfl
  have hk : kindOpened i.request = .dir := by rw [hr]; rfl
  have hcall : i.request.call? (s.locals i).fi = some (.opendir path) := by rw [hr]; rfl
  obtain ⟨s', hs, hb, hh⟩ := serve_of_call? fuel hg hcall
  refine ⟨_, s', hs, ?_⟩
  rcases hc : (os.kernel (.opendir path) (s.baseAtBody i os E)).1 with e | ⟨ret, d⟩
  · rw [hc, handlesAfter_failed hopen] at hh
    refine .kept ?_ hh
    rw [hb]
    exact hK.fail_sameOpen rfl hc
  · obtain ⟨hd, hbase⟩ := hK.done hc
    obtain ⟨p, ino, fd, -, hfree, hstream, -, hlt, hb'⟩ := kernel_opendir hd
    obtain ⟨hrc, hafter⟩ := handlesAfter_opened (s := s) (d := d) hopen hlt rfl
    rw [hc] at hh
    rw [hk] at hafter
    exact .openDir hrc (by simp [Request.opensOrCloses, hopen]) hfree hstream
      (hg.fresh (by simp [hopen])) ((congrArg base hb).trans (hbase.trans hb')) (hh.trans hafter)

variable (fuel) in
/-- A release: the close would succeed, and the descriptor of the handle is gone
whatever it answers. -/
theorem serve_closes (hK : Follows P os.kernel base) (hi : (s.atBody i os E).Tracks base b₀)
    (hg : s.Called os E i) (hclose : i.request.closes = true) : ∃ c s',
      Succeeds (kernel P) c (base (s.baseAtBody i os E)) ∧
      serve os E fuel s i =
        some (i.request.finish (s.locals i) (os.kernel c (s.baseAtBody i os E)).1, s') ∧
      (∀ rc, (s.atBody i os E).Step base i rc s') ∧
      heldSet (base s'.world.base) ≠ heldSet (base (s.baseAtBody i os E)) := by
  obtain ⟨opened, hi⟩ := hi
  have hopen : i.request.opens? = none := by
    by_contra h
    obtain ⟨flags, h⟩ := Option.ne_none_iff_exists'.mp h
    rw [Request.closes_of_opens? h] at hclose
    cases hclose
  cases hr : i.request with
  | release path =>
    obtain ⟨h, hid, hk, hfi⟩ := hg.handle (k := .file) (by rw [hr]; rfl) (by rw [hr]; rfl)
    obtain ⟨hlt, -, d, hd, -⟩ := (hi.owns i.handle h hid).file hk
    have hfh : toInt h.fi.fh = h.fi.fh := toInt_of_small (by omega) (by omega)
    have hcall : i.request.call? (s.locals i).fi = some (.close h.fi.fh) := by
      rw [hr, hfi, ← hfh]
      rfl
    have hdesc : (base (s.baseAtBody i os E)).desc (h.fi.fh : Int) = .ok d :=
      Base.desc_ok.mpr ⟨Int.natCast_nonneg _, hd⟩
    have hkernel := kernel_close_of_desc (P := P) hdesc
    obtain ⟨s', hs, hb, hh⟩ := serve_of_call? fuel hg hcall
    have hb' : base s'.world.base = (base (s.baseAtBody i os E)).closeFd h.fi.fh d := by
      rw [hb, hK.freed rfl, hkernel]
      rfl
    rw [handlesAfter_closed hopen, hclose] at hh
    refine ⟨_, s', ⟨0, .none, congrArg Prod.fst hkernel⟩, hr ▸ hs,
      fun _ => .closeFile hclose hid hk hb' hh, fun he => ?_⟩
    have hmem : h.fi.fh ∈ (heldSet (base (s.baseAtBody i os E))).1 := fun hn => by
      cases hn.symm.trans hd
    rw [← he, hb'] at hmem
    simp [heldSet, Base.closeFd, Base.setFd] at hmem
  | releasedir path =>
    obtain ⟨h, hid, hk, hfi⟩ := hg.handle (k := .dir) (by rw [hr]; rfl) (by rw [hr]; rfl)
    obtain ⟨-, st, d, hst, -, hd, -⟩ := (hi.owns i.handle h hid).dir hk
    have hcall : i.request.call? (s.locals i).fi = some (.closedir h.fi.fh) := by
      rw [hr, hfi]
      rfl
    have hstream : (base (s.baseAtBody i os E)).stream (h.fi.fh : Int) = .ok st :=
      Base.stream_ok.mpr ⟨Int.natCast_nonneg _, hst⟩
    have hdesc : (base (s.baseAtBody i os E)).desc (st.fd : Int) = .ok d :=
      Base.desc_ok.mpr ⟨Int.natCast_nonneg _, hd⟩
    have hkernel := kernel_closedir_of_stream (P := P) hstream hdesc
    obtain ⟨s', hs, hb, hh⟩ := serve_of_call? fuel hg hcall
    have hb' : base s'.world.base =
        ((base (s.baseAtBody i os E)).closeFd st.fd d).setStream h.fi.fh none := by
      rw [hb, hK.freed rfl, hkernel]
      rfl
    rw [handlesAfter_closed hopen, hclose] at hh
    refine ⟨_, s', ⟨0, .none, congrArg Prod.fst hkernel⟩, hr ▸ hs,
      fun _ => .closeDir hclose hid hk hst hb' hh, fun he => ?_⟩
    have hmem : h.fi.fh ∈ (heldSet (base (s.baseAtBody i os E))).2 := fun hn => by
      cases hn.symm.trans hst
    rw [← he, hb'] at hmem
    simp [heldSet, Base.closeFd, Base.setFd, Base.setStream] at hmem
  | _ =>
    rw [hr] at hclose
    cases hclose

/-- Whatever its calls answer, a request that is let through ends with one of these
steps, as long as its body can close what it has opened. -/
theorem serve_step (hK : Follows P os.kernel base) (hi : (s.atBody i os E).Tracks base b₀)
    (hg : s.Called os E i)
    (hc : i.request.Closes os.kernel (s.locals i) (s.baseAtBody i os E)) : ∃ n, ∀ fuel, n ≤ fuel →
    ∃ out s', serve os E fuel s i = some (out, s') ∧ (s.atBody i os E).Step base i out.1 s' := by
  cases hr : i.request with
  | «open» path flags =>
    exact ⟨0, fun _ _ => serve_open hK hg (by rw [hr]; rfl) (by rw [hr]; rfl) (by rw [hr]; rfl)⟩
  | create path flags mode =>
    exact ⟨0, fun _ _ => serve_open hK hg (by rw [hr]; rfl) (by rw [hr]; rfl) (by rw [hr]; rfl)⟩
  | opendir path => exact ⟨0, fun _ _ => serve_opendir hK hg hr⟩
  | release | releasedir =>
    refine ⟨0, fun fuel _ => ?_⟩
    obtain ⟨c, s', -, hs, hstep, -⟩ := serve_closes fuel hK hi hg (by rw [hr]; rfl)
    exact ⟨_, s', hs, hstep _⟩
  | _ =>
    have hk : i.request.opensOrCloses = false := by rw [hr]; rfl
    obtain ⟨n, hn⟩ := body_restores hK hk hg.fileInfo hc
    exact ⟨n, fun fuel hf => serve_restores hg hk (hn fuel hf)⟩

theorem Tracks.serve (hK : FollowsPosix P os base) (hi : s.Tracks base b₀)
    (hg : s.Called os E i) (hc : i.request.Closes os.kernel (s.locals i) (s.baseAtBody i os E))
    (hs : Session.serve os E fuel s i = some (out, s')) :
    (s.atBody i os E).Step base i out.1 s' ∧ s'.Tracks base b₀ := by
  obtain ⟨n, hn⟩ := serve_step hK.toFollows (hi.atBody hK i) hg hc
  obtain ⟨out', s'', hs', hstep⟩ := hn (max n fuel) (Nat.le_max_left n fuel)
  cases (serve_mono hg (Nat.le_max_right n fuel) hs).symm.trans hs'
  exact ⟨hstep, (hi.atBody hK i).step hstep⟩

end Session

end

end UnreliableFS
