import UnreliableFS.Descriptors

/-!
# Descriptors under failing calls

Runs over a kernel whose calls fail in any pattern. The descriptors and directory
streams the daemon holds are those of the live handles after every request, as
long as no failure is one that a body does not clean up after.
-/

namespace UnreliableFS

open Interaction Posix

/-- What is open is that of the live handles, and nothing has changed unless the
operation is one that opens or closes and has not failed. -/
structure Accounted (b₀ : Base) (i : Incoming) (s s' : Session Fallible) (rc : Int) : Prop where
  mapped : Mapped b₀ (s'.onBase Fallible.base)
  unchanged : rc < 0 ∨ i.request.opensOrCloses = false →
    heldSet s'.world.base.base = heldSet s.world.base.base

section
variable (P : Platform) (E : Setup)

def Accounts (b₀ : Base) (s : Session Fallible) (i : Incoming) : Prop :=
  ∃ n, ∀ fuel, n ≤ fuel → ∃ out s', s.serve (falliblePosix P) E fuel i = some (out, s') ∧
    Accounted b₀ i s s' out.1

/-- Failures that leave nothing open and nothing to close: no failed `dirfd` or sync
in `fsyncdir`, no successful open in a `fallocate` without a `fuse_file_info`, and
no failed close of a handle. -/
def Request.Balanced (l : Local) (s : Fallible) : Request → Prop
  | .fsyncdir path _ => Succeeds (fallible P) (.opendir path) s →
    s.failures 1 = none ∧ s.failures 2 = none
  | .fallocate path mode _ _ => mode = 0 → l.fi = none →
    ¬Succeeds (fallible P) (.open path O_WRONLY 0) s
  | .release _ | .releasedir _ => s.failures 0 = none
  | _ => True

variable {P E} {l : Local} {s : Fallible} {r : Request}

theorem fallible_succeeds_iff {c : Sys} : Succeeds (fallible P) c s ↔
    s.failures 0 = none ∧ Succeeds (kernel P) c s.base := by
  unfold Succeeds fallible
  cases s.failures 0 with
  | none => simp
  | some e => simp

theorem synced_iff {b : Base} {a : Nat} {rest : List Dirent} (h : WithDir b s.base a rest)
    (datasync : Bool) : Succeeds (fallible P)
        (syncCall datasync (descriptorOf (fallible P (.dirfd a) s).1)) (fallible P (.dirfd a) s).2 ↔
      s.failures 0 = none ∧ s.failures 1 = none := by
  obtain ⟨fd, d, hdirfd, hdesc⟩ := h.dirfd (P := P)
  rw [fallible_succeeds_iff, fallible_failures, kernel_sync_iff]
  cases hf : s.failures 0 with
  | none =>
    have hd : fallible P (.dirfd a) s = (.done fd .none, ⟨s.base, fun n => s.failures (n + 1)⟩) := by
      simp only [fallible, hf, hdirfd]
    simp [hd, descriptorOf, hdesc]
  | some e =>
    -- the sync is on the descriptor -1
    have hd : (fallible P (.dirfd a) s).1 = .fail e := by simp only [fallible, hf]
    simp [hd, descriptorOf, Base.desc_ok]

theorem fsyncdir_closes_iff (path : CStr) (datasync : Bool) :
    (Request.fsyncdir path datasync).Closes (fallible P) l s ↔
      (Request.fsyncdir path datasync).Balanced P l s := by
  have hK := fallible_follows P
  have hiff {a : Nat} {d : Data} (ha : (fallible P (.opendir path) s).1 = .done a d) :=
    synced_iff (P := P) (hK.opendir_done ha).2.choose_spec datasync
  simp only [fallible_failures] at hiff
  constructor
  · rintro hc ⟨a, d, ha⟩
    exact (hiff ha).mp (hc a d ha)
  · intro hb a d ha
    exact (hiff ha).mpr (hb ⟨a, d, ha⟩)

theorem closes_of_balanced (h : r.Balanced P l s) : r.Closes (fallible P) l s := by
  cases r with
  | fsyncdir path datasync => exact (fsyncdir_closes_iff path datasync).mpr h
  | fallocate path mode offset len => exact h
  | _ => trivial

-- ---------------------------------------------------------------------------
-- Every run
-- ---------------------------------------------------------------------------

variable {b₀ : Base} {t t' : Session Fallible} {i : Incoming} {fuel : Nat} {out : Int × Local}

theorem heldSet_atBody : heldSet (t.baseAtBody i (falliblePosix P) E).base =
    heldSet t.world.base.base := by
  obtain ⟨locks, hb⟩ := (falliblePosix_follows P).atBody E t.world.base i.request.path
  unfold Session.baseAtBody
  rw [hb]
  rfl

theorem accounted_of_step (hi : t.Tracks Fallible.base b₀) {rc : Int}
    (hs : (t.atBody i (falliblePosix P) E).Step Fallible.base i rc t')
    (hrc : i.request.closes = true → rc = 0) :
    Accounted b₀ i t t' rc := by
  have hclosed (hk : i.request.closes = true) : ¬(rc < 0 ∨ i.request.opensOrCloses = false) := by
    simp [hrc hk, hk, Request.opensOrCloses]
  refine ⟨((hi.atBody (falliblePosix_follows P) i).step hs).mapped, fun h => ?_⟩
  cases hs with
  | kept hb hh => exact (heldSet_of_sameOpen hb).trans heldSet_atBody
  | openFile hz hk | openDir hz hk =>
    rw [hk] at h
    simp [hz] at h
  | closeFile hk | closeDir hk => exact absurd h (hclosed hk)

theorem closes_accounts_iff (hi : t.Tracks Fallible.base b₀) (hg : t.Called (falliblePosix P) E i)
    (hclose : i.request.closes = true) :
    Accounts P E b₀ t i ↔ (t.baseAtBody i (falliblePosix P) E).failures 0 = none := by
  have hserve (fuel : Nat) := Session.serve_closes fuel (fallible_follows P)
    (hi.atBody (E := E) (falliblePosix_follows P) i) hg hclose
  cases hf : (t.baseAtBody i (falliblePosix P) E).failures 0 with
  | none =>
    refine iff_of_true ⟨0, fun fuel _ => ?_⟩ rfl
    obtain ⟨c, t', hc, hs, hstep, -⟩ := hserve fuel
    obtain ⟨ret, d, hd⟩ := fallible_succeeds_iff.mpr ⟨hf, hc⟩
    refine ⟨_, t', hs, accounted_of_step hi (hstep _) fun _ => ?_⟩
    rw [show ((falliblePosix P).kernel c _).1 = _ from hd]
    cases hr : i.request with
    | release | releasedir => rfl
    | _ =>
      rw [hr] at hclose
      cases hclose
  | some e =>
    refine iff_of_false ?_ (by simp)
    rintro ⟨n, hn⟩
    obtain ⟨out, t', hs', ha⟩ := hn n (Nat.le_refl n)
    obtain ⟨c, _, -, hs, -, hne⟩ := hserve n
    cases hs.symm.trans hs'
    refine hne ((ha.unchanged (.inl ?_)).trans heldSet_atBody.symm)
    have hc : (fallible P c (t.baseAtBody i (falliblePosix P) E)).1 = .fail e := by
      simp only [fallible, hf]
    rw [show ((falliblePosix P).kernel c _).1 = _ from hc]
    exact Request.finish_fail_neg ..

theorem accounts_iff (hi : t.Tracks Fallible.base b₀) (hg : t.Called (falliblePosix P) E i) :
    Accounts P E b₀ t i ↔
      i.request.Balanced P (t.locals i) (t.baseAtBody i (falliblePosix P) E) := by
  have hK := fallible_follows P
  have haccounts (hclose : i.request.closes = false)
      (hb : i.request.Balanced P (t.locals i) (t.baseAtBody i (falliblePosix P) E)) :
      Accounts P E b₀ t i := by
    obtain ⟨n, hn⟩ := Session.serve_step (fallible_follows P)
      (hi.atBody (falliblePosix_follows P) i) hg (closes_of_balanced hb)
    refine ⟨n, fun fuel hf => ?_⟩
    obtain ⟨out, t', hs, hstep⟩ := hn fuel hf
    refine ⟨out, t', hs, accounted_of_step hi hstep fun h => ?_⟩
    rw [hclose] at h
    cases h
  cases hr : i.request with
  | release | releasedir => exact closes_accounts_iff hi hg (by rw [hr]; rfl)
  | fsyncdir path datasync =>
    refine ⟨?_, fun hb => haccounts (by rw [hr]; rfl) (hr ▸ hb)⟩
    rintro ⟨n, hn⟩
    rw [← fsyncdir_closes_iff]
    by_contra hc
    obtain ⟨out, t', hs, ha⟩ := hn n (Nat.le_refl n)
    have hsame := ha.unchanged (.inr (by rw [hr]; rfl))
    obtain ⟨b', hrun, hw, -⟩ := Session.serve_executed hg.through hs
    rw [hr] at hrun
    obtain ⟨a, rest, hwith⟩ := (fsyncdir_leaks_wp hK path datasync hc).run hrun
    obtain ⟨fd, d, -, -, hstreams⟩ := hwith.opened
    have hmem : a ∈ (heldSet t'.world.base.base).2 := by
      simp [heldSet, hw, hstreams]
    rw [hsame, ← heldSet_atBody (P := P) (E := E) (i := i)] at hmem
    exact hmem hwith.unused
  | fallocate path mode offset len =>
    refine ⟨?_, fun hb => haccounts (by rw [hr]; rfl) (hr ▸ hb)⟩
    rintro ⟨n, hn⟩
    by_contra hc
    obtain ⟨out, t', hs, -⟩ := hn n (Nat.le_refl n)
    obtain ⟨b', hrun, -, -⟩ := Session.serve_executed hg.through hs
    rw [hr] at hrun
    cases (fallocate_stuck path mode offset len hc).symm.trans hrun
  | _ => exact ⟨fun _ => trivial, fun _ => haccounts (by rw [hr]; rfl) (by rw [hr]; trivial)⟩

end

/-- Runs of requests that are let through, with failures that leave nothing to close. -/
def Undisturbed (P : Platform) (E : Setup) (s : Session Fallible) (i : Incoming) : Prop :=
  s.Called (falliblePosix P) E i ∧
    i.request.Balanced P (s.locals i) (s.baseAtBody i (falliblePosix P) E)

/-- In every state of such a run, under any pattern of failures, what is open is that
of the live handles, and one more request accounts for what it does exactly if the
failures it meets are of this kind. -/
theorem descriptors_accounted_iff (P : Platform) (E : Setup) (fuel : Nat) (w : World Fallible)
    (s : Session Fallible) (h : Reachable (Session.serve (falliblePosix P) E fuel) (Undisturbed P E)
      ⟨w, fun _ => none⟩ s) :
    Mapped w.base.base (s.onBase Fallible.base) ∧ ∀ i, s.Called (falliblePosix P) E i →
      (Accounts P E w.base.base s i ↔
        i.request.Balanced P (s.locals i) (s.baseAtBody i (falliblePosix P) E)) := by
  have hi : s.Tracks Fallible.base w.base.base := by
    refine h.invariant (I := Session.Tracks Fallible.base w.base.base) ?_ (.start w)
    rintro s i out s' hi ⟨hg, hb⟩ hs
    exact (hi.serve (falliblePosix_follows P) hg (closes_of_balanced hb) hs).2
  exact ⟨hi.mapped, fun i hg => accounts_iff hi hg⟩

def fourthFails : World Fallible where
  base := ⟨.boot .root, fun n => if n = 3 then some Errno.EIO else none⟩
  errors := none
  draws := fun _ => 0
  caller := none

def opendirRoot : Incoming := ⟨.opendir (ascii "/"), 0, .zero⟩
def fsyncdirRoot : Incoming := ⟨.fsyncdir (ascii "/") false, 0, .zero⟩

def releasedirRoot : Incoming := ⟨.releasedir (ascii "/"), 0, .zero⟩

theorem descriptors_accounted_root : ∃ s : Session Fallible,
    Accounts .twoStreams (smallSetup (ascii "/c")) (.boot .root) s releasedirRoot ∧
    ¬Accounts .twoStreams (smallSetup (ascii "/c")) (.boot .root) s fsyncdirRoot ∧
    s.handles 0 ≠ none := by
  have h : Reachable (Session.serve (falliblePosix .twoStreams) (smallSetup (ascii "/c")) 0)
    (Undisturbed .twoStreams (smallSetup (ascii "/c"))) ⟨fourthFails, fun _ => none⟩
    ⟨fourthFails, fun _ => none⟩ := .refl
  have h := h.step (i := opendirRoot) ⟨⟨fun _ => rfl, by rintro _ ⟨⟩, rfl⟩, trivial⟩ rfl
  have ha := (descriptors_accounted_iff .twoStreams (smallSetup (ascii "/c")) 0 fourthFails _ h).2
  refine ⟨_, (ha releasedirRoot ⟨fun h => absurd rfl h, ?_, rfl⟩).mpr rfl, ?_,
    Option.some_ne_none _⟩
  · rintro _ ⟨⟩
    exact .inl ⟨_, rfl, rfl⟩
  · intro hacc
    have hb := (ha fsyncdirRoot ⟨fun h => absurd rfl h, by rintro _ ⟨⟩; exact .inl ⟨_, rfl, rfl⟩,
      rfl⟩).mp hacc
    cases (hb ⟨_, _, rfl⟩).2

/-- The stream at 8192 stays open after the request. -/
theorem fsyncdir_leaks : ∃ (s s' : Session Fallible) (out : Int × Local),
    Reachable (Session.serve (falliblePosix .twoStreams) (smallSetup (ascii "/c")) 0)
        (Session.Called (falliblePosix .twoStreams) (smallSetup (ascii "/c")))
        ⟨fourthFails, fun _ => none⟩ s ∧
      s.Called (falliblePosix .twoStreams) (smallSetup (ascii "/c")) fsyncdirRoot ∧
      s.serve (falliblePosix .twoStreams) (smallSetup (ascii "/c")) 0 fsyncdirRoot = some (out, s') ∧
      out.1 = -5 ∧ s.world.base.base.streams 8192 = none ∧
      s'.world.base.base.streams 8192 ≠ none ∧
      ¬Mapped fourthFails.base.base (s'.onBase Fallible.base) := by
  have h : Reachable (Session.serve (falliblePosix .twoStreams) (smallSetup (ascii "/c")) 0)
    (Session.Called (falliblePosix .twoStreams) (smallSetup (ascii "/c")))
    ⟨fourthFails, fun _ => none⟩ ⟨fourthFails, fun _ => none⟩ := .refl
  have h := h.step (i := opendirRoot) ⟨fun _ => rfl, by rintro _ ⟨⟩, rfl⟩ rfl
  refine ⟨_, _, _, h, ⟨fun h => absurd rfl h, ?_, rfl⟩, rfl, rfl, rfl, Option.some_ne_none _, fun hm => ?_⟩
  · rintro _ ⟨⟩
    exact .inl ⟨_, rfl, rfl⟩
  · -- the only handle is on the stream at 4096
    obtain ⟨id, ⟨g, hid, -⟩, hfh⟩ := hm.dirs.surjOn (a := 8192) ⟨Option.some_ne_none _, rfl⟩
    have hid' : Function.update (fun _ => none) 0 (some ⟨{ fh := 4096 }, ascii "/", .dir⟩) id =
      some g := hid
    by_cases hz : id = 0
    · subst hz
      have hfh' : 4096 = 8192 := hfh
      cases hfh'
    · simp [hz] at hid'

end UnreliableFS
