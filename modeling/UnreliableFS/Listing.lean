import UnreliableFS.Passthrough
import UnreliableFS.Posix.Fallible
import UnreliableFS.Session

/-!
# What a readdir lists

`unreliable_readdir` passes the entries of a directory to the filler one after the
other. Its loop ends when the directory does, when the filler refuses an entry and
when a `readdir` fails, and the operation returns 0 after each of these.
-/

namespace UnreliableFS

open Interaction Posix

def Dirent.passed (de : Dirent) : Dirent := { de with type := de.type <<< 12 }

/-- What the loop passes to a filler that has `passed` already, of a stream with
these entries left, and what its `readdir` calls return. -/
def listing (filler : Filler) :
    (Nat → Option Errno) → List Dirent → List Dirent → List Dirent × List SysReply
  | failures, passed, [] =>
    (passed, [match failures 0 with | some e => .fail e | none => .done 0 .none])
  | failures, passed, de :: rest =>
    match failures 0 with
    | some e => (passed, [.fail e])
    | none =>
      let more := if filler passed de.passed then (passed ++ [de.passed], [])
        else listing filler (fun n => failures (n + 1)) (passed ++ [de.passed]) rest
      (more.1, .done 1 (.dirent de) :: more.2)

def Filler.AcceptsAfter (filler : Filler) (passed entries : List Dirent) : Prop :=
  ∀ pre de post, entries = pre ++ de :: post → filler (passed ++ pre) de = false

def Filler.Accepts (filler : Filler) (entries : List Dirent) : Prop := filler.AcceptsAfter [] entries

def readReply? {σ : Type} : Event sysSig σ → Option SysReply
  | ⟨_, .readdir _, reply⟩ => some reply
  | _ => none

def readReplies {σ : Type} (calls : List (Event sysSig σ)) : List SysReply :=
  calls.filterMap readReply?

def Posix.Base.listed (b : Base) (path : CStr) : List Dirent :=
  match b.tree.find b.cwd true path with
  | .ok (p, i) => b.entries p i
  | .error _ => []

/-- A listing that has returned `rc` has passed on the entries in order, and all of
them if that is 0. -/
structure CompleteListing (filler : Filler) (entries : List Dirent) (rc : Int)
    (filled : List Dirent) (replies : List SysReply) : Prop where
  inOrder : ∃ n, filled = (entries.take n).map Dirent.passed
  whole : rc = 0 → filled = entries.map Dirent.passed ∧ filler.Accepts filled ∧
    ∃ d, .done 0 d ∈ replies
  refused : ¬filler.Accepts filled → rc < 0
  failed : ∀ e, .fail e ∈ replies → rc < 0

-- ---------------------------------------------------------------------------
-- The loop
-- ---------------------------------------------------------------------------

variable {P : Platform} {filler : Filler} {failures : Nat → Option Errno} {passed rest : List Dirent}
  {l : Local} {s : Fallible} {a fd fuel : Nat}

theorem acceptsAfter_cons {de : Dirent} : filler.AcceptsAfter passed (de :: rest) ↔
    filler passed de = false ∧ filler.AcceptsAfter (passed ++ [de]) rest := by
  constructor
  · intro h
    refine ⟨by simpa using h [] de rest rfl, fun pre de' post hp => ?_⟩
    have hpre := h (de :: pre) de' post (by simp [hp])
    simpa using hpre
  · rintro ⟨hde, hrest⟩ pre de' post hp
    cases pre with
    | nil =>
      cases hp
      simpa using hde
    | cons d pre =>
      cases hp
      simpa using hrest pre de' post rfl

variable (filler failures passed rest) in
theorem listing_inOrder : ∃ n, (listing filler failures passed rest).1 =
    passed ++ (rest.take n).map Dirent.passed := by
  induction rest generalizing failures passed with
  | nil => exact ⟨0, by simp [listing]⟩
  | cons de rest ih =>
    unfold listing
    cases failures 0 with
    | some e => exact ⟨0, by simp⟩
    | none =>
      by_cases hr : filler passed de.passed
      · exact ⟨1, by simp [hr]⟩
      · obtain ⟨n, hn⟩ := ih (fun n => failures (n + 1)) (passed ++ [de.passed])
        exact ⟨n + 1, by simp [hr, hn]⟩

variable (filler failures passed rest) in
theorem listing_whole_iff :
    ((listing filler failures passed rest).1 = passed ++ rest.map Dirent.passed ∧
      filler.AcceptsAfter passed (rest.map Dirent.passed) ∧
      (∃ d, .done 0 d ∈ (listing filler failures passed rest).2) ∧
      ∀ e, .fail e ∉ (listing filler failures passed rest).2) ↔
    (∀ n, n ≤ rest.length → failures n = none) ∧
      filler.AcceptsAfter passed (rest.map Dirent.passed) := by
  induction rest generalizing failures passed with
  | nil =>
    unfold listing
    cases hf : failures 0 with
    | some e => simp [hf]
    | none => simp [hf]
  | cons de rest ih =>
    have hsplit : (∀ n, n ≤ (de :: rest).length → failures n = none) ↔
        failures 0 = none ∧ ∀ n, n ≤ rest.length → failures (n + 1) = none := by
      constructor
      · intro h
        exact ⟨h 0 (Nat.zero_le _), fun n hn => h (n + 1) (Nat.succ_le_succ hn)⟩
      · rintro ⟨h₀, h⟩ n hn
        cases n with
        | zero => exact h₀
        | succ n => exact h n (Nat.le_of_succ_le_succ hn)
    rw [hsplit, List.map_cons, acceptsAfter_cons]
    unfold listing
    cases hf : failures 0 with
    | some e => simp
    | none =>
      cases hr : filler passed de.passed with
      | true => simp
      | false =>
        have h := @ih (fun n => failures (n + 1)) (passed ++ [de.passed])
        simpa using h

theorem fallible_readdir_fail {e : Errno} (hf : s.failures 0 = some e) (dir : Int) :
    fallible P (.readdir dir) s = (.fail e, ⟨s.base, fun n => s.failures (n + 1)⟩) := by
  unfold fallible
  rw [hf]
  rfl

theorem fallible_readdir_end (hf : s.failures 0 = none) {dir : Int}
    (hst : s.base.stream dir = .ok ⟨fd, []⟩) :
    fallible P (.readdir dir) s = (.done 0 .none, ⟨s.base, fun n => s.failures (n + 1)⟩) := by
  unfold fallible
  rw [hf]
  simp only [kernel, Base.readdir, hst]
  rfl

theorem fallible_readdir_next (hf : s.failures 0 = none) {dir : Int} {de : Dirent}
    (hst : s.base.stream dir = .ok ⟨fd, de :: rest⟩) :
    fallible P (.readdir dir) s = (.done 1 (.dirent de),
      ⟨s.base.setStream dir.toNat (some ⟨fd, rest⟩), fun n => s.failures (n + 1)⟩) := by
  unfold fallible
  rw [hf]
  simp only [kernel, Base.readdir, hst]
  rfl

@[simp] theorem readReplies_readdir {σ : Type} (t : σ) (dir : Int) (reply : SysReply)
    (calls : List (Event sysSig σ)) :
    readReplies (⟨t, .readdir dir, reply⟩ :: calls) = reply :: readReplies calls := rfl

def Local.pass (l : Local) (de : Dirent) : Local := { l with de, filled := l.filled ++ [de.passed] }

variable (filler l fuel) in
theorem readdirLoop_next {K : Handler sysSig σ} {t t' : σ} {dir : Int} {de : Dirent}
    (h : K (.readdir dir) t = (.done 1 (.dirent de), t')) :
    (readdirLoop filler dir (fuel + 1) l).run K t =
        ((if filler l.filled de.passed then pure () else readdirLoop filler dir fuel) (l.pass de)).run
          K t' ∧
      (readdirLoop filler dir (fuel + 1) l).trace K t = ⟨t, .readdir dir, .done 1 (.dirent de)⟩ ::
        ((if filler l.filled de.passed then pure () else readdirLoop filler dir fuel) (l.pass de)).trace
          K t' := by
  have hk : (K (.readdir dir) t).1 = .done 1 (.dirent de) := by rw [h]
  simp only [readdirLoop, Body.bind_apply]
  rw [sys_run_done hk, sys_trace_done hk, h]
  exact ⟨rfl, rfl⟩

variable (P filler) in
/-- The loop passes on what is left of its stream, one `readdir` for each entry. -/
theorem readdirLoop_lists (hst : s.base.stream a = .ok ⟨fd, rest⟩) (hfuel : rest.length < fuel) :
    ∃ l' s', (readdirLoop filler a fuel l).run (fallible P) s = some (((), l'), s') ∧
      l'.filled = (listing filler s.failures l.filled rest).1 ∧
      readReplies ((readdirLoop filler a fuel l).trace (fallible P) s) =
        (listing filler s.failures l.filled rest).2 := by
  induction fuel generalizing l s rest with
  | zero => omega
  | succ fuel ih =>
    cases hf : s.failures 0 with
    | some e =>
      have hk : (fallible P (.readdir a) s).1 = .fail e := by rw [fallible_readdir_fail hf]
      simp only [readdirLoop, Body.bind_apply]
      rw [sys_run_fail hk, sys_trace_fail hk, readReplies_readdir]
      refine ⟨_, _, rfl, ?_, ?_⟩
      · cases rest <;> simp [listing, hf, Local.fail]
      · cases rest <;> simp [listing, hf, readReplies]
    | none =>
      cases rest with
      | nil =>
        have hk : (fallible P (.readdir a) s).1 = .done 0 .none := by rw [fallible_readdir_end hf hst]
        simp only [readdirLoop, Body.bind_apply]
        rw [sys_run_done hk, sys_trace_done hk, readReplies_readdir]
        refine ⟨_, _, rfl, ?_, ?_⟩
        · simp [listing, Local.store]
        · simp [listing, hf, readReplies]
      | cons de rest =>
        obtain ⟨hrun, htrace⟩ := readdirLoop_next filler l fuel (fallible_readdir_next (P := P) hf hst)
        rw [hrun, htrace, readReplies_readdir]
        unfold listing
        rw [hf]
        by_cases hr : filler l.filled de.passed
        · simp only [hr, ↓reduceIte]
          exact ⟨_, _, rfl, rfl, rfl⟩
        · simp only [hr, ↓reduceIte, Bool.false_eq_true]
          have hst' : (s.base.setStream (a : Int).toNat (some ⟨fd, rest⟩)).stream a =
              .ok ⟨fd, rest⟩ :=
            Base.stream_ok.mpr ⟨Int.natCast_nonneg a, Function.update_self ..⟩
          obtain ⟨l', s', hrun', hpassed, hreplies⟩ := ih (l := l.pass de)
            (s := ⟨s.base.setStream (a : Int).toNat (some ⟨fd, rest⟩), fun n => s.failures (n + 1)⟩)
            hst' (Nat.lt_of_succ_lt_succ hfuel)
          exact ⟨l', s', hrun', hpassed, congrArg _ hreplies⟩

-- ---------------------------------------------------------------------------
-- The operation
-- ---------------------------------------------------------------------------

variable {path : CStr}

theorem readdir_unopened {e : Errno} (he : (fallible P (.opendir path) s).1 = .fail e) (fuel : Nat) :
    ∃ l' s', (((Request.readdir path filler).operation fuel).body l).run (fallible P) s =
        some ((-(e.code : Int), l'), s') ∧ l'.filled = l.filled ∧
      readReplies ((((Request.readdir path filler).operation fuel).body l).trace (fallible P) s) = [] := by
  simp only [Request.operation, unreliableReaddir, Body.bind_apply]
  rw [sys_run_fail he, sys_trace_fail he]
  exact ⟨_, _, rfl, rfl, rfl⟩

@[simp] theorem filled_store (d : Data) : (l.store d).filled = l.filled := by
  cases d <;> rfl

/-- Whatever `closedir` returns, the operation returns 0. -/
theorem closedir_lists {K : Handler sysSig σ} (t : σ) (dir : Int) :
    ∃ l' t', ((sys (.closedir dir) l >>= fun p => (pure 0 : Body Int) p.2).run K t) =
        some ((0, l'), t') ∧ l'.filled = l.filled ∧
      readReplies ((sys (.closedir dir) l >>= fun p => (pure 0 : Body Int) p.2).trace K t) = [] := by
  rcases hc : (K (.closedir dir) t).1 with e | ⟨ret, d⟩
  · rw [sys_run_fail hc, sys_trace_fail hc]
    exact ⟨_, _, rfl, rfl, rfl⟩
  · rw [sys_run_done hc, sys_trace_done hc]
    exact ⟨_, _, rfl, filled_store d, rfl⟩

variable (filler l) in
theorem readdir_opened (hs : Succeeds (fallible P) (.opendir path) s)
    (hfuel : (s.base.listed path).length < fuel) :
    ∃ l' s', (((Request.readdir path filler).operation fuel).body l).run (fallible P) s =
        some ((0, l'), s') ∧
      l'.filled =
        (listing filler (fun n => s.failures (n + 1)) l.filled (s.base.listed path)).1 ∧
      readReplies ((((Request.readdir path filler).operation fuel).body l).trace (fallible P) s) =
        (listing filler (fun n => s.failures (n + 1)) l.filled (s.base.listed path)).2 := by
  obtain ⟨a, d, hd⟩ := hs
  obtain ⟨hk, hbase⟩ := (fallible_follows P).done hd
  obtain ⟨p, i, fd, hfind, -, -, hpos, -, hopened⟩ := kernel_opendir hk
  have hlisted : s.base.listed path = s.base.entries p i := by
    unfold Base.listed
    rw [hfind]
  obtain ⟨s₁, hs₁⟩ : ∃ s₁, s₁ = (fallible P (.opendir path) s).2 := ⟨_, rfl⟩
  have hfailures : s₁.failures = fun n => s.failures (n + 1) := by
    rw [hs₁]
    funext n
    exact fallible_failures ..
  have hst : s₁.base.stream a = .ok ⟨fd, s.base.listed path⟩ := by
    rw [hs₁, hbase, hopened, hlisted]
    exact Base.stream_ok.mpr ⟨Int.natCast_nonneg a, Function.update_self ..⟩
  obtain ⟨l', s', hrun, hpassed, hreplies⟩ := readdirLoop_lists P filler (l := l.store d) hst hfuel
  rw [hfailures] at hpassed hreplies
  rw [filled_store] at hpassed hreplies
  simp only [Request.operation, unreliableReaddir, Body.bind_apply]
  rw [sys_run_done hd, sys_trace_done hd, ← hs₁]
  simp only [natCast_ne_neg_one, ↓reduceIte, Body.bind_apply]
  rw [Prog.run_bind, hrun, Option.bind_some, Prog.trace_bind _ _ _ hrun]
  obtain ⟨l'', s'', hclose, hfilled, hnone⟩ := closedir_lists (K := fallible P) (l := l') s' a
  refine ⟨l'', s'', hclose, hfilled.trans hpassed, ?_⟩
  change readReplies (_ ++ _) = _
  rw [readReplies, List.filterMap_append, ← readReplies, ← readReplies, hnone, List.append_nil]
  exact hreplies

/-- Wherever the loop has stopped, it has passed on the entries in order, each once. -/
theorem readdir_in_order (hs : Succeeds (fallible P) (.opendir path) s)
    (hfuel : (s.base.listed path).length < fuel) :
    ∃ l' s', (((Request.readdir path filler).operation fuel).body l).run (fallible P) s =
        some ((0, l'), s') ∧
      ∃ n, l'.filled = l.filled ++ ((s.base.listed path).take n).map Dirent.passed := by
  obtain ⟨l', s', hrun, hpassed, -⟩ := readdir_opened filler l hs hfuel
  obtain ⟨n, hn⟩ := listing_inOrder filler (fun n => s.failures (n + 1)) l.filled
    (s.base.listed path)
  exact ⟨l', s', hrun, n, hpassed.trans hn⟩

theorem completeListing_of_neg {entries : List Dirent} {rc : Int} (h : rc < 0) :
    CompleteListing filler entries rc [] [] where
  inOrder := ⟨0, rfl⟩
  whole h₀ := by omega
  refused _ := h
  failed _ _ := h

theorem completeListing_zero_iff {entries : List Dirent} :
    CompleteListing filler entries 0 (listing filler failures [] entries).1
        (listing filler failures [] entries).2 ↔
      (∀ n, n ≤ entries.length → failures n = none) ∧
        filler.Accepts (entries.map Dirent.passed) := by
  have hwhole := listing_whole_iff filler failures [] entries
  rw [List.nil_append] at hwhole
  constructor
  · intro h
    obtain ⟨hfilled, haccepts, hend⟩ := h.whole rfl
    rw [hfilled] at haccepts
    exact hwhole.mp ⟨hfilled, haccepts, hend, fun e he => absurd (h.failed e he) (by decide)⟩
  · intro h
    obtain ⟨hfilled, haccepts, hend, hfailed⟩ := hwhole.mpr h
    have ha : filler.Accepts (listing filler failures [] entries).1 := by
      rw [hfilled]
      exact haccepts
    constructor
    case inOrder => exact ⟨entries.length, by rw [hfilled, List.take_length]⟩
    case whole => exact fun _ => ⟨hfilled, ha, hend⟩
    case refused => exact fun hn => absurd ha hn
    case failed => exact fun e he => absurd he (hfailed e)

section
variable (P : Platform) (E : Setup) (s : Session Fallible) (i : Incoming)

theorem listed_atBody (path : CStr) : (s.baseAtBody i (falliblePosix P) E).base.listed path =
    s.world.base.base.listed path := by
  obtain ⟨locks, hb⟩ := (falliblePosix_follows P).atBody E s.world.base i.request.path
  unfold Session.baseAtBody
  rw [hb]
  rfl

theorem failures_atBody :
    (s.baseAtBody i (falliblePosix P) E).failures = s.world.base.failures :=
  (falliblePosix P).atBody_keeps E (fun b b' => b'.failures = b.failures) (fun _ => rfl)
    (fun _ _ => rfl) s.world.base i.request.path

end

/-- A readdir on which nothing is injected ends, and is complete exactly if the
directory does not open, or no `readdir` up to the end fails and the filler takes
every entry. -/
theorem readdir_complete_iff (P : Platform) (E : Setup) (s : Session Fallible) (i : Incoming)
    (path : CStr) (filler : Filler) (hr : i.request = .readdir path filler)
    (hc : s.code i (falliblePosix P) E = 0) (hm : i.memory.filled = []) :
    ∃ n, ∀ fuel, n ≤ fuel → ∃ out s', s.serve (falliblePosix P) E fuel i = some (out, s') ∧
      (CompleteListing filler (s.world.base.base.listed path) out.1 out.2.filled
          (readReplies (s.calls i (falliblePosix P) E fuel)) ↔
        (Succeeds (fallible P) (.opendir path) (s.baseAtBody i (falliblePosix P) E) →
          (∀ k, k ≤ (s.world.base.base.listed path).length →
            s.world.base.failures (k + 1) = none) ∧
          filler.Accepts ((s.world.base.base.listed path).map Dirent.passed))) := by
  have hl : (s.locals i).filled = [] := hm
  rw [← listed_atBody P E s i, ← failures_atBody P E s i]
  refine ⟨((s.baseAtBody i (falliblePosix P) E).base.listed path).length + 1, fun fuel hfuel => ?_⟩
  rw [Session.serve_body hc, Session.calls_executed hc, hr]
  by_cases hs : Succeeds (fallible P) (.opendir path) (s.baseAtBody i (falliblePosix P) E)
  · obtain ⟨l', s', hrun, hpassed, hreplies⟩ := readdir_opened filler (s.locals i) hs hfuel
    refine ⟨(0, l'), _, congrArg (Option.map _) hrun, ?_⟩
    rw [hl] at hpassed hreplies
    change CompleteListing filler _ 0 l'.filled (readReplies (Prog.trace (fallible P) _ _)) ↔ _
    rw [hreplies, hpassed, completeListing_zero_iff]
    exact ⟨fun h _ => h, fun h => h hs⟩
  · rcases ho : (fallible P (.opendir path) (s.baseAtBody i (falliblePosix P) E)).1 with e | ⟨a, d⟩
    · obtain ⟨l', s', hrun, hpassed, hreplies⟩ := readdir_unopened ho fuel
      refine ⟨(-(e.code : Int), l'), _, congrArg (Option.map _) hrun, ?_⟩
      have hpos := e.pos
      change CompleteListing filler _ (-(e.code : Int)) l'.filled
        (readReplies (Prog.trace (fallible P) _ _)) ↔ _
      rw [hreplies, hpassed, hl]
      exact ⟨fun _ h => absurd h hs, fun _ => completeListing_of_neg (by omega)⟩
    · exact absurd ⟨a, d, ho⟩ hs

def rootSession (failures : Nat → Option Errno) : Session Fallible where
  world := ⟨⟨.boot .root, failures⟩, none, fun _ => 0, none⟩
  handles := fun _ => none

def readdirRoot (filler : Filler) : Incoming := ⟨.readdir (ascii "/") filler, 0, .zero⟩

theorem readdir_complete_root : ∃ fuel out s',
    (rootSession fun _ => none).serve (falliblePosix .small) (smallSetup (ascii "/c")) fuel
        (readdirRoot fun _ _ => false) = some (out, s') ∧
      CompleteListing (fun _ _ => false) ((Base.boot .root).listed (ascii "/")) out.1 out.2.filled
        (readReplies ((rootSession fun _ => none).calls (readdirRoot fun _ _ => false)
          (falliblePosix .small) (smallSetup (ascii "/c")) fuel)) := by
  obtain ⟨n, h⟩ := readdir_complete_iff .small (smallSetup (ascii "/c")) (rootSession fun _ => none)
    (readdirRoot fun _ _ => false) (ascii "/") (fun _ _ => false) rfl (decision_of_none rfl _ _) rfl
  obtain ⟨out, s', hserve, hiff⟩ := h n (Nat.le_refl n)
  exact ⟨n, out, s', hserve, hiff.mpr fun _ => ⟨fun _ _ => rfl, fun _ _ _ _ => rfl⟩⟩

/-- The first `readdir` fails; nothing is listed, and 0 returned. -/
theorem readdir_truncated : ∃ out s',
    (rootSession fun n => if n = 1 then some Errno.EIO else none).serve (falliblePosix .small)
        (smallSetup (ascii "/c")) 9 (readdirRoot fun _ _ => false) = some (out, s') ∧
      out.1 = 0 ∧ out.2.filled = [] ∧
      ¬CompleteListing (fun _ _ => false) ((Base.boot .root).listed (ascii "/")) out.1 out.2.filled
        (readReplies ((rootSession fun n => if n = 1 then some Errno.EIO else none).calls
          (readdirRoot fun _ _ => false) (falliblePosix .small) (smallSetup (ascii "/c")) 9)) := by
  refine ⟨_, _, rfl, rfl, rfl, fun h => ?_⟩
  have hfilled := congrArg List.length (h.whole rfl).1
  exact absurd hfilled (by decide)

end UnreliableFS
