import UnreliableFS.AllOrNothing
import UnreliableFS.Entries

/-!
# The documented probability

The manual promises that an entry of probability 0 never triggers and that one
of probability 100 always does. An entry triggers when a random number from 0 to
100 is at most its probability, kept in an `unsigned int`.
-/

namespace UnreliableFS

open Interaction Posix

-- ---------------------------------------------------------------------------
-- The configured integer
-- ---------------------------------------------------------------------------

def digits? (t : CStr) : Option Nat :=
  if t ≠ [] ∧ t.all isdigit then some (digitsValue t 0) else none

def decimal? : CStr → Option Int
  | 45 :: t => (digits? t).map fun (n : Nat) => -(n : Int)
  | 43 :: t => (digits? t).map fun (n : Nat) => (n : Int)
  | t => (digits? t).map fun (n : Nat) => (n : Int)

/-- The probability the options give to a type, if it is an integer. -/
def configured (options : List ConfOption) (t : ErrinjType) : Option Int :=
  (probabilityText options t).bind decimal?

example : decimal? (ascii "-7") = some (-7) := by decide
example : decimal? (ascii "50%") = none := by decide

theorem strtol_decimal {s : CStr} {c : Int} (h : decimal? s = some c) :
    strtol s = max (-2 ^ 63) (min c (2 ^ 63 - 1)) := by
  have hdigits {t : CStr} {n : Nat} (hn : digits? t = some n) : n = digitsValue t 0 := by
    unfold digits? at hn
    split at hn
    · exact (Option.some.inj hn).symm
    · cases hn
  cases s with
  | nil => cases h
  | cons b t =>
    by_cases h45 : b = 45
    · subst h45
      obtain ⟨n, hn, rfl⟩ := Option.map_eq_some_iff.mp h
      rw [hdigits hn]
      rfl
    · by_cases h43 : b = 43
      · subst h43
        obtain ⟨n, hn, rfl⟩ := Option.map_eq_some_iff.mp h
        rw [hdigits hn]
        rfl
      · have hd : decimal? (b :: t) = (digits? (b :: t)).map fun (n : Nat) => (n : Int) := by
          unfold decimal?
          split <;> simp_all
        obtain ⟨n, hn, rfl⟩ := Option.map_eq_some_iff.mp (hd ▸ h)
        have hb : isdigit b = true := by
          unfold digits? at hn
          split at hn
          · rename_i hall
            exact (List.all_eq_true.mp hall.2) b List.mem_cons_self
          · cases hn
        unfold strtol
        rw [List.dropWhile_cons_of_neg (by simp [isspace_of_isdigit hb]), hdigits hn]
        split <;> simp_all

theorem toUnsigned_atoi {s : CStr} {c : Int} (h : decimal? s = some c) :
    (toUnsigned (atoi s) : Int) = max (-2 ^ 63) (min c (2 ^ 63 - 1)) % 2 ^ 32 := by
  rw [atoi, strtol_decimal h]
  simp only [toUnsigned, toInt, BitVec.toInt_ofInt, Int.bmod]
  omega

/-- An integer that is kept as one that triggers as documented. -/
def Honoured (c : Int) : Prop := 0 < c ∧ (100 ≤ c → 2 ^ 63 ≤ c ∨ 100 ≤ c % 2 ^ 32)

theorem honoured_iff {s : CStr} {c : Int} (h : decimal? s = some c) :
    Honoured c ↔ 0 < c ∧ (100 ≤ c → 100 ≤ toUnsigned (atoi s)) := by
  have hs := toUnsigned_atoi h
  unfold Honoured
  omega

-- ---------------------------------------------------------------------------
-- The entries that trigger
-- ---------------------------------------------------------------------------

def DaemonCall.triggered? : DaemonCall → Option ErrinjType
  | .triggered type _ _ => some type
  | _ => none

variable {β : Type} {os : OS β} {E : Setup}

def lines {α : Type} (os : OS β) (p : Decision α) (w : World β) : List ErrinjType :=
  (p.trace (daemon os) w).filterMap fun e => e.call.triggered?

def World.triggered (os : OS β) (E : Setup) (w : World β) (path : CStr) (op : FuseOp) :
    List ErrinjType :=
  lines os (errorInject E path op) w

theorem lines_bind {α γ : Type} {p : Decision α} {f : α → Decision γ} {w w' : World β} {a : α}
    (h : p.run (daemon os) w = some (a, w')) :
    lines os (p >>= f) w = lines os p w ++ lines os (f a) w' := by
  simp only [lines, Prog.trace_bind _ _ _ h, List.filterMap_append]

theorem act_lines (op : FuseOp) (err : ErrinjConf) (rc : Int) (w : World β) :
    lines os (act E op err rc) w = [] := by
  unfold act
  cases err.type with
  | noop => rfl
  | slowdown => rfl
  | killCaller =>
    simp only [lines, Prog.ask, Prog.call_bind, Prog.done_bind, Prog.trace_call, daemon]
    cases w.caller <;> rfl
  | errno =>
    unfold opRandomErrno
    cases E.build.errnoTable op <;> rfl

theorem daemon_keeps_draws {D : Nat → Prop} (c : DaemonCall) (w : World β) (h : ∀ n, D (w.draws n))
    (n : Nat) : D ((daemon os c w).2.draws n) := by
  cases c with
  | rand => exact h (n + 1)
  | _ => exact h n

variable (os E) in
theorem injectEach_cons_lines {D : Nat → Prop} (path : CStr) (op : FuseOp) (err : ErrinjConf)
    (rest : List ErrinjConf) (rc : Int) (w : World β) (hd : ∀ n, D (w.draws n)) :
    ∃ rc' w', (∀ n, D (w'.draws n)) ∧
      lines os (injectEach E path op (err :: rest) rc) w =
        (if Triggers E path op err (w.draws 0) then [err.type] else []) ++
          lines os (injectEach E path op rest rc') w' := by
  have hd₁ : ∀ n, D (w.drawn.draws n) := fun n => hd (n + 1)
  by_cases ht : Triggers E path op err (w.draws 0)
  · obtain ⟨rc', draws', hact⟩ := act_run os E op err rc w.drawn.draws
    have hrun := hact w.drawn rfl
    refine ⟨rc', w.drawn.withDraws draws', ?_, ?_⟩
    · exact Prog.run_keeps (I := fun w => ∀ n, D (w.draws n)) _ daemon_keeps_draws _ hd₁ hrun
    · have hlines := lines_bind (f := injectEach E path op rest) hrun
      rw [act_lines, List.nil_append] at hlines
      rw [if_pos ht, ← hlines]
      simp only [injectEach, randRange, lines, Prog.ask, Prog.call_bind, Prog.pure_eq,
        Prog.done_bind, Prog.trace_call, daemon, ht.1, ht.2, not_true_eq_false, ↓reduceIte]
      rfl
  · refine ⟨rc, w.drawn, hd₁, ?_⟩
    rw [if_neg ht]
    by_cases hp : (w.draws 0 : Int) % (MAX_PROBABLITY - MIN_PROBABLITY + 1) + MIN_PROBABLITY ≤
        err.probability
    · have hm : matches_ E err path op = false := by
        by_contra hm
        exact ht ⟨hp, by simpa using hm⟩
      simp only [injectEach, randRange, lines, Prog.ask, Prog.call_bind, Prog.pure_eq,
        Prog.done_bind, Prog.trace_call, daemon, hp, hm, not_true_eq_false, not_false_eq_true,
        Bool.false_eq_true, ↓reduceIte]
      rfl
    · simp only [injectEach, randRange, lines, Prog.ask, Prog.call_bind, Prog.pure_eq,
        Prog.done_bind, Prog.trace_call, daemon, hp, not_false_eq_true, ↓reduceIte]
      rfl

theorem triggers_of_mem_lines {D : Nat → Prop} {path : CStr} {op : FuseOp}
    {errors : List ErrinjConf} {rc : Int} {w : World β} {t : ErrinjType} (hd : ∀ n, D (w.draws n))
    (ht : t ∈ lines os (injectEach E path op errors rc) w) :
    ∃ err ∈ errors, err.type = t ∧ ∃ r, D r ∧ Triggers E path op err r := by
  induction errors generalizing rc w with
  | nil => simp [lines, injectEach] at ht
  | cons err rest ih =>
    obtain ⟨rc', w', hd', hl⟩ := injectEach_cons_lines os E path op err rest rc w hd
    rw [hl] at ht
    obtain ht | ht := List.mem_append.mp ht
    · by_cases h : Triggers E path op err (w.draws 0)
      · rw [if_pos h] at ht
        exact ⟨err, List.mem_cons_self, (List.mem_singleton.mp ht).symm, _, hd 0, h⟩
      · simp [h] at ht
    · obtain ⟨e, hm, he⟩ := ih hd' ht
      exact ⟨e, List.mem_cons_of_mem _ hm, he⟩

theorem mem_lines_of_triggers {D : Nat → Prop} {path : CStr} {op : FuseOp}
    {errors : List ErrinjConf} {rc : Int} {w : World β} {err : ErrinjConf}
    (hd : ∀ n, D (w.draws n)) (hm : err ∈ errors) (ht : ∀ r, D r → Triggers E path op err r) :
    err.type ∈ lines os (injectEach E path op errors rc) w := by
  induction errors generalizing rc w with
  | nil => cases hm
  | cons e rest ih =>
    obtain ⟨rc', w', hd', hl⟩ := injectEach_cons_lines os E path op e rest rc w hd
    rw [hl, List.mem_append]
    obtain rfl | hm := List.mem_cons.mp hm
    · exact .inl (by simp [ht _ (hd 0)])
    · exact .inr (ih hd' hm)

theorem triggered_eq {path : CStr} (hp : path ≠ E.configPath) {w : World β}
    {errors : List ErrinjConf} (hw : w.errors = some errors) (op : FuseOp) :
    w.triggered os E path op = lines os (injectEach E path op errors 0) w := by
  obtain ⟨rc, draws', h⟩ := injectEach_run os E path op errors 0 w.draws
  have hl := lines_bind (f := fun rc => Prog.call (S := daemonSig) .unlock fun _ => Prog.done rc)
    (h w rfl)
  have he : lines os (Prog.call (S := daemonSig) .unlock fun _ => Prog.done rc)
      (w.withDraws draws') = [] := rfl
  rw [he, List.append_nil] at hl
  rw [← hl]
  unfold World.triggered errorInject
  simp only [hp, lines, ↓reduceIte, Prog.ask, Prog.call_bind, Prog.done_bind, Prog.trace_call,
    daemon, hw]
  rfl

variable (os) in
theorem injectEach_unmatched {path : CStr} {op : FuseOp} {errors : List ErrinjConf}
    (h : ∀ err ∈ errors, matches_ E err path op = false) (rc : Int) (w : World β) :
    ∃ w', (injectEach E path op errors rc).run (daemon os) w = some (rc, w') := by
  induction errors generalizing w with
  | nil => exact ⟨w, rfl⟩
  | cons err rest ih =>
    have ht : ¬Triggers E path op err (w.draws 0) := fun ht =>
      absurd ht.2 (by simp [h err List.mem_cons_self])
    rw [injectEach_cons_run, if_neg ht]
    exact ih (fun e hm => h e (List.mem_cons_of_mem _ hm)) _

-- ---------------------------------------------------------------------------
-- What the manual says
-- ---------------------------------------------------------------------------

/-- The manual's account of one decision under the list of some options. -/
structure Documented (os : OS β) (E : Setup) (options : List ConfOption) (w : World β)
    (path : CStr) (op : FuseOp) : Prop where
  never : ∀ e ∈ entries options, ∀ c, configured options e.type = some c → c ≤ 0 →
    e.type ∉ w.triggered os E path op
  always : ∀ e ∈ entries options, ∀ c, configured options e.type = some c → 100 ≤ c →
    matches_ E e path op = true → e.type ∈ w.triggered os E path op
  passThrough : (∀ e ∈ entries options, configured options e.type = some 0) →
    w.triggered os E path op = [] ∧ w.decision os E path op = 0

/-- Every entry that matches is kept as one that triggers as documented. -/
def KeptWell (E : Setup) (options : List ConfOption) (path : CStr) (op : FuseOp) : Prop :=
  ∀ e ∈ entries options, ∀ c, configured options e.type = some c →
    matches_ E e path op = true → Honoured c

section
variable {options : List ConfOption} {w : World β} {path : CStr} {op : FuseOp}
  (hp : path ≠ E.configPath) (hw : w.errors = some (entries options))

include hp hw

theorem keptWell_of_documented
    (h : ∀ draws, Documented os E options (w.withDraws draws) path op) :
    KeptWell E options path op := by
  intro e he c hc hm
  obtain ⟨value, hv, hval⟩ := Option.bind_eq_some_iff.mp hc
  have hprob := probability_of_mem he hv
  refine (honoured_iff hval).mpr ⟨?_, fun h100 => ?_⟩
  · -- it triggers when every number drawn is 0
    by_contra hle
    have hw₀ : (w.withDraws fun _ => 0).errors = some (entries options) := hw
    refine (h fun _ => 0).never e he c hc (by omega) ?_
    rw [triggered_eq hp hw₀]
    refine mem_lines_of_triggers (D := (· = 0)) (fun _ => rfl) he ?_
    rintro _ rfl
    refine ⟨?_, hm⟩
    unfold MAX_PROBABLITY MIN_PROBABLITY
    omega
  · -- and only if its probability is at least 100 when every number is 100
    have hw₁ : (w.withDraws fun _ => 100).errors = some (entries options) := hw
    have ht := (h fun _ => 100).always e he c hc h100 hm
    rw [triggered_eq hp hw₁] at ht
    obtain ⟨e', he', ht', _, rfl, hr⟩ := triggers_of_mem_lines (D := (· = 100)) (fun _ => rfl) ht
    obtain rfl := eq_of_type_eq he' he ht'
    have := hr.1
    unfold MAX_PROBABLITY MIN_PROBABLITY at this
    omega

theorem documented_of_keptWell (h : KeptWell E options path op) :
    Documented os E options w path op where
  never e he c hc hle ht := by
    rw [triggered_eq hp hw] at ht
    obtain ⟨e', he', ht', r, -, hr⟩ := triggers_of_mem_lines (D := fun _ => True)
      (fun _ => trivial) ht
    obtain rfl := eq_of_type_eq he' he ht'
    have := (h e' he c hc hr.2).1
    omega
  always e he c hc h100 hm := by
    obtain ⟨value, hv, hval⟩ := Option.bind_eq_some_iff.mp hc
    have hprob := probability_of_mem he hv
    have hkept := ((honoured_iff hval).mp (h e he c hc hm)).2 h100
    rw [triggered_eq hp hw]
    refine mem_lines_of_triggers (D := fun _ => True) (fun _ => trivial) he fun r _ => ⟨?_, hm⟩
    unfold MAX_PROBABLITY MIN_PROBABLITY
    omega
  passThrough h₀ := by
    have hnone : ∀ e ∈ entries options, matches_ E e path op = false := fun e he => by
      by_contra hm
      have := (h e he 0 (h₀ e he) (by simpa using hm)).1
      omega
    constructor
    · rw [triggered_eq hp hw]
      refine List.eq_nil_iff_forall_not_mem.mpr fun t ht => ?_
      obtain ⟨e, he, -, r, -, hr⟩ := triggers_of_mem_lines (D := fun _ => True)
        (fun _ => trivial) ht
      exact absurd hr.2 (by simp [hnone e he])
    · obtain ⟨w', hr⟩ := injectEach_unmatched os hnone 0 w
      unfold World.decision errorInject
      simp only [hp, ↓reduceIte, Prog.ask, Prog.call_bind, Prog.done_bind, Prog.run_call, daemon,
        hw, Prog.run_bind, hr]
      rfl

end

def Configured (errors : Option (List ErrinjConf)) : Prop :=
  errors = none ∨ ∃ options, errors = some (entries options)

theorem configured_loaded (b : β) (path : CStr) : Configured (os.loaded b path) := by
  unfold OS.loaded
  split
  · cases os.slurp b path with
    | none => exact .inl rfl
    | some bytes => exact .inr ⟨Conf.iniOptions bytes, rfl⟩
  · exact .inr ⟨[], rfl⟩

theorem configured_of_reachable {fuel : Nat} {s₀ s : Session β}
    (h₀ : s₀.world.errors = os.loaded s₀.world.base E.configPath)
    (h : Reachable (Session.serve os E fuel) (fun _ _ => True) s₀ s) :
    Configured s.world.errors := by
  refine h.invariant (I := fun s => Configured s.world.errors) (fun s i out s' hs _ hstep => ?_)
    (h₀ ▸ configured_loaded _ _)
  rw [Session.serve_errors hstep]
  split
  · exact configured_loaded _ _
  · exact hs

/-- In every state of a run the list in force is one that options make, and an
operation is decided as documented, whatever is drawn, exactly if every entry
that matches it is kept well. -/
theorem probability_documented_iff (os : OS β) (E : Setup) (fuel : Nat) {s₀ s : Session β}
    (h₀ : s₀.world.errors = os.loaded s₀.world.base E.configPath)
    (h : Reachable (Session.serve os E fuel) (fun _ _ => True) s₀ s) :
    Configured s.world.errors ∧ ∀ options, s.world.errors = some (entries options) →
      ∀ i : Incoming, i.request.path ≠ E.configPath →
        ((∀ draws, Documented os E options (s.world.withDraws draws) i.request.path i.request.op) ↔
          KeptWell E options i.request.path i.request.op) := by
  exact ⟨configured_of_reachable h₀ h, fun options hw i hp =>
    ⟨keptWell_of_documented hp hw, fun hk draws => documented_of_keptWell hp hw hk⟩⟩

def configTree (bytes : List UInt8) : Tree where
  names := [([ascii "c"], 1), ([], 0)]
  node := fun i => if i = 1 then { content := .regular bytes } else { content := .directory }
  next := 2
  lt_next := by decide

def hundred : List UInt8 := ascii "[errinj_noop]\nprobability = 100\n"

theorem documented_hundred : Documented (posix .small) (smallSetup (ascii "/c"))
    (Conf.iniOptions hundred)
    ((bootWorld (configTree hundred) (some (entries (Conf.iniOptions hundred)))).withDraws id)
    (ascii "/d") .mkdir := by
  let s : Session Base :=
    ⟨bootWorld (configTree hundred) (some (entries (Conf.iniOptions hundred))), fun _ => none⟩
  have h₀ : s.world.errors = (posix .small).loaded s.world.base (ascii "/c") := by decide
  have hp : (Incoming.mk (.mkdir (ascii "/d") 0o755) 0 .zero).request.path ≠ ascii "/c" := by decide
  refine ((probability_documented_iff (posix .small) (smallSetup (ascii "/c")) 0 h₀ .refl).2 _ rfl
    _ hp).mpr ?_ id
  have he : entries (Conf.iniOptions hundred) = [{ type := .noop, probability := 100 }] := by decide
  have hc : configured (Conf.iniOptions hundred) .noop = some 100 := by decide
  intro e hm c hcfg _
  rw [he] at hm
  obtain rfl := List.mem_singleton.mp hm
  obtain rfl := Option.some.inj (hc.symm.trans hcfg)
  exact ⟨by decide, fun _ => .inr (by decide)⟩

def zeroPercent : List UInt8 := ascii "[errinj_noop]\nprobability = 0\n"

/-- With a probability of 0 a directory is not made when 0 is drawn. -/
theorem not_documented_zero : ∃ s : Session Base,
    s.world.errors = (posix .small).loaded s.world.base (ascii "/c") ∧
    s.world.errors = some (entries (Conf.iniOptions zeroPercent)) ∧
    (∀ e ∈ entries (Conf.iniOptions zeroPercent),
      configured (Conf.iniOptions zeroPercent) e.type = some 0) ∧
    s.world.triggered (posix .small) (smallSetup (ascii "/c")) (ascii "/d") .mkdir = [.noop] ∧
    s.world.decision (posix .small) (smallSetup (ascii "/c")) (ascii "/d") .mkdir = -ERRNO_NOOP := by
  refine ⟨⟨bootWorld (configTree zeroPercent) (some (entries (Conf.iniOptions zeroPercent))),
    fun _ => none⟩, ?_, rfl, ?_, ?_, ?_⟩
  all_goals decide

end UnreliableFS
