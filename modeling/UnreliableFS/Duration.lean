import UnreliableFS.Decision
import UnreliableFS.Probability

/-!
# How long a slowdown lasts

The manual gives the duration of a slowdown in nanoseconds. It is kept in an
`unsigned int` and passed to `nanosleep` as the nanoseconds of a `timespec`,
whose seconds are 0.
-/

namespace UnreliableFS

open Interaction Posix

/-- How long `nanosleep` sleeps if no signal interrupts it; it refuses an interval
with more nanoseconds than a second has. -/
def sleepTime (sec nsec : Nat) : Option Nat :=
  if nsec < 1000000000 then some (sec * 1000000000 + nsec) else none

/-- The duration the options give to the slowdowns, if it is an integer. -/
def configuredDuration (options : List ConfOption) : Option Int :=
  (lastValue options (errinjName .slowdown) (ascii "duration")).bind decimal?

def Visit.Sleeps (E : Setup) (path : CStr) (op : FuseOp) (caller : Option Int) (v : Visit)
    (n : Nat) : Prop :=
  ∃ sec nsec, v.acts E path op caller = [.nanosleep sec nsec] ∧ sleepTime sec nsec = some n

theorem duration_of_mem {options : List ConfOption} {e : ErrinjConf} (he : e ∈ entries options)
    (ht : e.type = .slowdown) {n : Nat} (hn : configuredDuration options = some (n : Int)) :
    (e.duration : Int) = min n (2 ^ 63 - 1) % 2 ^ 32 := by
  obtain ⟨value, hv, hval⟩ := Option.bind_eq_some_iff.mp hn
  have hd := (entries_denotes options).duration e he
  rw [ht, hv] at hd
  have hu := toUnsigned_atoi hval
  rw [hd, Option.elim_some, hu]
  omega

theorem acts_slowdown {E : Setup} {path : CStr} {op : FuseOp} {v : Visit}
    (hv : v.Triggered E path op) (ht : v.entry.type = .slowdown) (caller : Option Int) :
    v.acts E path op caller = [.nanosleep 0 v.entry.duration] := by
  unfold Visit.acts
  rw [if_pos hv, ht]

theorem sleeps_iff {E : Setup} {path : CStr} {op : FuseOp} {v : Visit}
    (hv : v.Triggered E path op) (ht : v.entry.type = .slowdown) {caller : Option Int} {n : Nat} :
    v.Sleeps E path op caller n ↔ v.entry.duration < 1000000000 ∧ v.entry.duration = n := by
  unfold Visit.Sleeps
  rw [acts_slowdown hv ht]
  constructor
  · rintro ⟨sec, nsec, ha, hs⟩
    cases ha
    unfold sleepTime at hs
    split at hs
    · rename_i hlt
      have hn := Option.some.inj hs
      omega
    · cases hs
  · rintro ⟨hlt, rfl⟩
    refine ⟨0, _, rfl, ?_⟩
    unfold sleepTime
    rw [if_pos hlt, Nat.zero_mul, Nat.zero_add]

/-- In every state of a run the list in force is one that options make, and every
slowdown that triggers lasts as long as they say exactly if that is less than a
second. -/
theorem slowdown_lasts_iff (os : OS β) (E : Setup) (fuel : Nat) {s₀ s : Session β}
    (h₀ : s₀.world.errors = os.loaded s₀.world.base E.configPath)
    (h : Reachable (Session.serve os E fuel) (fun _ _ => True) s₀ s) :
    Configured s.world.errors ∧ ∀ options, s.world.errors = some (entries options) →
      ∀ n : Nat, configuredDuration options = some (n : Int) →
      ∀ i : Incoming, i.request.path ≠ E.configPath →
        (Decision.calls os (errorInject E i.request.path i.request.op) s.world).filter
            DaemonCall.isAct =
          (visits E i.request.path i.request.op (entries options) s.world.draws).flatMap
            (Visit.acts E i.request.path i.request.op · s.world.caller) ∧
        ∀ v ∈ visits E i.request.path i.request.op (entries options) s.world.draws,
          v.Triggered E i.request.path i.request.op → v.entry.type = .slowdown →
          (v.Sleeps E i.request.path i.request.op s.world.caller n ↔ n < 1000000000) := by
  refine ⟨configured_of_reachable h₀ h, fun options hw n hn i hp =>
    ⟨errorInject_acts os i.request.op hp hw, fun v hm hv ht => ?_⟩⟩
  have he : v.entry ∈ entries options := by
    have hmem := List.mem_map_of_mem (f := Visit.entry) hm
    rwa [visits_entry] at hmem
  have hd := duration_of_mem he ht hn
  rw [sleeps_iff hv ht]
  omega

def halfMicrosecond : List UInt8 := ascii "[errinj_slowdown]\nprobability = 100\nduration = 500\n"

theorem slowdown_lasts_500 : (visit (smallSetup (ascii "/c")) (ascii "/d") .mkdir
    { type := .slowdown, probability := 100, duration := 500 } fun _ => 0).Sleeps
      (smallSetup (ascii "/c")) (ascii "/d") .mkdir none 500 := by
  let s : Session Base := ⟨bootWorld (configTree halfMicrosecond)
    (some (entries (Conf.iniOptions halfMicrosecond))), fun _ => none⟩
  have h₀ : s.world.errors = (posix .small).loaded s.world.base (ascii "/c") := by decide
  have hp : (Incoming.mk (.mkdir (ascii "/d") 0o755) 0 .zero).request.path ≠ ascii "/c" := by decide
  have hl := (slowdown_lasts_iff (posix .small) (smallSetup (ascii "/c")) 0 h₀ .refl).2 _ rfl 500
    (by decide) _ hp
  exact (hl.2 _ List.mem_cons_self (by decide) (by decide)).mpr (by decide)

def oneSecond : List UInt8 :=
  ascii "[errinj_slowdown]\nprobability = 100\nduration = 1000000000\n"

/-- A slowdown of a second is refused and delays nothing. -/
theorem slowdown_of_second_refused : ∃ s : Session Base,
    s.world.errors = (posix .small).loaded s.world.base (ascii "/c") ∧
    s.world.errors = some (entries (Conf.iniOptions oneSecond)) ∧
    configuredDuration (Conf.iniOptions oneSecond) = some 1000000000 ∧
    (Decision.calls (posix .small) (errorInject (smallSetup (ascii "/c")) (ascii "/d") .mkdir)
      s.world).filter DaemonCall.isAct = [.nanosleep 0 1000000000] ∧
    sleepTime 0 1000000000 = none := by
  refine ⟨⟨bootWorld (configTree oneSecond) (some (entries (Conf.iniOptions oneSecond))),
    fun _ => none⟩, by decide, rfl, by decide, ?_, by decide⟩
  rw [errorInject_acts _ _ (by decide) rfl]
  rfl

end UnreliableFS
