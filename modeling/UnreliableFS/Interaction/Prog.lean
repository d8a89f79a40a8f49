/-!
# Programs over an environment of calls

A `Prog S α` is a finite tree of calls drawn from the signature `S`, each
followed by one continuation per reply, ending in an `α`. It says what a piece
of code asks of its environment and in which order; what the answers are is
left to a `Handler`. `run` interprets a program in a handler, `trace` records
the calls made with the state each was made in. `stuck` stands for undefined
behaviour: a program that reaches it has no result.

`Handler.sum` and `Handler.focus` build the handler of a larger system from
those of its parts, and the rules at the end carry a fact about single calls
to whole programs.
-/

namespace Interaction

structure Sig where
  Call : Type
  Reply : Call → Type

inductive Prog (S : Sig) (α : Type) : Type
  | done (a : α)
  | call (c : S.Call) (k : S.Reply c → Prog S α)
  | stuck

/-- One deterministic environment with state `σ`. -/
abbrev Handler (S : Sig) (σ : Type) := (c : S.Call) → σ → S.Reply c × σ

structure Event (S : Sig) (σ : Type) where
  state : σ
  call : S.Call
  reply : S.Reply call

namespace Prog

variable {S T : Sig} {σ τ : Type} {α β γ : Type}

def bind : Prog S α → (α → Prog S β) → Prog S β
  | .done a, f => f a
  | .call c k, f => .call c fun r => (k r).bind f
  | .stuck, _ => .stuck

instance : Monad (Prog S) where
  pure := .done
  bind := bind

@[simp] theorem pure_eq (a : α) : (pure a : Prog S α) = .done a := rfl
@[simp] theorem done_bind (a : α) (f : α → Prog S β) : Prog.done a >>= f = f a := rfl
@[simp] theorem call_bind (c : S.Call) (k : S.Reply c → Prog S α) (f : α → Prog S β) :
    Prog.call c k >>= f = .call c fun r => k r >>= f := rfl
@[simp] theorem stuck_bind (f : α → Prog S β) : (Prog.stuck : Prog S α) >>= f = .stuck := rfl

theorem bind_assoc (p : Prog S α) (f : α → Prog S β) (g : β → Prog S γ) :
    p >>= f >>= g = p >>= fun a => f a >>= g := by
  induction p with
  | done a => rfl
  | call c k ih => simp only [call_bind, ih]
  | stuck => rfl

theorem bind_done (p : Prog S α) : p >>= Prog.done = p := by
  induction p with
  | done a => rfl
  | call c k ih => simp only [call_bind, ih]
  | stuck => rfl

instance : LawfulMonad (Prog S) :=
  LawfulMonad.mk' _ (fun p => bind_done p) (fun _ _ => rfl) bind_assoc

def ask (c : S.Call) : Prog S (S.Reply c) := .call c .done

-- ---------------------------------------------------------------------------
-- Interpretation
-- ---------------------------------------------------------------------------

def run (h : Handler S σ) : Prog S α → σ → Option (α × σ)
  | .done a, s => some (a, s)
  | .call c k, s => (k (h c s).1).run h (h c s).2
  | .stuck, _ => none

def trace (h : Handler S σ) : Prog S α → σ → List (Event S σ)
  | .done _, _ => []
  | .call c k, s => ⟨s, c, (h c s).1⟩ :: (k (h c s).1).trace h (h c s).2
  | .stuck, _ => []

@[simp] theorem run_done (h : Handler S σ) (a : α) (s : σ) : (Prog.done a).run h s = some (a, s) := rfl
@[simp] theorem run_call (h : Handler S σ) (c : S.Call) (k : S.Reply c → Prog S α) (s : σ) :
    (Prog.call c k).run h s = (k (h c s).1).run h (h c s).2 := rfl
@[simp] theorem run_stuck (h : Handler S σ) (s : σ) : (Prog.stuck : Prog S α).run h s = none := rfl
@[simp] theorem trace_done (h : Handler S σ) (a : α) (s : σ) : (Prog.done a).trace h s = [] := rfl
@[simp] theorem trace_call (h : Handler S σ) (c : S.Call) (k : S.Reply c → Prog S α) (s : σ) :
    (Prog.call c k).trace h s =
      ⟨s, c, (h c s).1⟩ :: (k (h c s).1).trace h (h c s).2 := rfl
@[simp] theorem trace_stuck (h : Handler S σ) (s : σ) : (Prog.stuck : Prog S α).trace h s = [] := rfl

theorem run_bind (h : Handler S σ) (p : Prog S α) (f : α → Prog S β) (s : σ) :
    (p >>= f).run h s = (p.run h s).bind fun r => (f r.1).run h r.2 := by
  induction p generalizing s with
  | done a => rfl
  | call c k ih => simp only [call_bind, run_call, ih]
  | stuck => rfl

theorem trace_bind (h : Handler S σ) (p : Prog S α) (f : α → Prog S β) (hp : p.run h s = some (a, s')) :
    (p >>= f).trace h s = p.trace h s ++ (f a).trace h s' := by
  induction p generalizing s with
  | done b => simp at hp; simp [hp]
  | call c k ih => simp only [call_bind, trace_call, List.cons_append, ih _ hp]
  | stuck => simp at hp

-- ---------------------------------------------------------------------------
-- Sums of environments
-- ---------------------------------------------------------------------------

end Prog

abbrev Sig.sum (S T : Sig) : Sig where
  Call := S.Call ⊕ T.Call
  Reply := fun | .inl c => S.Reply c | .inr c => T.Reply c

def Handler.sum (h : Handler S σ) (g : Handler T σ) : Handler (S.sum T) σ
  | .inl c, s => h c s
  | .inr c, s => g c s

namespace Prog

variable {S T : Sig} {σ τ : Type} {α β γ : Type}

def inl : Prog S α → Prog (S.sum T) α
  | .done a => .done a
  | .call c k => .call (Sum.inl c : (S.sum T).Call) fun r => (k r).inl
  | .stuck => .stuck

def inr : Prog T α → Prog (S.sum T) α
  | .done a => .done a
  | .call c k => .call (Sum.inr c : (S.sum T).Call) fun r => (k r).inr
  | .stuck => .stuck

@[simp] theorem run_inl (h : Handler S σ) (g : Handler T σ) (p : Prog S α) (s : σ) :
    (p.inl : Prog (S.sum T) α).run (h.sum g) s = p.run h s := by
  induction p generalizing s with
  | done a => rfl
  | call c k ih => exact ih _ _
  | stuck => rfl

@[simp] theorem run_inr (h : Handler S σ) (g : Handler T σ) (p : Prog T α) (s : σ) :
    (p.inr : Prog (S.sum T) α).run (h.sum g) s = p.run g s := by
  induction p generalizing s with
  | done a => rfl
  | call c k ih => exact ih _ _
  | stuck => rfl

end Prog

def Event.right? {S T : Sig} {σ : Type} : Event (S.sum T) σ → Option (Event T σ)
  | ⟨_, .inl _, _⟩ => none
  | ⟨s, .inr c, r⟩ => some ⟨s, c, r⟩

namespace Prog

variable {S T : Sig} {σ τ : Type} {α β γ : Type}

theorem right_trace_inl (h : Handler S σ) (g : Handler T σ) (p : Prog S α) (s : σ) :
    ((p.inl : Prog (S.sum T) α).trace (h.sum g) s).filterMap Event.right? = [] := by
  induction p generalizing s with
  | done a => rfl
  | call c k ih => exact ih _ _
  | stuck => rfl

theorem right_trace_inr (h : Handler S σ) (g : Handler T σ) (p : Prog T α) (s : σ) :
    ((p.inr : Prog (S.sum T) α).trace (h.sum g) s).filterMap Event.right? = p.trace g s := by
  induction p generalizing s with
  | done a => rfl
  | call c k ih => exact congrArg (_ :: ·) (ih _ _)
  | stuck => rfl

end Prog

-- ---------------------------------------------------------------------------
-- Environments over a part of the state
-- ---------------------------------------------------------------------------

/-- A part `τ` of a state `σ` that can be read and replaced. -/
structure Part (σ τ : Type) where
  get : σ → τ
  put : τ → σ → σ
  get_put : ∀ t s, get (put t s) = t
  put_get : ∀ s, put (get s) s = s
  put_put : ∀ t u s, put t (put u s) = put t s

def Handler.focus (P : Part σ τ) (h : Handler S τ) : Handler S σ :=
  fun c s => ((h c (P.get s)).1, P.put (h c (P.get s)).2 s)

def Event.onPart (P : Part σ τ) (e : Event S σ) : Event S τ := ⟨P.get e.state, e.call, e.reply⟩

namespace Prog

variable {S T : Sig} {σ τ : Type} {α β γ : Type}

theorem trace_focus (P : Part σ τ) (h : Handler S τ) (p : Prog S α) (s : σ) :
    (p.trace (h.focus P) s).map (Event.onPart P) = p.trace h (P.get s) := by
  induction p generalizing s with
  | done a => rfl
  | call c k ih =>
    simp only [trace_call, List.map_cons, ih, Handler.focus, P.get_put]
    rfl
  | stuck => rfl

theorem run_focus (P : Part σ τ) (h : Handler S τ) (p : Prog S α) (s : σ) :
    p.run (h.focus P) s = (p.run h (P.get s)).map fun r => (r.1, P.put r.2 s) := by
  induction p generalizing s with
  | done a => simp [P.put_get]
  | call c k ih => simp only [run_call, Handler.focus] at ih ⊢; rw [ih]; simp [P.get_put, P.put_put]
  | stuck => rfl

-- ---------------------------------------------------------------------------
-- Rules
-- ---------------------------------------------------------------------------

/-- What the calls of a run keep, the run keeps. -/
theorem run_keeps_of_trace {I : σ → Prop} (h : Handler S σ) (p : Prog S α)
    (hI : ∀ e ∈ p.trace h s, I e.state → I (h e.call e.state).2) (hs : I s)
    (hr : p.run h s = some (a, s')) : I s' := by
  induction p generalizing s with
  | done b => simp at hr; exact hr.2 ▸ hs
  | call c k ih =>
    have hc : I (h c s).2 := hI _ List.mem_cons_self hs
    exact ih _ (fun e he => hI e (List.mem_cons_of_mem _ he)) hc hr
  | stuck => simp at hr

theorem run_keeps {I : σ → Prop} (h : Handler S σ) (hI : ∀ c s, I s → I (h c s).2) (p : Prog S α)
    (hs : I s) (hr : p.run h s = some (a, s')) : I s' :=
  run_keeps_of_trace h p (fun e _ => hI e.call e.state) hs hr

end Prog

end Interaction
