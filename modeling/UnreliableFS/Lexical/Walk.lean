import Mathlib.Data.List.Induction

/-!
# Walking up and down

A place in a tree is the list of names on the way down to it. A walk takes steps
up, which do nothing at the root, and steps down. Whatever its order of steps, a
walk is a climb and then a descent (`walk_eq_from`), so whether one walk ends
below where another does can be read off these.
-/

namespace Lexical

inductive Step (α : Type) | up | down (a : α)

variable {α : Type}

def walk : List α → List (Step α) → List α
  | cur, [] => cur
  | cur, .up :: steps => walk cur.dropLast steps
  | cur, .down a :: steps => walk (cur ++ [a]) steps

theorem walk_append (cur : List α) (s₁ s₂ : List (Step α)) :
    walk cur (s₁ ++ s₂) = walk (walk cur s₁) s₂ := by
  induction s₁ generalizing cur with
  | nil => rfl
  | cons step s₁ ih =>
    cases step with
    | up => exact ih _
    | down a => exact ih _

structure Net (α : Type) where
  climbs : Nat := 0
  names : List α := []

namespace Net

/-- One step more: a step up takes the last step down back, if there is one. -/
def push (n : Net α) : Step α → Net α
  | .up => if n.names = [] then { n with climbs := n.climbs + 1 } else { n with names := n.names.dropLast }
  | .down a => { n with names := n.names ++ [a] }

def «from» (n : Net α) (cur : List α) : List α := cur.take (cur.length - n.climbs) ++ n.names

theorem from_push (n : Net α) (cur : List α) (step : Step α) :
    (n.push step).from cur = walk (n.from cur) [step] := by
  cases step with
  | down a => simp [push, Net.from, walk]
  | up =>
    by_cases h : n.names = []
    · simp only [push, Net.from, walk, h, if_true, List.append_nil, List.dropLast_eq_take,
        List.take_take, List.length_take]
      congr 1
      omega
    · simp [push, Net.from, walk, h, List.dropLast_append_of_ne_nil]

end Net

def net (steps : List (Step α)) : Net α := steps.foldl Net.push {}

theorem walk_eq_from (cur : List α) (steps : List (Step α)) :
    walk cur steps = (net steps).from cur := by
  induction steps using List.reverseRecOn with
  | nil => simp [walk, net, Net.from]
  | append_singleton steps step ih =>
    rw [walk_append, ih, ← Net.from_push]
    simp [net]

-- ---------------------------------------------------------------------------
-- Below
-- ---------------------------------------------------------------------------

def Below (p q : List α) : Prop := ∃ rest, rest ≠ [] ∧ p = q ++ rest

theorem below_append_left (a p q : List α) : Below (a ++ p) (a ++ q) ↔ Below p q := by
  simp only [Below, List.append_assoc, List.append_cancel_left_eq]

/-- What is common to two climbs does not matter. -/
theorem Net.below_from_iff (n m : Net α) (cur : List α) : Below (n.from cur) (m.from cur) ↔
    Below ((cur.take (cur.length - n.climbs)).drop (cur.length - m.climbs) ++ n.names)
      ((cur.take (cur.length - m.climbs)).drop (cur.length - n.climbs) ++ m.names) := by
  unfold Net.from
  generalize cur.length - n.climbs = k
  generalize cur.length - m.climbs = j
  have hk : cur.take k = cur.take (min j k) ++ (cur.take k).drop j := by
    rw [← List.take_take, List.take_append_drop]
  have hj : cur.take j = cur.take (min j k) ++ (cur.take j).drop k := by
    rw [Nat.min_comm, ← List.take_take, List.take_append_drop]
  conv_lhs => rw [hk, hj, List.append_assoc, List.append_assoc, below_append_left]

theorem below_walk_iff (cur : List α) (steps : List (Step α)) : Below (walk cur steps) cur ↔
    Below (net steps).names (cur.drop (cur.length - (net steps).climbs)) := by
  rw [walk_eq_from]
  unfold Net.from
  conv_lhs => rhs; rw [← List.take_append_drop (cur.length - (net steps).climbs) cur]
  rw [below_append_left]

end Lexical
