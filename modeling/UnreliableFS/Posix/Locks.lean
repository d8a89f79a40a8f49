import Mathlib.Data.List.Basic

/-!
# Record locks

Locks on ranges of bytes, each held by an owner on an object. What an owner
holds at a byte is `heldAt`; setting a range replaces what was held on it and
leaves the rest.
-/

namespace UnreliableFS.Posix

/-- From `start` up to `stop`, or without an end. -/
structure Range where
  start : Nat
  stop : Option Nat
  deriving DecidableEq, Repr

namespace Range

def has (r : Range) (p : Nat) : Bool := r.start ≤ p && r.stop.all (p < ·)

def overlaps (r q : Range) : Bool := q.stop.all (r.start < ·) && r.stop.all (q.start < ·)

def ofFlock (start len : Nat) : Range := ⟨start, if len = 0 then none else some (start + len)⟩

def before (r q : Range) : Range := ⟨r.start, some (r.stop.elim q.start (min q.start))⟩

def after (r : Range) (e : Nat) : Range := ⟨max r.start e, r.stop⟩

end Range

structure RecordLock where
  owner : Nat
  ino : Nat
  range : Range
  write : Bool
  deriving DecidableEq, Repr

namespace RecordLock

/-- What is left of a lock when its owner sets a range anew. -/
def cut (l : RecordLock) (owner ino : Nat) (r : Range) : List RecordLock :=
  if l.owner = owner ∧ l.ino = ino then
    (if l.range.start < r.start then [{ l with range := l.range.before r }] else []) ++
      match r.stop with
      | none => []
      | some e => if l.range.stop.all (e < ·) then [{ l with range := l.range.after e }] else []
  else [l]

end RecordLock

/-- The lock of an owner that is in force at a byte: whether it is a write lock. -/
def heldAt (locks : List RecordLock) (owner ino p : Nat) : Option Bool :=
  (locks.find? fun l => l.owner = owner && l.ino = ino && l.range.has p).map (·.write)

def clearRange (locks : List RecordLock) (owner ino : Nat) (r : Range) : List RecordLock :=
  locks.flatMap fun l => l.cut owner ino r

def setRange (locks : List RecordLock) (l : RecordLock) : List RecordLock :=
  l :: clearRange locks l.owner l.ino l.range

def dropLocks (locks : List RecordLock) (owner ino : Nat) : List RecordLock :=
  locks.filter fun l => ¬(l.owner = owner ∧ l.ino = ino)

def conflict? (locks : List RecordLock) (l : RecordLock) : Option RecordLock :=
  locks.find? fun m => m.owner ≠ l.owner && m.ino = l.ino && m.range.overlaps l.range &&
    (m.write || l.write)

-- ---------------------------------------------------------------------------
-- Byte by byte
-- ---------------------------------------------------------------------------

section
variable (locks : List RecordLock) (owner ino : Nat) (r : Range) (l : RecordLock) (o i p : Nat)

theorem heldAt_append (ls : List RecordLock) :
    heldAt (locks ++ ls) o i p = (heldAt locks o i p).or (heldAt ls o i p) := by
  unfold heldAt
  rw [List.find?_append]
  cases locks.find? fun l => l.owner = o && l.ino = i && l.range.has p with
  | none => rfl
  | some l => rfl

theorem heldAt_cons : heldAt (l :: locks) o i p =
    if l.owner = o ∧ l.ino = i ∧ l.range.has p = true then some l.write
    else heldAt locks o i p := by
  unfold heldAt
  rw [List.find?_cons]
  split
  · rename_i h
    rw [if_pos (by simpa [and_assoc] using h)]
    rfl
  · rename_i h
    rw [if_neg (by simpa [and_assoc] using h)]

theorem heldAt_cut : heldAt (l.cut owner ino r) o i p =
    if o = owner ∧ i = ino ∧ r.has p = true then none else heldAt [l] o i p := by
  unfold RecordLock.cut
  by_cases hl : l.owner = owner ∧ l.ino = ino
  · rw [if_pos hl, heldAt_append]
    obtain ⟨s, e⟩ := r
    obtain ⟨lo, li, ⟨s', e'⟩, lw⟩ := l
    obtain ⟨rfl, rfl⟩ := hl
    have hnil : heldAt [] o i p = none := rfl
    have hpiece (c : Prop) [Decidable c] (m : RecordLock) : heldAt (if c then [m] else []) o i p =
        if c ∧ m.owner = o ∧ m.ino = i ∧ m.range.has p = true then some m.write else none := by
      by_cases hc : c
      · simp [hc, heldAt_cons, hnil]
      · simp [hc, hnil]
    cases e <;> cases e' <;>
      simp only [hpiece, hnil, heldAt_cons, Range.before, Range.after, Range.has] <;> grind
  · rw [if_neg hl, heldAt_cons]
    grind [heldAt]

theorem heldAt_clearRange : heldAt (clearRange locks owner ino r) o i p =
    if o = owner ∧ i = ino ∧ r.has p = true then none else heldAt locks o i p := by
  induction locks with
  | nil =>
    split <;> rfl
  | cons l locks ih =>
    unfold clearRange at ih ⊢
    rw [List.flatMap_cons, heldAt_append, ih, heldAt_cut, heldAt_cons, heldAt_cons]
    grind [heldAt]

theorem heldAt_setRange : heldAt (setRange locks l) o i p =
    if o = l.owner ∧ i = l.ino ∧ l.range.has p = true then some l.write else heldAt locks o i p := by
  unfold setRange
  rw [heldAt_cons, heldAt_clearRange]
  grind

theorem heldAt_dropLocks : heldAt (dropLocks locks owner ino) o i p =
    if o = owner ∧ i = ino then none else heldAt locks o i p := by
  induction locks with
  | nil =>
    split <;> rfl
  | cons l locks ih =>
    unfold dropLocks at ih ⊢
    rw [List.filter_cons]
    split
    · rw [heldAt_cons, heldAt_cons, ih]
      grind
    · rw [heldAt_cons, ih]
      grind

end

end UnreliableFS.Posix
