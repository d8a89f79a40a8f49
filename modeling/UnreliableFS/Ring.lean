import Mathlib.Algebra.GroupWithZero.Nat
import Mathlib.Data.Fin.Basic
import Mathlib.Logic.Function.Basic

/-!
# Rings

A ring of `n` slots that is written one slot after the other, round and round. It
keeps the last `n` of the values pushed, and a walk from the slot to be written next
meets them from the oldest on (`oldest_eq`).
-/

namespace Rings

variable {α : Type} {n : Nat} [NeZero n]

structure Ring (α : Type) (n : Nat) where
  slots : Fin n → α
  /-- The slot to be written next. -/
  next : Fin n
  total : Nat

namespace Ring

def filled (fill : α) : Ring α n := ⟨fun _ => fill, 0, 0⟩

def push (r : Ring α n) (a : α) : Ring α n where
  slots := Function.update r.slots r.next a
  next := r.next + 1
  total := r.total + 1

def walk (r : Ring α n) : Fin n → Nat → List α
  | _, 0 => []
  | i, count + 1 => r.slots i :: r.walk (i + 1) count

def oldest (r : Ring α n) : List α :=
  if r.total < n then r.walk 0 r.total else r.walk r.next n

/-- What a ring has been given, of which it keeps the last. -/
structure Given (r : Ring α n) (as : List α) : Prop where
  total : r.total = as.length
  next : r.next = Fin.ofNat n as.length
  slot : ∀ j a, as[j]? = some a → as.length ≤ j + n → r.slots (Fin.ofNat n j) = a

variable {r : Ring α n} {as : List α}

theorem given_filled (fill : α) : (filled fill : Ring α n).Given [] :=
  ⟨rfl, rfl, fun j a h => by simp at h⟩

theorem ofNat_succ (j : Nat) : Fin.ofNat n (j + 1) = Fin.ofNat n j + 1 := by
  ext
  simp [Fin.val_add]

theorem Given.push (h : r.Given as) (a : α) : (r.push a).Given (as ++ [a]) where
  total := by simp [Ring.push, h.total]
  next := by
    rw [Ring.push, h.next, List.length_append, List.length_singleton, ofNat_succ]
  slot := by
    intro j b hj hlast
    simp only [List.length_append, List.length_singleton] at hlast
    have hlen : j < (as ++ [a]).length := (List.getElem?_eq_some_iff.mp hj).1
    simp only [List.length_append, List.length_singleton] at hlen
    by_cases heq : j = as.length
    · subst heq
      have hb : a = b := by simpa using hj
      simp [Ring.push, h.next, hb]
    · -- an older slot is another one
      have hne : Fin.ofNat n j ≠ Fin.ofNat n as.length := by
        intro hmod
        have hmod' : j % n = as.length % n := congrArg Fin.val hmod
        have hdvd := Nat.sub_mod_eq_zero_of_mod_eq hmod'.symm
        have hlt : as.length - j < n := by omega
        rw [Nat.mod_eq_of_lt hlt] at hdvd
        omega
      have hj' : as[j]? = some b := by rwa [List.getElem?_append_left (by omega)] at hj
      simp only [Ring.push, h.next, Function.update_of_ne hne]
      exact h.slot j b hj' (by omega)

theorem Given.pushes (h : r.Given as) (bs : List α) : (bs.foldl Ring.push r).Given (as ++ bs) := by
  induction bs generalizing r as with
  | nil => simpa using h
  | cons b bs ih => simpa using ih (h.push b)

theorem Given.walk (h : r.Given as) (j count : Nat) (hlast : as.length ≤ j + n)
    (hcount : j + count ≤ as.length) : r.walk (Fin.ofNat n j) count = (as.drop j).take count := by
  induction count generalizing j with
  | zero => simp [Ring.walk]
  | succ count ih =>
    have hj : j < as.length := by omega
    have hslot := h.slot j as[j] (List.getElem?_eq_getElem hj) hlast
    rw [Ring.walk, hslot, ← ofNat_succ, ih (j + 1) (by omega) (by omega),
      List.drop_eq_getElem_cons hj, List.take_succ_cons]

theorem Given.oldest (h : r.Given as) : r.oldest = as.drop (as.length - n) := by
  unfold Ring.oldest
  split
  · rename_i hlt
    rw [h.total] at hlt ⊢
    have hz : Fin.ofNat n 0 = (0 : Fin n) := rfl
    rw [← hz, h.walk 0 as.length (by omega) (by omega), Nat.sub_eq_zero_of_le (by omega)]
    simp
  · rename_i hge
    rw [h.total] at hge
    have hnext : r.next = Fin.ofNat n (as.length - n) := by
      rw [h.next]
      ext
      simp only [Fin.val_ofNat]
      rw [← Nat.add_mod_right (as.length - n) n, Nat.sub_add_cancel (by omega)]
    rw [hnext, h.walk (as.length - n) n (by omega) (by omega)]
    exact List.take_of_length_le (by simp; omega)

/-- Of all it has been given it keeps the last `n`. -/
theorem oldest_eq (fill : α) (as : List α) :
    (as.foldl push (filled fill : Ring α n)).oldest = as.drop (as.length - n) := by
  have h := (given_filled (n := n) fill).pushes as
  rw [List.nil_append] at h
  exact h.oldest

end Ring

end Rings
