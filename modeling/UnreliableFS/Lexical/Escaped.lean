import Mathlib.Algebra.Order.Ring.Int

/-!
# Texts split at a separator that may be escaped

An escape character and what follows it stand for one character, which is no
separator; the last character of a text is never an escape. What a text of one
field loses when it is read back it loses to escapes, so it survives exactly if it
has none and no separator (`split_eq_singleton_iff`).
-/

namespace Lexical

/-- What the text after an escape character starts with. -/
structure Escapes (α : Type) where
  /-- The character that is meant. -/
  value : List α → α
  /-- How many characters say so, besides the first. -/
  more : List α → Nat

variable {α : Type} [DecidableEq α] (E : Escapes α) (sep esc : α)

/-- The fields of a text, of which `skip` characters have been read already and
`field` is what there is of the first. -/
def split : Nat → List α → List α → List (List α)
  | _, field, [] => [field]
  | skip + 1, field, _ :: s => split skip field s
  | 0, field, c :: s =>
    if c = sep then field :: split 0 [] s
    else if c = esc ∧ s ≠ [] then split (E.more s + 1) (field ++ [E.value s]) s
    else split 0 (field ++ [c]) s

/-- What the fields and the separators between them come to, and one. -/
def extent (fields : List (List α)) : Nat := (fields.map fun f => f.length + 1).sum

theorem split_ne_nil (skip : Nat) (field s : List α) : split E sep esc skip field s ≠ [] := by
  induction s generalizing skip field with
  | nil => simp [split]
  | cons c s ih =>
    cases skip with
    | succ skip => exact ih skip field
    | zero =>
      unfold split
      split
      · exact List.cons_ne_nil _ _
      · split
        · exact ih _ _
        · exact ih _ _

theorem extent_split_le (skip : Nat) (field s : List α) :
    extent (split E sep esc skip field s) + min skip s.length ≤ field.length + s.length + 1 := by
  induction s generalizing skip field with
  | nil => simp [split, extent]
  | cons c s ih =>
    cases skip with
    | succ skip =>
      have h := ih skip field
      simp only [split, List.length_cons]
      omega
    | zero =>
      unfold split
      split
      · have h := ih 0 []
        simp only [extent, List.map_cons, List.sum_cons, List.length_cons, List.length_nil] at h ⊢
        omega
      · split
        · have h := ih (E.more s + 1) (field ++ [E.value s])
          simp only [List.length_append, List.length_cons, List.length_nil] at h ⊢
          omega
        · have h := ih 0 (field ++ [c])
          simp only [List.length_append, List.length_cons, List.length_nil] at h ⊢
          omega

variable {E sep esc}

/-- A text is one field, and the same, exactly if nothing in it is a separator or
an escape. -/
theorem split_eq_singleton_iff {field s : List α} (hne : sep ≠ esc) :
    split E sep esc 0 field s = [field ++ s] ↔ sep ∉ s ∧ esc ∉ s.dropLast := by
  induction s generalizing field with
  | nil => simp [split]
  | cons c s ih =>
    by_cases hsep : c = sep
    · subst hsep
      have hn := split_ne_nil E c esc 0 [] s
      simp [split, hn]
    · by_cases hesc : c = esc ∧ s ≠ []
      · obtain ⟨rfl, hs⟩ := hesc
        have hlt : split E sep c (E.more s + 1) (field ++ [E.value s]) s ≠ [field ++ c :: s] := by
          intro h
          have hle := extent_split_le E sep c (E.more s + 1) (field ++ [E.value s]) s
          have hpos := List.length_pos_iff.mpr hs
          rw [h] at hle
          simp only [extent, List.map_cons, List.map_nil, List.sum_cons, List.sum_nil,
            List.length_append, List.length_cons, List.length_nil] at hle
          omega
        rw [split, if_neg hsep, if_pos ⟨rfl, hs⟩]
        refine iff_of_false hlt fun h => h.2 ?_
        rw [List.dropLast_cons_of_ne_nil hs]
        exact List.mem_cons_self
      · have happ : field ++ c :: s = field ++ [c] ++ s := by simp
        rw [split, if_neg hsep, if_neg hesc, happ, ih]
        cases s with
        | nil => simp [Ne.symm hsep]
        | cons d s =>
          have hc : esc ≠ c := by
            rintro rfl
            exact hesc ⟨rfl, List.cons_ne_nil _ _⟩
          simp [Ne.symm hsep, hc]

/-- A field without separators and escapes ends at the separator after it. -/
theorem split_append_sep {field s rest : List α} (hsep : sep ∉ s) (hesc : esc ∉ s) :
    split E sep esc 0 field (s ++ sep :: rest) = (field ++ s) :: split E sep esc 0 [] rest := by
  induction s generalizing field with
  | nil => simp [split]
  | cons c s ih =>
    have hc : c ≠ sep ∧ sep ∉ s := by simpa [eq_comm] using hsep
    have he : c ≠ esc ∧ esc ∉ s := by simpa [eq_comm] using hesc
    simp [split, hc.1, he.1, ih hc.2 he.2]

end Lexical
