import Mathlib.Data.List.DropRight
import Mathlib.Data.List.TakeWhile

/-!
# Texts and the blanks around them

A text is trimmed if it neither starts nor ends with a blank. Every text is a
trimmed one between blanks (`exists_trim`), and however it is put between blanks,
dropping what is blank on both sides gives it back (`trim_eq`).

A marker counts if a blank stands right before it; a text is clear if none in it
does, so that a text up to a marker is cut where the marker stands and nowhere else.
-/

namespace Lexical

variable {α : Type} (blank : α → Bool)

def Blank (s : List α) : Prop := ∀ c ∈ s, blank c = true

structure Trimmed (s : List α) : Prop where
  head : ∀ c ∈ s.head?, blank c = false
  last : ∀ c ∈ s.getLast?, blank c = false

instance (s : List α) : Decidable (Trimmed blank s) :=
  decidable_of_iff (s.head?.all (!blank ·) = true ∧ s.getLast?.all (!blank ·) = true) <| by
    simp only [Option.all_eq_true, Bool.not_eq_true']
    exact ⟨fun h => ⟨h.1, h.2⟩, fun h => ⟨h.head, h.last⟩⟩

variable {blank} {s t v w : List α} {c : α}

@[simp] theorem blank_nil : Blank blank [] := by simp [Blank]

@[simp] theorem trimmed_nil : Trimmed blank [] := ⟨by simp, by simp⟩

@[simp] theorem blank_cons : Blank blank (c :: s) ↔ blank c = true ∧ Blank blank s := by
  simp [Blank]

@[simp] theorem blank_append : Blank blank (s ++ t) ↔ Blank blank s ∧ Blank blank t := by
  simp [Blank, or_imp, forall_and]

theorem dropWhile_blank (h : Blank blank s) : s.dropWhile blank = [] :=
  List.dropWhile_eq_nil_iff.mpr h

theorem dropWhile_blank_append (h : Blank blank s) :
    (s ++ t).dropWhile blank = t.dropWhile blank := List.dropWhile_append_of_pos h

theorem rdropWhile_append_blank (h : Blank blank t) :
    (s ++ t).rdropWhile blank = s.rdropWhile blank := by
  induction t using List.reverseRecOn generalizing s with
  | nil => simp
  | append_singleton t c ih =>
    have h' : Blank blank t ∧ blank c = true := by simpa using h
    rw [← List.append_assoc, List.rdropWhile_concat_pos _ _ _ h'.2, ih h'.1]

theorem rdropWhile_append_cons (hc : blank c = false) :
    (s ++ c :: t).rdropWhile blank = s ++ c :: t.rdropWhile blank := by
  induction t using List.reverseRecOn with
  | nil => simp [List.rdropWhile_concat_neg, hc]
  | append_singleton t d ih =>
    rw [← List.cons_append, ← List.append_assoc]
    by_cases hd : blank d = true
    · rw [List.rdropWhile_concat_pos _ _ _ hd, List.rdropWhile_concat_pos _ _ _ hd, ih]
    · rw [List.rdropWhile_concat_neg _ _ _ hd, List.rdropWhile_concat_neg _ _ _ hd]
      simp

theorem Trimmed.dropWhile (h : Trimmed blank s) : s.dropWhile blank = s := by
  cases s with
  | nil => rfl
  | cons c s => simp [h.head c (by simp)]

theorem Trimmed.rdropWhile_append (h : Trimmed blank v) (hv : v ≠ []) :
    (s ++ v).rdropWhile blank = s ++ v := by
  rw [List.rdropWhile_eq_self_iff]
  intro hl
  simp [List.getLast_append_of_ne_nil hl hv, h.last _ (List.getLast_mem_getLast? hv)]

theorem Trimmed.rdropWhile (h : Trimmed blank v) : v.rdropWhile blank = v := by
  cases v with
  | nil => rfl
  | cons c v => exact h.rdropWhile_append (s := []) (List.cons_ne_nil c v)

theorem rdropWhile_trim (h : Trimmed blank v) (ht : Blank blank t) :
    (v ++ t).rdropWhile blank = v := by
  rw [rdropWhile_append_blank ht, h.rdropWhile]

/-- The order in which the two sides are cut does not matter. -/
theorem trim_eq (hs : Blank blank s) (h : Trimmed blank v) (ht : Blank blank t) :
    ((s ++ (v ++ t)).dropWhile blank).rdropWhile blank = v := by
  rw [dropWhile_blank_append hs]
  cases v with
  | nil => simp [dropWhile_blank ht]
  | cons c v =>
    rw [List.cons_append, List.dropWhile_cons_of_neg (by simp [h.head c (by simp)]),
      ← List.cons_append, rdropWhile_trim h ht]

theorem trim_eq' (hs : Blank blank s) (h : Trimmed blank v) (ht : Blank blank t) :
    ((s ++ (v ++ t)).rdropWhile blank).dropWhile blank = v := by
  rw [← List.append_assoc, rdropWhile_append_blank ht]
  cases v with
  | nil => simp [List.rdropWhile_eq_nil_iff.mpr hs]
  | cons c v =>
    rw [h.rdropWhile_append (List.cons_ne_nil c v), dropWhile_blank_append hs, h.dropWhile]

theorem exists_first (h : ¬Blank blank s) :
    ∃ l c t, s = l ++ c :: t ∧ Blank blank l ∧ blank c = false := by
  induction s with
  | nil => simp at h
  | cons c s ih =>
    by_cases hc : blank c = true
    · obtain ⟨l, d, t, rfl, hl, hd⟩ := ih fun hs => h (blank_cons.mpr ⟨hc, hs⟩)
      exact ⟨c :: l, d, t, rfl, blank_cons.mpr ⟨hc, hl⟩, hd⟩
    · exact ⟨[], c, s, rfl, blank_nil, Bool.eq_false_iff.mpr hc⟩

theorem rdropWhile_last (s : List α) : ∀ c ∈ (s.rdropWhile blank).getLast?, blank c = false := by
  intro c hc
  have hne : s.rdropWhile blank ≠ [] := by
    intro h
    simp [h] at hc
  rw [List.getLast?_eq_getLast_of_ne_nil hne, Option.mem_def, Option.some.injEq] at hc
  exact Bool.eq_false_iff.mpr (hc ▸ List.rdropWhile_last_not blank s hne)

theorem rtakeWhile_blank (s : List α) : Blank blank (s.rtakeWhile blank) :=
  fun _ hc => List.mem_rtakeWhile_imp hc

theorem trimmed_rdropWhile (h : ∀ c ∈ s.head?, blank c = false) :
    Trimmed blank (s.rdropWhile blank) ∧ (s.rdropWhile blank = [] → s = []) := by
  cases s with
  | nil => simp
  | cons c s =>
    have hc : blank c = false := h c (by simp)
    have hcut : (c :: s).rdropWhile blank = c :: s.rdropWhile blank :=
      rdropWhile_append_cons (s := []) hc
    refine ⟨⟨?_, rdropWhile_last _⟩, ?_⟩
    · simpa [hcut] using hc
    · simp [hcut]

/-- Every text is a trimmed one between blanks, and those at its end can all be
told from the rest. -/
theorem exists_trim (blank : α → Bool) (s : List α) : ∃ l v r, s = l ++ (v ++ r) ∧ Blank blank l ∧
    Trimmed blank v ∧ Blank blank r ∧ (r = [] → s.rdropWhile blank = s) := by
  refine ⟨(s.rdropWhile blank).takeWhile blank, (s.rdropWhile blank).dropWhile blank,
    s.rtakeWhile blank, ?_, fun c hc => List.mem_takeWhile_imp hc, ⟨?_, ?_⟩, rtakeWhile_blank s, ?_⟩
  · rw [← List.append_assoc, List.takeWhile_append_dropWhile, List.rdropWhile_append_rtakeWhile]
  · intro c hc
    have h := List.head?_dropWhile_not blank (s.rdropWhile blank)
    rw [Option.mem_def.mp hc] at h
    exact h
  · intro c hc
    refine rdropWhile_last s c ?_
    have hne : (s.rdropWhile blank).dropWhile blank ≠ [] := by
      intro h
      simp [h] at hc
    rw [← List.takeWhile_append_dropWhile (p := blank) (l := s.rdropWhile blank),
      List.getLast?_append_of_ne_nil _ hne]
    exact hc
  · intro h
    have h' := List.rdropWhile_append_rtakeWhile (p := blank) (l := s)
    rwa [h, List.append_nil] at h'

-- ---------------------------------------------------------------------------
-- Markers after a blank
-- ---------------------------------------------------------------------------

variable (blank) (marker : α → Bool)

/-- Whether what stands last is a blank, `after` being what is said of no text. -/
def endsBlank : Bool → List α → Bool
  | after, [] => after
  | _, c :: s => endsBlank (blank c) s

def Clear : Bool → List α → Prop
  | _, [] => True
  | after, c :: s => ¬(after ∧ marker c) ∧ Clear (blank c) s

instance Clear.decidable : ∀ after s, Decidable (Clear blank marker after s)
  | _, [] => isTrue trivial
  | _, c :: s => @instDecidableAnd _ _ _ (Clear.decidable (blank c) s)

variable {blank marker} {after : Bool}

@[simp] theorem clear_append :
    Clear blank marker after (s ++ t) ↔
      Clear blank marker after s ∧ Clear blank marker (endsBlank blank after s) t := by
  induction s generalizing after with
  | nil => simp [Clear, endsBlank]
  | cons c s ih => simp [Clear, endsBlank, ih, and_assoc]

theorem Clear.of_prefix (h : Clear blank marker after t) (hp : s <+: t) :
    Clear blank marker after s := by
  obtain ⟨r, rfl⟩ := hp
  exact (clear_append.mp h).1

theorem clear_of_forall (h : ∀ c ∈ s, marker c = false) : Clear blank marker after s := by
  induction s generalizing after with
  | nil => trivial
  | cons c s ih =>
    have h' := List.forall_mem_cons.mp h
    exact ⟨by simp [h'.1], ih h'.2⟩

theorem clear_of_blank (hm : ∀ c, blank c = true → marker c = false) (h : Blank blank s) :
    Clear blank marker after s :=
  clear_of_forall fun c hc => hm c (h c hc)

theorem endsBlank_append : endsBlank blank after (s ++ t) =
    endsBlank blank (endsBlank blank after s) t := by
  induction s generalizing after with
  | nil => rfl
  | cons c s ih => exact ih

theorem endsBlank_of_blank (h : Blank blank s) (hs : s ≠ []) : endsBlank blank after s = true := by
  induction s generalizing after with
  | nil => exact absurd rfl hs
  | cons c s ih =>
    have h' := blank_cons.mp h
    cases s with
    | nil => exact h'.1
    | cons d s => exact @ih (blank c) h'.2 (List.cons_ne_nil d s)

theorem rdropWhile_ne_of_endsBlank (h : endsBlank blank false s = true) :
    s.rdropWhile blank ≠ s := by
  cases s using List.reverseRecOn with
  | nil => simp [endsBlank] at h
  | append_singleton s c =>
    have hc : blank c = true := by simpa [endsBlank_append, endsBlank] using h
    rw [List.rdropWhile_concat_pos _ _ _ hc]
    intro heq
    have hle := (List.rdropWhile_prefix blank (l := s)).length_le
    rw [heq, List.length_append, List.length_singleton] at hle
    omega

end Lexical
