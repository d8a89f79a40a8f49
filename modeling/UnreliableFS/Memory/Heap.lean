import Mathlib.Algebra.Group.Defs
import Mathlib.Data.Finmap
import Mathlib.Order.Lattice.Nat

/-!
# Heaps and assertions about them

A `Heap V` is a finite set of live addresses, each with a block of type `V`. An
`Assertion` describes a whole heap. With the separating conjunction as product and
the empty heap as unit assertions are a commutative monoid, so they are rearranged by
the laws of one, and `P ^ n` is `n` disjoint heaps that satisfy `P`.
-/

namespace Memory

abbrev Addr := Nat

abbrev Heap (V : Type) := Finmap fun _ : Addr => V

def Assertion (V : Type) := Heap V → Prop

namespace Assertion

variable {V : Type} {α : Type} {P Q R : Assertion V} {h : Heap V}

@[ext] theorem ext (hPQ : ∀ h, P h ↔ Q h) : P = Q := funext fun h => propext (hPQ h)

instance : One (Assertion V) := ⟨fun h => h = ∅⟩

/-- Both hold, of disjoint parts. -/
instance : Mul (Assertion V) := ⟨fun P Q h => ∃ f g, f.Disjoint g ∧ h = f ∪ g ∧ P f ∧ Q g⟩

theorem one_apply : (1 : Assertion V) h ↔ h = ∅ := .rfl

theorem mul_comm_imp (hPQ : (P * Q) h) : (Q * P) h := by
  obtain ⟨f, g, hd, rfl, hP, hQ⟩ := hPQ
  exact ⟨g, f, hd.symm, Finmap.union_comm_of_disjoint hd, hQ, hP⟩

theorem mul_assoc_iff : (P * Q * R) h ↔ (P * (Q * R)) h := by
  constructor
  · rintro ⟨_, k, hd, rfl, ⟨f, g, hfg, rfl, hP, hQ⟩, hR⟩
    obtain ⟨hfk, hgk⟩ := (Finmap.disjoint_union_left f g k).mp hd
    refine ⟨f, g ∪ k, ?_, Finmap.union_assoc, hP, g, k, hgk, rfl, hQ, hR⟩
    exact (Finmap.disjoint_union_right f g k).mpr ⟨hfg, hfk⟩
  · rintro ⟨f, _, hd, rfl, hP, g, k, hgk, rfl, hQ, hR⟩
    obtain ⟨hfg, hfk⟩ := (Finmap.disjoint_union_right f g k).mp hd
    refine ⟨f ∪ g, k, ?_, Finmap.union_assoc.symm, ⟨f, g, hfg, rfl, hP, hQ⟩, hR⟩
    exact (Finmap.disjoint_union_left f g k).mpr ⟨hfk, hgk⟩

theorem one_mul_iff : (1 * P) h ↔ P h := by
  constructor
  · rintro ⟨_, f, -, rfl, rfl, hP⟩
    rwa [Finmap.empty_union]
  · intro hP
    exact ⟨∅, h, Finmap.disjoint_empty h, Finmap.empty_union.symm, rfl, hP⟩

instance : CommMonoid (Assertion V) where
  mul_assoc P Q R := ext fun _ => mul_assoc_iff
  one_mul P := ext fun _ => one_mul_iff
  mul_one P := ext fun _ => ⟨fun hP => one_mul_iff.mp (mul_comm_imp hP),
    fun hP => mul_comm_imp (one_mul_iff.mpr hP)⟩
  mul_comm P Q := ext fun _ => ⟨mul_comm_imp, mul_comm_imp⟩

theorem mul_mono {P' Q' : Assertion V} (hP : ∀ h, P h → P' h) (hQ : ∀ h, Q h → Q' h)
    (hPQ : (P * Q) h) : (P' * Q') h := by
  obtain ⟨f, g, hd, rfl, hf, hg⟩ := hPQ
  exact ⟨f, g, hd, rfl, hP f hf, hQ g hg⟩

-- ---------------------------------------------------------------------------
-- Facts, witnesses and single blocks
-- ---------------------------------------------------------------------------

def fact (p : Prop) : Assertion V := fun h => p ∧ h = ∅

def ex (P : α → Assertion V) : Assertion V := fun h => ∃ a, P a h

def block (a : Addr) (v : V) : Assertion V := fun h => h = Finmap.singleton a v

theorem fact_mul {p : Prop} : (fact p * P : Assertion V) h ↔ p ∧ P h := by
  constructor
  · rintro ⟨_, f, -, rfl, ⟨hp, rfl⟩, hP⟩
    exact ⟨hp, by rwa [Finmap.empty_union]⟩
  · rintro ⟨hp, hP⟩
    exact ⟨∅, h, Finmap.disjoint_empty h, Finmap.empty_union.symm, ⟨hp, rfl⟩, hP⟩

theorem ex_mul {P : α → Assertion V} : ex P * Q = ex fun a => P a * Q := by
  ext h
  constructor
  · rintro ⟨f, g, hd, rfl, ⟨a, hP⟩, hQ⟩
    exact ⟨a, f, g, hd, rfl, hP, hQ⟩
  · rintro ⟨a, f, g, hd, rfl, hP, hQ⟩
    exact ⟨f, g, hd, rfl, ⟨a, hP⟩, hQ⟩

theorem ex_fact {p : α → Prop} {P : α → Assertion V} :
    ex (fun x => fact (p x) * P x) h ↔ ∃ x, p x ∧ P x h :=
  exists_congr fun _ => fact_mul

theorem ex_fact_mul {p : α → Prop} {P : α → Assertion V} :
    (ex (fun x => fact (p x) * P x) * Q : Assertion V) h ↔ ∃ x, p x ∧ (P x * Q) h := by
  simp only [ex_mul, mul_assoc, ex_fact]

theorem block_mul {a : Addr} {v : V} : (block a v * P) h ↔
    h.lookup a = some v ∧ P (h.erase a) := by
  constructor
  · rintro ⟨_, f, hd, rfl, rfl, hP⟩
    have hn : a ∉ f := fun ha => hd a (Finmap.mem_singleton a a v |>.mpr rfl) ha
    have he : (Finmap.singleton a v ∪ f).erase a = f := by
      refine Finmap.ext_lookup fun b => ?_
      by_cases hb : b = a
      · subst hb
        simp [Finmap.lookup_eq_none.mpr hn]
      · rw [Finmap.lookup_erase_ne hb, Finmap.lookup_union_right]
        simpa using hb
    rw [he, Finmap.lookup_union_left (by simp)]
    exact ⟨Finmap.lookup_singleton_eq, hP⟩
  · rintro ⟨hv, hP⟩
    have hd : (Finmap.singleton a v).Disjoint (h.erase a) := by
      intro b hb
      obtain rfl := (Finmap.mem_singleton b a v).mp hb
      exact Finmap.notMem_erase_self
    refine ⟨_, _, hd, ?_, rfl, hP⟩
    rw [Finmap.union_comm_of_disjoint hd, Finmap.erase_union_singleton a v h hv]

theorem block_mul_insert {a : Addr} {v : V} :
    (block a v * P) (Finmap.insert a v h) ↔ P (h.erase a) := by
  have he : (Finmap.insert a v h).erase a = h.erase a := by
    refine Finmap.ext_lookup fun b => ?_
    by_cases hb : b = a
    · rw [hb, Finmap.lookup_erase, Finmap.lookup_erase]
    · rw [Finmap.lookup_erase_ne hb, Finmap.lookup_erase_ne hb, Finmap.lookup_insert_of_ne _ hb]
  rw [block_mul, he]
  exact and_iff_right (Finmap.lookup_insert h)

theorem erase_of_not_mem {a : Addr} (ha : a ∉ h) : h.erase a = h := by
  refine Finmap.ext_lookup fun b => ?_
  by_cases hb : b = a
  · rw [hb, Finmap.lookup_erase, Finmap.lookup_eq_none.mpr ha]
  · exact Finmap.lookup_erase_ne hb

theorem block_pow {v : V} {n : Nat} (hn : ((ex fun a => block a v) ^ n : Assertion V) h) :
    h.keys.card = n ∧ ∀ a ∈ h, h.lookup a = some v := by
  induction n generalizing h with
  | zero =>
    rw [pow_zero, one_apply] at hn
    subst hn
    exact ⟨rfl, fun a ha => absurd ha Finmap.notMem_empty⟩
  | succ n ih =>
    rw [pow_succ', ex_mul] at hn
    obtain ⟨a, ha⟩ := hn
    obtain ⟨hv, hrest⟩ := block_mul.mp ha
    obtain ⟨hcard, hall⟩ := ih hrest
    have hmem : a ∈ h.keys := Finmap.mem_keys.mpr (Finmap.mem_of_lookup_eq_some hv)
    constructor
    · rw [Finmap.keys_erase, Finset.card_erase_of_mem hmem] at hcard
      have hpos : 0 < h.keys.card := Finset.card_pos.mpr ⟨a, hmem⟩
      omega
    · intro b hb
      by_cases hba : b = a
      · exact hba ▸ hv
      · rw [← Finmap.lookup_erase_ne hba]
        exact hall b (Finmap.mem_erase.mpr ⟨hba, hb⟩)

end Assertion

end Memory
