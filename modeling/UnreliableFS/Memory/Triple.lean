import UnreliableFS.Memory.Heap

/-!
# Programs on a heap

A `Mem` program allocates, frees, reads and writes blocks. To free or to use a block
that is not live is undefined (`none`), and an allocation can fail, as the `fails` of
the memory says. `Triple plenty P m Q`: from a heap of which `P` describes a part `m`
is defined, and leaves a heap of which `Q` describes what has become of the part and
the rest is as it was. If `plenty` holds, this is about memory that no allocation fails in.
-/

namespace Memory

structure Store (V : Type) where
  heap : Heap V
  /-- The allocations to come that fail. -/
  fails : Nat → Bool

abbrev Mem (V : Type) := StateT (Store V) Option

variable {V α γ : Type}

def Heap.fresh (h : Heap V) : Addr := h.keys.sup id + 1

/-- `none` is a null pointer. -/
def alloc (v : V) : Mem V (Option Addr) := fun μ =>
  let fails := fun n => μ.fails (n + 1)
  if μ.fails 0 then some (none, { μ with fails })
  else some (some (Heap.fresh μ.heap), ⟨μ.heap.insert (Heap.fresh μ.heap) v, fails⟩)

def free (a : Addr) : Mem V Unit := fun μ =>
  if a ∈ μ.heap then some ((), { μ with heap := μ.heap.erase a }) else none

def load (a : Addr) : Mem V V := fun μ => (μ.heap.lookup a).map fun v => (v, μ)

def store (a : Addr) (v : V) : Mem V Unit := fun μ =>
  if a ∈ μ.heap then some ((), { μ with heap := μ.heap.insert a v }) else none

/-- Undefined behaviour. -/
def undefined : Mem V α := fun _ => none

theorem fresh_not_mem (h : Heap V) : Heap.fresh h ∉ h := by
  intro hm
  have hle : Heap.fresh h ≤ h.keys.sup id := Finset.le_sup (f := id) (Finmap.mem_keys.mpr hm)
  exact Nat.not_succ_le_self _ hle

-- ---------------------------------------------------------------------------
-- Triples
-- ---------------------------------------------------------------------------

open Assertion

def Store.Serves (plenty : Prop) (μ : Store V) : Prop := plenty → ∀ n, μ.fails n = false

def Triple (plenty : Prop) (P : Assertion V) (m : Mem V α) (Q : α → Assertion V) : Prop :=
  ∀ (F : Assertion V) (μ : Store V), μ.Serves plenty → (P * F) μ.heap →
    ∃ a μ', m μ = some (a, μ') ∧ μ'.Serves plenty ∧ (Q a * F) μ'.heap

namespace Triple

variable {plenty p : Prop} {P P' R : Assertion V} {Q Q' : α → Assertion V} {m : Mem V α} {a : Addr}
  {v w : V}

theorem pure (x : α) (h : ∀ f, P f → Q x f) : Triple plenty P (Pure.pure x : Mem V α) Q :=
  fun _ μ hs hP => ⟨x, μ, rfl, hs, mul_mono h (fun _ hF => hF) hP⟩

theorem bind {Q : γ → Assertion V} {R : α → Assertion V} {f : α → Mem V γ}
    (hm : Triple plenty P m R) (hf : ∀ x, Triple plenty (R x) (f x) Q) :
    Triple plenty P (m >>= f) Q := by
  intro F μ hs hP
  obtain ⟨x, μ₁, hm, hs₁, hR⟩ := hm F μ hs hP
  obtain ⟨y, μ₂, hf, hs₂, hQ⟩ := hf x F μ₁ hs₁ hR
  refine ⟨y, μ₂, ?_, hs₂, hQ⟩
  simp only [Bind.bind, StateT.bind, hm]
  exact hf

theorem conseq (hm : Triple plenty P m Q) (hP : ∀ f, P' f → P f) (hQ : ∀ x f, Q x f → Q' x f) :
    Triple plenty P' m Q' := by
  intro F μ hs h
  obtain ⟨x, μ', hm, hs', hx⟩ := hm F μ hs (mul_mono hP (fun _ hF => hF) h)
  exact ⟨x, μ', hm, hs', mul_mono (hQ x) (fun _ hF => hF) hx⟩

theorem frame (R : Assertion V) (hm : Triple plenty P m Q) :
    Triple plenty (P * R) m fun x => Q x * R := by
  intro F μ hs h
  rw [mul_assoc] at h
  obtain ⟨x, μ', hm, hs', hx⟩ := hm (R * F) μ hs h
  exact ⟨x, μ', hm, hs', by rwa [mul_assoc]⟩

/-- A step on a part of the heap, and what follows on all of it. -/
theorem step {Q : γ → Assertion V} {R : α → Assertion V} {f : α → Mem V γ} (F : Assertion V)
    (hm : Triple plenty P' m R) (hP : P = P' * F) (hf : ∀ x, Triple plenty (R x * F) (f x) Q) :
    Triple plenty P (m >>= f) Q := by
  subst hP
  exact (hm.frame F).bind hf

theorem of_ex {ι : Type} {P : ι → Assertion V} (h : ∀ i, Triple plenty (P i) m Q) :
    Triple plenty (ex P) m Q := by
  intro F μ hs hP
  rw [ex_mul] at hP
  obtain ⟨i, hP⟩ := hP
  exact h i F μ hs hP

theorem of_fact (h : p → Triple plenty P m Q) : Triple plenty (fact p * P) m Q := by
  intro F μ hs hP
  rw [mul_assoc, fact_mul] at hP
  exact h hP.1 F μ hs hP.2

theorem of_eq (hP : P = P') (h : Triple plenty P' m Q) : Triple plenty P m Q := hP ▸ h

theorem of_false : Triple plenty (fact False) m Q := by
  intro F μ hs hP
  exact (fact_mul.mp hP).1.elim

theorem alloc (v : V) : Triple plenty 1 (Memory.alloc v) fun
    | none => fact ¬plenty
    | some a => block a v := by
  intro F μ hs hF
  rw [one_mul] at hF
  have hs' : ∀ h, (⟨h, fun n => μ.fails (n + 1)⟩ : Store V).Serves plenty :=
    fun _ hp n => hs hp (n + 1)
  by_cases hf : μ.fails 0
  · refine ⟨none, { μ with fails := fun n => μ.fails (n + 1) }, by simp [Memory.alloc, hf], hs' _, ?_⟩
    refine fact_mul.mpr ⟨fun hp => ?_, hF⟩
    simp [hs hp 0] at hf
  · refine ⟨some (Heap.fresh μ.heap), ⟨μ.heap.insert (Heap.fresh μ.heap) v, fun n => μ.fails (n + 1)⟩,
      by simp [Memory.alloc, hf], hs' _, ?_⟩
    refine block_mul_insert.mpr ?_
    rwa [erase_of_not_mem (fresh_not_mem μ.heap)]

theorem free : Triple plenty (block a v) (Memory.free a) fun _ => 1 := by
  intro F μ hs h
  obtain ⟨hv, hF⟩ := block_mul.mp h
  refine ⟨(), { μ with heap := μ.heap.erase a }, ?_, hs, by rwa [one_mul]⟩
  simp [Memory.free, Finmap.mem_of_lookup_eq_some hv]

theorem load : Triple plenty (block a v) (Memory.load a) fun r => fact (r = v) * block a v := by
  intro F μ hs h
  refine ⟨v, μ, ?_, hs, by rw [mul_assoc]; exact fact_mul.mpr ⟨rfl, h⟩⟩
  simp [Memory.load, (block_mul.mp h).1]

theorem store : Triple plenty (block a v) (Memory.store a w) fun _ => block a w := by
  intro F μ hs h
  obtain ⟨hv, hF⟩ := block_mul.mp h
  refine ⟨(), { μ with heap := μ.heap.insert a w }, ?_, hs, ?_⟩
  · simp [Memory.store, Finmap.mem_of_lookup_eq_some hv]
  · exact block_mul_insert.mpr hF

theorem step_returns {Q : γ → Assertion V} {f : α → Mem V γ} {x : α} (F : Assertion V)
    (hm : Triple plenty P' m fun y => fact (y = x) * R) (hP : P = P' * F)
    (hf : Triple plenty (R * F) (f x) Q) : Triple plenty P (m >>= f) Q := by
  refine hm.step F hP fun y => ?_
  rw [mul_assoc]
  refine of_fact fun hy => ?_
  rwa [hy]

theorem last {Q : α → Assertion V} {R : α → Assertion V} (F : Assertion V)
    (hm : Triple plenty P' m R) (hP : P = P' * F) (hQ : ∀ x f, (R x * F) f → Q x f) :
    Triple plenty P m Q := by
  subst hP
  exact (hm.frame F).conseq (fun _ h => h) hQ

end Triple

end Memory
