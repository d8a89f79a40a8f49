/-!
# Sequences that are read, written and cut at offsets

Two views of a finite sequence with a fill value. An `Extent` says what the
sequence is for: a size and a cell at every position, the fill value from the
size on; its operations are given position by position. The list functions
`readAt`, `writeAt` and `resize` compute with the cells below the size, and
`ofList` carries each of them to the operation on extents.
-/

namespace Extents

variable {α : Type}

@[ext] structure Extent (α : Type) (fill : α) where
  size : Nat
  cell : Nat → α
  beyond : ∀ i, size ≤ i → cell i = fill

namespace Extent

variable {fill : α}

def empty : Extent α fill := ⟨0, fun _ => fill, fun _ _ => rfl⟩

/-- The cells from `off` on, at most `n` and none past the size. -/
def read (e : Extent α fill) (off n : Nat) : List α :=
  (List.range (min n (e.size - off))).map fun i => e.cell (off + i)

@[simp] theorem length_read (e : Extent α fill) (off n : Nat) :
    (e.read off n).length = min n (e.size - off) := by
  simp [read]

/-- A bound on the length cuts nothing off when all that was asked for was read,
or less than the bound. -/
theorem read_min {e : Extent α fill} {off n bound : Nat}
    (h : (e.read off (min n bound)).length = n ∨ (e.read off (min n bound)).length < bound) :
    e.read off (min n bound) = e.read off n := by
  have hmin : min (min n bound) (e.size - off) = min n (e.size - off) := by
    rw [length_read] at h
    omega
  simp only [read, hmin]

/-- Cut, or extend by the fill value. -/
def resize (e : Extent α fill) (n : Nat) : Extent α fill where
  size := n
  cell := fun i => if i < n then e.cell i else fill
  beyond := fun i hi => if_neg (by omega)

/-- Replace the cells from `off` on, extending the sequence where they reach
past its end. Writing nothing changes nothing. -/
def write (e : Extent α fill) (off : Nat) (d : List α) : Extent α fill where
  size := if d = [] then e.size else max e.size (off + d.length)
  cell := fun i => if off ≤ i ∧ i < off + d.length then d.getD (i - off) fill else e.cell i
  beyond := by
    intro i hi
    split at hi
    · simp_all [e.beyond i]
    · rw [if_neg (by omega), e.beyond i (by omega)]

end Extent

-- ---------------------------------------------------------------------------
-- The list functions
-- ---------------------------------------------------------------------------

def readAt (c : List α) (off n : Nat) : List α := (c.drop off).take n

def resize (fill : α) (c : List α) (n : Nat) : List α :=
  c.take n ++ List.replicate (n - c.length) fill

def writeAt (fill : α) (c : List α) (off : Nat) (d : List α) : List α :=
  if d = [] then c else resize fill c off ++ d ++ c.drop (off + d.length)

variable (fill : α) (c d : List α) (off n i : Nat)

@[simp] theorem length_resize : (resize fill c n).length = n := by
  simp only [resize, List.length_append, List.length_take, List.length_replicate]
  omega

theorem getD_resize :
    (resize fill c n).getD i fill = if i < n then c.getD i fill else fill := by
  simp only [resize, List.getD_eq_getElem?_getD, List.getElem?_append, List.getElem?_take,
    List.length_take, List.getElem?_replicate]
  grind

theorem length_writeAt :
    (writeAt fill c off d).length = if d = [] then c.length else max c.length (off + d.length) := by
  unfold writeAt
  split
  · rfl
  · simp only [List.length_append, length_resize, List.length_drop]
    omega

theorem getD_writeAt :
    (writeAt fill c off d).getD i fill =
      if off ≤ i ∧ i < off + d.length then d.getD (i - off) fill else c.getD i fill := by
  unfold writeAt
  split
  · rename_i hd
    subst hd
    rw [if_neg (by simp only [List.length_nil]; omega)]
  · rename_i hd
    have hr := getD_resize fill c off i
    simp only [List.getD_eq_getElem?_getD, List.append_assoc, List.getElem?_append, length_resize,
      List.getElem?_drop] at hr ⊢
    grind

-- ---------------------------------------------------------------------------
-- Lists refine extents
-- ---------------------------------------------------------------------------

/-- The extent a list of cells stands for. -/
def ofList : Extent α fill where
  size := c.length
  cell := fun i => c.getD i fill
  beyond := fun i hi => by simp [List.getElem?_eq_none hi]

@[simp] theorem ofList_nil : ofList fill ([] : List α) = Extent.empty := by
  ext <;> simp [ofList, Extent.empty]

theorem ofList_resize : ofList fill (resize fill c n) = (ofList fill c).resize n := by
  ext i
  · simp [ofList, Extent.resize]
  · exact getD_resize fill c n i

theorem ofList_writeAt : ofList fill (writeAt fill c off d) = (ofList fill c).write off d := by
  ext i
  · exact length_writeAt fill c d off
  · exact getD_writeAt fill c d off i

theorem read_ofList : (ofList fill c).read off n = readAt c off n := by
  apply List.ext_getElem
  · simp [Extent.read, readAt, ofList]
  · intro i h₁ h₂
    simp only [readAt, List.length_take, List.length_drop] at h₂
    have hi : off + i < c.length := by omega
    simp [Extent.read, readAt, ofList, hi]

end Extents
