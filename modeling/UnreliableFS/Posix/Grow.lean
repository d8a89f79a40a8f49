import UnreliableFS.Posix.Laws

/-!
# Trees that grow

Calls that open, write and cut files take no name away. In the trees they lead
to, a path whose object has been opened goes on leading there (`Names`), and
what they do to the bytes is one operation on one `Extent` (`array`).
-/

namespace UnreliableFS.Posix

open Extents

/-- All of a content but the bytes of a file. -/
def Content.kind : Content → Content
  | .regular _ => .regular []
  | c => c

namespace Tree

/-- Every name, and every object but for its bytes and attributes, is still there. -/
structure Grows (t t' : Tree) : Prop where
  at? : ∀ p i, t.at? p = some i → t'.at? p = some i
  kind : ∀ i < t.next, (t'.node i).content.kind = (t.node i).content.kind
  next : t.next ≤ t'.next

variable {t t' : Tree} {cwd : Place} {follow : Bool} {path : CStr} {p q : Place} {i j : Ino}

theorem at?_lt (h : t.at? p = some i) : i < t.next := by
  obtain ⟨l₁, l₂, hl, -⟩ := List.lookup_eq_some_iff.mp h
  exact t.lt_next (p, i) (by simp [hl])

theorem find_ok (h : t.find cwd follow path = .ok (p, i)) :
    t.resolve cwd follow path = .ok p ∧ t.at? p = some i := by
  obtain ⟨q, hr, hq⟩ := bind_ok.mp h
  split at hq
  · rename_i j hj
    cases hq
    exact ⟨hr, hj⟩
  · cases hq

namespace Grows

theorem refl (t : Tree) : t.Grows t := ⟨fun _ _ h => h, fun _ _ => rfl, Nat.le_refl _⟩

theorem trans {t₁ t₂ t₃ : Tree} (h₁ : t₁.Grows t₂) (h₂ : t₂.Grows t₃) : t₁.Grows t₃ where
  at? := fun p i h => h₂.at? p i (h₁.at? p i h)
  kind := fun i hi => (h₂.kind i (Nat.lt_of_lt_of_le hi h₁.next)).trans (h₁.kind i hi)
  next := Nat.le_trans h₁.next h₂.next

theorem contentAt (h : t.Grows t') {c : Content} (hc : t.contentAt p = some c) :
    ∃ c', t'.contentAt p = some c' ∧ c'.kind = c.kind := by
  obtain ⟨i, hi, rfl⟩ := Option.map_eq_some_iff.mp hc
  refine ⟨(t'.node i).content, ?_, h.kind i (at?_lt hi)⟩
  unfold Tree.contentAt
  rw [h.at? p i hi]
  rfl

theorem contentAt_directory (h : t.Grows t') (hc : t.contentAt p = some .directory) :
    t'.contentAt p = some .directory := by
  obtain ⟨c, hc', hk⟩ := h.contentAt hc
  cases c <;> first | exact hc' | cases hk

theorem contentAt_symlink (h : t.Grows t') {target : CStr}
    (hc : t.contentAt p = some (.symlink target)) : t'.contentAt p = some (.symlink target) := by
  obtain ⟨c, hc', hk⟩ := h.contentAt hc
  cases c <;> cases hk
  exact hc'

theorem add (hp : t.at? p = none) (n : Node) : t.Grows (t.add p n) where
  at? := by
    intro q i hq
    have hne : (q == p) = false := by
      rw [beq_eq_false_iff_ne]
      rintro rfl
      rw [hp] at hq
      cases hq
    show ((p, t.next) :: t.names).lookup q = some i
    rw [List.lookup_cons, hne]
    exact hq
  kind := by
    intro i hi
    show (Function.update t.node t.next n i).content.kind = _
    rw [Function.update_of_ne (Nat.ne_of_lt hi)]
  next := Nat.le_succ _

theorem setData (hi : (t.node i).content.kind = .regular []) (data : List UInt8) :
    t.Grows (t.setData i data) where
  at? := fun _ _ h => h
  kind := by
    intro j _
    by_cases hj : j = i
    · subst hj
      rw [hi]
      simp [Tree.setData, modify, Content.kind]
    · simp [Tree.setData, modify, hj]
  next := Nat.le_refl _

end Grows

-- ---------------------------------------------------------------------------
-- Where paths lead
-- ---------------------------------------------------------------------------

def Ends (t : Tree) (p : Place) : Prop :=
  ∃ c, t.contentAt p = some c ∧ ∀ target, c ≠ .symlink target

theorem walkFrom_slashes {again : Place → List CStr → Except Errno Place} {cs : List CStr}
    (hcs : cs.all (· = [])) (h : t.walkFrom follow again p cs = .ok q) : q = p := by
  induction cs with
  | nil =>
    cases h
    rfl
  | cons c cs ih =>
    simp only [List.all_cons, Bool.and_eq_true, decide_eq_true_eq] at hcs
    unfold Tree.walkFrom at h
    simp only [hcs.1, true_or, ↓reduceIte] at h
    split at h
    · exact ih hcs.2 h
    · cases h
    · cases h

/-- A walk that ends at an object of the grown tree ends there in it too, if it
ends: nothing it has passed has changed. -/
theorem Grows.walkFrom (hg : t.Grows t') {again again' : Place → List CStr → Except Errno Place}
    (ha : ∀ {cur cs p q}, again cur cs = .ok p → t'.Ends p → again' cur cs = .ok q → q = p)
    {cur : Place} {cs : List CStr} (h : t.walkFrom follow again cur cs = .ok p) (hp : t'.Ends p)
    (h' : t'.walkFrom true again' cur cs = .ok q) : q = p := by
  induction cs generalizing cur with
  | nil =>
    cases h
    cases h'
    rfl
  | cons c cs ih =>
    unfold Tree.walkFrom at h h'
    split at h
    · rename_i hcur
      rw [hg.contentAt_directory hcur] at h'
      dsimp only at h'
      split at h
      · rename_i hc
        rw [if_pos hc] at h'
        exact ih h h'
      · rename_i hc
        rw [if_neg hc] at h'
        split at h
        · rename_i hdd
          rw [if_pos hdd] at h'
          exact ih h h'
        · rename_i hdd
          rw [if_neg hdd] at h'
          split at h
          · -- the same link leads on from here, unless the path ended at it
            rename_i target ht
            rw [hg.contentAt_symlink ht] at h'
            simp only [Bool.true_eq_false, and_false, ↓reduceIte] at h'
            split at h
            · cases h
              obtain ⟨c', hc', hn⟩ := hp
              rw [hg.contentAt_symlink ht] at hc'
              cases hc'
              exact absurd rfl (hn target)
            · exact ha h hp h'
          · rename_i c₀ hn ht
            obtain ⟨c', hc', hk⟩ := hg.contentAt ht
            rw [hc'] at h'
            cases c' with
            | symlink target =>
              cases c₀ <;> cases hk
              exact absurd rfl (hn target)
            | _ => exact ih h h'
          · -- the name is new in the grown tree, and it was the last one
            split at h
            · rename_i hall
              cases h
              obtain ⟨c', hc', hn⟩ := hp
              rw [hc'] at h'
              cases c' with
              | symlink target => exact absurd rfl (hn target)
              | _ => exact walkFrom_slashes hall h'
            · cases h
    · cases h
    · cases h

theorem Grows.walk (hg : t.Grows t') {links : Nat} {cur : Place} {cs : List CStr}
    (h : t.walk follow links cur cs = .ok p) (hp : t'.Ends p)
    (h' : t'.walk true links cur cs = .ok q) : q = p := by
  induction links generalizing cur cs p q with
  | zero => exact hg.walkFrom (by rintro _ _ _ _ ⟨⟩) h hp h'
  | succ links ih => exact hg.walkFrom ih h hp h'

theorem Grows.resolve (hg : t.Grows t') (h : t.resolve cwd follow path = .ok p) (hp : t'.Ends p)
    (h' : t'.resolve cwd true path = .ok q) : q = p := by
  unfold Tree.resolve at h h'
  split at h
  · cases h
  · rename_i hn
    rw [if_neg hn] at h'
    exact hg.walk h hp h'

/-- The path leads to this object and no other, however much is added. -/
def Names (t : Tree) (cwd : Place) (path : CStr) (i : Ino) : Prop :=
  ∀ t', t.Grows t' → ∀ q j, t'.find cwd true path = .ok (q, j) → j = i

theorem Names.grows (h : t.Names cwd path i) (hg : t.Grows t') : t'.Names cwd path i :=
  fun t'' hg' => h t'' (hg.trans hg')

theorem Grows.names (hg : t.Grows t') (h : t.resolve cwd follow path = .ok p) (hp : t'.at? p = some i)
    (hi : ∀ target, (t'.node i).content ≠ .symlink target) : t'.Names cwd path i := by
  intro t'' hg' q j hf
  obtain ⟨hr, hq⟩ := find_ok hf
  have hends : t''.Ends p := by
    obtain ⟨c, hc, hk⟩ := hg'.contentAt (p := p) (c := (t'.node i).content) (by
      unfold Tree.contentAt
      rw [hp]
      rfl)
    refine ⟨c, hc, ?_⟩
    rintro target rfl
    cases hc' : (t'.node i).content <;> rw [hc'] at hk <;> cases hk
    exact hi _ hc'
  have hqp := (hg.trans hg').resolve h hends hr
  rw [hqp, hg'.at? p i hp] at hq
  cases hq
  rfl

-- ---------------------------------------------------------------------------
-- What files hold
-- ---------------------------------------------------------------------------

/-- The bytes of an object; there are none in what is not a file, or not there. -/
def array (t : Tree) (i : Ino) : Extent UInt8 0 :=
  if i < t.next then
    match (t.node i).content with
    | .regular data => ofList 0 data
    | _ => .empty
  else .empty

theorem dataOf_ok {data : List UInt8} (h : t.dataOf i = .ok data) :
    (t.node i).content = .regular data := by
  unfold dataOf at h
  split at h
  · rename_i hc
    cases h
    exact hc
  · cases h
  · cases h

theorem array_regular (hi : i < t.next) {data : List UInt8}
    (h : (t.node i).content = .regular data) : t.array i = ofList 0 data := by
  unfold array
  rw [if_pos hi, h]

theorem array_irregular (h : ∀ data, (t.node i).content ≠ .regular data) :
    t.array i = .empty := by
  unfold array
  cases hc : (t.node i).content with
  | regular data => exact absurd hc (h data)
  | _ => exact ite_self _

theorem array_setData (hi : i < t.next) (data : List UInt8) :
    (t.setData i data).array = Function.update t.array i (ofList 0 data) := by
  funext j
  by_cases hj : j = i
  · subst hj
    rw [Function.update_self]
    refine array_regular (t := t.setData j data) hi ?_
    simp [Tree.setData, modify]
  · simp [array, Tree.setData, modify, hj]

theorem array_add {n : Node} (hn : n.content = .regular []) :
    (t.add p n).array = t.array := by
  funext j
  rcases Nat.lt_trichotomy j t.next with hj | rfl | hj
  · have hj' : j < t.next + 1 := Nat.lt_succ_of_lt hj
    simp [array, Tree.add, hj, hj', Nat.ne_of_lt hj]
  · simp [array, Tree.add, hn]
  · have hj' : ¬j < t.next + 1 := Nat.not_lt_of_le hj
    simp [array, Tree.add, hj', Nat.not_lt_of_gt hj]

/-- An object that has been opened: new and empty, or there before and cut if
the flags say so. -/
theorem openFile_ok {flags : OpenFlags} {mode : Nat}
    (h : t.openFile cwd path flags mode = .ok (t', i)) : t.Grows t' ∧ i < t'.next ∧
      t'.Names cwd path i ∧
        t'.array = Function.update t.array i (if flags.trunc then .empty else t.array i) := by
  obtain ⟨p, hr, h⟩ := bind_ok.mp h
  split at h
  · rename_i hp
    simp only [bind_ok, pure_ok] at h
    obtain ⟨-, -, -, -, h⟩ := h
    cases h
    have hg := Grows.add hp (t.fresh (.regular []) mode)
    refine ⟨hg, Nat.lt_succ_self _, hg.names hr (p := p) ?_ ?_, ?_⟩
    · simp [Tree.at?, Tree.add]
    · simp [Tree.add, fresh]
    · rw [array_add rfl]
      simp [array]
  · rename_i j hp
    have hlt := at?_lt hp
    simp only [bind_ok] at h
    obtain ⟨-, -, -, -, h⟩ := h
    split at h
    · cases h
    · rename_i data hc
      cases h
      by_cases htr : flags.trunc
      · rw [if_pos htr, if_pos htr]
        have hg : t.Grows (t.setData i []) := .setData (by rw [hc]; rfl) _
        refine ⟨hg, hlt, hg.names hr hp ?_, ?_⟩
        · simp [Tree.setData, modify]
        · rw [array_setData hlt, ofList_nil]
      · rw [if_neg htr, if_neg htr]
        refine ⟨.refl t, hlt, (Grows.refl t).names hr hp ?_, ?_⟩
        · simp [hc]
        · rw [Function.update_eq_self]
    · rename_i hs hf
      cases h
      refine ⟨.refl t, hlt, (Grows.refl t).names hr hp hs, ?_⟩
      simp [array_irregular hf]

end Tree

end UnreliableFS.Posix
