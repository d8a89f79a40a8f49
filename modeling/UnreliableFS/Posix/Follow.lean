import UnreliableFS.Posix.Grow

/-!
# Following a final link

A path leads to the same object whether or not a symbolic link at its end is
followed, unless there is one. A change of attributes does not change where
paths lead.
-/

namespace UnreliableFS.Posix.Tree

variable {t t' : Tree} {cwd : Place} {follow : Bool} {path : CStr} {p q : Place} {i j : Ino}

-- ---------------------------------------------------------------------------
-- Two walks over one tree
-- ---------------------------------------------------------------------------

/-- A walk that has stopped at a symbolic link. -/
def AtLink (t : Tree) (r : Except Errno Place) : Prop :=
  ∃ p target, r = .ok p ∧ t.contentAt p = some (.symlink target)

theorem walkFrom_final {again again' : Place → List CStr → Except Errno Place}
    (ha : ∀ cur cs, again cur cs = again' cur cs ∨ t.AtLink (again cur cs)) (cur : Place)
    (cs : List CStr) : t.walkFrom false again cur cs = t.walkFrom true again' cur cs ∨
      t.AtLink (t.walkFrom false again cur cs) := by
  induction cs generalizing cur with
  | nil => exact .inl rfl
  | cons c cs ih =>
    unfold walkFrom
    split
    · split
      · exact ih cur
      · split
        · exact ih _
        · split
          · rename_i target ht
            by_cases hcs : cs = []
            · -- the link the path ends at
              refine .inr ⟨cur ++ [c], target, ?_, ht⟩
              rw [if_pos ⟨hcs, rfl⟩]
            · rw [if_neg fun h => hcs h.1, if_neg fun h => hcs h.1]
              exact ha _ _
          · exact ih _
          · exact .inl rfl
    · exact .inl rfl
    · exact .inl rfl

theorem walk_final (links : Nat) (cur : Place) (cs : List CStr) :
    t.walk false links cur cs = t.walk true links cur cs ∨ t.AtLink (t.walk false links cur cs) := by
  induction links generalizing cur cs with
  | zero => exact walkFrom_final (fun _ _ => .inl rfl) cur cs
  | succ links ih => exact walkFrom_final ih cur cs

variable (t cwd path) in
/-- A path that does not stop at a link leads to the same object either way. -/
theorem find_final : t.find cwd false path = t.find cwd true path ∨
    ∃ p i target, t.find cwd false path = .ok (p, i) ∧ (t.node i).content = .symlink target := by
  have hres : t.resolve cwd false path = t.resolve cwd true path ∨
      t.AtLink (t.resolve cwd false path) := by
    unfold resolve
    split
    · exact .inl rfl
    · exact walk_final _ _ _
  obtain h | ⟨p, target, hr, hc⟩ := hres
  · unfold find
    rw [h]
    exact .inl rfl
  · obtain ⟨i, hi, hc⟩ := Option.map_eq_some_iff.mp hc
    refine .inr ⟨p, i, target, bind_ok.mpr ⟨p, hr, ?_⟩, hc⟩
    rw [hi]
    rfl

theorem find_eq_of_not_symlink (h : t.find cwd false path = .ok (p, i))
    (hi : ∀ target, (t.node i).content ≠ .symlink target) :
    t.find cwd true path = .ok (p, i) := by
  obtain he | ⟨p', i', target, hf, hc⟩ := find_final t cwd path
  · exact he.symm.trans h
  · cases h.symm.trans hf
    exact absurd hc (hi target)

-- ---------------------------------------------------------------------------
-- Changes of attributes
-- ---------------------------------------------------------------------------

theorem walkFrom_congr {again again' : Place → List CStr → Except Errno Place}
    (hc : t'.contentAt = t.contentAt) (ha : again' = again) (cur : Place) (cs : List CStr) :
    t'.walkFrom follow again' cur cs = t.walkFrom follow again cur cs := by
  subst ha
  induction cs generalizing cur with
  | nil => rfl
  | cons c cs ih => simp only [walkFrom, hc, ih]

theorem walk_congr (hc : t'.contentAt = t.contentAt) (links : Nat) :
    t'.walk follow links = t.walk follow links := by
  induction links with
  | zero => exact funext₂ (walkFrom_congr hc rfl)
  | succ links ih => exact funext₂ (walkFrom_congr hc ih)

/-- Where a path leads depends on the names and on the contents. -/
theorem find_congr (hn : t'.names = t.names) (hc : t'.contentAt = t.contentAt) :
    t'.find cwd follow path = t.find cwd follow path := by
  unfold find resolve at?
  rw [walk_congr hc, hn]

variable (t i) in
theorem find_modify {f : Node → Node} (hf : ∀ n, (f n).content = n.content) :
    (t.modify i f).find cwd follow path = t.find cwd follow path := by
  refine find_congr rfl (funext fun p => ?_)
  have hnode (j : Ino) : ((t.modify i f).node j).content = (t.node j).content := by
    by_cases hj : j = i
    · simp [modify, hj, hf]
    · simp [modify, hj]
  unfold contentAt
  simp only [hnode]
  rfl

/-- Which of two objects has been changed does not matter if neither has. -/
theorem modify_eq_iff {f : Node → Node} : t.modify j f = t.modify i f ↔
    j = i ∨ f (t.node i) = t.node i ∧ f (t.node j) = t.node j := by
  constructor
  · intro h
    by_cases hj : j = i
    · exact .inl hj
    · have hnode := congrArg Tree.node h
      have hi := congrFun hnode i
      have hj' := congrFun hnode j
      simp only [modify, Function.update_self, Function.update_of_ne hj,
        Function.update_of_ne (Ne.symm hj)] at hi hj'
      exact .inr ⟨hi.symm, hj'⟩
  · rintro (rfl | ⟨hi, hj⟩)
    · rfl
    · simp [modify, hi, hj]

end UnreliableFS.Posix.Tree
