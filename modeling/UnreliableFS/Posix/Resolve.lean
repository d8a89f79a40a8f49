import UnreliableFS.Lexical.Walk
import UnreliableFS.Posix.Laws

/-!
# Paths without symbolic links

Where a path leads when no component of it is a symbolic link: a walk from the
root or the working directory, with a step for each component.
-/

namespace UnreliableFS.Posix

open Lexical

def stepOf (c : CStr) : Option (Step CStr) :=
  if c = [] ∨ c = dot then none else if c = dotdot then some .up else some (.down c)

def steps (path : CStr) : List (Step CStr) := (components path).filterMap stepOf

def location (cwd : Place) (path : CStr) : Place := walk (start cwd path) (steps path)

theorem components_ne_nil (s : CStr) : components s ≠ [] := by
  cases s with
  | nil => simp [components]
  | cons c s =>
    unfold components
    split
    · simp
    · split <;> simp

theorem components_append_slash (a b : CStr) :
    components (a ++ slash :: b) = components a ++ components b := by
  induction a with
  | nil => simp [components]
  | cons c a ih =>
    by_cases hc : c = slash
    · simp [components, hc, ih]
    · cases ha : components a with
      | nil => exact absurd ha (components_ne_nil a)
      | cons w ws => simp [components, hc, ih, ha]

theorem steps_append_slash (a b : CStr) : steps (a ++ slash :: b) = steps a ++ steps b := by
  simp [steps, components_append_slash, List.filterMap_append]

theorem start_append {a : CStr} (h : a ≠ []) (cwd : Place) (b : CStr) :
    start cwd (a ++ b) = start cwd a := by
  cases a with
  | nil => exact absurd rfl h
  | cons c a => rfl

-- ---------------------------------------------------------------------------
-- A tree without links
-- ---------------------------------------------------------------------------

namespace Tree

variable {t t' : Tree} {cwd : Place}

def NoLinks (t : Tree) : Prop := ∀ p target, t.contentAt p ≠ some (.symlink target)

theorem NoLinks.walkFrom (h : t.NoLinks) {follow : Bool}
    {again : Place → List CStr → Except Errno Place} {cs : List CStr} {cur p : Place}
    (hw : t.walkFrom follow again cur cs = .ok p) : p = Lexical.walk cur (cs.filterMap stepOf) := by
  induction cs generalizing cur with
  | nil =>
    cases hw
    rfl
  | cons c cs ih =>
    unfold Tree.walkFrom at hw
    split at hw
    · split at hw
      · rename_i hc
        have hs : stepOf c = none := if_pos hc
        rw [List.filterMap_cons_none hs]
        exact ih hw
      · rename_i hc
        split at hw
        · rename_i hdd
          have hs : stepOf c = some .up := by
            unfold stepOf
            rw [if_neg hc, if_pos hdd]
          rw [List.filterMap_cons_some hs]
          exact ih hw
        · rename_i hdd
          have hs : stepOf c = some (.down c) := by
            unfold stepOf
            rw [if_neg hc, if_neg hdd]
          rw [List.filterMap_cons_some hs]
          split at hw
          · rename_i target ht
            exact absurd ht (h _ target)
          · exact ih hw
          · split at hw
            · -- nothing but slashes is left
              rename_i hall
              cases hw
              have hrest : cs.filterMap stepOf = [] := List.filterMap_eq_nil_iff.mpr fun d hd => by
                have hnil : d = [] := by simpa using List.all_eq_true.mp hall d hd
                exact if_pos (.inl hnil)
              rw [hrest]
              rfl
            · cases hw
    · cases hw
    · cases hw

theorem NoLinks.resolve (h : t.NoLinks) {follow : Bool} {path : CStr} {p : Place}
    (hr : t.resolve cwd follow path = .ok p) : p = location cwd path := by
  unfold Tree.resolve at hr
  split at hr
  · cases hr
  · exact h.walkFrom hr

theorem NoLinks.add (h : t.NoLinks) {p : Place} {n : Node} (hn : ∀ target, n.content ≠ .symlink target) :
    (t.add p n).NoLinks := by
  intro q target hq
  obtain ⟨i, hi, hc⟩ := Option.map_eq_some_iff.mp hq
  have hlook : ((p, t.next) :: t.names).lookup q = some i := hi
  have hnode : (t.add p n).node i = Function.update t.node t.next n i := rfl
  rw [hnode] at hc
  rw [List.lookup_cons] at hlook
  split at hlook
  · cases hlook
    rw [Function.update_self] at hc
    exact hn target hc
  · have hlt : i < t.next := by
      obtain ⟨l₁, l₂, hl, -⟩ := List.lookup_eq_some_iff.mp hlook
      exact t.lt_next (q, i) (hl ▸ by simp)
    rw [Function.update_of_ne (Nat.ne_of_lt hlt)] at hc
    exact h q target (Option.map_eq_some_iff.mpr ⟨i, hlook, hc⟩)

theorem NoLinks.mkdir (h : t.NoLinks) {path : CStr} {mode : Nat}
    (hm : t.mkdir cwd path mode = .ok t') :
    t'.NoLinks ∧ t'.names = (location cwd path, t.next) :: t.names := by
  obtain ⟨p, hv, hp⟩ := bind_ok.mp hm
  cases hp
  obtain ⟨q, hr, hq⟩ := bind_ok.mp hv
  have hpq : p = q := by
    split at hq
    · cases hq
    · split at hq
      · cases hq
      · exact (Except.ok.inj hq).symm
  subst hpq
  refine ⟨h.add fun target => ?_, ?_⟩
  · rintro ⟨⟩
  · rw [← h.resolve hr]
    rfl

end Tree

end UnreliableFS.Posix
