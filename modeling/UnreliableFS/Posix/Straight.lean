import UnreliableFS.Posix.Follow

/-!
# Straight paths

A path straight down through directories leads to the place of its last name,
whatever is there. Changes of names that leave these directories alone leave it
straight, so that it leads to what they put at its end.
-/

namespace UnreliableFS.Posix

-- ---------------------------------------------------------------------------
-- Names looked up
-- ---------------------------------------------------------------------------

section
variable {α β : Type} [BEq α] [LawfulBEq α] {l : List (α × β)} {a a' : α}

theorem lookup_filter_key {p : α × β → Bool} (hp : ∀ b, p (a, b) = true) :
    (l.filter p).lookup a = l.lookup a := by
  induction l with
  | nil => rfl
  | cons e l ih =>
    obtain ⟨k, b⟩ := e
    by_cases hk : a = k
    · subst hk
      rw [List.filter_cons_of_pos (hp b), List.lookup_cons_self, List.lookup_cons_self]
    · have hne : (a == k) = false := beq_eq_false_iff_ne.mpr hk
      rw [List.lookup_cons, hne, ← ih, List.filter_cons]
      split
      · rw [List.lookup_cons, hne]
      · rfl

theorem lookup_map_key {f : α × β → α × β} (hf : ∀ e ∈ l, (f e).1 = a' ↔ e.1 = a)
    (hsnd : ∀ e, (f e).2 = e.2) : (l.map f).lookup a' = l.lookup a := by
  induction l with
  | nil => rfl
  | cons e l ih =>
    have hl := ih fun e' he' => hf e' (List.mem_cons_of_mem e he')
    rw [List.map_cons, List.lookup_cons, List.lookup_cons, hl, hsnd]
    by_cases hk : e.1 = a
    · rw [(hf e List.mem_cons_self).mpr hk, hk, beq_self_eq_true, beq_self_eq_true]
    · have hk' : ¬(f e).1 = a' := fun h => hk ((hf e List.mem_cons_self).mp h)
      rw [beq_eq_false_iff_ne.mpr (Ne.symm hk), beq_eq_false_iff_ne.mpr (Ne.symm hk')]

theorem isPrefixOf_false {l l' : List α} : (!l.isPrefixOf l') = true ↔ ¬l <+: l' := by
  rw [← List.isPrefixOf_iff_prefix, Bool.not_eq_true', Bool.not_eq_true]

theorem lookup_eq_none_of_forall (h : ∀ e ∈ l, e.1 ≠ a) : l.lookup a = none :=
  List.lookup_eq_none_iff.mpr fun e he => by simpa using Ne.symm (h e he)

end

namespace Tree

variable {t t' : Tree} {cwd cur : Place} {follow : Bool} {path : CStr} {cs : List CStr}
  {p q x : Place} {i j : Ino}

theorem at?_remove_of_ne (h : x ≠ p) : (t.remove p).at? x = t.at? x :=
  lookup_filter_key fun _ => by simpa using h

theorem at?_remove (t : Tree) (p : Place) : (t.remove p).at? p = none :=
  lookup_eq_none_of_forall fun e he => by simpa using (List.mem_filter.mp he).2

theorem bind_nodes (t : Tree) (p q : Place) : (t.bind p q).node = t.node ∧
    (t.bind p q).permits = t.permits := by
  unfold bind
  split
  · exact ⟨rfl, rfl⟩
  · exact ⟨rfl, rfl⟩

theorem at?_bind (hi : t.at? q = some i) (x : Place) :
    (t.bind p q).at? x = if x = p then some i else t.at? x := by
  unfold bind
  split
  · rename_i hn
    cases hn.symm.trans hi
  · rename_i j hj
    cases hj.symm.trans hi
    simp only [at?, List.lookup_cons]
    by_cases hx : x = p
    · rw [if_pos hx, hx, beq_self_eq_true]
    · rw [if_neg hx, beq_eq_false_iff_ne.mpr hx]

theorem at?_move_of_apart (hp : ¬p <+: x) (hq : ¬q <+: x) : (t.move p q).at? x = t.at? x := by
  refine Eq.trans (lookup_map_key (a := x) (fun e _ => ?_) fun e => ?_)
    (lookup_filter_key fun _ => isPrefixOf_false.mpr hq)
  · unfold moved
    split
    · rename_i hpe
      have hpe := List.isPrefixOf_iff_prefix.mp hpe
      refine ⟨fun h => absurd ⟨_, h⟩ hq, fun h => absurd (h ▸ hpe) hp⟩
    · exact Iff.rfl
  · unfold moved
    split <;> rfl

theorem at?_move_old (h : ¬q <+: p) : (t.move p q).at? p = none := by
  refine lookup_eq_none_of_forall fun e he hep => ?_
  obtain ⟨e', -, rfl⟩ := List.mem_map.mp he
  unfold moved at hep
  split at hep
  · exact h ⟨_, hep⟩
  · rename_i hn
    rw [hep] at hn
    exact hn (List.isPrefixOf_iff_prefix.mpr (List.prefix_refl p))

theorem at?_move_new (h : ¬q <+: p) : (t.move p q).at? q = t.at? p := by
  refine Eq.trans (lookup_map_key (a := p) (fun e he => ?_) fun e => ?_)
    (lookup_filter_key fun _ => isPrefixOf_false.mpr h)
  · have hqe : ¬q <+: e.1 := isPrefixOf_false.mp (List.mem_filter.mp he).2
    unfold moved
    split
    · rename_i hpe
      obtain ⟨rest, hr⟩ := List.isPrefixOf_iff_prefix.mp hpe
      rw [← hr]
      simp
    · rename_i hpe
      constructor
      · rintro rfl
        exact absurd (List.prefix_refl _) hqe
      · rintro rfl
        exact absurd (List.isPrefixOf_iff_prefix.mpr (List.prefix_refl _)) hpe
  · unfold moved
    split <;> rfl

-- ---------------------------------------------------------------------------
-- The way down
-- ---------------------------------------------------------------------------

def IsName (c : CStr) : Prop := ¬(c = [] ∨ c = dot) ∧ c ≠ dotdot

/-- Components that end with a name and pass directories only. -/
inductive Way (t : Tree) : Place → List CStr → Place → Prop
  | name {cur c} : t.contentAt cur = some .directory → IsName c → Way t cur [c] (cur ++ [c])
  | skip {cur c cs p} : t.contentAt cur = some .directory → c = [] ∨ c = dot → Way t cur cs p →
      Way t cur (c :: cs) p
  | down {cur c cs p} : t.contentAt cur = some .directory → IsName c → Way t (cur ++ [c]) cs p →
      Way t cur (c :: cs) p

def Straight (t : Tree) (cwd : Place) (path : CStr) (p : Place) : Prop :=
  t.Way (start cwd path) (components path) p

theorem Way.proper (h : t.Way cur cs p) : cur <+: p ∧ cur ≠ p := by
  induction h with
  | name => simp
  | skip _ _ _ ih => exact ih
  | @down cur c cs p _ _ _ ih =>
    obtain ⟨rest, rfl⟩ := ih.1
    simp

theorem Way.mono (h : t.Way cur cs p) (hk : ∀ x, x <+: p → x ≠ p → t.contentAt x = some .directory →
    t'.contentAt x = some .directory) : t'.Way cur cs p := by
  induction h with
  | name hd hc => exact .name (hk _ (by simp) (by simp) hd) hc
  | skip hd hc hw ih => exact .skip (hk _ hw.proper.1 hw.proper.2 hd) hc (ih hk)
  | @down cur c cs p hd hc hw ih =>
    have hcur := (Way.down hd hc hw).proper
    exact .down (hk _ hcur.1 hcur.2 hd) hc (ih hk)

section
variable {again : Place → List CStr → Except Errno Place}

/-- It ends there, unless a link at its end is followed. -/
theorem Way.walkFrom (h : t.Way cur cs p)
    (hn : follow = false ∨ ∀ target, t.contentAt p ≠ some (.symlink target)) :
    t.walkFrom follow again cur cs = .ok p := by
  induction h with
  | @name cur c hd hc =>
    simp only [Tree.walkFrom, hd, if_neg hc.1, if_neg hc.2]
    split
    · rename_i target ht
      rw [if_pos ⟨trivial, hn.resolve_right fun h => h target ht⟩]
    · rfl
    · rfl
  | skip hd hc _ ih =>
    simp only [Tree.walkFrom, hd, if_pos hc]
    exact ih hn
  | @down cur c cs p hd hc hw ih =>
    have hdir : t.contentAt (cur ++ [c]) = some .directory := by
      cases hw <;> assumption
    simp only [Tree.walkFrom, hd, if_neg hc.1, if_neg hc.2, hdir]
    exact ih hn

theorem Way.walkFrom_link (h : t.Way cur cs p) {target : CStr}
    (ht : t.contentAt p = some (.symlink target)) :
    t.walkFrom true again cur cs = again (start p.dropLast target) (components target) := by
  induction h with
  | @name cur c hd hc => simp [Tree.walkFrom, hd, if_neg hc.1, if_neg hc.2, ht]
  | skip hd hc _ ih =>
    simp only [Tree.walkFrom, hd, if_pos hc]
    exact ih ht
  | @down cur c cs p hd hc hw ih =>
    have hdir : t.contentAt (cur ++ [c]) = some .directory := by
      cases hw <;> assumption
    simp only [Tree.walkFrom, hd, if_neg hc.1, if_neg hc.2, hdir]
    exact ih ht

end

theorem Way.walk (h : t.Way cur cs p)
    (hn : follow = false ∨ ∀ target, t.contentAt p ≠ some (.symlink target)) (links : Nat) :
    t.walk follow links cur cs = .ok p := by
  cases links with
  | zero => exact h.walkFrom hn
  | succ links => exact h.walkFrom hn

theorem contentAt_eq (h : t.at? p = some i) : t.contentAt p = some (t.node i).content := by
  unfold contentAt
  rw [h]
  rfl

namespace Straight

theorem nonempty (h : t.Straight cwd path p) : path ≠ [] := by
  rintro rfl
  cases h with
  | name _ hc => exact hc.1 (.inl rfl)
  | skip _ _ hw => cases hw
  | down _ hc _ => exact hc.1 (.inl rfl)

theorem resolve (h : t.Straight cwd path p)
    (hn : follow = false ∨ ∀ target, t.contentAt p ≠ some (.symlink target)) :
    t.resolve cwd follow path = .ok p := by
  unfold Tree.resolve
  rw [if_neg h.nonempty]
  exact Way.walk h hn _

theorem resolve_link (h : t.Straight cwd path p) {target : CStr}
    (ht : t.contentAt p = some (.symlink target)) (hq : t.Straight p.dropLast target q)
    (hn : ∀ target, t.contentAt q ≠ some (.symlink target)) :
    t.resolve cwd true path = .ok q := by
  unfold Tree.resolve
  rw [if_neg h.nonempty]
  exact (Way.walkFrom_link h ht).trans (Way.walk hq (.inr hn) _)

theorem find_place (h : t.Straight cwd path p) (hf : t.find cwd false path = .ok (q, i)) :
    q = p ∧ t.at? p = some i := by
  obtain ⟨hr, hq⟩ := find_ok hf
  cases hr.symm.trans (h.resolve (.inl rfl))
  exact ⟨rfl, hq⟩

theorem find_none (h : t.Straight cwd path p) (hp : t.at? p = none) :
    t.find cwd true path = .error .ENOENT := by
  unfold find
  rw [h.resolve (.inr fun target ht => by simp [contentAt, hp] at ht)]
  simp only [Bind.bind, Except.bind, hp]
  rfl

theorem find_at (h : t.Straight cwd path p) (hp : t.at? p = some i)
    (hn : ∀ target, (t.node i).content ≠ .symlink target) :
    t.find cwd true path = .ok (p, i) := by
  have hr : t.resolve cwd true path = .ok p := h.resolve (.inr fun target ht => by
    rw [contentAt_eq hp] at ht
    exact hn target (Option.some.inj ht))
  exact bind_ok.mpr ⟨p, hr, by rw [hp]; rfl⟩

theorem mono (h : t.Straight cwd path p) (hn : t'.node = t.node)
    (ha : ∀ x, x <+: p → x ≠ p → t'.at? x = t.at? x) : t'.Straight cwd path p :=
  Way.mono h fun x hx hxp hd => by
    rw [← hd]
    unfold contentAt
    rw [ha x hx hxp, hn]

end Straight

-- ---------------------------------------------------------------------------
-- Calls on names
-- ---------------------------------------------------------------------------

theorem unlink_straight (h : t.Straight cwd path p) (hu : t.unlink cwd path = .ok t') :
    t'.find cwd true path = .error .ENOENT := by
  simp only [unlink, bind_ok, pure_ok] at hu
  obtain ⟨⟨q, i⟩, hf, -, -, rfl⟩ := hu
  obtain ⟨rfl, -⟩ := h.find_place hf
  exact Straight.find_none (h.mono rfl fun x _ hx => at?_remove_of_ne hx) (at?_remove t q)

/-- A rename that has something to do moves one place to another, apart from it. -/
theorem rename_ok {oldpath newpath : CStr} (hf : t.find cwd false oldpath = .ok (p, i))
    (hother : ∀ q, t.find cwd false newpath ≠ .ok (q, i))
    (hr : t.rename cwd oldpath newpath = .ok t') : ∃ q, t.resolve cwd false newpath = .ok q ∧
      ¬p <+: q ∧ ¬q <+: p ∧ t' = t.move p q := by
  simp only [rename, bind_ok] at hr
  obtain ⟨⟨p', i'⟩, hf', q, hq, ⟨⟩, -, ⟨⟩, -, ⟨⟩, hpq, ⟨⟩, hqp, hr⟩ := hr
  cases hf.symm.trans hf'
  simp only [refuse_ok, List.isPrefixOf_iff_prefix, not_and, not_not] at hpq hqp
  have hi : t.at? q ≠ some i := by
    intro hi
    refine hother q (bind_ok.mpr ⟨q, hq, ?_⟩)
    rw [hi]
    rfl
  have hne : p ≠ q := by
    rintro rfl
    exact hi (find_ok hf).2
  refine ⟨q, hq, fun h => hne (hpq h), fun h => hne (hqp h), ?_⟩
  split at hr
  · rename_i j hj
    split at hr
    · rename_i hij
      exact absurd (hj.trans (congrArg some (Eq.symm hij))) hi
    · obtain ⟨-, -, hr⟩ := bind_ok.mp hr
      exact (pure_ok.mp hr).symm
  · exact (pure_ok.mp hr).symm

theorem rename_away_straight (h : t.Straight cwd path p) {newpath : CStr}
    (hf : t.find cwd false path = .ok (q, i)) (hother : ∀ q, t.find cwd false newpath ≠ .ok (q, i))
    (hr : t.rename cwd path newpath = .ok t') : t'.find cwd true path = .error .ENOENT := by
  obtain ⟨rfl, -⟩ := h.find_place hf
  obtain ⟨r, -, hqr, hrq, rfl⟩ := rename_ok hf hother hr
  refine Straight.find_none (h.mono rfl fun x hx hxq => ?_) (at?_move_old hrq)
  exact at?_move_of_apart (fun hqx => hxq (hx.eq_of_length_le hqx.length_le))
    fun hrx => hrq (hrx.trans hx)

theorem rename_onto_straight (h : t.Straight cwd path p) {oldpath : CStr}
    (hf : t.find cwd false oldpath = .ok (q, i)) (hother : ∀ q, t.find cwd false path ≠ .ok (q, i))
    (hn : ∀ target, (t.node i).content ≠ .symlink target)
    (hr : t.rename cwd oldpath path = .ok t') : t'.find cwd true path = .ok (p, i) ∧
      t'.node i = t.node i ∧ t'.permits = t.permits := by
  obtain ⟨r, hres, hqr, hrq, rfl⟩ := rename_ok hf hother hr
  cases hres.symm.trans (h.resolve (.inl rfl))
  have hp : (t.move q p).at? p = some i := (at?_move_new hrq).trans (find_ok hf).2
  refine ⟨Straight.find_at (h.mono rfl fun x hx hxp => ?_) hp hn, rfl, rfl⟩
  exact at?_move_of_apart (fun hqx => hqr (hqx.trans hx))
    fun hpx => hxp (hx.eq_of_length_le hpx.length_le)

theorem vacant_straight (h : t.Straight cwd path p) {slashed : Bool}
    (hv : t.vacant cwd path slashed = .ok q) : q = p ∧ t.at? p = none := by
  obtain ⟨r, hr, hq⟩ := bind_ok.mp hv
  cases hr.symm.trans (h.resolve (.inl rfl))
  split at hq
  · cases hq
  · rename_i hp
    split at hq
    · cases hq
    · exact ⟨(pure_ok.mp hq).symm, hp⟩

theorem link_straight (h : t.Straight cwd path p) {oldpath : CStr}
    (hf : t.find cwd false oldpath = .ok (q, i))
    (hn : ∀ target, (t.node i).content ≠ .symlink target)
    (hl : t.link cwd oldpath path = .ok t') : t'.find cwd true path = .ok (p, i) ∧
      t'.node i = t.node i ∧ t'.permits = t.permits := by
  simp only [link, bind_ok, pure_ok] at hl
  obtain ⟨⟨q', i'⟩, hf', -, -, r, hv, rfl⟩ := hl
  cases hf.symm.trans hf'
  obtain ⟨rfl, -⟩ := vacant_straight h hv
  obtain ⟨hnode, hperm⟩ := bind_nodes t r q
  have ha := at?_bind (p := r) (find_ok hf).2
  have hr : (t.bind r q).at? r = some i := by rw [ha, if_pos rfl]
  exact ⟨Straight.find_at (h.mono hnode fun x _ hx => by rw [ha, if_neg hx]) hr
    (by rw [hnode]; exact hn), congrFun hnode i, hperm⟩

theorem symlink_straight (h : t.Straight cwd path p) {target : CStr}
    (hq : t.Straight p.dropLast target q) (hi : t.at? q = some i)
    (hn : ∀ target, (t.node i).content ≠ .symlink target)
    (hs : t.symlink cwd target path = .ok t') : t'.find cwd true path = .ok (q, i) ∧
      t'.node i = t.node i ∧ t'.permits = t.permits := by
  simp only [symlink, bind_ok, pure_ok] at hs
  obtain ⟨-, -, r, hv, rfl⟩ := hs
  obtain ⟨rfl, hr⟩ := vacant_straight h hv
  have hg := Grows.add hr (t.fresh (.symlink target) 0o777)
  have hnode : (t.add r (t.fresh (.symlink target) 0o777)).node i = t.node i := by
    simp [add, Nat.ne_of_lt (at?_lt hi)]
  have hlink : (t.add r (t.fresh (.symlink target) 0o777)).contentAt r = some (.symlink target) := by
    simp [contentAt, at?, add, fresh]
  have hends : (t.add r (t.fresh (.symlink target) 0o777)).contentAt q = some (t.node i).content := by
    rw [contentAt_eq (hg.at? q i hi), hnode]
  have hres := Straight.resolve_link (Way.mono h fun x _ _ hd => hg.contentAt_directory hd) hlink
    (Way.mono hq fun x _ _ hd => hg.contentAt_directory hd) fun target ht =>
      hn target (Option.some.inj (hends.symm.trans ht))
  refine ⟨bind_ok.mpr ⟨q, hres, ?_⟩, hnode, rfl⟩
  rw [hg.at? q i hi]
  rfl

end Tree

end UnreliableFS.Posix
