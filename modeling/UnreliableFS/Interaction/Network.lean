import UnreliableFS.Interaction.Reach

/-!
# Calls to a server over a lossy network

Any number of calls, each with a number of its own. The request of a call reaches
the server at most once, the server serves one request after the other, and its
reply reaches the call or does not. A call that is over has the reply to its own
request, or has failed (`returned_own`); and of all requests that lay claim to
one thing at most one gets it, if it is not given up again (`one_winner`).

What is known of an execution stays on record, as does who has made which call.
-/

namespace Interaction

structure Execution (σ Req Rep : Type) where
  before : σ
  request : Req
  reply : Rep
  after : σ

structure Network (σ Req Rep : Type) where
  server : σ
  made : Nat → Option Req := fun _ => none
  /-- Requests under way. -/
  requests : Nat → Option Req := fun _ => none
  executed : Nat → Option (Execution σ Req Rep) := fun _ => none
  /-- Replies under way. -/
  replies : Nat → Option Rep := fun _ => none
  /-- What calls that are over have got; a failed one has got nothing. -/
  returned : Nat → Option (Option Rep) := fun _ => none

inductive NetworkEvent (σ Req : Type)
  | call (id : Nat) (request : Req)
  | loseRequest (id : Nat)
  | execute (id : Nat)
  | loseReply (id : Nat)
  | receive (id : Nat)
  /-- A call is given up, whatever becomes of its request. -/
  | fail (id : Nat)
  /-- Something else changes the server's state. -/
  | disturb (server : σ)

namespace Network

open Function (update)

variable {σ Req Rep κ : Type}

def step (serve : Machine σ Req Rep) : Machine (Network σ Req Rep) (NetworkEvent σ Req) Unit
  | s, .call id request =>
    match s.made id with
    | some _ => none
    | none => some ((), { s with
        made := update s.made id (some request)
        requests := update s.requests id (some request) })
  | s, .loseRequest id => some ((), { s with requests := update s.requests id none })
  | s, .execute id =>
    match s.requests id with
    | none => none
    | some request => (serve s.server request).map fun r => ((), { s with
        server := r.2
        requests := update s.requests id none
        executed := update s.executed id (some ⟨s.server, request, r.1, r.2⟩)
        replies := update s.replies id (some r.1) })
  | s, .loseReply id => some ((), { s with replies := update s.replies id none })
  | s, .receive id =>
    match s.replies id, s.returned id with
    | some reply, none => some ((), { s with
        replies := update s.replies id none
        returned := update s.returned id (some (some reply)) })
    | _, _ => none
  | s, .fail id =>
    match s.made id, s.returned id with
    | some _, none => some ((), { s with returned := update s.returned id (some none) })
    | _, _ => none
  | s, .disturb server => some ((), { s with server })

/-- The server's state changes otherwise only as `env` allows. -/
def Within (env : σ → σ → Prop) (s : Network σ Req Rep) : NetworkEvent σ Req → Prop
  | .disturb server => env s.server server
  | _ => True

-- ---------------------------------------------------------------------------
-- Replies to one's own request
-- ---------------------------------------------------------------------------

structure Inv (serve : Machine σ Req Rep) (s : Network σ Req Rep) : Prop where
  requests : ∀ id request, s.requests id = some request →
    s.made id = some request ∧ s.executed id = none
  executed : ∀ id x, s.executed id = some x →
    s.made id = some x.request ∧ serve x.before x.request = some (x.reply, x.after)
  replies : ∀ id reply, s.replies id = some reply → ∃ x, s.executed id = some x ∧ x.reply = reply
  returned : ∀ id reply, s.returned id = some (some reply) →
    ∃ x, s.executed id = some x ∧ x.reply = reply

theorem Inv.start (serve : Machine σ Req Rep) (server : σ) : Inv serve { server } := by
  constructor <;> simp

variable {serve : Machine σ Req Rep} {s s' : Network σ Req Rep} {e : NetworkEvent σ Req}
  {env : σ → σ → Prop}

theorem Inv.fresh (h : Inv serve s) {id : Nat} (hm : s.made id = none) : s.executed id = none := by
  cases hx : s.executed id with
  | none => rfl
  | some x => cases (h.executed id x hx).1.symm.trans hm

theorem Inv.call (h : Inv serve s) {id : Nat} (hm : s.made id = none) (request : Req) :
    Inv serve { s with
      made := update s.made id (some request)
      requests := update s.requests id (some request) } where
  requests j q hj := by
    obtain ⟨rfl, rfl⟩ | ⟨hji, hj⟩ := update_some_eq.mp hj
    · exact ⟨update_some_eq.mpr (.inl ⟨rfl, rfl⟩), h.fresh hm⟩
    · obtain ⟨hmade, hx⟩ := h.requests j q hj
      exact ⟨update_some_eq.mpr (.inr ⟨hji, hmade⟩), hx⟩
  executed j x hj := by
    have hji : j ≠ id := by
      rintro rfl
      cases (h.fresh hm).symm.trans hj
    obtain ⟨hmade, hx⟩ := h.executed j x hj
    exact ⟨update_some_eq.mpr (.inr ⟨hji, hmade⟩), hx⟩
  replies := h.replies
  returned := h.returned

theorem Inv.execute (h : Inv serve s) {id : Nat} {request : Req} (hr : s.requests id = some request)
    {reply : Rep} {after : σ} (hs : serve s.server request = some (reply, after)) :
    Inv serve { s with
      server := after
      requests := update s.requests id none
      executed := update s.executed id (some ⟨s.server, request, reply, after⟩)
      replies := update s.replies id (some reply) } where
  requests j q hj := by
    obtain ⟨hji, hj⟩ := update_none_eq.mp hj
    obtain ⟨hmade, hx⟩ := h.requests j q hj
    exact ⟨hmade, (Function.update_of_ne hji ..).trans hx⟩
  executed j x hj := by
    obtain ⟨rfl, rfl⟩ | ⟨-, hj⟩ := update_some_eq.mp hj
    · exact ⟨(h.requests j request hr).1, hs⟩
    · exact h.executed j x hj
  replies j m hj := by
    obtain ⟨rfl, rfl⟩ | ⟨hji, hj⟩ := update_some_eq.mp hj
    · exact ⟨_, update_some_eq.mpr (.inl ⟨rfl, rfl⟩), rfl⟩
    · obtain ⟨x, hx, hm⟩ := h.replies j m hj
      exact ⟨x, update_some_eq.mpr (.inr ⟨hji, hx⟩), hm⟩
  returned j m hj := by
    obtain ⟨x, hx, hm⟩ := h.returned j m hj
    have hji : j ≠ id := by
      rintro rfl
      cases (h.requests j request hr).2.symm.trans hx
    exact ⟨x, update_some_eq.mpr (.inr ⟨hji, hx⟩), hm⟩

theorem Inv.receive (h : Inv serve s) {id : Nat} {reply : Rep} (hr : s.replies id = some reply) :
    Inv serve { s with
      replies := update s.replies id none
      returned := update s.returned id (some (some reply)) } where
  requests := h.requests
  executed := h.executed
  replies j m hj := h.replies j m (update_none_eq.mp hj).2
  returned j m hj := by
    obtain ⟨rfl, he⟩ | ⟨-, hj⟩ := update_some_eq.mp hj
    · exact h.replies j m (hr.trans he)
    · exact h.returned j m hj

theorem Inv.step (h : Inv serve s) (hs : step serve s e = some ((), s')) : Inv serve s' := by
  cases e with
  | call id request =>
    simp only [Network.step] at hs
    split at hs
    · cases hs
    · rename_i hm
      cases hs
      exact h.call hm request
  | loseRequest id =>
    cases hs
    exact ⟨fun j q hj => h.requests j q (update_none_eq.mp hj).2, h.executed, h.replies, h.returned⟩
  | execute id =>
    simp only [Network.step] at hs
    split at hs
    · cases hs
    · rename_i request hr
      obtain ⟨⟨reply, after⟩, hserve, he⟩ := Option.map_eq_some_iff.mp hs
      cases he
      exact h.execute hr hserve
  | loseReply id =>
    cases hs
    exact ⟨h.requests, h.executed, fun j m hj => h.replies j m (update_none_eq.mp hj).2, h.returned⟩
  | receive id =>
    simp only [Network.step] at hs
    split at hs
    · rename_i reply hr _
      cases hs
      exact h.receive hr
    · cases hs
  | fail id =>
    simp only [Network.step] at hs
    split at hs
    · cases hs
      refine ⟨h.requests, h.executed, h.replies, fun j m hj => ?_⟩
      obtain ⟨-, he⟩ | ⟨-, hj⟩ := update_some_eq.mp hj
      · cases he
      · exact h.returned j m hj
    · cases hs
  | disturb server =>
    cases hs
    exact ⟨h.requests, h.executed, h.replies, h.returned⟩

theorem inv_of_reachable {server : σ} (h : Reachable (step serve) (Within env) { server } s) :
    Inv serve s :=
  h.invariant (fun _ _ _ _ hi _ hs => hi.step hs) (.start serve server)

-- ---------------------------------------------------------------------------
-- One winner
-- ---------------------------------------------------------------------------

/-- Executions that take something: none takes what is held already, what one has
taken is held after it, and nothing that is held is given up. -/
structure Taking (serve : Machine σ Req Rep) (env : σ → σ → Prop) (Held : κ → σ → Prop)
    (Takes : Execution σ Req Rep → κ → Prop) : Prop where
  free : ∀ x k, Takes x k → ¬Held k x.before
  held : ∀ x k, Takes x k → Held k x.after
  served : ∀ server request reply after k, serve server request = some (reply, after) →
    Held k server → Held k after
  env : ∀ server server' k, env server server' → Held k server → Held k server'

/-- What executions have taken is held, and each thing was taken by one of them. -/
structure Taken (Held : κ → σ → Prop) (Takes : Execution σ Req Rep → κ → Prop)
    (s : Network σ Req Rep) : Prop where
  held : ∀ id x k, s.executed id = some x → Takes x k → Held k s.server
  once : ∀ id id' x x' k, s.executed id = some x → s.executed id' = some x' → Takes x k →
    Takes x' k → id = id'

variable {Held : κ → σ → Prop} {Takes : Execution σ Req Rep → κ → Prop}

theorem Taken.execute (ht : Taking serve env Held Takes) (h : Taken Held Takes s) {id : Nat}
    {request : Req} {reply : Rep} {after : σ} (hs : serve s.server request = some (reply, after))
    {requests : Nat → Option Req} {replies : Nat → Option Rep} : Taken Held Takes { s with
      server := after
      requests := requests
      executed := update s.executed id (some ⟨s.server, request, reply, after⟩)
      replies := replies } where
  held j x k hj hk := by
    obtain ⟨rfl, rfl⟩ | ⟨-, hj⟩ := update_some_eq.mp hj
    · exact ht.held _ k hk
    · exact ht.served _ _ _ _ k hs (h.held j x k hj hk)
  once i j x y k hi hj hx hy := by
    obtain ⟨rfl, rfl⟩ | ⟨-, hi'⟩ := update_some_eq.mp hi
    · obtain ⟨rfl, -⟩ | ⟨-, hj'⟩ := update_some_eq.mp hj
      · rfl
      · exact absurd (h.held j y k hj' hy) (ht.free _ k hx)
    · obtain ⟨rfl, rfl⟩ | ⟨-, hj'⟩ := update_some_eq.mp hj
      · exact absurd (h.held i x k hi' hx) (ht.free _ k hy)
      · exact h.once i j x y k hi' hj' hx hy

theorem Taken.step (ht : Taking serve env Held Takes) (h : Taken Held Takes s)
    (he : Within env s e) (hs : Network.step serve s e = some ((), s')) : Taken Held Takes s' := by
  cases e with
  | execute id =>
    simp only [Network.step] at hs
    split at hs
    · cases hs
    · obtain ⟨⟨reply, after⟩, hserve, he⟩ := Option.map_eq_some_iff.mp hs
      cases he
      exact h.execute ht hserve
  | disturb server =>
    cases hs
    exact ⟨fun j x k hj hk => ht.env _ _ k he (h.held j x k hj hk), h.once⟩
  | call | receive | fail =>
    simp only [Network.step] at hs
    split at hs <;> cases hs
    exact ⟨h.held, h.once⟩
  | loseRequest | loseReply =>
    cases hs
    exact ⟨h.held, h.once⟩

/-- Whatever is lost on the way, no two executions have taken the same. -/
theorem one_winner (ht : Taking serve env Held Takes) {server : σ}
    (h : Reachable (step serve) (Within env) { server } s) : Taken Held Takes s :=
  h.invariant (fun _ _ _ _ hi he hs => Taken.step ht hi he hs) ⟨by simp, by simp⟩

end Network

end Interaction
