import UnreliableFS.AfsServer
import UnreliableFS.Interaction.Network
import UnreliableFS.Posix.Fallible
import UnreliableFS.Posix.Grow

/-!
# Clients of the AFS server

`unreliable_afs_client.cc`: a client's `Mkdir` returns the `err` of the reply, or
-1 when the call has failed. Any number of clients make any number of calls, and
requests and replies may be lost. A request is executed when the server's `mkdir`
runs, which the server's machine may refuse with any errno. Meanwhile anything may
happen to the server's file system but that a directory goes away.
-/

namespace UnreliableFS

open Interaction Posix

/-- `GreeterClient::Mkdir`, given the status and the reply of the call. -/
def GreeterClient.mkdir : Option MkdirReply → Int
  | some reply => reply.err
  | none => -1

namespace AfsServer

def serveOn {β : Type} (os : Handler sysSig β) (base : BaseDirectory) :
    Machine β MkdirRequest MkdirReply :=
  fun b request => ((mkdir base.text request Local.zero).run os b).map fun r => (r.1.1, r.2)

abbrev mkdirCall (base : BaseDirectory) (request : MkdirRequest) : Sys :=
  .mkdir (path base.text request) (toUnsigned request.mode)

abbrev Mkdirs := Network Fallible MkdirRequest MkdirReply

abbrev Served := Execution Fallible MkdirRequest MkdirReply

def HasDirectory (d : Place) (b : Fallible) : Prop := b.base.tree.contentAt d = some .directory

def DirectoriesStay (b b' : Fallible) : Prop := ∀ d, HasDirectory d b → HasDirectory d b'

/-- The server path of a request leads to a place when it is executed. -/
def Denotes (base : BaseDirectory) (x : Served) (d : Place) : Prop :=
  x.before.base.tree.resolve x.before.base.cwd false (path base.text x.request) = .ok d

/-- Its execution has made a directory of a free place. -/
def Creates (x : Served) (d : Place) : Prop :=
  x.before.base.tree.at? d = none ∧ HasDirectory d x.after

def result (s : Mkdirs) (id : Nat) : Option Int := (s.returned id).map GreeterClient.mkdir

/-- Of all calls at most one makes a directory and is told so; the others change nothing and
are told why, which is EEXIST if the directory is there and the machine does not refuse. -/
structure OneWinner (P : Platform) (base : BaseDirectory) (s : Mkdirs) : Prop where
  unique : ∀ id id' x x' d, s.executed id = some x → s.executed id' = some x' →
    Denotes base x d → Denotes base x' d → result s id = some 0 → result s id' = some 0 → id = id'
  winner : ∀ id, result s id = some 0 → ∃ x d, s.executed id = some x ∧ Denotes base x d ∧ Creates x d
  loser : ∀ id x, s.executed id = some x → (∀ d, Denotes base x d → ¬Creates x d) →
    x.after.base = x.before.base ∧ ∃ e, x.reply.err = -(e.code : Int) ∧
      (fallible P (mkdirCall base x.request) x.before).1 = .fail e
  there : ∀ id x d, s.executed id = some x → Denotes base x d → HasDirectory d x.before →
    x.before.failures 0 = none → x.reply.err = -(Errno.EEXIST.code : Int)
  own : ∀ id r, result s id = some r → r = -1 ∨ ∃ x, s.executed id = some x ∧ r = x.reply.err

-- ---------------------------------------------------------------------------
-- One execution
-- ---------------------------------------------------------------------------

section
variable {β : Type} {os : Handler sysSig β} {base : BaseDirectory} {c c' : β}
  {request : MkdirRequest} {reply : MkdirReply}

theorem serveOn_cases (h : serveOn os base c request = some (reply, c')) :
    c' = (os (mkdirCall base request) c).2 ∧
      ((∃ e, (os (mkdirCall base request) c).1 = .fail e ∧ reply.err = -(e.code : Int)) ∨
        ∃ ret d, (os (mkdirCall base request) c).1 = .done ret d ∧ reply.err = ret) := by
  unfold serveOn mkdir at h
  rw [Body.bind_apply] at h
  obtain ⟨r, hr, he⟩ := Option.map_eq_some_iff.mp h
  cases he
  rcases hk : (os (mkdirCall base request) c).1 with e | ⟨ret, d⟩
  · rw [sys_run_fail hk] at hr
    cases hr
    exact ⟨rfl, .inl ⟨e, rfl, rfl⟩⟩
  · rw [sys_run_done hk, if_neg (natCast_ne_neg_one ret)] at hr
    cases hr
    exact ⟨rfl, .inr ⟨ret, d, rfl, rfl⟩⟩

theorem reply_of_fail {e : Errno} (h : serveOn os base c request = some (reply, c'))
    (he : (os (mkdirCall base request) c).1 = .fail e) : reply.err = -(e.code : Int) := by
  obtain ⟨-, ⟨e', he', hr⟩ | ⟨ret, d, hd, -⟩⟩ := serveOn_cases h
  · rw [he] at he'
    cases he'
    exact hr
  · rw [he] at hd
    cases hd

theorem reply_of_done {ret : Nat} {data : Data} (h : serveOn os base c request = some (reply, c'))
    (hd : (os (mkdirCall base request) c).1 = .done ret data) : reply.err = ret := by
  obtain ⟨-, ⟨e, he, -⟩ | ⟨ret', d, hd', hr⟩⟩ := serveOn_cases h
  · rw [hd] at he
    cases he
  · rw [hd] at hd'
    cases hd'
    exact hr

end

variable {P : Platform} {base : BaseDirectory} {b b' : Fallible} {request : MkdirRequest}
  {reply : MkdirReply} {d : Place}

theorem kernel_mkdir {c : Base} {p : CStr} {mode ret : Nat} {data : Data}
    (h : (kernel P (.mkdir p mode) c).1 = .done ret data) :
    ret = 0 ∧ ∃ d, c.tree.resolve c.cwd false p = .ok d ∧ c.tree.at? d = none ∧
      (kernel P (.mkdir p mode) c).2 =
        { c with tree := c.tree.add d (c.tree.fresh .directory mode) } := by
  simp only [kernel] at h ⊢
  cases hm : c.tree.mkdir c.cwd p mode with
  | error e =>
    rw [hm] at h
    cases h
  | ok tree =>
    rw [hm] at h
    cases h
    obtain ⟨d, hv, ht⟩ := bind_ok.mp hm
    cases ht
    obtain ⟨q, hq, hfree⟩ := bind_ok.mp hv
    split at hfree
    · cases hfree
    · rename_i hat
      split at hfree
      · cases hfree
      · cases hfree
        exact ⟨rfl, d, hq, hat, rfl⟩

theorem execution_cases (h : serveOn (fallible P) base b request = some (reply, b')) :
    (reply.err = 0 ∧ ∃ d, b.base.tree.resolve b.base.cwd false (path base.text request) = .ok d ∧
      b.base.tree.at? d = none ∧ ∃ n, n.content = .directory ∧
        b'.base = { b.base with tree := b.base.tree.add d n }) ∨
      ∃ e, (fallible P (mkdirCall base request) b).1 = .fail e ∧ reply.err = -(e.code : Int) ∧
        b'.base = b.base := by
  obtain ⟨rfl, ⟨e, he, hr⟩ | ⟨ret, data, hd, hr⟩⟩ := serveOn_cases h
  · exact .inr ⟨e, he, hr, (fallible_follows P).fail_of_ne rfl nofun he⟩
  · obtain ⟨hk, hb⟩ := (fallible_follows P).done hd
    obtain ⟨rfl, d, hres, hfree, hb'⟩ := kernel_mkdir hk
    exact .inl ⟨hr, d, hres, hfree, _, rfl, hb.trans hb'⟩

theorem execution_there (h : serveOn (fallible P) base b request = some (reply, b'))
    (hd : b.base.tree.resolve b.base.cwd false (path base.text request) = .ok d)
    (hthere : b.base.tree.at? d ≠ none) (hf : b.failures 0 = none) :
    reply.err = -(Errno.EEXIST.code : Int) := by
  refine reply_of_fail h ?_
  obtain ⟨i, hat⟩ := Option.ne_none_iff_exists'.mp hthere
  have hk : (kernel P (mkdirCall base request) b.base).1 = .fail .EEXIST := by
    simp only [mkdirCall, kernel, Tree.mkdir, Tree.vacant, hd, bind, Except.bind, hat]
    rfl
  simp only [fallible, hf, hk]

theorem hasDirectory_at (h : HasDirectory d b) : b.base.tree.at? d ≠ none := by
  intro hn
  simp [HasDirectory, Tree.contentAt, hn] at h

theorem execution_directoriesStay (h : serveOn (fallible P) base b request = some (reply, b')) :
    DirectoriesStay b b' := by
  intro d hd
  obtain ⟨-, q, -, hfree, n, -, hb⟩ | ⟨e, -, -, hb⟩ := execution_cases h
  · unfold HasDirectory
    rw [hb]
    exact (Tree.Grows.add hfree n).contentAt_directory hd
  · unfold HasDirectory
    rw [hb]
    exact hd

-- ---------------------------------------------------------------------------
-- All executions
-- ---------------------------------------------------------------------------

theorem taking_directories (P : Platform) (base : BaseDirectory) :
    Network.Taking (serveOn (fallible P) base) DirectoriesStay HasDirectory Creates where
  free _ _ hx hd := hasDirectory_at hd hx.1
  held _ _ hx := hx.2
  served _ _ _ _ d hs hd := execution_directoriesStay hs d hd
  env _ _ d he hd := he d hd

theorem result_own {s : Mkdirs} (hi : Network.Inv (serveOn (fallible P) base) s) {id : Nat} {r : Int}
    (hr : result s id = some r) : r = -1 ∨ ∃ x, s.executed id = some x ∧ r = x.reply.err := by
  obtain ⟨m, hm, rfl⟩ := Option.map_eq_some_iff.mp hr
  cases m with
  | none => exact .inl rfl
  | some reply =>
    obtain ⟨x, hx, rfl⟩ := hi.returned id reply hm
    exact .inr ⟨x, hx, rfl⟩

theorem creates_of_zero {x : Served}
    (h : serveOn (fallible P) base x.before x.request = some (x.reply, x.after))
    (h₀ : x.reply.err = 0) : ∃ d, Denotes base x d ∧ Creates x d := by
  obtain ⟨-, d, hd, hfree, n, hn, hb⟩ | ⟨e, -, he, -⟩ := execution_cases h
  · refine ⟨d, hd, hfree, ?_⟩
    simp [HasDirectory, hb, Tree.contentAt, Tree.at?, Tree.add, hn]
  · have hpos := e.pos
    omega

/-- Whatever is lost and in whatever order the rest is delivered, at most one call
for a directory returns 0, and it has made the directory. -/
theorem mkdir_one_winner (P : Platform) (base : BaseDirectory) (b : Fallible) (s : Mkdirs)
    (h : Reachable (Network.step (serveOn (fallible P) base)) (Network.Within DirectoriesStay)
      { server := b } s) : OneWinner P base s := by
  have hi := Network.inv_of_reachable h
  have ht := Network.one_winner (taking_directories P base) h
  have hzero {id : Nat} (h₀ : result s id = some 0) :
      ∃ x d, s.executed id = some x ∧ Denotes base x d ∧ Creates x d := by
    obtain h₁ | ⟨x, hx, he⟩ := result_own hi h₀
    · cases h₁
    · obtain ⟨d, hd, hc⟩ := creates_of_zero (hi.executed id x hx).2 he.symm
      exact ⟨x, d, hx, hd, hc⟩
  constructor
  case unique =>
    intro id id' x x' d hx hx' hd hd' h₀ h₀'
    obtain ⟨y, q, hy, hq, hc⟩ := hzero h₀
    obtain ⟨y', q', hy', hq', hc'⟩ := hzero h₀'
    cases hx.symm.trans hy
    cases hx'.symm.trans hy'
    cases hd.symm.trans hq
    cases hd'.symm.trans hq'
    exact ht.once id id' x x' d hx hx' hc hc'
  case winner => exact fun id h₀ => hzero h₀
  case loser =>
    intro id x hx hn
    obtain ⟨h₀, -⟩ | ⟨e, he, hr, hb⟩ := execution_cases (hi.executed id x hx).2
    · obtain ⟨d, hd, hc⟩ := creates_of_zero (hi.executed id x hx).2 h₀
      exact absurd hc (hn d hd)
    · exact ⟨hb, e, hr, he⟩
  case there =>
    exact fun id x d hx hd hh hf => execution_there (hi.executed id x hx).2 hd (hasDirectory_at hh) hf
  case own => exact fun id r hr => result_own hi hr

def requestD : MkdirRequest := ⟨ascii "/d", 0o755⟩

/-- A machine that refuses none of the calls to come. -/
def willing (tree : Tree) : Fallible := ⟨.boot tree, fun _ => none⟩

theorem mkdir_one_winner_of_two : ∃ s : Mkdirs,
    result s 0 = some 0 ∧ result s 1 = some (-17) ∧ OneWinner .small srv s := by
  have h : Reachable (Network.step (serveOn (fallible .small) srv)) (Network.Within DirectoriesStay)
    { server := willing srvTree } { server := willing srvTree } := .refl
  have h := h.step (i := .call 0 requestD) (by trivial) rfl
  have h := h.step (i := .call 1 requestD) (by trivial) rfl
  have h := h.step (i := .execute 0) (by trivial) rfl
  have h := h.step (i := .execute 1) (by trivial) rfl
  have h := h.step (i := .receive 1) (by trivial) rfl
  have h := h.step (i := .receive 0) (by trivial) rfl
  exact ⟨_, by decide, by decide, mkdir_one_winner .small srv _ _ h⟩

def slashBase : BaseDirectory := ⟨[slash], by decide, by decide⟩

def requestPD : MkdirRequest := ⟨[112, slash, 100], 0o755⟩

def withP : Tree := Tree.root.add [[112]] { content := .directory }

theorem executed_without_parent : serveOn (fallible .small) slashBase (willing .root) requestPD =
    some (⟨-2⟩, willing .root) := rfl

theorem executed_with_parent : ∃ c,
    serveOn (fallible .small) slashBase (willing withP) requestPD = some (⟨0⟩, c) ∧
      HasDirectory [[112], [100]] c :=
  ⟨_, rfl, rfl⟩

theorem withP_stays : DirectoriesStay (willing .root) (willing withP) := fun _ hd =>
  (Tree.Grows.add (by decide) _).contentAt_directory hd

/-- Two calls with one server path. The first is executed before there is a directory to
make it in, and loses with ENOENT. -/
theorem loser_without_parent : ∃ (s : Mkdirs) (x y : Served),
    Reachable (Network.step (serveOn (fallible .small) slashBase)) (Network.Within DirectoriesStay)
      { server := willing .root } s ∧
    s.executed 0 = some x ∧ s.executed 1 = some y ∧ x.request = y.request ∧
    result s 1 = some 0 ∧ Creates y [[112], [100]] ∧ result s 0 = some (-2) := by
  obtain ⟨c, hexec, hc⟩ := executed_with_parent
  have h : Reachable (Network.step (serveOn (fallible .small) slashBase))
    (Network.Within DirectoriesStay) { server := willing .root } { server := willing .root } := .refl
  have h := h.step (i := .call 0 requestPD) (by trivial) rfl
  have h := h.step (i := .execute 0) (by trivial) (by
    simp only [Network.step, Function.update_self, executed_without_parent, Option.map_some]; rfl)
  have h := h.step (i := .receive 0) (by trivial) rfl
  have h := h.step (i := .disturb (willing withP)) (by exact withP_stays) rfl
  have h := h.step (i := .call 1 requestPD) (by trivial) rfl
  have h := h.step (i := .execute 1) (by trivial) (by
    simp only [Network.step, Function.update_self, hexec, Option.map_some]; rfl)
  have h := h.step (i := .receive 1) (by trivial) rfl
  exact ⟨_, _, _, h, rfl, rfl, rfl, rfl, ⟨rfl, hc⟩, rfl⟩

-- ---------------------------------------------------------------------------
-- What the result says
-- ---------------------------------------------------------------------------

inductive Outcome
  | rpcFailed
  | made
  /-- The server's `mkdir` has failed. -/
  | failed (e : Errno)
  deriving DecidableEq

/-- The server's reply if its `mkdir` comes to `r`. -/
def replyTo (base : BaseDirectory) (request : MkdirRequest) (r : SysReply) : Option MkdirReply :=
  (serveOn (fun _ u => (r, u)) base () request).map Prod.fst

def Outcome.returned (base : BaseDirectory) (request : MkdirRequest) : Outcome → Option Int
  | .rpcFailed => some (GreeterClient.mkdir none)
  | .made => (replyTo base request (.done 0 .none)).map fun reply => GreeterClient.mkdir (some reply)
  | .failed e => (replyTo base request (.fail e)).map fun reply => GreeterClient.mkdir (some reply)

/-- A call of a run is over, and has ended so. -/
def Ended {β : Type} (os : Handler sysSig β) (base : BaseDirectory)
    (s : Network β MkdirRequest MkdirReply) (id : Nat) : Outcome → Prop
  | .rpcFailed => s.returned id = some none
  | .made => ∃ x d, s.executed id = some x ∧ s.returned id = some (some x.reply) ∧
      (os (.mkdir (path base.text x.request) (toUnsigned x.request.mode)) x.before).1 = .done 0 d
  | .failed e => ∃ x, s.executed id = some x ∧ s.returned id = some (some x.reply) ∧
      (os (.mkdir (path base.text x.request) (toUnsigned x.request.mode)) x.before).1 = .fail e

theorem serveOn_kernel (P : Platform) (base : BaseDirectory) :
    serveOn (kernel P) base = serve P base := rfl

/-- Success is 0, and a failure the negated errno of whatever has failed, which is
EPERM for the call itself. -/
theorem returned_eq (base : BaseDirectory) (request : MkdirRequest) (o : Outcome) :
    o.returned base request = some (match o with
      | .rpcFailed => -(Errno.EPERM.code : Int)
      | .made => 0
      | .failed e => -(e.code : Int)) := by
  cases o with
  | rpcFailed => rfl
  | made => rfl
  | failed e => rfl

theorem returned_of_ended {β : Type} {os : Handler sysSig β} {s : Network β MkdirRequest MkdirReply}
    (hi : Network.Inv (serveOn os base) s) {id : Nat} {o : Outcome} (h : Ended os base s id o)
    (request : MkdirRequest) : (s.returned id).map GreeterClient.mkdir = o.returned base request := by
  rw [returned_eq]
  cases o with
  | rpcFailed =>
    have hr : s.returned id = some none := h
    rw [hr]
    rfl
  | made =>
    obtain ⟨x, d, hx, hr, hk⟩ := h
    rw [hr, Option.map_some]
    exact congrArg some (reply_of_done (hi.executed id x hx).2 hk)
  | failed e =>
    obtain ⟨x, hx, hr, hk⟩ := h
    rw [hr, Option.map_some]
    exact congrArg some (reply_of_fail (hi.executed id x hx).2 hk)

theorem exists_ended {β : Type} {os : Handler sysSig β}
    (hzero : ∀ path mode b ret d, (os (.mkdir path mode) b).1 = .done ret d → ret = 0)
    {s : Network β MkdirRequest MkdirReply} (hi : Network.Inv (serveOn os base) s) {id : Nat}
    {m : Option MkdirReply} (hm : s.returned id = some m) : ∃ o, Ended os base s id o := by
  cases m with
  | none => exact ⟨.rpcFailed, hm⟩
  | some reply =>
    obtain ⟨x, hx, rfl⟩ := hi.returned id reply hm
    rcases hk : (os (.mkdir (path base.text x.request) (toUnsigned x.request.mode)) x.before).1 with
      e | ⟨ret, d⟩
    · exact ⟨.failed e, x, hx, hm, hk⟩
    · obtain rfl := hzero _ _ _ _ _ hk
      exact ⟨.made, x, d, hx, hm, hk⟩

/-- The result of a call tells how it has ended, except that a call that has failed
and a `mkdir` that has failed with EPERM look the same; and in every run every
call that is over has returned what its outcome says. -/
theorem mkdir_result_tells_iff (base : BaseDirectory) :
    (∀ request (o : Outcome),
      (∀ request' (o' : Outcome), o'.returned base request' = o.returned base request → o' = o) ↔
      o ≠ .rpcFailed ∧ o ≠ .failed .EPERM) ∧
    ∀ (β : Type) (os : Handler sysSig β) (env : β → β → Prop) (b : β)
      (s : Network β MkdirRequest MkdirReply),
      (∀ path mode b ret d, (os (.mkdir path mode) b).1 = .done ret d → ret = 0) →
      Reachable (Network.step (serveOn os base)) (Network.Within env) { server := b } s →
      ∀ id r, (s.returned id).map GreeterClient.mkdir = some r →
        ∃ o, Ended os base s id o ∧ ∀ request, o.returned base request = some r := by
  constructor
  · intro request o
    constructor
    · intro h
      constructor
      · rintro rfl
        cases h request (.failed .EPERM) (by rw [returned_eq, returned_eq])
      · rintro rfl
        cases h request .rpcFailed (by rw [returned_eq, returned_eq])
    · rintro ⟨hrpc, hperm⟩ request' o' h
      rw [returned_eq, returned_eq, Option.some.injEq] at h
      cases o with
      | rpcFailed => exact absurd rfl hrpc
      | made =>
        cases o' with
        | rpcFailed => cases h
        | made => rfl
        | failed e' =>
          have hpos := e'.pos
          simp only at h
          omega
      | failed e =>
        have hpos := e.pos
        cases o' with
        | rpcFailed =>
          have he : e = .EPERM := Errno.code_inj.mp (by simp only at h; omega)
          exact absurd (congrArg Outcome.failed he) hperm
        | made =>
          simp only at h
          omega
        | failed e' =>
          have he : e' = e := Errno.code_inj.mp (by simp only at h; omega)
          rw [he]
  · intro β os env b s hzero h id r hr
    have hi := Network.inv_of_reachable h
    obtain ⟨m, hm, rfl⟩ := Option.map_eq_some_iff.mp hr
    obtain ⟨o, ho⟩ := exists_ended hzero hi hm
    refine ⟨o, ho, fun request => ?_⟩
    rw [← returned_of_ended hi ho request, hm]
    rfl

theorem mkdir_result_tells_of_one : ∃ s : Network Base MkdirRequest MkdirReply, ∃ o,
    Ended (kernel .small) srv s 0 o ∧ o.returned srv requestD = some 0 := by
  have h : Reachable (Network.step (serveOn (kernel .small) srv)) (Network.Within fun _ _ => True)
    { server := .boot srvTree } { server := .boot srvTree } := .refl
  have h := h.step (i := .call 0 requestD) (by trivial) rfl
  have h := h.step (i := .execute 0) (by trivial) rfl
  have h := h.step (i := .receive 0) (by trivial) rfl
  obtain ⟨o, ho, hr⟩ := (mkdir_result_tells_iff srv).2 Base (kernel .small) (fun _ _ => True) _ _
    (fun _ _ _ _ _ hd => (kernel_mkdir hd).1) h 0 0 (by decide)
  exact ⟨_, o, ho, hr requestD⟩

/-- A call that has failed looks as if the server's `mkdir` had, with EPERM. -/
theorem result_of_rpc_failure :
    Outcome.returned srv requestD .rpcFailed = some (-1) ∧
    Outcome.returned srv requestD (.failed .EPERM) = some (-1) ∧
    Outcome.rpcFailed ≠ .failed .EPERM := by
  refine ⟨rfl, rfl, ?_⟩
  intro h
  cases h

end AfsServer

end UnreliableFS
