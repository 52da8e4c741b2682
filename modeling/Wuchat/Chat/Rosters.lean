/-
# What the clients know of each other

A client that has logged in knows the names that were in `m_sessions` at its login, and is
told of the others: a login sends `user_center` to everybody in a copy of the table, and
`onClose` sends `user_leave`.  `Watched` keeps beside the server what each client makes of
this, its roster.

The chat server runs on one thread, and a fiber is left only inside a send (`Single`), so
that between two sends no other connection moves.  The steps of a call up to its next send
are followed by `Leads`, and what holds when every connection is at a send or waits is
`Settled`.  There a name in somebody's roster is right, or the notification that corrects it
is still to be sent by a call that is in progress.

Two calls about one name can be in progress: one that leaves and one that logs in.  They
send in any order, so a client may be told of the login first and of the leaving last
(`roster_out_of_order`).  In every run in which nobody logs in under a name while the
`user_leave` of that name is still being sent, every roster is right whenever no call is in
progress (`rosters_right`).

As in `Chat.Names`, the handshakes are accepted ones: their `Connection` value was cut between two reads.
-/

import Wuchat.Chat.Names

namespace Wuchat
namespace Chat

open Foundation Http Servlet

/-! ### Rosters -/

/-- The name that a `user_center` (`true`) or a `user_leave` (`false`) is about. -/
def ChatMessage.roster (msg : ChatMessage) : Option (Bytes × Bool) :=
  if msg.get (str "type") = str "user_center" then some (msg.get (str "name"), true)
  else if msg.get (str "type") = str "user_leave" then some (msg.get (str "name"), false)
  else none

/-- A roster after a message. -/
def heard (msg : ChatMessage) (roster : Bytes → Bool) : Bytes → Bool :=
  match msg.roster with
  | some (name, present) => Function.update roster name present
  | none => roster

/-- The server and the roster of every client. -/
structure Watched where
  server : Server
  rosters : ConnId → Bytes → Bool

/-- The rosters after a step: the names in the table when a connection enters its own, and what a
message tells its receiver. -/
def Watched.note (w : Watched) : Label → ConnId → Bytes → Bool
  | .act c _ _ =>
    match w.server.conn c with
    | some ⟨_, .call _ (.sessionAdd n _)⟩ =>
      Function.update w.rosters c fun x => (w.server.session x).isSome && decide (x ≠ n)
    | some ⟨_, .call _ (.send dst msg _)⟩ => Function.update w.rosters dst (heard msg (w.rosters dst))
    | _ => w.rosters
  | _ => w.rosters

/-- The watched server as a system. -/
def watched (reader : Reader) : System Watched Label where
  init := ⟨(server reader).init, fun _ _ => false⟩
  next w l := (Server.next reader w.server l).map fun t => ⟨t, w.note l⟩

/-- No servlet call is in progress. -/
def Server.Quiet (s : Server) : Prop := ∀ c k, s.conn c = some k → ∀ m p, k.phase ≠ .call m p

/-- When no call is in progress, the roster of a client that is logged in, which the servlet sees
from its `$id`, holds the names in `m_sessions` other than its own. -/
def Watched.RostersRight (w : Watched) : Prop :=
  w.server.Quiet → ∀ c k n, w.server.conn c = some k → k.Claims n → n ≠ [] →
    ∀ x, w.rosters c x = true ↔ (w.server.session x).isSome = true ∧ x ≠ n

/-! ### One thread -/

/-- Where a fiber may be left: at a send, behind its last one, or in `recvMessage`; or it has ended.
-/
def Phase.parked : Phase → Bool
  | .recvMessage => true
  | .closed => true
  | .call _ (.send _ _ _) => true
  | .call _ (.ret r) => decide (r = 0)
  | .call _ _ => false

/-- The connection a step is about. -/
def Label.conn : Label → ConnId
  | .accept c _ => c
  | .frame c _ => c
  | .eof c => c
  | .act c _ _ => c

/-- A send that a step makes succeeds. -/
def Label.sends : Label → Bool
  | .act _ ok _ => ok
  | _ => true

/-- The steps on one thread with sends that succeed, and without a `$id` header in a handshake. -/
def Single (s : Server) (l : Label) : Prop :=
  NoIdHeader s l ∧ l.sends = true ∧ ∀ e ∈ s.conns, e.1 ≠ l.conn → e.2.phase.parked = true

/-- The connection has `n` as its `$id` and is sending its `user_leave`. -/
def Conn.leaves (k : Conn) (n : Bytes) : Bool :=
  match k.phase with
  | .call .leaving (.send _ _ _) => decide (k.header.getHeader idKey = n)
  | _ => false

/-- A name is entered in the table only when no `user_leave` of it is still being sent. -/
def Calm (s : Server) : Label → Prop
  | .act c _ _ => ∀ k ∈ s.conn c, ∀ n ∈ k.phase.adding, ∀ e ∈ s.conns, e.1 ≠ c → e.2.leaves n = false
  | _ => True

/-! ### What calls still have to send -/

/-- The messages that the rest of a call sends, when the sends succeed. -/
def Servlet.pending : Servlet Int → List (ConnId × ChatMessage)
  | .send dst msg k => (dst, msg) :: (k true).pending
  | _ => []

/-- The rest of a call only sends, and returns 0 when the sends succeed. -/
def Servlet.OnlySends : Servlet Int → Prop
  | .ret r => r = 0
  | .send _ _ k => (k true).OnlySends
  | _ => False

/-- The messages a connection still has to send. -/
def Phase.pending : Phase → List (ConnId × ChatMessage)
  | .call _ p => p.pending
  | _ => []

/-- A connection where its fiber may be left: it only sends, and what it tells of is its own login
or leaving. -/
def Conn.Parks (k : Conn) : Prop :=
  match k.phase with
  | .call m p => p.OnlySends ∧ (m = .onClose → k.header.getHeader idKey = []) ∧
      ∀ e ∈ p.pending, ∀ x b, e.2.roster = some (x, b) → x = k.header.getHeader idKey ∧
        (b = false ↔ m = .leaving)
  | _ => True

/-- **What holds when every fiber is at a place where it may be left.**  The table holds the open
connections that are logged in.  What a call tells of a name is so, and it does not tell the
connection that holds it.  A roster is right about another name, or a call that is in progress will
tell. -/
structure Settled (conns : ConnId → Option Conn) (session : Bytes → Option ConnId)
    (rosters : ConnId → Bytes → Bool) :
    Prop where
  entry : ∀ x d, session x = some d ↔ x ≠ [] ∧ ∃ k, conns d = some k ∧ k.Claims x
  parks : ∀ d k, conns d = some k → k.Parks
  agrees : ∀ d k, conns d = some k → ∀ e ∈ k.phase.pending, ∀ x b, e.2.roster = some (x, b) →
    (session x).isSome = b ∧ session x ≠ some e.1
  right : ∀ x c, session x = some c → ∀ y, y ≠ x → rosters c y = (session y).isSome ∨
    ∃ d k e b, conns d = some k ∧ e ∈ k.phase.pending ∧ e.1 = c ∧ e.2.roster = some (y, b)
  own : ∀ x c, session x = some c → rosters c x = false

section

variable {conns : ConnId → Option Conn} {session : Bytes → Option ConnId}
    {rosters : ConnId → Bytes → Bool} {c : ConnId}
  {header header' : HttpRequest} {m : Call} {p : Servlet Int} {n : Bytes} {k : Conn}

/-- Before any login the rosters are empty. -/
theorem settled_init (rosters : ConnId → Bytes → Bool) :
    Settled (fun _ => none) (fun _ => none) rosters := by
  refine ⟨fun x d => ⟨fun hd => ?_, fun h => ?_⟩, fun d k hk => ?_, fun d k hk => ?_, fun x c hc => ?_,
    fun x c hc => ?_⟩
  · cases hd
  · obtain ⟨-, k, hk, -⟩ := h
    cases hk
  · cases hk
  · cases hk
  · cases hc
  · cases hc

/-- The connections after one of them has moved. -/
theorem update_cases {d : ConnId} {k' x : Conn} (hd : Function.update conns c (some k') d = some x) :
    (d = c ∧ x = k') ∨ (d ≠ c ∧ conns d = some x) := by
  by_cases heq : d = c
  · rw [heq, Function.update_self] at hd
    exact .inl ⟨heq, (Option.some.inj hd).symm⟩
  · rw [Function.update_of_ne heq] at hd
    exact .inr ⟨heq, hd⟩

/-- A connection moves with its name as it was, and no notification to send that it did not have. -/
theorem Settled.replace {rosters' : ConnId → Bytes → Bool} (h : Settled conns session rosters)
    (k' : Conn)
    (hparks : k'.Parks) (hclaims : ∀ x, x ≠ [] → (k'.Claims x ↔ ∃ k, conns c = some k ∧ k.Claims x))
    (hpend : ∀ e ∈ k'.phase.pending, ∀ x b, e.2.roster = some (x, b) → ∃ k, conns c = some k ∧
      e ∈ k.phase.pending)
    (hright : ∀ x d, session x = some d → ∀ y, y ≠ x → rosters' d y = (session y).isSome ∨
      ∃ d' k e b, Function.update conns c (some k') d' = some k ∧ e ∈ k.phase.pending ∧ e.1 = d ∧
        e.2.roster = some (y, b))
    (hown : ∀ x d, session x = some d → rosters' d x = false) :
    Settled (Function.update conns c (some k')) session rosters' := by
  refine ⟨fun x d => ?_, fun d x hd => ?_, fun d x hd e he y b hroster => ?_, hright, hown⟩
  · rw [h.entry]
    refine and_congr_right fun hx => ?_
    by_cases hd : d = c
    · subst hd
      rw [← hclaims x hx, Function.update_self]
      exact ⟨fun hk => ⟨k', rfl, hk⟩, fun ⟨_, hk, hcl⟩ => Option.some.inj hk ▸ hcl⟩
    · rw [Function.update_of_ne hd]
  · rcases update_cases hd with ⟨-, rfl⟩ | ⟨-, hd⟩
    · exact hparks
    · exact h.parks d x hd
  · rcases update_cases hd with ⟨-, rfl⟩ | ⟨-, hd⟩
    · obtain ⟨k, hk, he⟩ := hpend e he y b hroster
      exact h.agrees c k hk e he y b hroster
    · exact h.agrees d x hd e he y b hroster

/-- **A connection moves** with its name and its notifications as they were. -/
theorem Settled.put (h : Settled conns session rosters) (k' : Conn) (hparks : k'.Parks)
    (hclaims : ∀ x, x ≠ [] → (k'.Claims x ↔ ∃ k, conns c = some k ∧ k.Claims x))
    (hpend : ∀ e x b, e.2.roster = some (x, b) →
      (e ∈ k'.phase.pending ↔ ∃ k, conns c = some k ∧ e ∈ k.phase.pending)) :
    Settled (Function.update conns c (some k')) session rosters := by
  refine h.replace k' hparks hclaims (fun e he x b hroster => (hpend e x b hroster).1 he)
    (fun x d hd y hy => ?_) h.own
  refine (h.right x d hd y hy).imp_right ?_
  rintro ⟨d', k, e, b, hk, he, hdst, hroster⟩
  by_cases hd' : d' = c
  · subst hd'
    exact ⟨d', k', e, b, Function.update_self .., (hpend e y b hroster).2 ⟨k, hk, he⟩, hdst, hroster⟩
  · exact ⟨d', k, e, b, (Function.update_of_ne hd' ..).trans hk, he, hdst, hroster⟩

/-- What a message does to the rosters. -/
theorem heard_eq {dst : ConnId} {msg : ChatMessage} {y : Bytes} {b : Bool}
    (hmsg : msg.roster = some (y, b)) (d : ConnId)
    (x : Bytes) : Function.update rosters dst (heard msg (rosters dst)) d x =
      if d = dst ∧ x = y then b else rosters d x := by
  rw [heard, hmsg]
  by_cases hd : d = dst
  · rw [hd, Function.update_self]
    show Function.update (rosters dst) y b x = _
    by_cases hx : x = y
    · rw [hx, Function.update_self, if_pos ⟨rfl, rfl⟩]
    · rw [Function.update_of_ne hx, if_neg fun hboth => hx hboth.2]
  · rw [Function.update_of_ne hd, if_neg fun hboth => hd hboth.1]

/-- **A message is sent.** -/
theorem Settled.send {dst : ConnId} {msg : ChatMessage} {next : Bool → Servlet Int}
    (h : Settled conns session rosters)
    (hc : conns c = some ⟨header, .call m (.send dst msg next)⟩) :
    Settled (Function.update conns c (some ⟨header, .call m (next true)⟩)) session
      (Function.update rosters dst (heard msg (rosters dst))) := by
  obtain ⟨honly, hclose, htells⟩ := h.parks c _ hc
  have hmem : ∀ e, e ∈ (Servlet.send dst msg next).pending ↔ e = (dst, msg) ∨
      e ∈ (next true).pending := fun e =>
    List.mem_cons
  have hparks : (⟨header, .call m (next true)⟩ : Conn).Parks :=
    ⟨honly, hclose, fun e he => htells e ((hmem e).2 (.inr he))⟩
  have hclaims : ∀ x, x ≠ [] → ((⟨header, .call m (next true)⟩ : Conn).Claims x ↔
      ∃ k, conns c = some k ∧ k.Claims x) := by
    intro x _
    have hsame : (⟨header, .call m (next true)⟩ : Conn).Claims x ↔
        (⟨header, .call m (.send dst msg next)⟩ : Conn).Claims x := by
      cases m <;> exact Iff.rfl
    rw [hc]
    exact ⟨fun hcl => ⟨_, rfl, hsame.1 hcl⟩, fun ⟨_, hk, hcl⟩ => hsame.2 (Option.some.inj hk ▸ hcl)⟩
  cases hmsg : msg.roster with
  | none =>
    have hheard : Function.update rosters dst (heard msg (rosters dst)) = rosters := by
      rw [heard, hmsg, Function.update_eq_self]
    rw [hheard]
    refine h.put _ hparks hclaims fun e x b hroster => ?_
    rw [hc]
    constructor
    · exact fun he => ⟨_, rfl, (hmem e).2 (.inr he)⟩
    · rintro ⟨k, hk, he⟩
      obtain rfl := Option.some.inj hk
      rcases (hmem e).1 he with rfl | he
      · cases hmsg.symm.trans hroster
      · exact he
  | some told =>
    obtain ⟨y, b⟩ := told
    obtain ⟨hsome, hother⟩ := h.agrees c _ hc (dst, msg) ((hmem _).2 (.inl rfl)) y b hmsg
    refine h.replace _ hparks hclaims (fun e he x b' _ => ⟨_, hc, (hmem e).2 (.inr he)⟩)
      (fun x d hd z hz => ?_)
      fun x d hd => ?_
    · rw [heard_eq hmsg]
      split
      · rename_i hboth
        rw [hboth.2, hsome]
        exact .inl rfl
      · rename_i hnot
        refine (h.right x d hd z hz).imp_right ?_
        rintro ⟨d', k, e, b', hk, he, hdst, hx⟩
        by_cases hd' : d' = c
        · subst hd'
          obtain rfl := Option.some.inj (hk.symm.trans hc)
          refine ⟨d', _, e, b', Function.update_self .., ?_, hdst, hx⟩
          rcases (hmem e).1 he with rfl | he
          · have heq := Prod.ext_iff.1 (Option.some.inj (hmsg.symm.trans hx))
            exact absurd ⟨hdst.symm, heq.1.symm⟩ hnot
          · exact he
        · exact ⟨d', k, e, b', (Function.update_of_ne hd' ..).trans hk, he, hdst, hx⟩
    · rw [heard_eq hmsg, if_neg]
      · exact h.own x d hd
      · rintro ⟨rfl, rfl⟩
        exact hother hd

/-- What a connection that has nothing to tell does not tell. -/
theorem Settled.others (h : Settled conns session rosters) (hc : conns c = some k)
    (hquiet : k.phase.pending = [])
    {x : Bytes} {d : ConnId} (hd : session x = some d) {y : Bytes} (hy : y ≠ x) (k' : Conn) :
    rosters d y = (session y).isSome ∨ ∃ d' k e b, Function.update conns c (some k') d' = some k ∧
      e ∈ k.phase.pending ∧ e.1 = d ∧ e.2.roster = some (y, b) := by
  refine (h.right x d hd y hy).imp_right ?_
  rintro ⟨d', k₁, e, b, hk, he, hdst, hroster⟩
  have hd' : d' ≠ c := by
    rintro rfl
    obtain rfl := Option.some.inj (hk.symm.trans hc)
    rw [hquiet] at he
    cases he
  exact ⟨d', k₁, e, b, (Function.update_of_ne hd' ..).trans hk, he, hdst, hroster⟩

/-- A connection that waits and only sends has a send before it if there is something to send. -/
theorem OnlySends.leaves (header : HttpRequest) (hp : p.OnlySends) (hne : p.pending ≠ []) :
    (⟨header, .call .leaving p⟩ : Conn).leaves (header.getHeader idKey) = true := by
  cases p with
  | send dst msg next => exact decide_eq_true rfl
  | ret r => exact absurd rfl hne
  | _ => exact hp.elim

/-- **A login.**  The name was free, and its `user_leave` is not being sent. -/
theorem Settled.login (h : Settled conns session rosters) (hc : conns c = some ⟨header, .recvMessage⟩)
    (hid : header.getHeader idKey = []) (hid' : header'.getHeader idKey = n) (hn : n ≠ [])
    (hfree : session n = none)
    (hcalm : ∀ d k, d ≠ c → conns d = some k → k.leaves n = false) (hsends : p.OnlySends)
    (htells : ∀ e ∈ p.pending, ∀ x b, e.2.roster = some (x, b) → x = n ∧ b = true ∧ e.1 ≠ c)
    (hall : ∀ x d, session x = some d → ∃ e ∈ p.pending, e.1 = d ∧ e.2.roster = some (n, true)) :
    Settled (Function.update conns c (some ⟨header', .call .handle p⟩))
      (Function.update session n (some c))
      (Function.update rosters c fun x => (session x).isSome && decide (x ≠ n)) := by
  have hsession : ∀ x, x ≠ n → Function.update session n (some c) x = session x :=
    fun x hx => Function.update_of_ne hx ..
  have hout : ∀ x, session x ≠ some c := by
    intro x hx
    obtain ⟨hne, k, hk, -, hcl⟩ := (h.entry x c).1 hx
    obtain rfl := Option.some.inj (hk.symm.trans hc)
    exact hne (hcl.symm.trans hid)
  refine ⟨fun x d => ?_, fun d k hd => ?_, fun d k hd e he x b hroster => ?_,
    fun x d hd y hy => ?_, fun x d hd => ?_⟩
  · by_cases hx : x = n
    · rw [hx, Function.update_self]
      by_cases hd : d = c
      · rw [hd, Function.update_self]
        exact ⟨fun _ => ⟨hn, _, rfl, trivial, hid'⟩, fun _ => rfl⟩
      · rw [Function.update_of_ne hd]
        refine ⟨fun heq => absurd (Option.some.inj heq).symm hd, fun hcl => ?_⟩
        cases hfree.symm.trans ((h.entry n d).2 hcl)
    · rw [hsession x hx]
      by_cases hd : d = c
      · rw [hd, Function.update_self]
        refine ⟨fun heq => absurd heq (hout x), ?_⟩
        rintro ⟨-, k, hk, -, hcl⟩
        obtain rfl := Option.some.inj hk
        exact absurd (hcl.symm.trans hid') hx
      · rw [Function.update_of_ne hd]
        exact h.entry x d
  · rcases update_cases hd with ⟨-, rfl⟩ | ⟨-, hd⟩
    · refine ⟨hsends, nofun, fun e he x b hroster => ?_⟩
      obtain ⟨rfl, rfl, -⟩ := htells e he x b hroster
      exact ⟨hid'.symm, nofun, nofun⟩
    · exact h.parks d k hd
  · rcases update_cases hd with ⟨-, rfl⟩ | ⟨hdc, hd⟩
    · obtain ⟨rfl, rfl, hne⟩ := htells e he x b hroster
      rw [Function.update_self]
      exact ⟨rfl, fun heq => hne (Option.some.inj heq).symm⟩
    · have hx : x ≠ n := by
        -- another call about the name would be its `user_leave`
        rintro rfl
        have hparks := h.parks d k hd
        obtain ⟨hsome, -⟩ := h.agrees d k hd e he x b hroster
        obtain ⟨headerd, ph⟩ := k
        cases ph with
        | recvMessage | closed => cases he
        | call m q =>
          obtain ⟨honly, -, htold⟩ := hparks
          obtain ⟨hxid, hkind⟩ := htold e he x b hroster
          rw [hfree] at hsome
          obtain rfl := hkind.1 hsome.symm
          have hleaves := OnlySends.leaves headerd honly (List.ne_nil_of_mem he)
          rw [← hxid] at hleaves
          cases hleaves.symm.trans (hcalm d _ hdc hd)
      rw [hsession x hx]
      exact h.agrees d k hd e he x b hroster
  · by_cases hx : x = n
    · rw [hx, Function.update_self] at hd
      obtain rfl := Option.some.inj hd
      rw [Function.update_self, hsession y (hx ▸ hy)]
      exact .inl (by simp [hx ▸ hy])
    · rw [hsession x hx] at hd
      have hdc : d ≠ c := fun heq => hout x (heq ▸ hd)
      rw [Function.update_of_ne hdc]
      by_cases hyn : y = n
      · obtain ⟨e, he, hdst, hroster⟩ := hall x d hd
        exact .inr ⟨c, _, e, true, Function.update_self .., he, hdst, hyn ▸ hroster⟩
      · rw [hsession y hyn]
        exact h.others hc rfl hd hy _
  · by_cases hx : x = n
    · rw [hx, Function.update_self] at hd
      obtain rfl := Option.some.inj hd
      rw [Function.update_self, hx]
      simp
    · rw [hsession x hx] at hd
      have hdc : d ≠ c := fun heq => hout x (heq ▸ hd)
      rw [Function.update_of_ne hdc]
      exact h.own x d hd

/-- **A client leaves.** -/
theorem Settled.leave (h : Settled conns session rosters) (hc : conns c = some ⟨header, .recvMessage⟩)
    (hid : header.getHeader idKey = n) (hn : n ≠ []) (hsends : p.OnlySends)
    (htells : ∀ e ∈ p.pending, ∀ x b, e.2.roster = some (x, b) → x = n ∧ b = false)
    (hall : ∀ x d, x ≠ n → session x = some d → ∃ e ∈ p.pending, e.1 = d ∧
      e.2.roster = some (n, false)) :
    Settled (Function.update conns c (some ⟨header, .call .leaving p⟩))
      (Function.update session n none) rosters := by
  have hsession : ∀ x, x ≠ n → Function.update session n none x = session x :=
    fun x hx => Function.update_of_ne hx ..
  have hentry : session n = some c := (h.entry n c).2 ⟨hn, _, hc, trivial, hid⟩
  refine ⟨fun x d => ?_, fun d k hd => ?_, fun d k hd e he x b hroster => ?_,
    fun x d hd y hy => ?_, fun x d hd => ?_⟩
  · by_cases hx : x = n
    · rw [hx, Function.update_self]
      refine ⟨nofun, ?_⟩
      rintro ⟨-, k, hk, hcl⟩
      rcases update_cases hk with ⟨-, rfl⟩ | ⟨hdc, hk⟩
      · exact hcl.1.elim
      · have hd := (h.entry n d).2 ⟨hn, k, hk, hcl⟩
        exact absurd (Option.some.inj (hd.symm.trans hentry)) hdc
    · rw [hsession x hx, h.entry]
      refine and_congr_right fun hne => ?_
      by_cases hd : d = c
      · rw [hd, hc, Function.update_self]
        constructor
        · rintro ⟨k, hk, -, hcl⟩
          obtain rfl := Option.some.inj hk
          exact absurd (hcl.symm.trans hid) hx
        · rintro ⟨k, hk, hopen, -⟩
          obtain rfl := Option.some.inj hk
          exact hopen.elim
      · rw [Function.update_of_ne hd]
  · rcases update_cases hd with ⟨-, rfl⟩ | ⟨-, hd⟩
    · refine ⟨hsends, nofun, fun e he x b hroster => ?_⟩
      obtain ⟨rfl, rfl⟩ := htells e he x b hroster
      exact ⟨hid.symm, fun _ => rfl, fun _ => rfl⟩
    · exact h.parks d k hd
  · rcases update_cases hd with ⟨-, rfl⟩ | ⟨hdc, hd⟩
    · obtain ⟨rfl, rfl⟩ := htells e he x b hroster
      rw [Function.update_self]
      exact ⟨rfl, nofun⟩
    · have hx : x ≠ n := by
        -- another call about the name would be the login of another connection that holds it
        rintro rfl
        have hparks := h.parks d k hd
        obtain ⟨hsome, -⟩ := h.agrees d k hd e he x b hroster
        obtain ⟨headerd, ph⟩ := k
        cases ph with
        | recvMessage | closed => cases he
        | call m q =>
          obtain ⟨-, -, htold⟩ := hparks
          obtain ⟨hxid, hkind⟩ := htold e he x b hroster
          rw [hentry] at hsome
          have hm : m ≠ .leaving := fun hm => by
            rw [hkind.2 hm] at hsome
            cases hsome
          have hopen : (⟨headerd, .call m q⟩ : Conn).Claims x := by
            refine ⟨?_, hxid.symm⟩
            cases m with
            | leaving => exact absurd rfl hm
            | onConnect | handle | onClose => trivial
          have hdn := (h.entry x d).2 ⟨hn, _, hd, hopen⟩
          exact hdc (Option.some.inj (hdn.symm.trans hentry))
      rw [hsession x hx]
      exact h.agrees d k hd e he x b hroster
  · have hx : x ≠ n := by
      rintro rfl
      rw [Function.update_self] at hd
      cases hd
    rw [hsession x hx] at hd
    by_cases hyn : y = n
    · obtain ⟨e, he, hdst, hroster⟩ := hall x d hx hd
      exact .inr ⟨c, _, e, false, Function.update_self .., he, hdst, hyn ▸ hroster⟩
    · rw [hsession y hyn]
      exact h.others hc rfl hd hy _
  · have hx : x ≠ n := by
      rintro rfl
      rw [Function.update_self] at hd
      cases hd
    rw [hsession x hx] at hd
    exact h.own x d hd

end

/-! ### The steps of a call up to its next send -/

/-- **The rest of a call of `c` leads to a settled server** at its next send or at its end, if its
logins are calm; `after` is asked when it returns another number than 0. -/
def Leads (c : ConnId) (conns : ConnId → Option Conn)
    (after : HttpRequest → OrdMap Bytes ConnId → (ConnId → Bytes → Bool) → Prop) :
    Servlet Int → Call → HttpRequest → OrdMap Bytes ConnId → (ConnId → Bytes → Bool) → Prop
  | .ret r, m, header, sessions, rosters =>
    (r = 0 → Settled (Function.update conns c (some ⟨header, .call m (.ret r)⟩))
      (OrdMap.find bytesLess · sessions) rosters) ∧
      (r ≠ 0 → m = .handle ∧ after header sessions rosters)
  | .throw, _, _, _, _ => True
  | .getHeader key k, m, header, sessions, rosters =>
      Leads c conns after (k (header.getHeader key)) m header sessions rosters
  | .setHeader key val k, m, header, sessions, rosters =>
    Leads c conns after k m (header.setHeader key val) sessions rosters
  | .sessionExists id k, m, header, sessions, rosters =>
    Leads c conns after (k (OrdMap.find bytesLess id sessions).isSome) m header sessions rosters
  | .sessionAdd id k, m, header, sessions, rosters =>
    (∀ d k', d ≠ c → conns d = some k' → k'.leaves id = false) →
      Leads c conns after k m header (OrdMap.set bytesLess id c sessions)
        (Function.update rosters c fun x =>
          (OrdMap.find bytesLess x sessions).isSome && decide (x ≠ id))
  | .sessionDel id k, m, header, sessions, rosters =>
    Leads c conns after k (if m = .onClose then .leaving else m) header
      (OrdMap.erase bytesLess id sessions) rosters
  | .sessionCopy _ k, m, header, sessions, rosters =>
      Leads c conns after (k sessions) m header sessions rosters
  | .time2Str k, m, header, sessions, rosters =>
      ∀ time, Leads c conns after (k time) m header sessions rosters
  | .send dst msg k, m, header, sessions, rosters =>
    Settled (Function.update conns c (some ⟨header, .call m (.send dst msg k)⟩))
      (OrdMap.find bytesLess · sessions) rosters

/-- The same for `onClose`, which returns 0. -/
def LeadsOut (c : ConnId) (conns : ConnId → Option Conn) :=
  Leads c conns fun _ _ _ => False

/-- The same for `handle`, after which `onClose` is called when it returns another number than 0. -/
def LeadsIn (c : ConnId) (conns : ConnId → Option Conn) :=
  Leads c conns fun header sessions rosters =>
    LeadsOut c conns (onClose c) .onClose header sessions rosters

section

variable {conns : ConnId → Option Conn} {sessions : OrdMap Bytes ConnId}
    {rosters : ConnId → Bytes → Bool} {c : ConnId}
  {header : HttpRequest} {m : Call} {p : Servlet Int} {n : Bytes}
  {after after' : HttpRequest → OrdMap Bytes ConnId → (ConnId → Bytes → Bool) → Prop}

/-- What a program leads to may be weakened. -/
theorem Leads.mono (hafter : ∀ header sessions rosters, after header sessions rosters →
    after' header sessions rosters) :
    ∀ {p m header sessions rosters}, Leads c conns after p m header sessions rosters →
      Leads c conns after' p m header sessions rosters := by
  intro p
  induction p with
  | ret r => exact fun h => ⟨h.1, fun hr => ⟨(h.2 hr).1, hafter _ _ _ (h.2 hr).2⟩⟩
  | throw => exact fun _ => trivial
  | getHeader key k ih => exact fun h => ih _ h
  | setHeader key val k ih => exact fun h => ih h
  | sessionExists id k ih => exact fun h => ih _ h
  | sessionAdd id k ih => exact fun h hcalm => ih (h hcalm)
  | sessionDel id k ih => exact fun h => ih h
  | sessionCopy msg k ih => exact fun h => ih _ h
  | time2Str k ih => exact fun h time => ih time (h time)
  | send dst msg k ih => exact fun h => h

/-- A call that only sends is at a place where it may be left. -/
theorem leads_of_onlySends (hp : p.OnlySends)
    (h : Settled (Function.update conns c (some ⟨header, .call m p⟩))
      (OrdMap.find bytesLess · sessions) rosters) :
    Leads c conns after p m header sessions rosters := by
  cases p with
  | ret r => exact ⟨fun _ => h, fun hr => absurd hp hr⟩
  | send dst msg k => exact h
  | _ => exact hp.elim

/-- A call that sends no notification. -/
theorem leads_quiet (h : Settled conns (OrdMap.find bytesLess · sessions) rosters)
    (hc : conns c = some ⟨header, .recvMessage⟩) (hp : p.OnlySends)
    (hquiet : ∀ e ∈ p.pending, e.2.roster = none)
    (hm : m ≠ .leaving) (hclose : m = .onClose → header.getHeader idKey = []) :
    Leads c conns after p m header sessions rosters := by
  refine leads_of_onlySends hp (h.put _ ⟨hp, hclose, fun e he x b hroster => ?_⟩
    (fun x _ => ?_) fun e x b hroster => ?_)
  · cases (hquiet e he).symm.trans hroster
  · rw [hc]
    have hopen : (Phase.call m p).Open := by
      cases m with
      | leaving => exact absurd rfl hm
      | onConnect | handle | onClose => trivial
    exact ⟨fun hcl => ⟨_, rfl, trivial, hcl.2⟩,
      fun ⟨_, hk, hcl⟩ => ⟨hopen, by obtain rfl := Option.some.inj hk; exact hcl.2⟩⟩
  · rw [hc]
    constructor
    · intro he
      cases (hquiet e he).symm.trans hroster
    · rintro ⟨k, hk, he⟩
      obtain rfl := Option.some.inj hk
      cases he

/-! ### The programs of the servlet -/

/-- The loop over the sessions only sends. -/
theorem onlySends_notifyEach (msg : ChatMessage) (session : Option ConnId) {k : Unit → Servlet Int}
    (hk : (k ()).OnlySends) : ∀ list : OrdMap Bytes ConnId,
    ((notifyEach msg session list).bind k).OnlySends
  | [] => hk
  | (_, d) :: rest => by
    rw [notifyEach]
    split
    · exact onlySends_notifyEach msg session hk rest
    · exact onlySends_notifyEach msg session hk rest

/-- What `sessionNotify` sends from its copy of the table. -/
theorem mem_pending_notifyEach {msg : ChatMessage} {session : Option ConnId} {k : Unit → Servlet Int}
    {e : ConnId × ChatMessage} : ∀ list : OrdMap Bytes ConnId,
      e ∈ ((notifyEach msg session list).bind k).pending ↔
      (∃ x d, (x, d) ∈ list ∧ some d ≠ session ∧ e = (d, msg)) ∨ e ∈ (k ()).pending
  | [] => by
    show e ∈ (k ()).pending ↔ _
    simp
  | (x, d) :: rest => by
    rw [notifyEach]
    split
    · rename_i hown
      rw [mem_pending_notifyEach rest]
      refine or_congr_left ⟨?_, ?_⟩
      · rintro ⟨y, d', hmem, hrest⟩
        exact ⟨y, d', List.mem_cons_of_mem _ hmem, hrest⟩
      rintro ⟨y, d', hmem, hne, rfl⟩
      rcases List.mem_cons.1 hmem with heq | hmem
      · obtain ⟨rfl, rfl⟩ := Prod.mk.inj heq
        exact absurd hown hne
      · exact ⟨y, d', hmem, hne, rfl⟩
    · rename_i hother
      show e ∈ (d, msg) :: ((notifyEach msg session rest).bind k).pending ↔ _
      rw [List.mem_cons, mem_pending_notifyEach rest]
      constructor
      · rintro (rfl | ⟨y, d', hmem, hrest⟩ | he)
        · exact .inl ⟨x, d, List.mem_cons_self, hother, rfl⟩
        · exact .inl ⟨y, d', List.mem_cons_of_mem _ hmem, hrest⟩
        · exact .inr he
      · rintro (⟨y, d', hmem, hne, rfl⟩ | he)
        · rcases List.mem_cons.1 hmem with heq | hmem
          · obtain ⟨rfl, rfl⟩ := Prod.mk.inj heq
            exact .inl rfl
          · exact .inr (.inl ⟨y, d', hmem, hne, rfl⟩)
        · exact .inr (.inr he)

/-- Which notices add a name to a roster and which take one away. -/
theorem roster_notice (time name : Bytes) :
    (notice (str "user_center") time name).roster = some (name, true) ∧
    (notice (str "user_leave") time name).roster = some (name, false) := by
  constructor
  · rw [ChatMessage.roster, notice_type, if_pos rfl, notice_name]
  · rw [ChatMessage.roster, notice_type, if_neg (by decide), if_pos rfl, notice_name]

/-- A message of another type is no notification about a name. -/
theorem roster_eq_none {msg : ChatMessage} {type : Bytes} (h : msg.get (str "type") = type)
    (hcenter : type ≠ str "user_center") (hleave : type ≠ str "user_leave") : msg.roster = none := by
  rw [ChatMessage.roster, h, if_neg hcenter, if_neg hleave]

/-- A response is sent, and that is all. -/
theorem leads_response {type : Bytes} (h : Settled conns (OrdMap.find bytesLess · sessions) rosters)
    (hc : conns c = some ⟨header, .recvMessage⟩) (result text : Bytes)
    (hcenter : type ≠ str "user_center")
    (hleave : type ≠ str "user_leave") :
    Leads c conns after (sendMessage c (response type result text)) .handle header sessions
      rosters := by
  refine leads_quiet h hc rfl (fun e he => ?_) nofun nofun
  obtain rfl := List.mem_singleton.1 he
  exact roster_eq_none (response_type ..) hcenter hleave

/-- The table after a name is entered, and after one is deleted. -/
theorem find_set_eq (sessions : OrdMap Bytes ConnId) (n : Bytes) (c : ConnId) :
    (OrdMap.find bytesLess · (OrdMap.set bytesLess n c sessions)) =
      Function.update (OrdMap.find bytesLess · sessions) n (some c) := by
  funext x
  by_cases hx : x = n
  · rw [hx, Function.update_self, OrdMap.find_set_self bytesLess_keyed rfl]
  · rw [Function.update_of_ne hx, OrdMap.find_set_of_ne bytesLess_keyed hx]

/-- The sessions without a name. -/
theorem find_erase_eq {sessions sessions' : OrdMap Bytes ConnId} {n : Bytes}
    (h : ∀ x, x ≠ n → OrdMap.find bytesLess x sessions' = OrdMap.find bytesLess x sessions) :
    (OrdMap.find bytesLess · (OrdMap.erase bytesLess n sessions')) =
      Function.update (OrdMap.find bytesLess · sessions) n none := by
  funext x
  by_cases hx : x = n
  · rw [hx, Function.update_self, OrdMap.find_erase_self bytesLess_keyed rfl]
  · rw [Function.update_of_ne hx, OrdMap.find_erase_of_ne bytesLess_keyed hx, h x hx]

/-- **`onClose`**, when the entry of the connection is still in the table or has just been deleted.
-/
theorem leads_onClose {sessions' : OrdMap Bytes ConnId}
    (h : Settled conns (OrdMap.find bytesLess · sessions) rosters)
    (hc : conns c = some ⟨header, .recvMessage⟩)
    (hs : ∀ x, x ≠ header.getHeader idKey →
      OrdMap.find bytesLess x sessions' = OrdMap.find bytesLess x sessions)
    (hsame : header.getHeader idKey = [] → sessions' = sessions) :
    LeadsOut c conns (onClose c) .onClose header sessions' rosters := by
  show Leads c conns _ (if (header.getHeader idKey).isEmpty = true then _ else _) _ _ _ _
  split
  · rename_i hempty
    have hid := List.isEmpty_iff.1 hempty
    rw [hsame hid]
    exact leads_quiet (p := .ret 0) h hc rfl nofun nofun fun _ => hid
  · rename_i hempty
    have hid : header.getHeader idKey ≠ [] := fun hnil => hempty (List.isEmpty_iff.2 hnil)
    intro time
    generalize hn : header.getHeader idKey = n at hs hid
    show Leads c conns _ ((notifyEach (notice (str "user_leave") time n) (some c)
      (OrdMap.erase bytesLess n sessions')).bind fun _ => ret 0) .leaving header
        (OrdMap.erase bytesLess n sessions') rosters
    have hsends := onlySends_notifyEach (notice (str "user_leave") time n) (some c)
      (k := fun _ => ret 0) rfl
      (OrdMap.erase bytesLess n sessions')
    refine leads_of_onlySends hsends ?_
    rw [find_erase_eq hs]
    refine h.leave hc hn hid hsends (fun e he x b hroster => ?_) fun x d hx hd => ?_
    · rcases (mem_pending_notifyEach _).1 he with ⟨y, d, -, -, rfl⟩ | he
      · obtain ⟨rfl, rfl⟩ := Prod.mk.inj
          (Option.some.inj ((roster_notice time _).2.symm.trans hroster))
        exact ⟨rfl, rfl⟩
      · cases he
    · -- every other entry is in the copy
      have hd' : OrdMap.find bytesLess x (OrdMap.erase bytesLess n sessions') = some d := by
        rw [OrdMap.find_erase_of_ne bytesLess_keyed hx, hs x hx]
        exact hd
      obtain ⟨y, hmem, rfl⟩ := OrdMap.exists_mem_of_find bytesLess_keyed hd'
      refine ⟨(d, _), (mem_pending_notifyEach _).2 (.inl ⟨x, d, hmem, ?_, rfl⟩), rfl,
        (roster_notice time _).2⟩
      intro hself
      obtain rfl := Option.some.inj hself
      obtain ⟨-, k, hk, hcl⟩ := (h.entry x d).1 hd
      obtain rfl := Option.some.inj (hk.symm.trans hc)
      exact hx (hcl.2.symm.trans hn)

/-- The login branch of `handle`. -/
theorem leads_handleLogin (h : Settled conns (OrdMap.find bytesLess · sessions) rosters)
    (hc : conns c = some ⟨header, .recvMessage⟩) (message : ChatMessage) :
    Leads c conns after (handleLogin message (header.getHeader idKey) c) .handle header sessions
      rosters := by
  rw [handleLogin]
  split
  · exact leads_response h hc _ _ (by decide) (by decide)
  rename_i hname
  split
  · exact leads_response h hc _ _ (by decide) (by decide)
  rename_i hid
  have hid : header.getHeader idKey = [] := by simpa using hid
  generalize hn : message.get (str "name") = n at hname ⊢
  have hne : n ≠ [] := fun hnil => hname (List.isEmpty_iff.2 hnil)
  show Leads c conns after (if (OrdMap.find bytesLess n sessions).isSome = true then _ else _) _ _ _ _
  split
  · exact leads_response h hc _ _ (by decide) (by decide)
  rename_i hfree
  have hfree : OrdMap.find bytesLess n sessions = none := by simpa using hfree
  intro hcalm time
  show Leads c conns after ((notifyEach (notice (str "user_center") time n) (some c)
    (OrdMap.set bytesLess n c sessions)).bind
    fun _ => sendMessage c (response (str "login_response") (str "200") (str "ok"))) .handle
      (header.setHeader idKey n)
    (OrdMap.set bytesLess n c sessions) _
  have hsends := onlySends_notifyEach (notice (str "user_center") time n) (some c)
    (k := fun _ => sendMessage c (response (str "login_response") (str "200") (str "ok"))) rfl
    (OrdMap.set bytesLess n c sessions)
  refine leads_of_onlySends hsends ?_
  rw [find_set_eq]
  refine h.login hc hid (header.getHeader_setHeader_self n rfl) hne hfree hcalm hsends
    (fun e he x b hroster => ?_)
    fun x d hd => ?_
  · rcases (mem_pending_notifyEach _).1 he with ⟨y, d, -, hne', rfl⟩ | he
    · obtain ⟨rfl, rfl⟩ := Prod.mk.inj (Option.some.inj ((roster_notice time _).1.symm.trans hroster))
      exact ⟨rfl, rfl, fun heq => hne' (congrArg some heq)⟩
    · obtain rfl := List.mem_singleton.1 he
      cases (roster_eq_none (response_type ..) (by decide) (by decide)).symm.trans hroster
  · -- every entry but the new one is another connection in the copy
    have hx : x ≠ n := by
      rintro rfl
      cases hfree.symm.trans hd
    have hd' : OrdMap.find bytesLess x (OrdMap.set bytesLess n c sessions) = some d := by
      rw [OrdMap.find_set_of_ne bytesLess_keyed hx]
      exact hd
    obtain ⟨y, hmem, rfl⟩ := OrdMap.exists_mem_of_find bytesLess_keyed hd'
    refine ⟨(d, _), (mem_pending_notifyEach _).2 (.inl ⟨x, d, hmem, ?_, rfl⟩), rfl,
      (roster_notice time n).1⟩
    intro hself
    obtain rfl := Option.some.inj hself
    obtain ⟨hxne, k, hk, hcl⟩ := (h.entry x d).1 hd
    obtain rfl := Option.some.inj (hk.symm.trans hc)
    exact hxne (hcl.2.symm.trans hid)

/-- The send branch of `handle`. -/
theorem leads_handleSend (h : Settled conns (OrdMap.find bytesLess · sessions) rosters)
    (hc : conns c = some ⟨header, .recvMessage⟩) (message : ChatMessage) (id : Bytes) :
    Leads c conns after (handleSend message id c) .handle header sessions rosters := by
  rw [handleSend]
  split
  · exact leads_response h hc _ _ (by decide) (by decide)
  split
  · exact leads_response h hc _ _ (by decide) (by decide)
  intro time
  show Leads c conns after ((notifyEach
    ((notice (str "msg") time id).set (str "msg") (message.get (str "msg"))) none
    sessions).bind fun _ => sendMessage c (response (str "send_response") (str "200")
      (str "ok"))) .handle header sessions
    rosters
  refine leads_quiet h hc (onlySends_notifyEach _ _
    (k := fun _ => sendMessage c (response (str "send_response") (str "200")
    (str "ok"))) rfl sessions) (fun e he => ?_) (by decide) (by rintro ⟨⟩)
  rcases (mem_pending_notifyEach _).1 he with ⟨y, d, -, -, rfl⟩ | he
  · have htype : ((notice (str "msg") time id).set (str "msg") (message.get (str "msg"))).get (str "type") =
        str "msg" := by
      rw [ChatMessage.get_set_of_ne _ (by decide), notice_type]
    exact roster_eq_none htype (by decide) (by decide)
  · obtain rfl := List.mem_singleton.1 he
    exact roster_eq_none (response_type ..) (by decide) (by decide)

/-- **`handle` leads to a settled server.** -/
theorem leads_handle (h : Settled conns (OrdMap.find bytesLess · sessions) rosters)
    (hc : conns c = some ⟨header, .recvMessage⟩) (reader : Reader) (data : Bytes) :
    LeadsIn c conns (handle reader data c) .handle header sessions rosters := by
  rw [handle]
  cases ChatMessage.Creat reader data with
  | error e => trivial
  | ok message? =>
    cases message? with
    | none =>
      show Leads c conns _ (if (header.getHeader idKey).isEmpty = true then _ else _) _ _ _ _
      split
      · rename_i hempty
        exact ⟨by rintro ⟨⟩, fun _ => ⟨rfl, leads_onClose h hc (fun _ _ => rfl) fun _ => rfl⟩⟩
      · rename_i hempty
        refine ⟨by rintro ⟨⟩, fun _ => ⟨rfl, leads_onClose h hc (fun x hx => ?_) fun hnil => ?_⟩⟩
        · exact OrdMap.find_erase_of_ne bytesLess_keyed hx _
        · exact absurd (List.isEmpty_iff.2 hnil) hempty
    | some message =>
      show Leads c conns _ (if _ then _ else if _ then _ else _) _ _ _ _
      split
      · exact leads_handleLogin h hc message
      split
      · exact leads_handleSend h hc message _
      · exact leads_quiet (p := .ret 0) h hc rfl (List.forall_mem_nil _) (by decide) (by rintro ⟨⟩)

end

/-! ### Whole runs -/

/-- What holds in every state of a run: it is settled, or one connection is between two places where
its fiber may be left, and its call leads to a settled one. -/
def Going (w : Watched) : Prop :=
  Settled w.server.conn w.server.session w.rosters ∨
    ∃ conns c header m p, w.server.conn = Function.update conns c (some ⟨header, .call m p⟩) ∧
      (Phase.call m p).parked = false ∧ LeadsIn c conns p m header w.server.sessions w.rosters

section

variable {reader : Reader} {w : Watched} {s t : Server} {l : Label} {c : ConnId}
    {conns : ConnId → Option Conn}
  {header : HttpRequest} {m : Call} {p : Servlet Int} {rosters : ConnId → Bytes → Bool}

/-- The connections behind a change of one. -/
theorem conn_setConn (s : Server) (c : ConnId) (k : Conn) :
    (s.setConn c k).conn = Function.update s.conn c (some k) := by
  funext d
  by_cases hd : d = c
  · rw [hd, Function.update_self, Server.conn_setConn_self]
  · rw [Function.update_of_ne hd, Server.conn_setConn_of_ne s hd]

/-- A call that leads to a settled server is on its way, or there. -/
theorem LeadsIn.going (hconn : s.conn = Function.update conns c (some ⟨header, .call m p⟩))
    (h : LeadsIn c conns p m header s.sessions rosters) : Going ⟨s, rosters⟩ := by
  cases p with
  | send dst msg k =>
    left
    show Settled s.conn _ _
    rw [hconn]
    exact h
  | ret r =>
    by_cases hr : r = 0
    · left
      show Settled s.conn _ _
      rw [hconn]
      exact h.1 hr
    · exact .inr ⟨conns, c, header, m, .ret r, hconn, decide_eq_false hr, h⟩
  | _ => exact .inr ⟨conns, c, header, m, _, hconn, rfl, h⟩

/-- **A call returns**: the connection waits again, or has ended. -/
theorem Settled.returned {session : Bytes → Option ConnId} (h : Settled conns session rosters)
    (hc : conns c = some ⟨header, .call m (.ret 0)⟩)
    (hclose : m = .onClose → header.getHeader idKey = []) :
    Settled (Function.update conns c (some ⟨header, m.after c 0⟩)) session rosters := by
  have hpend : ∀ ph : Phase, ph.pending = [] → ∀ e x b, ChatMessage.roster e.2 = some (x, b) →
      (e ∈ ph.pending ↔ ∃ k, conns c = some k ∧ e ∈ k.phase.pending) := by
    intro ph hph e x b _
    rw [hph, hc]
    refine ⟨nofun, ?_⟩
    rintro ⟨k, hk, he⟩
    obtain rfl := Option.some.inj hk
    cases he
  cases m with
  | onConnect | handle =>
    refine h.put ⟨header, .recvMessage⟩ trivial (fun x _ => ?_) (hpend .recvMessage rfl)
    rw [hc]
    refine ⟨fun hcl => ⟨_, rfl, trivial, hcl.2⟩, ?_⟩
    rintro ⟨k, hk, hcl⟩
    obtain rfl := Option.some.inj hk
    exact ⟨trivial, hcl.2⟩
  | onClose =>
    refine h.put ⟨header, .closed⟩ trivial (fun x hx => ?_) (hpend .closed rfl)
    rw [hc]
    refine ⟨fun hcl => hcl.1.elim, ?_⟩
    rintro ⟨k, hk, hcl⟩
    obtain rfl := Option.some.inj hk
    exact absurd (hcl.2.symm.trans (hclose rfl)) hx
  | leaving =>
    refine h.put ⟨header, .closed⟩ trivial (fun x hx => ?_) (hpend .closed rfl)
    rw [hc]
    refine ⟨fun hcl => hcl.1.elim, ?_⟩
    rintro ⟨k, hk, hcl⟩
    obtain rfl := Option.some.inj hk
    exact hcl.1.elim

/-- The steps inside a call, for a call that is known. -/
theorem act_step {ok : Bool} {time : Bytes} {p' : Servlet Int} {header' : HttpRequest} {s' : Server}
    (hc : s.conn c = some ⟨header, .call m p⟩)
    (hstep : p.step s c header ok time = some (p', header', s'))
    (hn : s.act c ok time = some t) : t = s'.setConn c ⟨header', .call (m.next p) p'⟩ := by
  obtain ⟨header₁, m₁, p₁, hc₁, hcases⟩ := Server.act_cases hn
  cases hc.symm.trans hc₁
  rcases hcases with ⟨r, rfl, -⟩ | ⟨rfl, -⟩ | ⟨p₂, header₂, s₂, hstep₂, rfl⟩
  · cases hstep
  · cases hstep
  · cases hstep.symm.trans hstep₂
    rfl

/-- A call that has returned. -/
theorem act_ret {ok : Bool} {time : Bytes} {r : Int} (hc : s.conn c = some ⟨header, .call m (.ret r)⟩)
    (hn : s.act c ok time = some t) : t = s.setConn c ⟨header, m.after c r⟩ := by
  simp only [Server.act, hc] at hn
  exact (Option.some.inj hn).symm

/-- A call that throws ends the process. -/
theorem act_throw {ok : Bool} {time : Bytes} (hc : s.conn c = some ⟨header, .call m .throw⟩)
    (hn : s.act c ok time = some t) : t = { s with aborted := true } := by
  simp only [Server.act, hc] at hn
  exact (Option.some.inj hn).symm

/-- What a connection that may be left has before it: a send, or its end. -/
theorem Settled.going_act (h : Settled s.conn s.session rosters)
    (hc : s.conn c = some ⟨header, .call m p⟩) {time : Bytes}
    (hn : s.act c true time = some t) : Going ⟨t, Watched.note ⟨s, rosters⟩ (.act c true time)⟩ := by
  obtain ⟨honly, hclose, -⟩ := h.parks c _ hc
  left
  cases p with
  | ret r =>
    obtain rfl : r = 0 := honly
    obtain rfl := act_ret hc hn
    have hnote : Watched.note ⟨s, rosters⟩ (.act c true time) = rosters := by
      simp only [Watched.note, hc]
    show Settled (s.setConn c _).conn s.session _
    rw [hnote, conn_setConn]
    exact h.returned hc hclose
  | send dst msg next =>
    obtain rfl := act_step hc rfl hn
    have hnote : Watched.note ⟨s, rosters⟩ (.act c true time) =
        Function.update rosters dst (heard msg (rosters dst)) := by
      simp only [Watched.note, hc]
    show Settled ((s.emit _).setConn c _).conn s.session _
    rw [hnote, conn_setConn]
    exact h.send hc
  | _ => exact honly.elim

/-- **A step between two places where the fiber may be left.** -/
theorem LeadsIn.going_act (hconn : s.conn = Function.update conns c (some ⟨header, .call m p⟩))
    (hpark : (Phase.call m p).parked = false) (h : LeadsIn c conns p m header s.sessions rosters)
    {ok : Bool} {time : Bytes}
    (hcalm : Calm s (.act c ok time)) (hn : s.act c ok time = some t) :
    Going ⟨t, Watched.note ⟨s, rosters⟩ (.act c ok time)⟩ := by
  have hc : s.conn c = some ⟨header, .call m p⟩ := by rw [hconn, Function.update_self]
  have hput : ∀ (s' : Server) k, s'.conn = s.conn →
      (s'.setConn c k).conn = Function.update conns c (some k) := by
    intro s' k hs'
    rw [conn_setConn, hs', hconn, Function.update_idem]
  have hquiet : (∀ n k, p ≠ .sessionAdd n k) → (∀ dst msg k, p ≠ .send dst msg k) →
      Watched.note ⟨s, rosters⟩ (.act c ok time) = rosters := by
    intro hadd hsend
    simp only [Watched.note, hc]
    cases p with
    | sessionAdd n k => exact absurd rfl (hadd n k)
    | send dst msg k => exact absurd rfl (hsend dst msg k)
    | _ => rfl
  cases p with
  | ret r =>
    rw [hquiet nofun nofun]
    have hr : r ≠ 0 := of_decide_eq_false hpark
    obtain rfl := act_ret hc hn
    obtain ⟨rfl, hafter⟩ := h.2 hr
    have hphase : Call.after c .handle r = .call .onClose (onClose c) := if_neg hr
    rw [hphase]
    exact LeadsIn.going (hput s _ rfl) (Leads.mono (fun _ _ _ hfalse => hfalse.elim) hafter)
  | throw =>
    rw [hquiet nofun nofun]
    obtain rfl := act_throw hc hn
    exact .inr ⟨conns, c, header, m, .throw, hconn, rfl, trivial⟩
  | send dst msg k => cases hpark
  | sessionAdd n k =>
    obtain rfl := act_step hc rfl hn
    have hnote : Watched.note ⟨s, rosters⟩ (.act c ok time) =
        Function.update rosters c fun x => (s.session x).isSome && decide (x ≠ n) := by
      simp only [Watched.note, hc]
    rw [hnote]
    refine LeadsIn.going (hput _ _ rfl) (h fun d k' hd hk' => ?_)
    have hk : s.conn d = some k' := by rw [hconn, Function.update_of_ne hd, hk']
    obtain ⟨d', hmem, rfl⟩ := OrdMap.exists_mem_of_find connLess_keyed hk
    exact hcalm _ hc n rfl (d, k') hmem hd
  | getHeader key k =>
    rw [hquiet nofun nofun, act_step hc rfl hn]
    exact LeadsIn.going (hput s _ rfl) h
  | setHeader key val k =>
    rw [hquiet nofun nofun, act_step hc rfl hn]
    exact LeadsIn.going (hput s _ rfl) h
  | sessionExists id k =>
    rw [hquiet nofun nofun, act_step hc rfl hn]
    exact LeadsIn.going (hput s _ rfl) h
  | sessionDel id k =>
    rw [hquiet nofun nofun, act_step hc rfl hn]
    exact LeadsIn.going (hput _ _ rfl) h
  | sessionCopy msg k =>
    rw [hquiet nofun nofun, act_step hc rfl hn]
    exact LeadsIn.going (hput _ _ rfl) h
  | time2Str k =>
    rw [hquiet nofun nofun, act_step hc rfl hn]
    exact LeadsIn.going (hput s _ rfl) (h time)

/-- **What a step keeps.** -/
theorem Going.next (h : Going w) (hsingle : Single w.server l) (hcalm : Calm w.server l)
    (hn : Server.next reader w.server l = some t) : Going ⟨t, w.note l⟩ := by
  obtain ⟨s, rosters⟩ := w
  obtain ⟨hid, hsends, hparked⟩ := hsingle
  rcases h with h | ⟨conns, c, header, m, p, hconn, hpark, hleads⟩
  · rcases Server.next_cases hn with ⟨c, header, rfl, hc, -, rfl⟩ | ⟨c, data, header, rfl, hc, rfl⟩ |
      ⟨c, header, rfl, hc, rfl⟩ | ⟨c, ok, time, rfl, hact⟩
    · left
      show Settled (s.setConn c _).conn s.session rosters
      rw [conn_setConn]
      refine h.put _ ⟨rfl, nofun, nofun⟩ (fun x hx => ?_) fun e x b _ => ?_
      · rw [hc]
        exact ⟨fun hcl => absurd (hcl.2.symm.trans hid) hx, fun ⟨_, hk, _⟩ => nomatch hk⟩
      · rw [hc]
        exact ⟨nofun, fun ⟨_, hk, _⟩ => nomatch hk⟩
    · exact LeadsIn.going (conn_setConn s c _) (leads_handle h hc reader data)
    · exact LeadsIn.going (conn_setConn s c _)
        (Leads.mono (fun _ _ _ hfalse => hfalse.elim)
          (leads_onClose h hc (fun _ _ => rfl) fun _ => rfl))
    · obtain rfl : ok = true := hsends
      obtain ⟨header, m, p, hc, -⟩ := Server.act_cases hact
      exact h.going_act hc hact
  · -- the connection that is on its way is the one that moves
    have hc : s.conn c = some ⟨header, .call m p⟩ := by rw [hconn, Function.update_self]
    have hl : c = l.conn := by
      by_contra hne
      obtain ⟨d', hmem, rfl⟩ := OrdMap.exists_mem_of_find connLess_keyed hc
      cases hpark.symm.trans (hparked _ hmem hne)
    rcases Server.next_cases hn with ⟨c', header', rfl, hc', -, rfl⟩ |
      ⟨c', data, header', rfl, hc', rfl⟩ |
      ⟨c', header', rfl, hc', rfl⟩ | ⟨c', ok, time, rfl, hact⟩
    · obtain rfl : c = c' := hl
      cases hc.symm.trans hc'
    · obtain rfl : c = c' := hl
      cases hc.symm.trans hc'
    · obtain rfl : c = c' := hl
      cases hc.symm.trans hc'
    · obtain rfl : c = c' := hl
      exact LeadsIn.going_act hconn hpark hleads hcalm hact

/-- Rosters are right when nothing is left to send. -/
theorem Going.rostersRight (h : Going w) : w.RostersRight := by
  intro hquiet c k n hc hcl hn
  rcases h with h | ⟨conns, c', header, m, p, hconn, -, -⟩
  · have hentry : w.server.session n = some c := (h.entry n c).2 ⟨hn, k, hc, hcl⟩
    intro x
    by_cases hx : x = n
    · rw [hx, h.own n c hentry]
      simp
    · rcases h.right n c hentry x hx with hright | ⟨d, kd, e, b, hkd, he, -, -⟩
      · rw [hright]
        exact ⟨fun hsome => ⟨hsome, hx⟩, fun hsome => hsome.1⟩
      · cases hph : kd.phase with
        | call m p => exact absurd hph (hquiet d kd hkd m p)
        | recvMessage | closed =>
          rw [hph] at he
          cases he
  · exact absurd rfl (hquiet c' ⟨header, .call m p⟩ (by rw [hconn, Function.update_self]) m p)

end

/-- **Rosters are right.**  On one thread, with sends that succeed and without a `$id` header in a
handshake, in every run in which nobody logs in under a name while the `user_leave` of that name is
still being sent, what a client that is logged in has heard is what `m_sessions` holds, whenever no
call is in progress. -/
theorem rosters_right {reader : Reader} {ls : List Label} {w : Watched}
    (h : (watched reader).Run (fun w l => Single w.server l ∧ Calm w.server l) ls w) :
    w.RostersRight := by
  refine Going.rostersRight (h.invariant (I := fun _ w => Going w) ?_ fun _ w l t hgoing hok hn => ?_)
  · exact .inl (settled_init _)
  · obtain ⟨s, hs, rfl⟩ := Option.map_eq_some_iff.1 hn
    exact hgoing.next hok.1 hok.2 hs

/-- Whether no second connection is in a call can be computed. -/
instance (s : Server) (l : Label) : Decidable (Single s l) :=
  inferInstanceAs (Decidable (NoIdHeader s l ∧ l.sends = true ∧ ∀ e ∈ s.conns, e.1 ≠ l.conn →
    e.2.phase.parked = true))

/-- Whether a login comes while nobody leaves can be computed. -/
instance (s : Server) : (l : Label) → Decidable (Calm s l)
  | .act c _ _ => inferInstanceAs
      (Decidable (∀ k ∈ s.conn c, ∀ n ∈ k.phase.adding, ∀ e ∈ s.conns, e.1 ≠ c →
      e.2.leaves n = false))
  | .accept _ _ => .isTrue trivial
  | .frame _ _ => .isTrue trivial
  | .eof _ => .isTrue trivial

/-- The text of a login request for `amy`. -/
def amyText : Bytes := str "\x7b\"type\":\"login_request\",\"name\":\"amy\"\x7d"

/-- A reader that knows it, and those of `sampleReader`. -/
def amyReader : Reader := fun v =>
  if v = amyText then
    some (.object [(str "name", .string (str "amy")), (str "type", .string (str "login_request"))])
  else sampleReader v

/-- The client 1 logs in as `amy` and the client 2 as `bob`; the client 3 has only connected. -/
def amyAndBob : List Label :=
  [.accept 1 (handshake []), .accept 2 (handshake []), .accept 3 (handshake [])] ++
    acts 1 1 ++ acts 2 1 ++ acts 3 1 ++
    .frame 1 amyText :: acts 1 8 ++ .frame 2 loginText :: acts 2 9

/-- Then the client 2 leaves, and after that the client 3 logs in as `bob`. -/
def leftFirst : List Label := amyAndBob ++ .eof 2 :: acts 2 6 ++ .frame 3 loginText :: acts 3 9

/-- Or the client 3 logs in as `bob` before the client 2 has sent its `user_leave`. -/
def joinedFirst : List Label :=
  amyAndBob ++ .eof 2 :: acts 2 4 ++ .frame 3 loginText :: acts 3 9 ++ acts 2 2

/-- What the server and `amy` know: whether a call is in progress, the name of the client 1, the
holder of `bob`, and whether `bob` is in the roster of the client 1. -/
def Watched.view (w : Watched) : Bool × Option Bytes × Option ConnId × Bool :=
  (w.server.conns.all fun e => match e.2.phase with
      | .call _ _ => false
      | _ => true,
    (w.server.conn 1).bind fun k => match k.phase with
      | .recvMessage => some (k.header.getHeader idKey)
      | _ => none,
    w.server.session (str "bob"), w.rosters 1 (str "bob"))

set_option maxRecDepth 4000 in
/-- In the first run `amy` knows the second `bob`. -/
theorem rosters_right_leftFirst :
    ∃ w, (watched amyReader).Run (fun w l => Single w.server l ∧ Calm w.server l) leftFirst w ∧
    w.view = (true, some (str "amy"), some 3, true) ∧ w.RostersRight := by
  obtain ⟨w, hw, hview⟩ := Option.map_eq_some_iff.1 (show ((watched amyReader).exec
    (fun w l => decide (Single w.server l ∧ Calm w.server l))
    (watched amyReader).init leftFirst).map Watched.view =
      some (true, some (str "amy"), some 3, true) by decide +kernel)
  have hrun : (watched amyReader).Run (fun w l => Single w.server l ∧ Calm w.server l) leftFirst w :=
    System.run_of_exec (fun _ _ h => of_decide_eq_true h) hw
  exact ⟨w, hrun, hview, rosters_right hrun⟩

set_option maxRecDepth 4000 in
/-- **A client is told of a login and then of the leaving before it.**  `bob` is in the table, and
`amy` has heard last that he left. -/
theorem roster_out_of_order :
    ∃ w, (watched amyReader).Run (fun w l => Single w.server l) joinedFirst w ∧
    w.view = (true, some (str "amy"), some 3, false) ∧ ¬ w.RostersRight := by
  obtain ⟨w, hw, hview⟩ := Option.map_eq_some_iff.1 (show ((watched amyReader).exec
    (fun w l => decide (Single w.server l)) (watched amyReader).init joinedFirst).map Watched.view =
      some (true, some (str "amy"), some 3, false) by decide)
  refine ⟨w, System.run_of_exec (fun _ _ h => of_decide_eq_true h) hw, hview, fun hright => ?_⟩
  have hcalls := congrArg (fun v => v.1) hview
  have hamy := congrArg (fun v => v.2.1) hview
  have hbob : w.server.session (str "bob") = some 3 := congrArg (fun v => v.2.2.1) hview
  have hroster : w.rosters 1 (str "bob") = false := congrArg (fun v => v.2.2.2) hview
  have hquiet : w.server.Quiet := by
    intro c k hk m p hph
    obtain ⟨c', hmem, -⟩ := OrdMap.exists_mem_of_find connLess_keyed hk
    have hall := List.all_eq_true.1 hcalls _ hmem
    simp only [hph] at hall
    cases hall
  obtain ⟨k, hk, hname⟩ := Option.bind_eq_some_iff.1 hamy
  have hclaims : k.Claims (str "amy") := by
    split at hname
    · rename_i hph
      exact ⟨by rw [hph]; trivial, Option.some.inj hname⟩
    · cases hname
  have htrue := (hright hquiet 1 k (str "amy") hk hclaims (by decide) (str "bob")).2
    ⟨by rw [hbob]; rfl, by decide⟩
  cases hroster.symm.trans htrue

end Chat
end Wuchat
