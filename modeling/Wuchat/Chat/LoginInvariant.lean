/-
# Every connection keeps in step with its login

`Local` ties the stage of every connection to its header, its phase and the
history of the server.  A client that sends a `$id` header with its handshake is
logged in before it has sent a frame, so the invariant is about runs in which no
accepted handshake carries one (`NoIdHeader`).  `handleShake` accepts a handshake only when the value of
`Connection` is cut between two reads, so that the last part of it is the value the server finds; one that comes in one
read is refused (`handleShake_refuses`).  Every step of such a run keeps it
(`local_step`), whatever the interleaving: the table is not mentioned, and the
invariant holds in runs where two logins race.  What a step does to the table is
`TableStep`.
-/

import Mathlib.Logic.Function.Basic
import Wuchat.Chat.Login

namespace Wuchat
namespace Chat

open Foundation Http Servlet

variable {c : ConnId} {cur : Option ChatMessage} {m : Call} {st : Stage}

/-! ### The invariant of a connection -/

/-- A phase goes with a stage. -/
def PhaseOk (c : ConnId) (cur : Option ChatMessage) (st : Stage) : Phase → Prop
  | .recvMessage => st.Waits
  | .call m p => st.Admits m ∧ Follows c cur m st p
  | .closed => st = .out ∨ ∃ n told, st = .gone n told

/-- The connection `c`, its record in the history and the stage of its login
agree. -/
structure LocalAt (c : ConnId) (k? : Option Conn) (r : Record) (st : Stage) : Prop where
  absent : k? = none → st = .out
  header : ∀ k, k? = some k → k.header.getHeader idKey = st.id
  phase : ∀ k, k? = some k → PhaseOk c r.message st k.phase
  login : r.login = st.login
  silent : r.login.isSome → r.message = none → r.broken = true
  dropped : ∀ n, st = .dropped n → r.broken = true
  named : st = .out ∨ st.id ≠ []

/-- Every connection agrees with its stage. -/
def Local (reader : Reader) (s : Server) (stage : ConnId → Stage) : Prop :=
  ∀ c, LocalAt c (s.conn c) (record reader c s.log) (stage c)

/-- What an event may be, given the history before it: a broadcast speaks for a
login its sender was told of, and `200` is the answer to a login request of a
connection that has none. -/
def Sound (reader : Reader) (log : List Event) : Event → Prop
  | .notify c msg =>
    (msg.get (str "type") = str "msg" →
      (record reader c log).login = some (msg.get (str "name"), true)) ∧
    (msg.get (str "type") = str "user_leave" →
      ∃ told, (record reader c log).login = some (msg.get (str "name"), told))
  | .send _ dst msg _ => IsLoginOk msg → (record reader dst log).login = none ∧
      ∃ m, (record reader dst log).message = some m ∧ m.get (str "type") = str "login_request"
  | _ => True

/-- The connection stands in the table under `n`, as far as its own steps say. -/
def Stage.Holds (st : Stage) (n : Bytes) : Prop := st = .joined n ∨ ∃ told, st = .member n told

/-- What a step does to the table and to the stages. -/
inductive TableStep (s t : Server) (stage stage' : ConnId → Stage) (l : Label) : Prop
  | same (hs : t.sessions = s.sessions) (hin : ∀ d n, (stage' d).Holds n ↔ (stage d).Holds n)
      (hdrop : ∀ d n, stage' d = .dropped n → stage d = .dropped n)
  | add (c : ConnId) (n : Bytes) (ok : Bool) (time : Bytes) (header : HttpRequest) (k : Servlet Int)
      (hl : l = .act c ok time) (hc : s.conn c = some ⟨header, .call .handle (.sessionAdd n k)⟩)
      (hst : stage c = .adding n) (hst' : stage' c = .joined n)
      (hne : ∀ d, d ≠ c → stage' d = stage d)
      (hs : t.sessions = OrdMap.set bytesLess n c s.sessions)
  | del (c : ConnId) (n : Bytes) (ok : Bool) (time : Bytes) (hl : l = .act c ok time)
      (hst : (∃ told, stage c = .member n told) ∨ stage c = .dropped n)
      (hst' : stage' c = .dropped n ∨ ∃ told, stage' c = .gone n told)
      (hne : ∀ d, d ≠ c → stage' d = stage d)
      (hs : t.sessions = OrdMap.erase bytesLess n s.sessions)

/-- No accepted handshake brings a `$id` header of its own. -/
def NoIdHeader (_ : Server) : Label → Prop
  | .accept _ header => header.getHeader idKey = []
  | _ => True

/-- Whether a step brings an `$ID` header can be computed. -/
instance (s : Server) (l : Label) : Decidable (NoIdHeader s l) :=
  match l with
  | .accept _ header => inferInstanceAs (Decidable (header.getHeader idKey = []))
  | .frame _ _ => .isTrue trivial
  | .eof _ => .isTrue trivial
  | .act _ _ _ => .isTrue trivial

/-- What a step of the server keeps. -/
structure StepOk (reader : Reader) (s t : Server) (stage stage' : ConnId → Stage) (l : Label) :
    Prop where
  all : Local reader t stage'
  log : t.log = s.log ∨ ∃ e, t.log = s.log ++ [e] ∧ Sound reader s.log e
  table : TableStep s t stage stage' l

/-! ### Every step keeps the invariant -/

section Step

variable {reader : Reader} {s t : Server} {stage stage' : ConnId → Stage} {l : Label}

/-- An event that is neither a frame of `d` nor the answer to its login leaves its
record. -/
theorem Record.step_eq_self {d : ConnId} (r : Record) {e : Event}
    (hframe : ∀ data, e ≠ .frame d data) (hsend : ∀ src msg ok, e = .send src d msg ok → ¬IsLoginOk msg) :
    r.step reader d e = r := by
  cases e with
  | frame c data =>
    refine if_neg fun h => ?_
    exact hframe data (by rw [h])
  | send src dst msg ok =>
    refine if_neg fun h => ?_
    exact hsend src msg ok (by rw [h.1]) h.2
  | accept c => rfl
  | eof c => rfl
  | notify c msg => rfl

/-- A login moves on without the table. -/
theorem TableStep.update {st' : Stage} (hs : t.sessions = s.sessions)
    (hin : ∀ n, st'.Holds n ↔ (stage c).Holds n) (hdrop : ∀ n, st' ≠ .dropped n) :
    TableStep s t stage (Function.update stage c st') l := by
  refine .same hs (fun d n => ?_) (fun d n hd' => ?_)
  · rcases eq_or_ne d c with rfl | hd
    · rw [Function.update_self, hin]
    · rw [Function.update_of_ne hd]
  · rcases eq_or_ne d c with rfl | hd
    · rw [Function.update_self] at hd'
      exact absurd hd' (hdrop n)
    · rwa [Function.update_of_ne hd] at hd'

/-- A step of one connection leaves the others as they were. -/
theorem Local.put (h : Local reader s stage) (hconn : ∀ d, d ≠ c → t.conn d = s.conn d)
    (hlog : ∀ d, d ≠ c → record reader d t.log = record reader d s.log)
    (hstage : ∀ d, d ≠ c → stage' d = stage d)
    (hc : LocalAt c (t.conn c) (record reader c t.log) (stage' c)) : Local reader t stage' := by
  intro d
  rcases eq_or_ne d c with rfl | hd
  · exact hc
  · rw [hconn d hd, hlog d hd, hstage d hd]
    exact h d

/-- The connection `c` moves to the phase `ph` and nothing else changes. -/
theorem LocalAt.move {k : Conn} {r : Record} {header : HttpRequest} {ph : Phase}
    (h : LocalAt c (some k) r st) (hheader : header.getHeader idKey = st.id)
    (hph : PhaseOk c r.message st ph) : LocalAt c (some ⟨header, ph⟩) r st where
  absent := nofun
  header := by rintro _ ⟨⟩; exact hheader
  phase := by rintro _ ⟨⟩; exact hph
  login := h.login
  silent := h.silent
  dropped := h.dropped
  named := h.named

/-- A step that changes only the phase of one connection. -/
theorem stepOk_move {k : Conn} {header : HttpRequest} {ph : Phase} (h : Local reader s stage)
    (hk : s.conn c = some k) (hheader : header.getHeader idKey = k.header.getHeader idKey)
    (hph : PhaseOk c (record reader c s.log).message (stage c) ph) :
    StepOk reader s (s.setConn c ⟨header, ph⟩) stage stage l := by
  have hc := h c
  rw [hk] at hc
  refine ⟨h.put (fun d hd => s.conn_setConn_of_ne hd _) (fun _ _ => rfl) (fun _ _ => rfl) ?_,
    Or.inl rfl, .same rfl (fun _ _ => Iff.rfl) (fun _ _ => id)⟩
  rw [Server.conn_setConn_self, Server.log_setConn]
  exact hc.move (hheader.trans (hc.header k rfl)) hph

/-- The stages after a call that returned. -/
theorem phaseOk_after {r : Int} (hnamed : st = .out ∨ st.id ≠ []) (h : st.Returns m r) :
    PhaseOk c cur st (m.after c r) := by
  cases m with
  | onConnect =>
    obtain rfl : st = .out := h
    rw [Call.after]
    split
    · exact Or.inl rfl
    · exact Or.inl rfl
  | handle =>
    rw [Call.after]
    split
    · rename_i hr
      rcases h with rfl | ⟨n, rfl⟩ | ⟨hr', -⟩
      · exact Or.inl rfl
      · exact Or.inr ⟨n, hnamed.resolve_left nofun, rfl⟩
      · exact absurd hr hr'
    · rcases h with rfl | ⟨n, rfl⟩ | ⟨-, n, rfl | rfl⟩
      · exact ⟨trivial, follows_onClose (Or.inl rfl)⟩
      · exact ⟨Or.inr rfl, follows_onClose (Or.inr ⟨n, hnamed.resolve_left nofun, Or.inl ⟨_, rfl⟩⟩)⟩
      · exact ⟨Or.inr rfl, follows_onClose (Or.inr ⟨n, hnamed.resolve_left nofun, Or.inl ⟨_, rfl⟩⟩)⟩
      · exact ⟨Or.inr rfl, follows_onClose (Or.inr ⟨n, hnamed.resolve_left nofun, Or.inr rfl⟩)⟩
  | onClose =>
    obtain rfl : st = .out := h
    exact Or.inl rfl
  | leaving => exact h

/-- A step of a call of `c` that appends to the history an event no record looks at. -/
theorem stepOk_emit {header : HttpRequest} {p : Servlet Int} {k : Conn} {e : Event}
    (h : Local reader s stage) (hk : s.conn c = some k)
    (hheader : header.getHeader idKey = k.header.getHeader idKey)
    (hframe : ∀ d data, e ≠ .frame d data)
    (hsend : ∀ d src msg ok, e = .send src d msg ok → ¬IsLoginOk msg)
    (he : Sound reader s.log e) (hm : (stage c).Admits m)
    (hp : Follows c (record reader c s.log).message m (stage c) p) :
    StepOk reader s ((s.emit e).setConn c ⟨header, .call m p⟩) stage stage l := by
  have hrec : ∀ d, record reader d (s.log ++ [e]) = record reader d s.log := fun d => by
    rw [record_append]
    exact Record.step_eq_self _ (hframe d) (hsend d)
  have hmove : Local reader (s.emit e) stage := fun d => by
    rw [Server.conn_emit, Server.log_emit, hrec d]
    exact h d
  have hph : PhaseOk c (record reader c (s.emit e).log).message (stage c) (.call m p) :=
    ⟨hm, by rwa [Server.log_emit, hrec c]⟩
  have hstep := stepOk_move (s := s.emit e) (l := l) hmove hk hheader hph
  exact ⟨hstep.all, Or.inr ⟨e, rfl, he⟩, .same rfl (fun _ _ => Iff.rfl) (fun _ _ => id)⟩

/-- A step of a call of `c` that moves its login on and leaves the history. -/
theorem stepOk_stage {header : HttpRequest} {p : Servlet Int} {st' : Stage}
    (h : Local reader s stage) (ht : ∀ d, d ≠ c → t.conn d = s.conn d) (hlog : t.log = s.log)
    (htc : t.conn c = some ⟨header, .call m p⟩)
    (hheader : header.getHeader idKey = st'.id) (hm : st'.Admits m)
    (hp : Follows c (record reader c s.log).message m st' p) (hlogin : st'.login = (stage c).login)
    (hdrop : ∀ n, st' = .dropped n → (record reader c s.log).broken = true) (hnamed : st'.id ≠ [])
    (htable : TableStep s t stage (Function.update stage c st') l) :
    StepOk reader s t stage (Function.update stage c st') l := by
  refine ⟨h.put ht (fun d _ => by rw [hlog]) (fun d hd => Function.update_of_ne hd _ _) ?_,
    Or.inl hlog, htable⟩
  rw [htc, hlog, Function.update_self]
  exact {
    absent := nofun
    header := by rintro _ ⟨⟩; exact hheader
    phase := by rintro _ ⟨⟩; exact ⟨hm, hp⟩
    login := (h c).login.trans hlogin.symm
    silent := (h c).silent
    dropped := hdrop
    named := Or.inr hnamed }

/-- The `200` response moves a login to `member`. -/
theorem stepOk_loginOk {header : HttpRequest} {k : Servlet Int} {n : Bytes} {ok : Bool}
    {msg message : ChatMessage} (h : Local reader s stage) (hheader : header.getHeader idKey = n) (hn : n ≠ [])
    (hst : stage c = .joined n)
    (hmsg : IsLoginOk msg) (hcur : (record reader c s.log).message = some message)
    (htype : message.get (str "type") = str "login_request") (hname : message.get (str "name") = n)
    (hp : Follows c (some message) .handle (.member n ok) k) :
    StepOk reader s ((s.emit (.send c c msg ok)).setConn c ⟨header, .call .handle k⟩) stage
      (Function.update stage c (.member n ok)) l := by
  have hlogin : (record reader c s.log).login = none := by rw [(h c).login, hst]; rfl
  have hrec : record reader c (s.log ++ [.send c c msg ok]) = ⟨some message, some (n, ok), false⟩ := by
    rw [record_append, Record.step, if_pos ⟨rfl, hmsg⟩, hcur, Option.getD_some, hname]
  refine ⟨h.put (c := c) (fun d hd => ?_) (fun d hd => ?_)
    (fun d hd => Function.update_of_ne hd _ _) ?_, Or.inr ⟨_, rfl, fun _ => ?_⟩, .update rfl ?_ nofun⟩
  · rw [Server.conn_setConn_of_ne _ hd, Server.conn_emit]
  · rw [Server.log_setConn, Server.log_emit, record_append]
    refine Record.step_eq_self _ nofun ?_
    rintro src msg' ok' ⟨⟩
    exact absurd rfl hd
  · rw [Server.conn_setConn_self, Server.log_setConn, Server.log_emit, hrec, Function.update_self]
    exact {
      absent := nofun
      header := by rintro _ ⟨⟩; exact hheader
      phase := by rintro _ ⟨⟩; exact ⟨Or.inl rfl, hp⟩
      login := rfl
      silent := nofun
      dropped := nofun
      named := Or.inr hn }
  · exact ⟨hlogin, message, hcur, htype⟩
  · intro n'
    simp [Stage.Holds, hst]

/-- **A step of a servlet call keeps the invariant.** -/
theorem stepOk_act {ok : Bool} {time : Bytes} (h : Local reader s stage)
    (hn : s.act c ok time = some t) : ∃ stage', StepOk reader s t stage stage' (.act c ok time) := by
  obtain ⟨header, m, p, hk, ⟨r, rfl, rfl⟩ | ⟨rfl, rfl⟩ | ⟨p', header', s', hs, rfl⟩⟩ :=
    Server.act_cases hn
  all_goals
    have hc := h c
    rw [hk] at hc
    obtain ⟨hm, hp⟩ := hc.phase _ rfl
    have hheader : header.getHeader idKey = (stage c).id := hc.header _ rfl
  · exact ⟨stage, stepOk_move h hk rfl (phaseOk_after hc.named hp)⟩
  · exact ⟨stage, h, Or.inl rfl, .same rfl (fun _ _ => Iff.rfl) (fun _ _ => id)⟩
  have hput : ∀ d, d ≠ c → ∀ (s' : Server) (k : Conn), (s'.setConn c k).conn d = s'.conn d :=
    fun d hd s' k => s'.conn_setConn_of_ne hd k
  cases p with
  | ret r => cases hs
  | throw => cases hs
  | getHeader key k =>
    obtain ⟨rfl, hk'⟩ := hp
    cases hs
    rw [hheader]
    exact ⟨stage, stepOk_move h hk rfl ⟨hm, hk'⟩⟩
  | setHeader key n k =>
    obtain ⟨rfl, rfl, hst, hne, hk'⟩ := hp
    cases hs
    refine ⟨Function.update stage c (.adding n), stepOk_stage h (fun d hd => hput d hd _ _) rfl
      (s.conn_setConn_self c _) (header.getHeader_setHeader_self n rfl) rfl hk' (by rw [hst]; rfl)
      (by rintro _ ⟨⟩) hne (.update rfl ?_ (by rintro _ ⟨⟩))⟩
    intro n'
    simp [Stage.Holds, hst]
  | sessionExists id k =>
    cases hs
    exact ⟨stage, stepOk_move h hk rfl ⟨hm, hp _⟩⟩
  | sessionAdd n k =>
    obtain ⟨rfl, hst, hk'⟩ := hp
    cases hs
    have hne : n ≠ [] := by simpa [hst, Stage.id] using hc.named
    refine ⟨Function.update stage c (.joined n), stepOk_stage h (fun d hd => hput d hd _ _) rfl
      (Server.conn_setConn_self _ c _) (by rw [hheader, hst]; rfl) rfl hk' (by rw [hst]; rfl)
      (by rintro _ ⟨⟩) hne
      (.add c n ok time _ _ rfl hk hst (Function.update_self _ _ _)
        (fun d hd => Function.update_of_ne hd _ _) rfl)⟩
  | sessionDel n k =>
    obtain ⟨st', hdel, hbroken, hk'⟩ := hp
    cases hs
    obtain ⟨hst, hid, hlogin, hst', hm', hdrop⟩ := hdel.spec
    have hne : n ≠ [] := by
      rcases hst with ⟨told, hst⟩ | hst <;> simpa [hst, Stage.id] using hc.named
    refine ⟨Function.update stage c st', stepOk_stage h (fun d hd => hput d hd _ _) rfl
      (Server.conn_setConn_self _ c _) (by rw [hheader, hid.1, hid.2]) hm' hk' hlogin ?_
      (by rwa [hid.2]) (.del c n ok time rfl hst (by rwa [Function.update_self])
        (fun d hd => Function.update_of_ne hd _ _) rfl)⟩
    intro n' hn'
    obtain ⟨hm, hlogin'⟩ := hdrop n' hn'
    exact hc.silent (by rw [hc.login, hlogin']; rfl) (hbroken hm)
  | sessionCopy msg k =>
    obtain ⟨hann, hk'⟩ := hp
    cases hs
    refine ⟨stage, stepOk_emit h hk rfl (by rintro _ _ ⟨⟩) (by rintro _ _ _ _ ⟨⟩) ?_ hm
      (hk' _)⟩
    have hlogin : (record reader c s.log).login = (stage c).login := hc.login
    exact ⟨fun htype => hlogin.trans (hann.1 htype), fun htype => by rw [hlogin]; exact hann.2 htype⟩
  | time2Str k =>
    cases hs
    exact ⟨stage, stepOk_move h hk rfl ⟨hm, hp _⟩⟩
  | send dst msg k =>
    cases hs
    rcases Classical.em (IsLoginOk msg) with hmsg | hmsg
    · obtain ⟨rfl, n, message, hst, rfl, hcur, htype, hname, hk'⟩ := hp.1 hmsg
      have hne : n ≠ [] := by simpa [hst, Stage.id] using hc.named
      refine ⟨_, stepOk_loginOk h (by rw [hheader, hst]; rfl) hne hst hmsg hcur htype hname ?_⟩
      rw [← hcur]
      exact hk' ok
    · refine ⟨stage, stepOk_emit h hk rfl (by rintro _ _ ⟨⟩) ?_ (fun hc' => absurd hc' hmsg)
        hm (hp.2 hmsg ok)⟩
      rintro d src msg' ok' ⟨⟩
      exact hmsg

/-- An accepted handshake without a `$id` header. -/
theorem stepOk_accept {header : HttpRequest} (h : Local reader s stage) (hnone : s.conn c = none)
    (hid : header.getHeader idKey = []) :
    StepOk reader s ((s.setConn c ⟨header, .call .onConnect onConnect⟩).emit (.accept c)) stage stage
      l := by
  have hc := h c
  rw [hnone] at hc
  have hout : stage c = .out := hc.absent rfl
  refine ⟨h.put (c := c) (fun d hd => ?_) (fun d _ => record_append reader d s.log _)
    (fun _ _ => rfl) ?_, Or.inr ⟨_, rfl, trivial⟩, .same rfl (fun _ _ => Iff.rfl) (fun _ _ => id)⟩
  · rw [Server.conn_emit, Server.conn_setConn_of_ne _ hd]
  rw [Server.conn_emit, Server.conn_setConn_self, Server.log_emit, Server.log_setConn, record_append]
  exact {
    absent := nofun
    header := by rintro _ ⟨⟩; rw [hout]; exact hid
    phase := by rintro _ ⟨⟩; rw [hout]; exact ⟨trivial, rfl⟩
    login := hc.login
    silent := hc.silent
    dropped := hc.dropped
    named := Or.inl hout }

/-- The arrival of a frame. -/
theorem stepOk_frame {header : HttpRequest} {data : Bytes} (h : Local reader s stage)
    (hk : s.conn c = some ⟨header, .recvMessage⟩) :
    StepOk reader s
      ((s.setConn c ⟨header, .call .handle (handle reader data c)⟩).emit (.frame c data)) stage stage
      l := by
  have hc := h c
  rw [hk] at hc
  have hwaits : (stage c).Waits := hc.phase _ rfl
  have hrec : record reader c (s.log ++ [.frame c data]) =
      { record reader c s.log with
        message := frameMessage reader data
        broken := (record reader c s.log).broken || (frameMessage reader data).isNone } := by
    rw [record_append]
    exact if_pos rfl
  refine ⟨h.put (c := c) (fun d hd => ?_) (fun d hd => ?_) (fun _ _ => rfl) ?_,
    Or.inr ⟨_, rfl, trivial⟩, .same rfl (fun _ _ => Iff.rfl) (fun _ _ => id)⟩
  · rw [Server.conn_emit, Server.conn_setConn_of_ne _ hd]
  · rw [Server.log_emit, Server.log_setConn, record_append]
    exact if_neg (Ne.symm hd)
  rw [Server.conn_emit, Server.conn_setConn_self, Server.log_emit, Server.log_setConn, hrec]
  exact {
    absent := nofun
    header := by rintro _ ⟨⟩; exact hc.header ⟨header, .recvMessage⟩ rfl
    phase := by
      rintro _ ⟨⟩
      exact ⟨hwaits.admits (Or.inl rfl), follows_handle reader data hwaits⟩
    login := hc.login
    silent := by
      intro _ hnone
      rw [show frameMessage reader data = none from hnone]
      exact Bool.or_true _
    dropped := by
      intro n hn
      rw [hn] at hwaits
      rcases hwaits with hout | ⟨n', -, hn'⟩
      · cases hout
      · cases hn'
    named := hc.named }

/-- The end of a stream. -/
theorem stepOk_eof {header : HttpRequest} (h : Local reader s stage)
    (hk : s.conn c = some ⟨header, .recvMessage⟩) :
    StepOk reader s ((s.setConn c ⟨header, .call .onClose (onClose c)⟩).emit (.eof c)) stage stage
      l := by
  have hc := h c
  rw [hk] at hc
  have hwaits : (stage c).Waits := hc.phase _ rfl
  have hph : PhaseOk c (record reader c s.log).message (stage c) (.call .onClose (onClose c)) :=
    ⟨hwaits.admits (Or.inr rfl), follows_onClose hwaits.closes⟩
  have hstep : StepOk reader s (s.setConn c ⟨header, .call .onClose (onClose c)⟩) stage stage l :=
    stepOk_move h hk rfl hph
  refine ⟨fun d => ?_, Or.inr ⟨_, rfl, trivial⟩, .same rfl (fun _ _ => Iff.rfl) (fun _ _ => id)⟩
  rw [Server.log_emit, record_append]
  exact hstep.all d

/-- **Every step keeps the invariant** when no handshake brings a `$id` header. -/
theorem local_step (h : Local reader s stage) (hok : NoIdHeader s l)
    (hn : (server reader).next s l = some t) : ∃ stage', StepOk reader s t stage stage' l := by
  rcases Server.next_cases hn with ⟨c, header, rfl, hk, -, rfl⟩ | ⟨c, data, header, rfl, hk, rfl⟩ |
    ⟨c, header, rfl, hk, rfl⟩ | ⟨c, ok, time, rfl, hact⟩
  · exact ⟨stage, stepOk_accept h hk hok⟩
  · exact ⟨stage, stepOk_frame h hk⟩
  · exact ⟨stage, stepOk_eof h hk⟩
  · exact stepOk_act h hact

/-- Nothing has happened yet. -/
theorem local_init : Local reader (server reader).init fun _ => .out := by
  intro c
  have hnone : ∀ k, (server reader).init.conn c ≠ some k := fun k => (Option.some_ne_none k).symm
  constructor
  · exact fun _ => rfl
  · exact fun k hk => absurd hk (hnone k)
  · exact fun k hk => absurd hk (hnone k)
  · rfl
  · exact fun h => absurd h Bool.false_ne_true
  · exact fun n h => Stage.noConfusion h
  · exact .inl rfl

/-- A sound history stays sound. -/
theorem StepOk.along (h : StepOk reader s t stage stage' l) (hs : Along (Sound reader) s.log) :
    Along (Sound reader) t.log := by
  rcases h.log with hlog | ⟨e, hlog, he⟩
  · rwa [hlog]
  · rw [hlog]
    exact hs.snoc he

/-- **Every run without a forged `$id` keeps every connection in step with its
login, and its history sound.** -/
theorem run_local {ls : List Label} (h : (server reader).Run NoIdHeader ls s) :
    (∃ stage, Local reader s stage) ∧ Along (Sound reader) s.log := by
  refine h.invariant (I := fun _ s => (∃ stage, Local reader s stage) ∧ Along (Sound reader) s.log)
    ⟨⟨_, local_init⟩, .nil⟩ ?_
  rintro ls s l t ⟨⟨stage, hs⟩, halong⟩ hok hn
  obtain ⟨stage', hstep⟩ := local_step hs hok hn
  exact ⟨⟨stage', hstep.all⟩, hstep.along halong⟩

end Step

end Chat
end Wuchat
