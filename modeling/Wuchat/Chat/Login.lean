/-
# The stages of a login

The servlet keeps the login name of a connection in the header map of the
connection's own handshake, under `$id`.  What the clients see of a login is in
the history of the server: `LoginAt` says that the history ends with the answer
to a login, and `record` keeps, for one connection, the message of its last
frame, the login it was told of and whether an unparsable frame came since.

The stages of a login (`Stage`) follow the steps of `handleLogin`: the header is
set, the session is entered in the table, the `200` response is handed to the
session; later `sessionDel` runs, in `handle` for an unparsable frame and in
`onClose`.  `Follows` says that the rest of a servlet call takes these steps in
this order from a given stage.  Every path through `handle` and `onClose` does
(`follows_handle`, `follows_onClose`).
-/

import Wuchat.Chat.Servlet

namespace Wuchat
namespace Chat

open Foundation Http Servlet

/-! ### The history of a connection -/

/-- A `login_response` with the result `200`. -/
def IsLoginOk (msg : ChatMessage) : Prop :=
  msg.get (str "type") = str "login_response" ∧ msg.get (str "result") = str "200"

/-- Whether a message is the answer to a login can be computed. -/
instance (msg : ChatMessage) : Decidable (IsLoginOk msg) := inferInstanceAs (Decidable (_ ∧ _))

/-- The message `handle` makes of a frame; `none` when the frame does not parse. -/
def frameMessage (reader : Reader) (data : Bytes) : Option ChatMessage :=
  match ChatMessage.Creat reader data with
  | .ok m => m
  | .error _ => none

/-- **The history ends with the answer to a login.**  The last event is a
`login_response` with result `200` sent to `c`, and the last frame of `c` before it
was a `login_request` for the name `n`. -/
def LoginAt (reader : Reader) (c : ConnId) (n : Bytes) (ok : Bool) (log : List Event) : Prop :=
  ∃ log₁ data log₂ c' msg m, log = log₁ ++ .frame c data :: (log₂ ++ [.send c' c msg ok]) ∧
    (∀ data', Event.frame c data' ∉ log₂) ∧ frameMessage reader data = some m ∧
    m.get (str "type") = str "login_request" ∧ m.get (str "name") = n ∧ IsLoginOk msg

/-- What the history says of a connection: the message of its last frame, the
login it was told of, and whether an unparsable frame came since. -/
structure Record where
  message : Option ChatMessage
  login : Option (Bytes × Bool)
  broken : Bool

/-- One event. -/
def Record.step (reader : Reader) (c : ConnId) (r : Record) : Event → Record
  | .frame c' data =>
    if c' = c then
      { r with message := frameMessage reader data
               broken := r.broken || (frameMessage reader data).isNone }
    else r
  | .send _ dst msg ok =>
    if dst = c ∧ IsLoginOk msg then
      { r with login := some ((r.message.getD []).get (str "name"), ok), broken := false }
    else r
  | _ => r

/-- The record of a history. -/
def record (reader : Reader) (c : ConnId) (log : List Event) : Record :=
  log.foldl (Record.step reader c) ⟨none, none, false⟩

/-- What a reader has seen behind one more event. -/
theorem record_append (reader : Reader) (c : ConnId) (log : List Event) (e : Event) :
    record reader c (log ++ [e]) = (record reader c log).step reader c e := by
  rw [record, List.foldl_append]
  rfl

/-! ### The stages of a login -/

/-- How far a connection is with its login; `told` is whether the send of the
`200` response succeeded. -/
inductive Stage
  | out
  | adding (n : Bytes)
  | joined (n : Bytes)
  | member (n : Bytes) (told : Bool)
  | dropped (n : Bytes)
  | gone (n : Bytes) (told : Bool)

/-- The value of the `$id` header in a stage. -/
def Stage.id : Stage → Bytes
  | out => []
  | adding n => n
  | joined n => n
  | member n _ => n
  | dropped n => n
  | gone n _ => n

/-- The login a connection was told of, in a stage. -/
def Stage.login : Stage → Option (Bytes × Bool)
  | member n told => some (n, told)
  | dropped n => some (n, true)
  | gone n told => some (n, told)
  | _ => none

/-- The stages a connection can be in during a call. -/
def Stage.Admits : Stage → Call → Prop
  | out, _ => True
  | adding _, m => m = .handle
  | joined _, m => m = .handle
  | member _ _, m => m = .handle ∨ m = .onClose
  | dropped _, m => m = .handle ∨ m = .onClose
  | gone _ _, m => m = .leaving

/-- What a call may return in a stage. -/
def Stage.Returns (st : Stage) (m : Call) (r : Int) : Prop :=
  match m with
  | .onConnect => st = .out
  | .handle => st = .out ∨ (∃ n, st = .member n true) ∨
      (r ≠ 0 ∧ ∃ n, st = .member n false ∨ st = .dropped n)
  | .onClose => st = .out
  | .leaving => st = .out ∨ ∃ n told, st = .gone n told

/-- A broadcast speaks for the name of the login: a `msg` or `user_leave`
notification carries the name the connection was told `200` for. -/
def Stage.Announces (st : Stage) (msg : ChatMessage) : Prop :=
  (msg.get (str "type") = str "msg" → st.login = some (msg.get (str "name"), true)) ∧
    (msg.get (str "type") = str "user_leave" → ∃ told, st.login = some (msg.get (str "name"), told))

/-- The stage after `sessionDel`. -/
def Stage.Deletes : Stage → Call → Bytes → Stage → Prop
  | member n told, .handle, n', st' => told = true ∧ n' = n ∧ st' = .dropped n
  | member n told, .onClose, n', st' => n' = n ∧ st' = .gone n told
  | dropped n, .onClose, n', st' => n' = n ∧ st' = .gone n true
  | _, _, _, _ => False

/-- What `sessionDel` does to a login. -/
theorem Stage.Deletes.spec {st st' : Stage} {m : Call} {n : Bytes} (h : st.Deletes m n st') :
    ((∃ told, st = .member n told) ∨ st = .dropped n) ∧ (st.id = n ∧ st'.id = n) ∧
      st'.login = st.login ∧ (st' = .dropped n ∨ ∃ told, st' = .gone n told) ∧
      st'.Admits (if m = .onClose then .leaving else m) ∧
      ∀ n', st' = .dropped n' → m = .handle ∧ st.login = some (n, true) := by
  cases st <;> cases m <;> try exact h.elim
  · obtain ⟨rfl, rfl, rfl⟩ := h
    exact ⟨Or.inl ⟨_, rfl⟩, ⟨rfl, rfl⟩, rfl, Or.inl rfl, Or.inl rfl, fun _ _ => ⟨rfl, rfl⟩⟩
  · obtain ⟨rfl, rfl⟩ := h
    exact ⟨Or.inl ⟨_, rfl⟩, ⟨rfl, rfl⟩, rfl, Or.inr ⟨_, rfl⟩, rfl, nofun⟩
  · obtain ⟨rfl, rfl⟩ := h
    exact ⟨Or.inr rfl, ⟨rfl, rfl⟩, rfl, Or.inr ⟨_, rfl⟩, rfl, nofun⟩

/-- The rest of a call of the connection `c`, on the message `cur`, takes the
steps of a login in order from the stage `st`. -/
def Follows (c : ConnId) (cur : Option ChatMessage) : Call → Stage → Servlet Int → Prop
  | m, st, .ret r => st.Returns m r
  | _, _, .throw => True
  | m, st, .getHeader key k => key = idKey ∧ Follows c cur m st (k st.id)
  | m, st, .setHeader key n k =>
    key = idKey ∧ m = .handle ∧ st = .out ∧ n ≠ [] ∧ Follows c cur m (.adding n) k
  | m, st, .sessionExists _ k => ∀ b, Follows c cur m st (k b)
  | m, st, .sessionAdd n k => m = .handle ∧ st = .adding n ∧ Follows c cur m (.joined n) k
  | m, st, .sessionDel n k =>
    ∃ st', st.Deletes m n st' ∧ (m = .handle → cur = none) ∧
      Follows c cur (if m = .onClose then .leaving else m) st' k
  | m, st, .sessionCopy msg k => st.Announces msg ∧ ∀ l, Follows c cur m st (k l)
  | m, st, .time2Str k => ∀ t, Follows c cur m st (k t)
  | m, st, .send dst msg k =>
    (IsLoginOk msg → dst = c ∧ ∃ n message, st = .joined n ∧ m = .handle ∧ cur = some message ∧
      message.get (str "type") = str "login_request" ∧ message.get (str "name") = n ∧
      ∀ b, Follows c cur m (.member n b) (k b)) ∧
    (¬IsLoginOk msg → ∀ b, Follows c cur m st (k b))

/-! ### The calls of the servlet follow the stages -/

/-- The type of a notice. -/
theorem notice_type (type time name : Bytes) : (notice type time name).get (str "type") = type := by
  rw [notice, ChatMessage.get_set_of_ne _ (by decide), ChatMessage.get_set_of_ne _ (by decide),
    ChatMessage.get_set_self]

/-- The name a notice is about. -/
theorem notice_name (type time name : Bytes) : (notice type time name).get (str "name") = name := by
  rw [notice, ChatMessage.get_set_self]

/-- The type of an answer. -/
theorem response_type (type result msg : Bytes) :
    (response type result msg).get (str "type") = type := by
  rw [response, ChatMessage.get_set_of_ne _ (by decide), ChatMessage.get_set_of_ne _ (by decide),
    ChatMessage.get_set_self]

/-- The result of an answer. -/
theorem response_result (type result msg : Bytes) :
    (response type result msg).get (str "result") = result := by
  rw [response, ChatMessage.get_set_of_ne _ (by decide), ChatMessage.get_set_self]

/-- A notification is not a response. -/
theorem not_isLoginOk_notice {type : Bytes} (time name : Bytes) (h : type ≠ str "login_response") :
    ¬IsLoginOk (notice type time name) := fun hok => h ((notice_type type time name).symm.trans hok.1)

/-- A response whose result is not `200` is no login. -/
theorem not_isLoginOk_response {result : Bytes} (type msg : Bytes) (h : result ≠ str "200") :
    ¬IsLoginOk (response type result msg) :=
  fun hok => h ((response_result type result msg).symm.trans hok.2)

variable {c : ConnId} {cur : Option ChatMessage} {m : Call} {st : Stage}

/-- The sends of a notification change no stage. -/
theorem follows_notifyEach {msg : ChatMessage} (hmsg : ¬IsLoginOk msg) (session : Option ConnId)
    {k : Unit → Servlet Int} (hk : Follows c cur m st (k ())) :
    ∀ sessions : OrdMap Bytes ConnId, Follows c cur m st ((notifyEach msg session sessions).bind k)
  | [] => hk
  | (_, d) :: rest => by
    rw [notifyEach]
    split
    · exact follows_notifyEach hmsg session hk rest
    · exact ⟨fun h => absurd h hmsg, fun _ _ => follows_notifyEach hmsg session hk rest⟩

/-- A notification is allowed in a stage that announces it. -/
theorem follows_sessionNotify {msg : ChatMessage} (hmsg : ¬IsLoginOk msg) (hst : st.Announces msg)
    (session : Option ConnId) {k : Unit → Servlet Int} (hk : Follows c cur m st (k ())) :
    Follows c cur m st ((sessionNotify msg session).bind k) :=
  ⟨hst, fun sessions => follows_notifyEach hmsg session hk sessions⟩

/-- A response other than the `200` of a login keeps the stage. -/
theorem follows_sendMessage {msg : ChatMessage} (hmsg : ¬IsLoginOk msg) (dst : ConnId)
    (hret : ∀ r, st.Returns m r) : Follows c cur m st (sendMessage dst msg) :=
  ⟨fun h => absurd h hmsg, fun _ _ => hret _⟩

/-- The stages in which a connection waits for a frame. -/
def Stage.Waits (st : Stage) : Prop := st = .out ∨ ∃ n, n ≠ [] ∧ st = .member n true

/-- A program that waits has returned nothing else. -/
theorem Stage.Waits.returns (h : st.Waits) (r : Int) : st.Returns .handle r := by
  rcases h with rfl | ⟨n, -, rfl⟩
  · exact Or.inl rfl
  · exact Or.inr (Or.inl ⟨n, rfl⟩)

/-- It may stand in `handle` and in `onClose`. -/
theorem Stage.Waits.admits (h : st.Waits) (hm : m = .handle ∨ m = .onClose) : st.Admits m := by
  rcases h with rfl | ⟨n, -, rfl⟩
  · trivial
  · exact hm

/-- **The login branch goes through the stages in order.** -/
theorem follows_handleLogin (message : ChatMessage) (h : st.Waits)
    (htype : message.get (str "type") = str "login_request") :
    Follows c (some message) .handle st (handleLogin message st.id c) := by
  rw [handleLogin]
  split
  · exact follows_sendMessage (not_isLoginOk_response _ _ (by decide)) c h.returns
  rename_i hname
  split
  · exact follows_sendMessage (not_isLoginOk_response _ _ (by decide)) c h.returns
  rename_i hid
  obtain rfl : st = .out := by
    rcases h with rfl | ⟨n, hn, rfl⟩
    · rfl
    · simp [Stage.id, hn] at hid
  rintro (_ | _)
  · refine ⟨rfl, rfl, rfl, fun hc => hname (by rw [hc]; rfl), rfl, rfl, fun time => ?_⟩
    refine follows_sessionNotify (not_isLoginOk_notice _ _ (by decide)) ⟨?_, ?_⟩ _ ?_
    · rw [notice_type]
      exact fun hc => absurd hc (by decide)
    · rw [notice_type]
      exact fun hc => absurd hc (by decide)
    · refine ⟨fun _ => ⟨rfl, _, message, rfl, rfl, rfl, htype, rfl, fun b => ?_⟩, fun hno => ?_⟩
      · cases b
        · exact Or.inr (Or.inr ⟨by decide, _, Or.inl rfl⟩)
        · exact Or.inr (Or.inl ⟨_, rfl⟩)
      · exact absurd ⟨response_type _ _ _, response_result _ _ _⟩ hno
  · exact follows_sendMessage (not_isLoginOk_response _ _ (by decide)) c h.returns

/-- **The send branch speaks for the login only.** -/
theorem follows_handleSend (message : ChatMessage) (h : st.Waits) :
    Follows c cur .handle st (handleSend message st.id c) := by
  have hrsp : ∀ result msg, ¬IsLoginOk (response (str "send_response") result msg) := by
    intro result msg hok
    have := (response_type _ _ _).symm.trans hok.1
    exact absurd this (by decide)
  rw [handleSend]
  split
  · exact follows_sendMessage (hrsp _ _) c h.returns
  split
  · exact follows_sendMessage (hrsp _ _) c h.returns
  rename_i _ hid
  obtain ⟨n, hn, rfl⟩ : ∃ n, n ≠ [] ∧ st = .member n true := by
    rcases h with rfl | h
    · simp [Stage.id] at hid
    · exact h
  intro time
  have htype : ((notice (str "msg") time n).set (str "msg") (message.get (str "msg"))).get
      (str "type") = str "msg" := by
    rw [ChatMessage.get_set_of_ne _ (by decide), notice_type]
  refine follows_sessionNotify ?_ ⟨fun _ => ?_, fun hc => ?_⟩ _ ?_
  · exact fun hok => absurd (htype.symm.trans hok.1) (by decide)
  · rw [Stage.id, ChatMessage.get_set_of_ne _ (by decide), notice_name, Stage.login]
  · exact absurd (htype.symm.trans hc) (by decide)
  · exact follows_sendMessage (hrsp _ _) c h.returns

/-- **`handle` follows the stages** from every stage in which a connection waits. -/
theorem follows_handle (reader : Reader) (data : Bytes) (h : st.Waits) :
    Follows c (frameMessage reader data) .handle st (handle reader data c) := by
  rw [handle, frameMessage]
  cases ChatMessage.Creat reader data with
  | error e => trivial
  | ok message? =>
    refine ⟨rfl, ?_⟩
    cases message? with
    | none =>
      rcases h with rfl | ⟨n, hn, rfl⟩
      · exact Or.inl rfl
      · show Follows c _ .handle _ (if n.isEmpty = true then _ else _)
        rw [if_neg (by simpa using hn)]
        exact ⟨_, ⟨rfl, rfl, rfl⟩, fun _ => rfl, Or.inr (Or.inr ⟨by decide, n, Or.inr rfl⟩)⟩
    | some message =>
      show Follows c (some message) .handle st (if _ then _ else if _ then _ else _)
      split
      · rename_i htype
        exact follows_handleLogin message h htype
      split
      · exact follows_handleSend message h
      · exact h.returns 0

/-- The stages `onClose` starts from. -/
def Stage.Closes (st : Stage) : Prop :=
  st = .out ∨ ∃ n, n ≠ [] ∧ ((∃ told, st = .member n told) ∨ st = .dropped n)

/-- A connection may close behind it. -/
theorem Stage.Waits.closes (h : st.Waits) : st.Closes := by
  rcases h with rfl | ⟨n, hn, rfl⟩
  · exact Or.inl rfl
  · exact Or.inr ⟨n, hn, Or.inl ⟨true, rfl⟩⟩

/-- **`onClose` follows the stages.** -/
theorem follows_onClose (h : st.Closes) : Follows c cur .onClose st (onClose c) := by
  refine ⟨rfl, ?_⟩
  show Follows c cur .onClose st (if st.id.isEmpty = true then _ else _)
  have hleave : ∀ n told, Follows c cur .leaving (.gone n told)
      (time2Str fun time => (sessionNotify (notice (str "user_leave") time n) (some c)).bind
        fun _ => ret 0) := by
    intro n told time
    refine follows_sessionNotify (not_isLoginOk_notice _ _ (by decide)) ⟨fun hc => ?_, fun _ => ?_⟩ _ ?_
    · rw [notice_type] at hc
      exact absurd hc (by decide)
    · exact ⟨told, by rw [notice_name, Stage.login]⟩
    · exact Or.inr ⟨n, told, rfl⟩
  rcases h with rfl | ⟨n, hn, ⟨told, rfl⟩ | rfl⟩
  · exact rfl
  · rw [if_neg (by simpa [Stage.id] using hn)]
    exact ⟨_, ⟨rfl, rfl⟩, nofun, hleave n told⟩
  · rw [if_neg (by simpa [Stage.id] using hn)]
    exact ⟨_, ⟨rfl, rfl⟩, nofun, hleave n true⟩

end Chat
end Wuchat
