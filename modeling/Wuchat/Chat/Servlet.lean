/-
# The chat servlet and the server that runs it

`chat/chat_servlet.cpp` and `WSServer::handleClient` (`http/ws_server.cpp`).

A servlet call is a program over the atomic steps it takes (`Servlet`): the
locked operations on `m_sessions` (`sessionExists`, `sessionAdd`, `sessionDel`
and the copy at the head of `sessionNotify`), the reads and writes of the
connection's own header map, the clock, and one step for each message handed to
`WSSession::sendMessage`.  Between two steps any other connection may move.
The exception jsoncpp may throw out of `ChatMessage::Creat` is caught nowhere:
`throw` ends the process.

A connection goes through the phases of `handleClient` (`Phase`).  The server's
steps (`Label`) are the acceptance of a handshake, the arrival of a frame or of
the end of the stream at a connection that waits in `recvMessage`, and the next
atomic step of a connection that is inside a servlet call, with the answers of
its environment: whether a send succeeded and what the clock says.

The history of the server is the list of its events (`Event`), oldest first.
-/

import Wuchat.Chat.Protocol
import Wuchat.Foundation.System
import Wuchat.Http.WsShake

namespace Wuchat
namespace Chat

open Foundation Http

/-- A connection, and the `WSSession` that belongs to it. -/
abbrev ConnId := Nat

/-- A servlet call, as the atomic steps it takes. -/
inductive Servlet (α : Type)
  | ret (x : α)
  | throw
  | getHeader (key : Bytes) (k : Bytes → Servlet α)
  | setHeader (key val : Bytes) (k : Servlet α)
  | sessionExists (id : Bytes) (k : Bool → Servlet α)
  | sessionAdd (id : Bytes) (k : Servlet α)
  | sessionDel (id : Bytes) (k : Servlet α)
  | sessionCopy (msg : ChatMessage) (k : OrdMap Bytes ConnId → Servlet α)
  | time2Str (k : Bytes → Servlet α)
  | send (dst : ConnId) (msg : ChatMessage) (k : Bool → Servlet α)

namespace Servlet

/-- One call after another. -/
def bind {α β : Type} : Servlet α → (α → Servlet β) → Servlet β
  | ret x, f => f x
  | throw, _ => throw
  | getHeader key k, f => getHeader key fun v => (k v).bind f
  | setHeader key val k, f => setHeader key val (k.bind f)
  | sessionExists id k, f => sessionExists id fun b => (k b).bind f
  | sessionAdd id k, f => sessionAdd id (k.bind f)
  | sessionDel id k, f => sessionDel id (k.bind f)
  | sessionCopy msg k, f => sessionCopy msg fun l => (k l).bind f
  | time2Str k, f => time2Str fun t => (k t).bind f
  | send dst msg k, f => send dst msg fun b => (k b).bind f

/-- Programs one after the other; an exception ends them. -/
instance : Monad Servlet where
  pure := ret
  bind := bind

end Servlet

open Servlet

/-- The key the servlet keeps the login name under, in the header map of the
connection's handshake. -/
def idKey : Bytes := str "$id"

/-- `sendMessage(session, rsp)`: `0` when the send returned a positive number. -/
def sendMessage (dst : ConnId) (msg : ChatMessage) : Servlet Int :=
  send dst msg fun ok => ret (if ok then 0 else 1)

/-- The loop of `sessionNotify` over its copy of the table. -/
def notifyEach (msg : ChatMessage) (session : Option ConnId) : OrdMap Bytes ConnId → Servlet Unit
  | [] => ret ()
  | (_, d) :: rest =>
    if some d = session then notifyEach msg session rest
    else do
      let _ ← sendMessage d msg
      notifyEach msg session rest

/-- `sessionNotify(msg, session = nullptr)`. -/
def sessionNotify (msg : ChatMessage) (session : Option ConnId := none) : Servlet Unit := do
  let sessions ← sessionCopy msg ret
  notifyEach msg session sessions

/-- A notification of the given type, time and name. -/
def notice (type time name : Bytes) : ChatMessage :=
  ((ChatMessage.set [] (str "type") type).set (str "time") time).set (str "name") name

/-- `onConnect`. -/
def onConnect : Servlet Int := pure 0

/-- `onClose`. -/
def onClose (session : ConnId) : Servlet Int := do
  let id ← getHeader idKey ret
  if id.isEmpty then pure 0
  else do
    sessionDel id (ret ())
    let time ← time2Str ret
    sessionNotify (notice (str "user_leave") time id) (some session)
    pure 0

/-- A response of the given type, result and text. -/
def response (type result msg : Bytes) : ChatMessage :=
  ((ChatMessage.set [] (str "type") type).set (str "result") result).set (str "msg") msg

/-- The `login_request` branch of `handle`. -/
def handleLogin (message : ChatMessage) (id : Bytes) (session : ConnId) : Servlet Int := do
  let type := str "login_response"
  let name := message.get (str "name")
  if name.isEmpty then sendMessage session (response type (str "400") (str "name is null"))
  else if !id.isEmpty then sendMessage session (response type (str "401") (str "already login"))
  else do
    let taken ← sessionExists name ret
    if taken then sendMessage session (response type (str "402") (str "name exists"))
    else do
      setHeader idKey name (ret ())
      sessionAdd name (ret ())
      let time ← time2Str ret
      sessionNotify (notice (str "user_center") time name) (some session)
      sendMessage session (response type (str "200") (str "ok"))

/-- The `send_request` branch of `handle`. -/
def handleSend (message : ChatMessage) (id : Bytes) (session : ConnId) : Servlet Int := do
  let type := str "send_response"
  let context := message.get (str "msg")
  if context.isEmpty then sendMessage session (response type (str "500") (str "mag is null"))
  else if id.isEmpty then sendMessage session (response type (str "501") (str "not login"))
  else do
    let time ← time2Str ret
    sessionNotify ((notice (str "msg") time id).set (str "msg") context)
    sendMessage session (response type (str "200") (str "ok"))

/-- `ChatServlet::handle` on the payload of a frame. -/
def handle (reader : Reader) (data : Bytes) (session : ConnId) : Servlet Int :=
  match ChatMessage.Creat reader data with
  | .error _ => throw
  | .ok message? => do
    let id ← getHeader idKey ret
    match message? with
    | none =>
      if id.isEmpty then pure 1
      else do
        sessionDel id (ret ())
        pure 1
    | some message =>
      if message.get (str "type") = str "login_request" then handleLogin message id session
      else if message.get (str "type") = str "send_request" then handleSend message id session
      else pure 0

/-- The servlet call a connection is inside of.  `leaving` is the rest of
`onClose` once its `sessionDel` has run. -/
inductive Call
  | onConnect
  | handle
  | onClose
  | leaving
  deriving DecidableEq, Repr

/-- Where a connection is in `handleClient`. -/
inductive Phase
  | recvMessage
  | call (m : Call) (p : Servlet Int)
  | closed

/-- What `handleClient` does with the result of a call. -/
def Call.after (c : ConnId) : Call → Int → Phase
  | .onConnect, r => if r = 0 then .recvMessage else .closed
  | .handle, r => if r = 0 then .recvMessage else .call .onClose (Chat.onClose c)
  | .onClose, _ => .closed
  | .leaving, _ => .closed

/-- The call after its first step. -/
def Call.next (m : Call) : Servlet Int → Call
  | .sessionDel _ _ => if m = .onClose then .leaving else m
  | _ => m

/-- A connection: the request of its handshake and its phase. -/
structure Conn where
  header : HttpRequest
  phase : Phase

/-- What the history of the server records. -/
inductive Event
  | accept (c : ConnId)
  | frame (c : ConnId) (data : Bytes)
  | eof (c : ConnId)
  | send (src dst : ConnId) (msg : ChatMessage) (ok : Bool)
  | notify (c : ConnId) (msg : ChatMessage)
  deriving DecidableEq, Repr

/-- The state of the server. -/
structure Server where
  sessions : OrdMap Bytes ConnId
  conns : OrdMap ConnId Conn
  log : List Event
  aborted : Bool

/-- The steps of the server. -/
inductive Label
  | accept (c : ConnId) (header : HttpRequest)
  | frame (c : ConnId) (data : Bytes)
  | eof (c : ConnId)
  | act (c : ConnId) (ok : Bool) (time : Bytes)

/-- The order of connection numbers. -/
def connLess (a b : ConnId) : Bool := a < b

/-- Connections are ordered by their numbers. -/
theorem connLess_keyed : KeyedBy connLess id where
  eqv_iff a b := by
    rw [eqv, connLess, connLess, Bool.and_eq_true, Bool.not_eq_true', Bool.not_eq_true',
      decide_eq_false_iff_not, decide_eq_false_iff_not, Nat.not_lt, Nat.not_lt]
    exact ⟨fun h => Nat.le_antisymm h.2 h.1, fun h : a = b => ⟨Nat.le_of_eq h.symm, Nat.le_of_eq h⟩⟩

namespace Server

/-- The connection with number `c`. -/
def conn (s : Server) (c : ConnId) : Option Conn := OrdMap.find connLess c s.conns

/-- The session under a name in `m_sessions`. -/
def session (s : Server) (n : Bytes) : Option ConnId := OrdMap.find bytesLess n s.sessions

/-- Give the connection `c` a new state. -/
def setConn (s : Server) (c : ConnId) (k : Conn) : Server :=
  { s with conns := OrdMap.set connLess c k s.conns }

/-- Append to the history. -/
def emit (s : Server) (e : Event) : Server := { s with log := s.log ++ [e] }

/-- The connection that was set. -/
@[simp] theorem conn_setConn_self (s : Server) (c : ConnId) (k : Conn) :
    (s.setConn c k).conn c = some k :=
  OrdMap.find_set_self connLess_keyed rfl k s.conns

/-- The others are left. -/
theorem conn_setConn_of_ne (s : Server) {c d : ConnId} (h : d ≠ c) (k : Conn) :
    (s.setConn c k).conn d = s.conn d :=
  OrdMap.find_set_of_ne connLess_keyed h k s.conns

/-- The sessions are left. -/
@[simp] theorem sessions_setConn (s : Server) (c : ConnId) (k : Conn) :
    (s.setConn c k).sessions = s.sessions := rfl

/-- The log is left. -/
@[simp] theorem log_setConn (s : Server) (c : ConnId) (k : Conn) :
    (s.setConn c k).log = s.log := rfl

/-- A message sent leaves the connections. -/
@[simp] theorem conn_emit (s : Server) (e : Event) (c : ConnId) : (s.emit e).conn c = s.conn c := rfl

/-- And the sessions. -/
@[simp] theorem sessions_emit (s : Server) (e : Event) : (s.emit e).sessions = s.sessions := rfl

/-- It is added to the log. -/
@[simp] theorem log_emit (s : Server) (e : Event) : (s.emit e).log = s.log ++ [e] := rfl

end Server

/-- One atomic step of a servlet call of the connection `c`, whose header is
`header`: the rest of the call, the header after it and the server after it,
before the connection is put back. -/
def Servlet.step (s : Server) (c : ConnId) (header : HttpRequest) (ok : Bool) (time : Bytes) :
    Servlet Int → Option (Servlet Int × HttpRequest × Server)
  | ret _ => none
  | throw => none
  | getHeader key k => some (k (header.getHeader key), header, s)
  | setHeader key val k => some (k, header.setHeader key val, s)
  | sessionExists id k => some (k (s.session id).isSome, header, s)
  | sessionAdd id k =>
    some (k, header, { s with sessions := OrdMap.set bytesLess id c s.sessions })
  | sessionDel id k =>
    some (k, header, { s with sessions := OrdMap.erase bytesLess id s.sessions })
  | sessionCopy msg k => some (k s.sessions, header, s.emit (.notify c msg))
  | time2Str k => some (k time, header, s)
  | send dst msg k => some (k ok, header, s.emit (.send c dst msg ok))

/-- The next step of the connection `c` inside a servlet call. -/
def Server.act (s : Server) (c : ConnId) (ok : Bool) (time : Bytes) : Option Server :=
  match s.conn c with
  | some ⟨header, .call m (.ret r)⟩ => some (s.setConn c ⟨header, m.after c r⟩)
  | some ⟨_, .call _ .throw⟩ => some { s with aborted := true }
  | some ⟨header, .call m p⟩ =>
    (p.step s c header ok time).map fun (p', header', s') => s'.setConn c ⟨header', .call (m.next p) p'⟩
  | _ => none

/-- **What a step inside a call can be:** the end of the call, the exception, or
one atomic step. -/
theorem Server.act_cases {s t : Server} {c : ConnId} {ok : Bool} {time : Bytes}
    (h : s.act c ok time = some t) :
    ∃ header m p, s.conn c = some ⟨header, .call m p⟩ ∧
      ((∃ r, p = .ret r ∧ t = s.setConn c ⟨header, m.after c r⟩) ∨
        (p = .throw ∧ t = { s with aborted := true }) ∨
        ∃ p' header' s', p.step s c header ok time = some (p', header', s') ∧
          t = s'.setConn c ⟨header', .call (m.next p) p'⟩) := by
  unfold Server.act at h
  split at h
  · rename_i header m r hc
    exact ⟨header, m, _, hc, Or.inl ⟨r, rfl, (Option.some.inj h).symm⟩⟩
  · rename_i header m hc
    exact ⟨header, m, _, hc, Or.inr (Or.inl ⟨rfl, (Option.some.inj h).symm⟩)⟩
  · rename_i header m p _ _ hc
    obtain ⟨⟨p', header', s'⟩, hs, ht⟩ := Option.map_eq_some_iff.1 h
    exact ⟨header, m, p, hc, Or.inr (Or.inr ⟨p', header', s', hs, ht.symm⟩)⟩
  · cases h

/-- The server's step function. -/
def Server.next (reader : Reader) (s : Server) (l : Label) : Option Server :=
  if s.aborted then none
  else match l with
    | .accept c header =>
      if (s.conn c).isNone ∧ shakeAccepts header then
        some ((s.setConn c ⟨header, .call .onConnect onConnect⟩).emit (.accept c))
      else none
    | .frame c data =>
      match s.conn c with
      | some ⟨header, .recvMessage⟩ =>
        some ((s.setConn c ⟨header, .call .handle (handle reader data c)⟩).emit (.frame c data))
      | _ => none
    | .eof c =>
      match s.conn c with
      | some ⟨header, .recvMessage⟩ =>
        some ((s.setConn c ⟨header, .call .onClose (onClose c)⟩).emit (.eof c))
      | _ => none
    | .act c ok time => s.act c ok time

/-- **What a step of the server can be:** an accepted handshake, a frame, the end of
a stream, or a step inside a call. -/
theorem Server.next_cases {reader : Reader} {s t : Server} {l : Label}
    (h : Server.next reader s l = some t) :
    (∃ c header, l = .accept c header ∧ s.conn c = none ∧ shakeAccepts header ∧
      t = (s.setConn c ⟨header, .call .onConnect onConnect⟩).emit (.accept c)) ∨
    (∃ c data header, l = .frame c data ∧ s.conn c = some ⟨header, .recvMessage⟩ ∧
      t = (s.setConn c ⟨header, .call .handle (handle reader data c)⟩).emit (.frame c data)) ∨
    (∃ c header, l = .eof c ∧ s.conn c = some ⟨header, .recvMessage⟩ ∧
      t = (s.setConn c ⟨header, .call .onClose (onClose c)⟩).emit (.eof c)) ∨
    ∃ c ok time, l = .act c ok time ∧ s.act c ok time = some t := by
  unfold Server.next at h
  split at h
  · cases h
  split at h
  · rename_i c header
    split at h
    · rename_i hfree
      exact Or.inl ⟨c, header, rfl, Option.isNone_iff_eq_none.1 hfree.1, hfree.2,
        (Option.some.inj h).symm⟩
    · cases h
  · rename_i c data
    split at h
    · rename_i header hk
      exact Or.inr (Or.inl ⟨c, data, header, rfl, hk, (Option.some.inj h).symm⟩)
    · cases h
  · rename_i c
    split at h
    · rename_i header hk
      exact Or.inr (Or.inr (Or.inl ⟨c, header, rfl, hk, (Option.some.inj h).symm⟩))
    · cases h
  · rename_i c ok time
    exact Or.inr (Or.inr (Or.inr ⟨c, ok, time, rfl, h⟩))

/-- The chat server: no connection yet, an empty table. -/
def server (reader : Reader) : System Server Label where
  init := ⟨[], [], [], false⟩
  next := Server.next reader

/-! ### A sample environment -/

/-- The handshake of a client with the given extra headers. -/
def handshake (extra : List (Bytes × Bytes)) : HttpRequest :=
  ([(str "Upgrade", str "websocket"), (str "Connection", str "Upgrade"),
    (str "Sec-WebSocket-Version", str "13"), (str "Sec-WebSocket-Key", str "AQIDBAUGBwgJCgsMDQ4PEA==")]
    ++ extra).foldl (fun r (k, v) => r.setHeader k v) .new

/-- The text of a login request for `bob`. -/
def loginText : Bytes := str "\x7b\"type\":\"login_request\",\"name\":\"bob\"\x7d"

/-- The text of a request to send `hi`. -/
def sendText : Bytes := str "\x7b\"type\":\"send_request\",\"msg\":\"hi\"\x7d"

/-- A reader that knows these two texts. -/
def sampleReader : Reader := fun v =>
  if v = loginText then
    some (.object [(str "name", .string (str "bob")), (str "type", .string (str "login_request"))])
  else if v = sendText then
    some (.object [(str "msg", .string (str "hi")), (str "type", .string (str "send_request"))])
  else none

/-- The next `k` steps of a connection, with successful sends. -/
def acts (c : ConnId) (k : Nat) : List Label := List.replicate k (.act c true (str "12:00"))

end Chat
end Wuchat
