/-
# Which frames the servlet survives

The exception jsoncpp throws out of `ChatMessage::Creat` is caught neither in `handle` nor
in `handleClient`.  `Creat` reads the names of the members and then every member as a
string, and the two accessors are partial on different values: no text of an array or a
scalar has member names, and no member that is itself an array or an object is a string.  So
a frame is handled to the end exactly when it does not parse, or is null, or an object of
scalars (`frame_handled_iff`); a client ends the process with the three characters `[1]`
(`array_frame_throws`).
-/

import Wuchat.Chat.Servlet

namespace Wuchat
namespace Chat

open Foundation Servlet

/-- Every way through a call ends with a result. -/
def Servlet.Returns {α : Type} : Servlet α → Prop
  | ret _ => True
  | throw => False
  | getHeader _ k => ∀ v, (k v).Returns
  | setHeader _ _ k => k.Returns
  | sessionExists _ k => ∀ b, (k b).Returns
  | sessionAdd _ k => k.Returns
  | sessionDel _ k => k.Returns
  | sessionCopy _ k => ∀ l, (k l).Returns
  | time2Str k => ∀ t, (k t).Returns
  | send _ _ k => ∀ b, (k b).Returns

/-- One call after another returns if both do. -/
theorem Servlet.Returns.bind {α β : Type} {p : Servlet α} {f : α → Servlet β} (hp : p.Returns)
    (hf : ∀ x, (f x).Returns) : (p.bind f).Returns := by
  induction p with
  | ret x => exact hf x
  | throw => exact hp.elim
  | getHeader key k ih => exact fun v => ih v (hp v)
  | setHeader key val k ih => exact ih hp
  | sessionExists id k ih => exact fun b => ih b (hp b)
  | sessionAdd id k ih => exact ih hp
  | sessionDel id k ih => exact ih hp
  | sessionCopy msg k ih => exact fun l => ih l (hp l)
  | time2Str k ih => exact fun t => ih t (hp t)
  | send dst msg k ih => exact fun b => ih b (hp b)

/-! ### The branches of `handle` -/

/-- `SendMessage` returns. -/
theorem returns_sendMessage (dst : ConnId) (msg : ChatMessage) :
    (sendMessage dst msg).Returns := fun _ => trivial

/-- So does the loop over the sessions. -/
theorem returns_notifyEach (msg : ChatMessage) (session : Option ConnId) :
    ∀ sessions : OrdMap Bytes ConnId, (notifyEach msg session sessions).Returns
  | [] => trivial
  | (_, d) :: rest => by
    rw [notifyEach]
    split
    · exact returns_notifyEach msg session rest
    · exact fun _ => returns_notifyEach msg session rest

/-- So does `session_notify`. -/
theorem returns_sessionNotify (msg : ChatMessage) (session : Option ConnId) :
    (sessionNotify msg session).Returns :=
  fun sessions => returns_notifyEach msg session sessions

/-- So does the handling of a login, whatever the frame's members. -/
theorem returns_handleLogin (message : ChatMessage) (id : Bytes) (session : ConnId) :
    (handleLogin message id session).Returns := by
  unfold handleLogin
  dsimp only
  split
  · exact returns_sendMessage _ _
  split
  · exact returns_sendMessage _ _
  intro taken
  cases taken with
  | true => exact returns_sendMessage _ _
  | false =>
    intro time
    exact (returns_sessionNotify _ _).bind fun _ => returns_sendMessage _ _

/-- So does the handling of a message. -/
theorem returns_handleSend (message : ChatMessage) (id : Bytes) (session : ConnId) :
    (handleSend message id session).Returns := by
  unfold handleSend
  dsimp only
  split
  · exact returns_sendMessage _ _
  split
  · exact returns_sendMessage _ _
  intro time
  exact (returns_sessionNotify _ _).bind fun _ => returns_sendMessage _ _

/-- `handle` returns exactly when `Creat` does. -/
theorem returns_handle_iff (reader : Reader) (data : Bytes) (session : ConnId) :
    (handle reader data session).Returns ↔
      ∃ message?, ChatMessage.Creat reader data = .ok message? := by
  unfold handle
  cases ChatMessage.Creat reader data with
  | error e => exact ⟨fun h => h.elim, fun ⟨_, h⟩ => (nomatch h)⟩
  | ok message? =>
    refine ⟨fun _ => ⟨message?, rfl⟩, fun _ id => ?_⟩
    cases message? with
    | none =>
      show Returns (if id.isEmpty = true then _ else _)
      split <;> exact trivial
    | some message =>
      show Returns (if _ then _ else if _ then _ else _)
      split
      · exact returns_handleLogin message id session
      split
      · exact returns_handleSend message id session
      · exact trivial

/-! ### The values `Creat` reads -/

/-- A value that is neither an array nor an object. -/
def Json.IsScalar : Json → Prop
  | .array _ => False
  | .object _ => False
  | _ => True

/-- A value `Creat` makes a message of: null, or an object of scalars. -/
def Json.IsFlat : Json → Prop
  | .null => True
  | .object members => ∀ m ∈ members, m.2.IsScalar
  | _ => False

/-- `asString` converts the scalars. -/
theorem asString_ok_iff (v : Json) : (∃ s, v.asString = .ok s) ↔ v.IsScalar := by
  cases v with
  | array vs => exact ⟨fun ⟨_, h⟩ => (nomatch h), fun h => h.elim⟩
  | object members => exact ⟨fun ⟨_, h⟩ => (nomatch h), fun h => h.elim⟩
  | null | bool b | number text | string s => exact ⟨fun _ => trivial, fun _ => ⟨_, rfl⟩⟩

/-- The members are read to the end exactly when all of them are scalars. -/
theorem ofMembers_ok_iff (members : List (Bytes × Json)) :
    ∀ m : ChatMessage, (∃ m', m.ofMembers members = .ok m') ↔ ∀ e ∈ members, e.2.IsScalar := by
  induction members with
  | nil => exact fun m => ⟨fun _ => nofun, fun _ => ⟨m, rfl⟩⟩
  | cons e members ih =>
    intro m
    obtain ⟨name, v⟩ := e
    rw [List.forall_mem_cons, ← asString_ok_iff v, ChatMessage.ofMembers]
    cases hv : v.asString with
    | error err => exact ⟨fun ⟨_, h⟩ => (nomatch h), fun ⟨⟨_, h⟩, _⟩ => (nomatch h)⟩
    | ok s =>
      rw [ih]
      exact ⟨fun h => ⟨⟨s, rfl⟩, h⟩, fun h => h.2⟩

/-- `Creat` returns exactly for texts that do not parse and for flat values. -/
theorem creat_ok_iff (reader : Reader) (data : Bytes) :
    (∃ message?, ChatMessage.Creat reader data = .ok message?) ↔
      ∀ v, reader data = some v → v.IsFlat := by
  unfold ChatMessage.Creat
  cases reader data with
  | none => exact ⟨fun _ => nofun, fun _ => ⟨none, rfl⟩⟩
  | some v =>
    rw [show (∀ w, some v = some w → w.IsFlat) ↔ v.IsFlat from
      ⟨fun h => h v rfl, fun h w hw => Option.some.inj hw ▸ h⟩]
    cases v with
    | null => exact ⟨fun _ => trivial, fun _ => ⟨_, rfl⟩⟩
    | object members =>
      rw [Json.IsFlat, ← ofMembers_ok_iff members []]
      dsimp only [Json.getMembers]
      cases ChatMessage.ofMembers [] members with
      | error err => exact ⟨fun ⟨_, h⟩ => (nomatch h), fun ⟨_, h⟩ => (nomatch h)⟩
      | ok m => exact ⟨fun _ => ⟨m, rfl⟩, fun _ => ⟨some m, rfl⟩⟩
    | bool b | number text | string s | array vs => exact ⟨fun ⟨_, h⟩ => (nomatch h), fun h => h.elim⟩

/-- **A frame is handled without an exception exactly when it is flat.**  `Creat` returns null or a
message, and `handle` returns whatever its environment answers, if and only if the bytes do not
parse, or denote null or an object whose members are null, booleans, numbers or strings. -/
theorem frame_handled_iff (reader : Reader) (data : Bytes) (session : ConnId) :
    ((∃ message?, ChatMessage.Creat reader data = .ok message?) ∧
      (handle reader data session).Returns) ↔
      ∀ v, reader data = some v → v.IsFlat := by
  rw [returns_handle_iff, and_self, creat_ok_iff]

/-- A reader that knows the text `[1]`. -/
def arrayReader : Reader := fun v => if v = str "[1]" then some (.array [.number (str "1")]) else none

/-- **The frame `[1]` throws** out of `Creat` and out of `handle`. -/
theorem array_frame_throws : ¬∀ (reader : Reader) (data : Bytes) (session : ConnId),
    (∃ message?, ChatMessage.Creat reader data = .ok message?) ∧
      (handle reader data session).Returns := by
  intro hall
  have hread : arrayReader (str "[1]") = some (.array [.number (str "1")]) := rfl
  exact (creat_ok_iff arrayReader _).1 (hall arrayReader (str "[1]") 0).1 _ hread

end Chat
end Wuchat
