/-
# Chat messages

`chat/protocol.cpp`: a chat frame is a JSON object whose members are read as
strings into an ordered map.

jsoncpp is not part of the repository.  Its reader is a parameter
(`Reader := Bytes → Option Json`, `JsonUtil::FromString`), and of its values only
what `ChatMessage::Creat` uses is modelled: `getMemberNames` throws unless the
value is an object or null, and `asString` throws on arrays and objects and
converts scalars.  A number is kept as the text `asString` prints of it.
-/

import Wuchat.Foundation.CString

namespace Wuchat
namespace Chat

open Foundation

/-- A `Json::Value`. -/
inductive Json
  | null
  | bool (b : Bool)
  | number (text : Bytes)
  | string (s : Bytes)
  | array (vs : List Json)
  | object (members : List (Bytes × Json))

/-- The exception jsoncpp throws. -/
inductive JsonError
  | logicError
  deriving DecidableEq, Repr

/-- `JsonUtil::FromString`: the value of a text, or `none` when it does not parse. -/
abbrev Reader := Bytes → Option Json

/-- `Json::Value::getMemberNames`, with the member each name stands for. -/
def Json.getMembers : Json → Except JsonError (List (Bytes × Json))
  | .null => .ok []
  | .object members => .ok members
  | _ => .error .logicError

/-- `Json::Value::asString`. -/
def Json.asString : Json → Except JsonError Bytes
  | .null => .ok []
  | .bool b => .ok (if b then str "true" else str "false")
  | .number text => .ok text
  | .string s => .ok s
  | .array _ => .error .logicError
  | .object _ => .error .logicError

/-- `ChatMessage`: `m_datas`. -/
abbrev ChatMessage := OrdMap Bytes Bytes

namespace ChatMessage

/-- `get(name)`, empty when absent. -/
def get (m : ChatMessage) (name : Bytes) : Bytes := (OrdMap.find bytesLess name m).getD []

/-- `set(name, v)`. -/
def set (m : ChatMessage) (name v : Bytes) : ChatMessage := OrdMap.set bytesLess name v m

/-- The members read so far and those still to read. -/
def ofMembers (m : ChatMessage) : List (Bytes × Json) → Except JsonError ChatMessage
  | [] => .ok m
  | (name, v) :: rest =>
    match v.asString with
    | .error e => .error e
    | .ok s => ofMembers (m.set name s) rest

/-- `ChatMessage::Creat`: null for a text that does not parse. -/
def Creat (reader : Reader) (v : Bytes) : Except JsonError (Option ChatMessage) :=
  match reader v with
  | none => .ok none
  | some json =>
    match json.getMembers with
    | .error e => .error e
    | .ok members => (ofMembers [] members).map some

/-- A member that was set is read back. -/
@[simp] theorem get_set_self (m : ChatMessage) (name v : Bytes) : (m.set name v).get name = v := by
  rw [get, set, OrdMap.find_set_self bytesLess_keyed rfl, Option.getD_some]

/-- Setting a member leaves the others alone. -/
theorem get_set_of_ne (m : ChatMessage) {name name' : Bytes} (h : name' ≠ name) (v : Bytes) :
    (m.set name v).get name' = m.get name' := by
  rw [get, set, OrdMap.find_set_of_ne bytesLess_keyed h, get]

end ChatMessage

end Chat
end Wuchat
