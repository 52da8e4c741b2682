/-
# The handshake of a web socket

`WSSession::handleShake` of `http/ws_session.cpp`: it receives a request, tests four of its
headers and answers with `101`.  `sha1sum` is the function of a library and a parameter here;
`base64encode` is the one of `util/hash_util.cpp` (`Util.base64encode`).
-/

import Wuchat.Http.Session
import Wuchat.Util.Base64

namespace Wuchat
namespace Http

open Foundation Streams

/-- The header tests of `WSSession::handleShake`. -/
def shakeAccepts (req : HttpRequest) : Bool :=
  strcasecmp (req.getHeader (str "Upgrade")) (str "websocket") = 0 ∧
    strcasecmp (req.getHeader (str "Connection")) (str "Upgrade") = 0 ∧
    req.getHeaderAsInt (str "Sec-webSocket-Version") = 13 ∧
    ¬(req.getHeader (str "Sec-WebSocket-Key")).isEmpty

/-- The value of `Sec-WebSocket-Accept` for a key. -/
def acceptKey (sha1sum : Bytes → Bytes) (key : Bytes) : Bytes :=
  Util.base64encode (sha1sum (key ++ str "258EAFA5-E914-47DA-95CA-C5AB0DC85B11"))

/-- The response of `WSSession::handleShake`. -/
def shakeResponse (sha1sum : Bytes → Bytes) (req : HttpRequest) : HttpResponse :=
  let v := acceptKey sha1sum (req.getHeader (str "Sec-WebSocket-Key"))
  let rsp := { req.createResponse with
    status := 101, webSocket := true, reason := str "Web Socket Protocol Handshake" }
  ((rsp.setHeader (str "Upgrade") (str "websocket")).setHeader (str "Connection") (str "Upgrade")).setHeader
    (str "Sec-WebSocket-Accept") v

/-- `WSSession::handleShake()`. -/
def handleShake (sha1sum : Bytes → Bytes) (bufferSize : Nat) : Act (Option HttpRequest) := do
  match ← recvRequest bufferSize with
  | none => return none
  | some req =>
    if shakeAccepts req then
      let req := { req with webSocket := true }
      let _ ← sendResponse (shakeResponse sha1sum req)
      return some req
    else return none

end Http
end Wuchat
