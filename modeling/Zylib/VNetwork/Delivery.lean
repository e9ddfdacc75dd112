import Zylib.VNetwork.Session
import Zylib.VNetwork.TcpServer

/-! What a `TcpServer` is given to send, and what the reading loops of `vnetwork` make of the bytes on a socket. -/

namespace Zylib.VNetwork

/-- What the reader has made of the bytes since it started. -/
def Session.read (reader : Reader) (bytes : Bytes) : Session := bytes.foldl (Session.onByte reader) (Session.start reader)

/-- The strings that `AsyncSend` was called with for the session, in order. -/
def TcpServer.asked (session : Nat) (as : List TcpServer.Action) : List Bytes :=
  as.filterMap fun
    | .asyncSend i data => if i = session then some data else none
    | _ => none

/-- The messages of the functions that are posted for the session. -/
def TcpServer.pending (session : Nat) (posted : List Posted) : List ChatMessage :=
  posted.filterMap fun
    | .send i msg => if i = session then some msg else none
    | .close _ => none

/-- A body that is not longer than `DecodeHeader` takes. -/
def short (body : Bytes) : Bool := body.length ≤ MAX_BODY_LENGTH

/-- The messages that the event handler was told of. -/
def ServerSession.received (s : ServerSession) : List Bytes :=
  s.events.filterMap fun
    | .received body => some body
    | _ => none

end Zylib.VNetwork
