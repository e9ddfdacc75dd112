import Zylib.Cpp
import Mathlib.Data.List.AList

/-! `UnifiedConnection` of `nel`: the thread of the `io_service` reports new sockets, closed ones and the
    ends of attempts to connect, and `update`, on the main thread, keeps the table of the endpoints
    and makes the callbacks of the network. `processSockReceivedMsg`, which touches neither, is left out. -/

namespace Zylib.Nel

/-- A `TSockPtr`: the number of a socket. -/
abbrev Sock := Nat

/-- The socket of a `NetClient` is made with it and never replaced. -/
structure NetClient where
  sock : Sock
deriving DecidableEq

/-- `client` is `none` on the side of the server. -/
structure TEndpoint where
  client : Option NetClient
  sock : Sock
deriving DecidableEq

/-- The callbacks of the network, with the socket they are about, which they do not get. -/
inductive ServiceCallback where
  | serviceConnect (sock : Sock)
  | serviceDisconnect (sock : Sock)
deriving DecidableEq

/-- What a call of `update` has taken from a queue and goes through. -/
inductive Item where
  | newSock (sock : Sock)
  | closedSock (sock : Sock)
  | timeoutSock (sock : Sock)
  | connectSuccess (client : NetClient)
  | connectFail (client : NetClient)
  | retry (sock : Sock)
deriving DecidableEq

/-- The calls that `update` is made of. -/
inductive Process where
  | serverNewSocket
  | sockClosed
  | sockTimeout
  | clientAsyncConnectSuccess
  | clientAsyncConnectFail
  | clientAutoRetry
deriving DecidableEq

/-- The members; of a call of `update`, what it still has to go through, and the calls after that; the
    callbacks made; and the sockets that were made, those whose attempt to connect has not ended, and
    those that are connected and not reported to be closed. -/
structure UnifiedConnection where
  autoRetry : Bool := false
  endpoints : AList (fun _ : Sock => TEndpoint) := ∅
  retryEndpoints : AList (fun _ : Sock => TEndpoint) := ∅
  closedSock : List Sock := []
  timeoutSock : List Sock := []
  serverNewSock : List Sock := []
  clientConnectSuccess : List NetClient := []
  clientConnectFail : List NetClient := []
  todo : List Item := []
  calls : List Process := []
  callbacks : List ServiceCallback := []
  socks : List Sock := []
  connecting : List Sock := []
  live : List Sock := []

namespace UnifiedConnection

/-- `disabled` is a step that is not possible in the state; the others are the `NL_ASSERT`s. -/
inductive Fault where
  | disabled
  | assertEndpoint
  | assertClientSide
deriving DecidableEq

/-! ### The thread of the `io_service` -/

def cbServerAccept (c : UnifiedConnection) (sock : Sock) : UnifiedConnection :=
  { c with serverNewSock := c.serverNewSock ++ [sock] }

def cbClientConnect (c : UnifiedConnection) (ec : Bool) (netClient : NetClient) : UnifiedConnection :=
  if ec then { c with clientConnectFail := c.clientConnectFail ++ [netClient] }
  else { c with clientConnectSuccess := c.clientConnectSuccess ++ [netClient] }

def cbSockTimeout (c : UnifiedConnection) (sock : Sock) : UnifiedConnection :=
  { c with timeoutSock := c.timeoutSock ++ [sock] }

def cbSockClosed (c : UnifiedConnection) (sock : Sock) : UnifiedConnection :=
  { c with closedSock := c.closedSock ++ [sock] }

/-! ### The main thread -/

/-- `addClientEndpoint`, which `addService` calls for a `NetClient` whose attempt has begun. -/
def addClientEndpoint (c : UnifiedConnection) (netClient : NetClient) : UnifiedConnection :=
  { c with endpoints := c.endpoints.insert netClient.sock ⟨some netClient, netClient.sock⟩ }

def findEndpoint (c : UnifiedConnection) (sock : Sock) : Option TEndpoint := c.endpoints.lookup sock

def eraseEndpoint (c : UnifiedConnection) (sock : Sock) : UnifiedConnection :=
  { c with endpoints := c.endpoints.erase sock }

def callback (c : UnifiedConnection) (cb : ServiceCallback) : UnifiedConnection :=
  { c with callbacks := c.callbacks ++ [cb] }

def retryEndpoint (c : UnifiedConnection) (sock : Sock) (endpoint : TEndpoint) : UnifiedConnection :=
  { c with retryEndpoints := c.retryEndpoints.insert sock endpoint }

def processNewSock (c : UnifiedConnection) (sock : Sock) : UnifiedConnection :=
  { c with endpoints := c.endpoints.insert sock ⟨none, sock⟩ }.callback (.serviceConnect sock)

/-- What `processSockClosed` and `processSockTimeout` do with a socket; `shutdown` does nothing. -/
def processEndedSock (c : UnifiedConnection) (sock : Sock) : Except Fault UnifiedConnection :=
  match c.findEndpoint sock with
  | none => .error .assertEndpoint
  | some endpoint =>
    let c := c.eraseEndpoint sock
    let c := if c.autoRetry then c.retryEndpoint sock endpoint else c
    .ok (c.callback (.serviceDisconnect sock))

def processConnectFail (c : UnifiedConnection) (client : NetClient) : Except Fault UnifiedConnection :=
  if c.autoRetry then
    match c.findEndpoint client.sock with
    | none => .error .assertEndpoint
    | some endpoint => .ok (c.retryEndpoint client.sock endpoint)
  else .ok c

/-- One round of the loop of `processClientAutoRetry`; `started` says that `asyncConnect` threw nothing. -/
def processRetry (c : UnifiedConnection) (sock : Sock) (started : Bool) : Except Fault UnifiedConnection :=
  match c.retryEndpoints.lookup sock with
  | none => .ok c
  | some endpoint =>
    match endpoint.client with
    | none => .error .assertClientSide
    | some client =>
      if started then
        .ok ({ c with
          endpoints := c.endpoints.insert client.sock endpoint
          retryEndpoints := c.retryEndpoints.erase sock
          connecting := c.connecting ++ [client.sock] }.callback (.serviceConnect endpoint.sock))
      else .ok c

def processItem (c : UnifiedConnection) (started : Bool) : Item → Except Fault UnifiedConnection
  | .newSock sock => .ok (c.processNewSock sock)
  | .closedSock sock => c.processEndedSock sock
  | .timeoutSock sock => c.processEndedSock sock
  | .connectSuccess client => .ok (c.callback (.serviceConnect client.sock))
  | .connectFail client => c.processConnectFail client
  | .retry sock => c.processRetry sock started

/-- What a call takes under the lock, or, of the retries, the sockets in the order of the map. -/
def take (c : UnifiedConnection) : Process → List Item × UnifiedConnection
  | .serverNewSocket => (c.serverNewSock.map .newSock, { c with serverNewSock := [] })
  | .sockClosed => (c.closedSock.map .closedSock, { c with closedSock := [] })
  | .sockTimeout => (c.timeoutSock.map .timeoutSock, { c with timeoutSock := [] })
  | .clientAsyncConnectSuccess => (c.clientConnectSuccess.map .connectSuccess, { c with clientConnectSuccess := [] })
  | .clientAsyncConnectFail => (c.clientConnectFail.map .connectFail, { c with clientConnectFail := [] })
  | .clientAutoRetry => (c.retryEndpoints.keys.map .retry, c)

/-- The body of `update`. -/
def updateCalls (c : UnifiedConnection) : List Process :=
  [.serverNewSocket, .sockClosed, .sockTimeout, .clientAsyncConnectSuccess, .clientAsyncConnectFail] ++
    if c.autoRetry then [.clientAutoRetry] else []

/-- A step of the main thread: the next item, or the next call of `update`, or a new `update`. -/
def update (c : UnifiedConnection) (started : Bool) : Except Fault UnifiedConnection :=
  match c.todo, c.calls with
  | item :: todo, _ => { c with todo }.processItem started item
  | [], f :: calls =>
    let (todo, c) := c.take f
    .ok { c with todo, calls }
  | [], [] => .ok { c with calls := c.updateCalls }

/-! ### Steps -/

inductive Action where
  | addService (sock : Sock)
  | serverAccept (sock : Sock)
  | clientConnect (ec : Bool) (sock : Sock)
  | sockClosed (sock : Sock)
  | sockTimeout (sock : Sock)
  | update (started : Bool)
deriving DecidableEq

/-- A socket is accepted, or made for a client, once; it is closed or timed out at most once for each
    time it is connected. -/
def step (c : UnifiedConnection) : Action → Except Fault UnifiedConnection
  | .addService sock =>
    if sock ∈ c.socks then .error .disabled
    else .ok { c.addClientEndpoint ⟨sock⟩ with socks := c.socks ++ [sock], connecting := c.connecting ++ [sock] }
  | .serverAccept sock =>
    if sock ∈ c.socks then .error .disabled
    else .ok { c.cbServerAccept sock with socks := c.socks ++ [sock], live := c.live ++ [sock] }
  | .clientConnect ec sock =>
    if sock ∈ c.connecting then
      .ok { c.cbClientConnect ec ⟨sock⟩ with
        connecting := c.connecting.erase sock
        live := if ec then c.live else c.live ++ [sock] }
    else .error .disabled
  | .sockClosed sock =>
    if sock ∈ c.live then .ok { c.cbSockClosed sock with live := c.live.erase sock } else .error .disabled
  | .sockTimeout sock =>
    if sock ∈ c.live then .ok { c.cbSockTimeout sock with live := c.live.erase sock } else .error .disabled
  | .update started => c.update started

end UnifiedConnection

end Zylib.Nel
