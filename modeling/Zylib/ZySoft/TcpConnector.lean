import Zylib.ZySoft.Channel
import Zylib.Lib.Run

/-! `TcpConnector::SyncConnectWaitFor` of `zysoft/src/network` with `sec > 0`, step by step: the caller waits on a promise
    that the io thread sets when the connect completes, before it calls `Init` of the channel. -/

namespace Zylib.ZySoft

/-- Where the caller is: in `wait_for`, after it with the value or without, or back, with what is returned and the
    channel at that moment. -/
inductive SyncCaller where
  | waiting
  | ready (value : ErrorCode)
  | timeout
  | returned (result : Bool) (channel : ChannelState)
deriving DecidableEq

/-- Where the handler of the `async_connect` is. -/
inductive ConnectHandler where
  | pending
  | running (ec : ErrorCode)
  | valueSet
  | done
deriving DecidableEq

structure TcpConnector where
  channel : ChannelState
  caller : SyncCaller := .waiting
  handler : ConnectHandler := .pending
  promise : Option ErrorCode := none
deriving DecidableEq

namespace TcpConnector

/-- `disabled` is a step that is not possible in the state; the others are those of the channel. -/
inductive Fault where
  | disabled
  | channel (e : ChannelState.Fault)
deriving DecidableEq

/-- `Connected()`. -/
def connected (s : TcpConnector) : Bool := s.channel.opened

/-! ### The io thread -/

/-- The connect ends, with an error or not, and its handler starts. A `shutdown` of the socket does not take the connect
    back. -/
def completes (s : TcpConnector) (ec : ErrorCode) : Except Fault TcpConnector :=
  match s.handler with
  | .pending => .ok { s with handler := .running ec }
  | _ => .error .disabled

/-- `set_value` in the handler, which is over after it if there was an error. -/
def setValue (s : TcpConnector) : Except Fault TcpConnector :=
  match s.handler with
  | .running ec => .ok { s with promise := some ec, handler := if ec = 0 then .valueSet else .done }
  | _ => .error .disabled

/-- `m_channel->Init(m_socket)` in the handler. -/
def initChannel (s : TcpConnector) : Except Fault TcpConnector :=
  match s.handler with
  | .valueSet =>
    match s.channel.init with
    | .ok channel => .ok { s with channel, handler := .done }
    | .error e => .error (.channel e)
  | _ => .error .disabled

/-! ### The caller -/

/-- `wait_for` returns: `f.get()` gives the value if it is there, and else the time is over. -/
def wakes (s : TcpConnector) : Except Fault TcpConnector :=
  match s.caller, s.promise with
  | .waiting, some value => .ok { s with caller := .ready value }
  | .waiting, none => .ok { s with caller := .timeout }
  | _, _ => .error .disabled

/-- The rest of `SyncConnectWaitFor`. -/
def returns (s : TcpConnector) : Except Fault TcpConnector :=
  match s.caller with
  | .ready value => .ok { s with caller := .returned (value = 0) s.channel }
  | .timeout => .ok { s with caller := .returned false s.channel }
  | _ => .error .disabled

/-! ### The channel -/

/-- The handlers that the io thread runs. -/
def onIoThread : ChannelState.Action → Bool
  | .runPosted | .runWrite _ | .runRead _ | .runTimer _ => true
  | _ => false

def handling (s : TcpConnector) : Bool :=
  match s.handler with
  | .running _ | .valueSet => true
  | _ => false

section
variable (decode : FlatBuffer → List Message × FlatBuffer)

/-- A step of the channel, whose `Init` is called from nowhere else. -/
def channelStep (s : TcpConnector) (a : ChannelState.Action) : Except Fault TcpConnector :=
  if a matches .init || onIoThread a && s.handling then .error .disabled
  else
    match ChannelState.step decode s.channel a with
    | .ok channel => .ok { s with channel }
    | .error e => .error (.channel e)

inductive Action where
  | completes (ec : ErrorCode)
  | setValue
  | initChannel
  | wakes
  | returns
  | channel (a : ChannelState.Action)

def step (s : TcpConnector) : Action → Except Fault TcpConnector
  | .completes ec => s.completes ec
  | .setValue => s.setValue
  | .initChannel => s.initChannel
  | .wakes => s.wakes
  | .returns => s.returns
  | .channel a => s.channelStep decode a

end

end TcpConnector

end Zylib.ZySoft
