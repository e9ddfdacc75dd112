import Zylib.KNet.UniformNetwork
import Zylib.Lib.Run
import Mathlib.Data.List.Nodup

/-! What a step of a service does to its slots and its timers. A step changes nothing there, or makes a
    slot, or enters or leaves one of the two callbacks of a slot (`Change`). -/

namespace Zylib.KNet

namespace RPCManager

variable {r r' : RPCManager}

theorem sendTo_eq (r : RPCManager) (msg : SendMsg) (o : Origin) :
    ∃ q, r.sendTo msg o = { r with queue := q } ∧
      (q = r.queue ∨ msg.invalid = false ∧ q = r.queue ++ [(msg, o)]) := by
  unfold sendTo
  split
  · exact ⟨_, rfl, Or.inl rfl⟩
  · rename_i h
    exact ⟨_, rfl, Or.inr ⟨Bool.not_eq_true _ ▸ h, rfl⟩⟩

theorem insertSlot_eq (r : RPCManager) (key : Key) (i : Nat) :
    ∃ m, r.insertSlot key i = { r with slots := m } ∧
      (m = r.slots ∨ (∀ p ∈ r.slots, p.1 ≠ key) ∧ m = r.slots ++ [(key, i)]) := by
  unfold insertSlot
  split
  · exact ⟨_, rfl, Or.inl rfl⟩
  · rename_i h
    refine ⟨_, rfl, Or.inr ⟨fun p hp hkey => h ?_, rfl⟩⟩
    exact List.any_eq_true.mpr ⟨p, hp, beq_iff_eq.mpr hkey⟩

structure SameSlots (r r' : RPCManager) : Prop where
  serviceId : r'.serviceId = r.serviceId
  keySequenceId : r.keySequenceId ≤ r'.keySequenceId
  heap : r'.heap = r.heap
  slots : r'.slots = r.slots
  timers : r'.timerManager.timers = r.timerManager.timers
  timerHeap : r'.timerManager.heap = r.timerManager.heap

/-- `r'` has one more slot than `r`, with a timer if its context has a timeout callback. -/
structure NewSlot (r r' : RPCManager) (key : Key) (s : ContextSlot) : Prop where
  serviceId : r'.serviceId = r.serviceId
  keySequenceId : r'.keySequenceId = r.keySequenceId + 1
  heap : r'.heap = r.heap ++ [s]
  slots : r'.slots = r.slots ∨ (∀ p ∈ r.slots, p.1 ≠ key) ∧ r'.slots = r.slots ++ [(key, r.heap.length)]
  timer : s.timerHdl = none ∧ r'.timerManager = r.timerManager ∨
    s.timerHdl = some r.timerManager.heap.length ∧ s.context.timeoutCb = true ∧
      r'.timerManager = (r.timerManager.addTimer r.heap.length).2
  sequenceId : s.sequenceId = r.keySequenceId + 1
  key : key = r.serviceId ++ decimal (uint64 s.sequenceId)

theorem SameSlots.refl (r : RPCManager) : SameSlots r r := ⟨rfl, Nat.le_refl _, rfl, rfl, rfl, rfl⟩

theorem sendTo_same (r : RPCManager) (msg : SendMsg) (o : Origin) : SameSlots r (r.sendTo msg o) := by
  obtain ⟨q, hq, -⟩ := sendTo_eq r msg o
  rw [hq]
  exact ⟨rfl, Nat.le_refl _, rfl, rfl, rfl, rfl⟩

theorem asyncRPC_none (r : RPCManager) (sid : ServiceId) (msgId : MsgId) (msg : MsgType) :
    SameSlots r (r.asyncRPC sid msgId msg none) := by
  obtain ⟨q, hq, -⟩ := sendTo_eq r.nextKey.2 ⟨r.serviceId, sid, msgId, msg, r.nextKey.1, []⟩
    (.request r.serviceId (r.keySequenceId + 1))
  have heq : r.asyncRPC sid msgId msg none = { r.nextKey.2 with queue := q } := hq
  rw [heq]
  exact ⟨rfl, Nat.le_succ _, rfl, rfl, rfl, rfl⟩

theorem asyncRPC_some (r : RPCManager) (sid : ServiceId) (msgId : MsgId) (msg : MsgType) (c : RPCContext) :
    ∃ key s, NewSlot r (r.asyncRPC sid msgId msg (some c)) key s := by
  obtain ⟨q, hq, -⟩ := sendTo_eq r.nextKey.2 ⟨r.serviceId, sid, msgId, msg, r.nextKey.1, []⟩
    (.request r.serviceId (r.keySequenceId + 1))
  have heq : r.asyncRPC sid msgId msg (some c) = { r.nextKey.2 with queue := q }.appendRPCContext r.nextKey.1 (some c) :=
    congrArg (appendRPCContext · r.nextKey.1 (some c)) hq
  obtain ⟨m, hm, hslots⟩ := insertSlot_eq { r.nextKey.2 with queue := q } r.nextKey.1 r.heap.length
  refine ⟨r.nextKey.1, ?_⟩
  rw [heq]
  unfold appendRPCContext
  simp only
  rw [show ({ r.nextKey.2 with queue := q } : RPCManager).heap.length = r.heap.length from rfl, hm]
  split
  · rename_i ht
    exact ⟨_, rfl, rfl, rfl, hslots, Or.inr ⟨rfl, ht, rfl⟩, rfl, rfl⟩
  · exact ⟨_, rfl, rfl, rfl, hslots, Or.inl ⟨rfl, rfl⟩, rfl, rfl⟩

/-- The message that `AsyncRPC` sends. -/
def requestMsg (r : RPCManager) (sid : ServiceId) (msgId : MsgId) (msg : MsgType) : SendMsg :=
  ⟨r.serviceId, sid, msgId, msg, r.serviceId ++ decimal (uint64 (r.keySequenceId + 1)), []⟩

theorem appendRPCContext_rest (r : RPCManager) (key : Key) (context : Option RPCContext) :
    (r.appendRPCContext key context).serviceId = r.serviceId ∧
      (r.appendRPCContext key context).keySequenceId = r.keySequenceId ∧
      (r.appendRPCContext key context).receivedMsgs = r.receivedMsgs ∧
      (r.appendRPCContext key context).queue = r.queue := by
  cases context with
  | none => exact ⟨rfl, rfl, rfl, rfl⟩
  | some c =>
    obtain ⟨m, hm, -⟩ := insertSlot_eq r key r.heap.length
    unfold appendRPCContext
    simp only
    rw [hm]
    split <;> exact ⟨rfl, rfl, rfl, rfl⟩

theorem asyncRPC_rest (r : RPCManager) (sid : ServiceId) (msgId : MsgId) (msg : MsgType) (context : Option RPCContext) :
    (r.asyncRPC sid msgId msg context).serviceId = r.serviceId ∧
      (r.asyncRPC sid msgId msg context).keySequenceId = r.keySequenceId + 1 ∧
      (r.asyncRPC sid msgId msg context).receivedMsgs = r.receivedMsgs ∧
      ((r.asyncRPC sid msgId msg context).queue = r.queue ∨
        (r.requestMsg sid msgId msg).invalid = false ∧ (r.asyncRPC sid msgId msg context).queue =
          r.queue ++ [(r.requestMsg sid msgId msg, .request r.serviceId (r.keySequenceId + 1))]) := by
  obtain ⟨q, hq, hqueue⟩ := sendTo_eq r.nextKey.2 (r.requestMsg sid msgId msg) (.request r.serviceId (r.keySequenceId + 1))
  have heq : r.asyncRPC sid msgId msg context = { r.nextKey.2 with queue := q }.appendRPCContext r.nextKey.1 context :=
    congrArg (appendRPCContext · r.nextKey.1 context) hq
  obtain ⟨hsid, hseq, hmsgs, hqueue'⟩ := appendRPCContext_rest { r.nextKey.2 with queue := q } r.nextKey.1 context
  rw [heq, hsid, hseq, hmsgs, hqueue']
  exact ⟨rfl, rfl, rfl, hqueue⟩

end RPCManager

inductive Calling where
  | none
  | timeout (timer : Nat)
  | success (key : Key) (slot : Nat)

def Pc.calling : Pc → Calling
  | .timeoutCb timer _ => .timeout timer
  | .successCb key slot _ => .success key slot
  | .user | .timers _ | .msgs _ | .msgCb _ => .none

namespace UniformNetwork
open RPCManager

variable {w w' : UniformNetwork}

/-- What a step does to the slots, the timers and the callbacks that are noted. -/
inductive Change (w : UniformNetwork) (a : Action) (w' : UniformNetwork) : Prop where
  /-- nothing -/
  | same (rpc : SameSlots w.rpc w'.rpc) (pc : w'.pc.calling = w.pc.calling) (log : w'.log = w.log)
  /-- an `AsyncRPC` with a context -/
  | newSlot (key : Key) (s : ContextSlot) (rpc : NewSlot w.rpc w'.rpc key s) (pc : w'.pc.calling = w.pc.calling)
    (log : w'.log = w.log)
  /-- a timeout callback begins -/
  | timeout (timer slot : Nat) (calling : w.pc.calling = .none) (lock : w.rpc.timerManager.lock timer = some slot)
    (rpc : w'.rpc = w.rpc) (pc : w'.pc.calling = .timeout timer) (log : w'.log = w.log ++ w.cbTimeout slot)
  /-- a timeout callback is back -/
  | erase (timer : Nat) (calling : w.pc.calling = .timeout timer)
    (rpc : w'.rpc = { w.rpc with timerManager := w.rpc.timerManager.erase timer }) (pc : w'.pc.calling = .none)
    (log : w'.log = w.log)
  /-- a message has found a slot, and its success callback begins -/
  | success (msg : ReceivedMsg) (o : Origin) (temp : List (ReceivedMsg × Origin)) (slot : Nat) (action : a = .tick)
    (msgs : w.pc = .msgs ((msg, o) :: temp)) (find : w.rpc.find msg.key = some slot) (rpc : w'.rpc = w.rpc)
    (pc : w'.pc.calling = .success msg.key slot) (log : w'.log = w.log ++ .found slot o :: w.cbSuccess slot o)
  /-- a success callback is back -/
  | finish (key : Key) (slot : Nat) (calling : w.pc.calling = .success key slot) (rpc : w'.rpc = w.rpc.finish key slot)
    (pc : w'.pc.calling = .none) (log : w'.log = w.log)

theorem tick_change (w : UniformNetwork) : Change w .tick w.tick := by
  unfold tick
  split
  · rename_i h
    exact .same ⟨rfl, Nat.le_refl _, rfl, rfl, rfl, rfl⟩ (by rw [h]; rfl) rfl
  · rename_i h
    exact .same ⟨rfl, Nat.le_refl _, rfl, rfl, rfl, rfl⟩ (by rw [h]; rfl) rfl
  · rename_i hdl all h
    split
    · exact .same (.refl _) (by rw [h]; rfl) rfl
    · rename_i slot hlock
      exact .timeout hdl slot (by rw [h]; rfl) hlock rfl rfl rfl
  · rename_i timer all h
    exact .erase timer (by rw [h]; rfl) rfl rfl rfl
  · rename_i h
    exact .same (.refl _) (by rw [h]; rfl) rfl
  · rename_i msg o temp h
    unfold rpcReceviedMsg
    split
    · unfold normalReceviedMsg
      split
      · exact .same (.refl _) (by rw [h]; rfl) rfl
      · exact .same (.refl _) (by rw [h]; rfl) rfl
    · rename_i slot hfind
      exact .success msg o temp slot rfl h hfind rfl rfl rfl
  · rename_i key slot temp h
    exact .finish key slot (by rw [h]; rfl) rfl rfl rfl
  · rename_i h
    exact .same (.refl _) (by rw [h]; rfl) rfl

theorem call_change {c : Call} (h : w.call c = .ok w') : Change w (.call c) w' := by
  unfold call at h
  split at h
  · cases c with
    | asyncRPC sid msgId msg context =>
      cases h
      cases context with
      | none => exact .same (asyncRPC_none w.rpc sid msgId msg) rfl rfl
      | some c =>
        obtain ⟨key, s, hs⟩ := asyncRPC_some w.rpc sid msgId msg c
        exact .newSlot key s hs rfl rfl
    | routeMessage sid msgId msg =>
      cases h
      exact .same (sendTo_same _ _ _) rfl rfl
    | sendResponse ctx msgId msg =>
      simp only at h
      split at h
      · cases h
      · cases h
        exact .same (sendTo_same _ _ _) rfl rfl
  · cases h

theorem cbReceviedMsg_change {p : Bytes} {pLen : Nat} {key : Option Bytes} {keyLen : Nat} {o : Origin}
    (h : w.cbReceviedMsg p pLen key keyLen o = .ok w') :
    Change w (.cbReceviedMsg p pLen key keyLen o) w' := by
  unfold cbReceviedMsg RPCManager.cbReceviedMsg at h
  split at h
  · cases h
  · rename_i rpc hrpc
    cases h
    split at hrpc
    · cases hrpc
    · cases hrpc
      exact .same (.refl _) rfl rfl
    · cases hrpc
      exact .same ⟨rfl, Nat.le_refl _, rfl, rfl, rfl, rfl⟩ rfl rfl

theorem step_change {a : Action} (h : w.step a = .ok w') : Change w a w' := by
  cases a with
  | call c => exact call_change h
  | tick =>
    cases h
    exact tick_change w
  | cbEvent hdl =>
    cases h
    exact .same ⟨rfl, Nat.le_refl _, rfl, rfl, rfl, rfl⟩ rfl rfl
  | cbReceviedMsg p pLen key keyLen o => exact cbReceviedMsg_change h

end UniformNetwork

end Zylib.KNet
