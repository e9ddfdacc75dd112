import Zylib.KNet.Message

/-! The codec of the messages of the `nel` naming service (ns/NSTools.cpp): the name of the type, a NUL and what protobuf
    serializes. -/

namespace Zylib.Nel.NSTools

open KNet.MessageDecoder (resize memcpyAt)

/-- What protobuf does: a message serializes to as many bytes as it says, and if its type is found then these parse to it
    again. -/
structure Protobuf (Message Descriptor Prototype : Type) where
  getTypeName : Message → Bytes
  byteSize : Message → Nat
  serializePartialToArray : Message → Option Bytes
  findMessageTypeByName : Bytes → Option Descriptor
  getPrototype : Descriptor → Option Prototype
  parseFromArray : Prototype → Bytes → Option Message
  length_serialize : ∀ msg body, serializePartialToArray msg = some body → body.length = byteSize msg
  parse_serialize : ∀ msg body, serializePartialToArray msg = some body →
    ∀ descriptor, findMessageTypeByName (getTypeName msg) = some descriptor →
      ∃ prototype, getPrototype descriptor = some prototype ∧ parseFromArray prototype body = some msg

/-- The message, its name, and the bytes that it was parsed from, which the code does not store. -/
structure NSMessage (Message : Type) where
  data : Message
  msgName : Bytes
  parsed : Bytes

/-- A read outside of the vector. -/
inductive Fault where
  | range
deriving DecidableEq

variable {Message Descriptor Prototype : Type} (pb : Protobuf Message Descriptor Prototype)

/-- The index of the first NUL as an `int32_t`, else -1. -/
def nulPos (src : Bytes) : Int :=
  match src.findIdx? (· = 0) with
  | some i => sizeToInt i
  | none => -1

/-- `FindMessageTypeByName` and `GetPrototype`. -/
def findPrototype (msg_name : Bytes) : Option Prototype :=
  match pb.findMessageTypeByName msg_name with
  | none => none
  | some descriptor => pb.getPrototype descriptor

/-- A size that is negative, or does not fit into an `int`, is a fault like one that is too large. -/
def decode (src : Bytes) : Except Fault (Option (NSMessage Message)) :=
  let pos := nulPos src
  if pos = -1 ∨ pos = 0 then .ok none
  else if pos - 1 < 0 ∨ src.length < pos - 1 then .error .range
  else
    let msg_name := src.take (pos - 1).toNat
    match findPrototype pb msg_name with
    | none => .ok none
    | some prototype =>
      let size := sizeToInt src.length - pos - 1
      if size < 0 ∨ src.length < pos + 1 + size then .error .range
      else
        let parsed := (src.drop (pos + 1).toNat).take size.toNat
        match pb.parseFromArray prototype parsed with
        | none => .ok none
        | some data => .ok (some ⟨data, msg_name, parsed⟩)

def encode (msg : Message) : Bytes :=
  let msg_name := pb.getTypeName msg
  let buffer := resize [] (msg_name.length + 1 + pb.byteSize msg)
  let pos := 0
  let buffer := memcpyAt buffer pos msg_name
  let pos := pos + (msg_name.length + 1)
  match pb.serializePartialToArray msg with
  | none => []
  | some body => memcpyAt buffer pos body

end Zylib.Nel.NSTools
