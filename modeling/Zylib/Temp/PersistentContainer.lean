import Zylib.KNet.Message

/-! `PersistentContainer` of `zylib`: a sentinel and a vector or a list of values of a POD type, written as their bytes. -/

namespace Zylib.Temp
open LittleEndian
open KNet.MessageDecoder (memcpyAt)

/-- A POD type: the bytes of its objects, and an object that bytes are copied into; `eq` is its `operator==`. -/
structure Pod (T : Type) where
  valueSize : Nat
  valueSize_pos : 0 < valueSize
  toBytes : T → Bytes
  ofBytes : Bytes → T
  length_toBytes : ∀ value, (toBytes value).length = valueSize
  ofBytes_toBytes : ∀ value, ofBytes (toBytes value) = value
  eq : T → T → Bool

/-- The containers that there is a `PstTool` for. -/
inductive ContainerType where
  | vector
  | list
deriving DecidableEq

structure PersistentContainer (T : Type) where
  nullSentinel : Int32 := 0
  data : List T := []

namespace PersistentContainer

def SENTINEL_SIZE : Nat := 4

variable {T : Type} (pod : Pod T)

/-- `operator==`. -/
def equals (x y : PersistentContainer T) : Bool :=
  x.nullSentinel == y.nullSentinel && x.data.length == y.data.length && (x.data.zip y.data).all fun (a, b) => pod.eq a b

def bytes (x : PersistentContainer T) : Nat := SENTINEL_SIZE + pod.valueSize * x.data.length

/-! ### `PstTool` -/

/-- The loop of the list: each slot is copied to its place. -/
def writeSlots : List T → Bytes → Nat → Bytes
  | [], buffer, _ => buffer
  | slot :: slots, buffer, pos => writeSlots slots (memcpyAt buffer pos (pod.toBytes slot)) (pos + pod.valueSize)

def toBinary (type : ContainerType) (x : PersistentContainer T) : Bytes :=
  let buffer := List.replicate (bytes pod x) 0
  let buffer := memcpyAt buffer 0 (int32Bytes x.nullSentinel)
  if x.data.isEmpty then buffer
  else
    match type with
    | .vector => memcpyAt buffer SENTINEL_SIZE (x.data.flatMap pod.toBytes)
    | .list => writeSlots pod x.data buffer SENTINEL_SIZE

/-- The values of the bytes behind `pos`, which a `memcpy` into `cnt` slots makes. -/
def slots : Nat → Bytes → List T
  | 0, _ => []
  | cnt + 1, pos => pod.ofBytes (pos.take pod.valueSize) :: slots cnt (pos.drop pod.valueSize)

/-- The loop of the list. -/
def emplaceSlots : Nat → Bytes → List T → List T
  | 0, _, data => data
  | cnt + 1, pos, data => emplaceSlots cnt (pos.drop pod.valueSize) (data ++ [pod.ofBytes (pos.take pod.valueSize)])

def fromBinary (type : ContainerType) (pos : Bytes) (y : PersistentContainer T) : Bool × PersistentContainer T :=
  if pos.length < SENTINEL_SIZE then (false, y)
  else
    let dataLen := pos.length - SENTINEL_SIZE
    if dataLen % pod.valueSize ≠ 0 then (false, y)
    else
      let cnt := dataLen / pod.valueSize
      let y := { y with nullSentinel := int32OfBytes (pos.take SENTINEL_SIZE) }
      let pos := pos.drop SENTINEL_SIZE
      match type with
      | .vector => if cnt ≠ 0 then (true, { y with data := slots pod cnt pos }) else (true, y)
      | .list => (true, { y with data := emplaceSlots pod cnt pos y.data })

/-! ### Members -/

def serializeToBinary (type : ContainerType) (x : PersistentContainer T) : Bytes := toBinary pod type x

def parseFromBinary (type : ContainerType) (y : PersistentContainer T) (data : Bytes) : Bool × PersistentContainer T :=
  if data.isEmpty then (false, y) else fromBinary pod type data y

/-! ### Round trips -/

/-- The bytes of `x` are parsed into `y` as `x`, and what is rejected leaves `y`. -/
structure RoundTrip (type : ContainerType) (x y : PersistentContainer T) : Prop where
  parses : (parseFromBinary pod type y (serializeToBinary pod type x)).1 = true
  equals : equals pod (parseFromBinary pod type y (serializeToBinary pod type x)).2 x = true
  rejects : ∀ data, (parseFromBinary pod type y data).1 = false → (parseFromBinary pod type y data).2 = y

/-- A vector that has no elements is not parsed into one that has some, and a list into none that has some; every element
    is equal to itself. -/
def Fits (type : ContainerType) (x y : PersistentContainer T) : Prop :=
  (∀ value ∈ x.data, pod.eq value value = true) ∧
    match type with
    | .vector => x.data = [] → y.data = []
    | .list => y.data = []

end PersistentContainer

end Zylib.Temp
