import Zylib.Rediscpp.BufferArray

/-! `Script` of `rediscpp`: the reply of a script, a tree, is turned into a `BufferArray`. -/

namespace Zylib.Rediscpp

/-- A `redisReply` with its elements; `other` is of a type that the library does not know. -/
inductive RedisReply where
  | string (str : Bytes)
  | array (element : List RedisReply)
  | integer (integer : Int64)
  | nil
  | status (str : Bytes)
  | error (str : Bytes)
  | other

namespace Script

/-- `replyToRedisBuffer`. -/
def replyToRedisBuffer (str : Bytes) : Buffer := .ofString str

/-- A node that holds a buffer. -/
def leaf (b : Buffer) : Except Fault BufferArray :=
  match BufferArray.setBuffer b .initBuffer with
  | (.error e, _) => .error e
  | (.ok (), ret) => .ok ret

mutual

def luaToRedis : RedisReply → Except Fault BufferArray
  | .string str => leaf (replyToRedisBuffer str)
  | .array element => pushElements element .initArray
  | .integer integer => leaf (.ofLongLong integer.toInt)
  | .nil => .ok .initBuffer
  | .status str => leaf (replyToRedisBuffer str)
  | .error str => .error (.throws (.replyErrorException (str.takeWhile (· ≠ 0))))
  | .other => .ok .initBuffer

/-- The loop over the elements, each pushed behind those before it. -/
def pushElements : List RedisReply → BufferArray → Except Fault BufferArray
  | [], ret => .ok ret
  | reply :: element, ret =>
    match luaToRedis reply with
    | .error e => .error e
    | .ok a =>
      match BufferArray.pushBack a ret with
      | (.error e, _) => .error e
      | (.ok (), ret) => pushElements element ret

end

/-! ### What the tree has to be -/

/-- The tree has the shape of the reply, and at its leaves what the reply has. -/
inductive Image : RedisReply → BufferArray → Prop
  | string (str : Bytes) : Image (.string str) { type := .BUFFER, buffer := { data := str } }
  | status (str : Bytes) : Image (.status str) { type := .BUFFER, buffer := { data := str } }
  | integer (n : Int64) : Image (.integer n) { type := .BUFFER, buffer := { data := printfD 0 n.toInt } }
  | nil : Image .nil { type := .BUFFER, buffer := { data := [] } }
  | other : Image .other { type := .BUFFER, buffer := { data := [] } }
  | array {element : List RedisReply} {as : List BufferArray} : List.Forall₂ Image element as →
      Image (.array element) { type := .ARRAY, array := as }

/-- An ERROR node is the reply, or is reached through its elements. -/
inductive HasError : RedisReply → Prop
  | error (str : Bytes) : HasError (.error str)
  | element {reply : RedisReply} {element : List RedisReply} : reply ∈ element → HasError reply → HasError (.array element)

end Script

end Zylib.Rediscpp
