import Zylib.Rediscpp.Script
import Zylib.Theorems.Rediscpp.BufferArray

/-! What `luaToRedis` makes of a reply is its image, node by node, unless the reply has an error in it. -/

namespace Zylib.Rediscpp.Script
open BufferArray

theorem data_ofString (str : Bytes) : Buffer.ofString str = { data := str } := by
  cases str <;> rfl

theorem leaf_eq (b : Buffer) : leaf b = .ok { type := .BUFFER, buffer := b } := by
  unfold leaf
  rw [setBuffer_eq rfl b]
  rfl

/-- The image of a reply, or the error that was met on the way. -/
def Converts (reply : RedisReply) (result : Except Fault BufferArray) : Prop :=
  (∃ a, result = .ok a ∧ Image reply a ∧ ¬HasError reply) ∨
    ∃ str, result = .error (.throws (.replyErrorException str)) ∧ HasError reply

theorem converts_leaf {reply : RedisReply} {data : Bytes} (himage : Image reply { type := .BUFFER, buffer := { data := data } })
    (herror : ¬HasError reply) : Converts reply (leaf { data := data }) :=
  .inl ⟨_, leaf_eq _, himage, herror⟩

mutual

theorem luaToRedis_converts : ∀ reply, Converts reply (luaToRedis reply)
  | .string str => by
    rw [luaToRedis, replyToRedisBuffer, data_ofString]
    exact converts_leaf (.string str) nofun
  | .status str => by
    rw [luaToRedis, replyToRedisBuffer, data_ofString]
    exact converts_leaf (.status str) nofun
  | .integer n => by
    rw [luaToRedis, Buffer.ofLongLong, Buffer.ofInteger, data_ofString]
    exact converts_leaf (.integer n) nofun
  | .nil => .inl ⟨.initBuffer, by rw [luaToRedis], .nil, nofun⟩
  | .other => .inl ⟨.initBuffer, by rw [luaToRedis], .other, nofun⟩
  | .error str => .inr ⟨_, by rw [luaToRedis], .error str⟩
  | .array element => by
    rw [luaToRedis]
    rcases pushElements_converts element .initArray rfl with ⟨as, hok, himage, herror⟩ | ⟨str, hthrow, reply, hmem, herror⟩
    · refine .inl ⟨_, hok, .array himage, fun h => ?_⟩
      cases h with
      | element hmem h => exact herror _ hmem h
    · exact .inr ⟨str, hthrow, .element hmem herror⟩

/-- The elements that are pushed come behind those that `ret` has. -/
theorem pushElements_converts : ∀ (element : List RedisReply) (ret : BufferArray), ret.type = .ARRAY →
    (∃ as, pushElements element ret = .ok { ret with array := ret.array ++ as } ∧ List.Forall₂ Image element as ∧
      ∀ reply ∈ element, ¬HasError reply) ∨
    ∃ str, pushElements element ret = .error (.throws (.replyErrorException str)) ∧ ∃ reply ∈ element, HasError reply
  | [], ret, _ => by
    refine .inl ⟨[], ?_, .nil, nofun⟩
    rw [pushElements, List.append_nil]
    cases ret
    rfl
  | reply :: element, ret, htype => by
    rw [pushElements]
    rcases luaToRedis_converts reply with ⟨a, hok, himage, herror⟩ | ⟨str, hthrow, herror⟩
    · rw [hok]
      dsimp only
      rw [pushBack_eq htype a]
      rcases pushElements_converts element { ret with array := ret.array ++ [a] } htype with
        ⟨as, hok', himage', herror'⟩ | ⟨str, hthrow, reply', hmem, herror'⟩
      · refine .inl ⟨a :: as, ?_, .cons himage himage', List.forall_mem_cons.mpr ⟨herror, herror'⟩⟩
        rw [List.append_cons ret.array a as]
        exact hok'
      · exact .inr ⟨str, hthrow, reply', List.mem_cons_of_mem reply hmem, herror'⟩
    · rw [hthrow]
      exact .inr ⟨str, rfl, reply, List.mem_cons_self, herror⟩

end

/-- Without an error in it a reply is turned into its image, and `ReplyErrorException` is thrown just for those with one. -/
theorem luaToRedis_preserves (reply : RedisReply) :
    (¬HasError reply → ∃ a, luaToRedis reply = .ok a ∧ Image reply a) ∧
      ((∃ str, luaToRedis reply = .error (.throws (.replyErrorException str))) ↔ HasError reply) := by
  rcases luaToRedis_converts reply with ⟨a, hok, himage, herror⟩ | ⟨str, hthrow, herror⟩
  · refine ⟨fun _ => ⟨a, hok, himage⟩, fun ⟨str, hstr⟩ => ?_, fun h => absurd h herror⟩
    cases hok.symm.trans hstr
  · exact ⟨fun h => absurd herror h, fun _ => herror, fun _ => ⟨str, hthrow⟩⟩

theorem luaToRedis_preserves_nested :
    ∃ a, luaToRedis (.array [.integer 7, .array [.nil, .status OK]]) = .ok a ∧
      Image (.array [.integer 7, .array [.nil, .status OK]]) a := by
  refine (luaToRedis_preserves _).1 fun h => ?_
  cases h with
  | element hmem h =>
    rcases List.mem_cons.mp hmem with rfl | hmem
    · cases h
    · cases List.mem_singleton.mp hmem
      cases h with
      | element hmem h =>
        rcases List.mem_cons.mp hmem with rfl | hmem
        · cases h
        · cases List.mem_singleton.mp hmem
          cases h

end Zylib.Rediscpp.Script
