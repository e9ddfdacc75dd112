import Zylib.KNet.RPCManager

/-! The texts of the keys. A key is a service id and a decimal number with nothing between them: it
    tells the numbers of one service apart, but not always two services. -/

namespace Zylib.KNet

/-- The key of the RPC number `n` of a service; that of a routed message has the number 0. -/
def rpcKey (sid : ServiceId) (n : Nat) : Key := sid ++ decimal (uint64 n)

/-- The key that a message with this origin has. -/
def Origin.key (o : Origin) : Key := rpcKey o.root.1 o.root.2

def Origin.IsAnswer (o : Origin) : Prop := ∃ o', o = .answer o'

theorem rpcKey_inj {sid : ServiceId} {n m : Nat} : rpcKey sid n = rpcKey sid m ↔ uint64 n = uint64 m :=
  ⟨fun h => decimal_injective (List.append_cancel_left h), fun h => by rw [rpcKey, rpcKey, h]⟩

theorem routed_key (sid : ServiceId) : sid ++ [48] = rpcKey sid 0 := rfl

/-- Keys of two services agree only if one id is the other and then digits. -/
theorem eq_append_of_rpcKey {sid sid' : ServiceId} {n m : Nat} (h : rpcKey sid n = rpcKey sid' m) :
    ∃ ds : Bytes, (∀ c ∈ ds, isDigit c) ∧ (sid = sid' ++ ds ∨ sid' = sid ++ ds) := by
  rcases List.append_eq_append_iff.mp h with ⟨ds, hsid, hds⟩ | ⟨ds, hsid, hds⟩
  · exact ⟨ds, fun c hc => isDigit_of_mem_decimal (hds ▸ List.mem_append_left _ hc), Or.inr hsid⟩
  · exact ⟨ds, fun c hc => isDigit_of_mem_decimal (hds ▸ List.mem_append_left _ hc), Or.inl hsid⟩

end Zylib.KNet
