import Zylib.Nel.NSTools
import Zylib.Theorems.KNet.Codec

/-! `decode` cuts the last character off the name that `encode` wrote. It reads inside the vector as long as the places in it
    are numbers of type `int`. -/

namespace Zylib.Nel.NSTools

open KNet.MessageDecoder (resize memcpyAt memcpyAt_zeros)

variable {Message Descriptor Prototype : Type} {pb : Protobuf Message Descriptor Prototype} {msg : Message}
  {src body : Bytes}

/-! ### The layout -/

theorem encode_eq (h : pb.serializePartialToArray msg = some body) :
    encode pb msg = pb.getTypeName msg ++ 0 :: body := by
  have hresize (n : Nat) : resize [] n = [] ++ List.replicate n 0 := by simp [resize]
  have hlen := pb.length_serialize msg body h
  unfold encode
  rw [h]
  dsimp only
  have hname : memcpyAt (resize [] ((pb.getTypeName msg).length + 1 + pb.byteSize msg)) 0 (pb.getTypeName msg) =
      (pb.getTypeName msg ++ [0]) ++ List.replicate (pb.byteSize msg) 0 := by
    rw [hresize, memcpyAt_zeros (k := 1 + pb.byteSize msg) (show 0 = ([] : Bytes).length from rfl) (Nat.add_assoc _ _ _),
      List.replicate_add]
    simp
  rw [hname, memcpyAt_zeros (k := 0) (by simp) (by omega)]
  simp

theorem findIdx?_encode_le {i : Nat} (name : Bytes) (hi : (name ++ 0 :: body).findIdx? (· = 0) = some i) :
    i ≤ name.length := by
  obtain ⟨hlt, -, hbefore⟩ := List.findIdx?_eq_some_iff_getElem.mp hi
  by_contra hle
  have hnul := hbefore name.length (by omega)
  simp at hnul

theorem findIdx?_encode {name : Bytes} (hname : 0 ∉ name) :
    (name ++ 0 :: body).findIdx? (· = 0) = some name.length := by
  rw [List.findIdx?_eq_some_iff_getElem]
  refine ⟨by simp, by simp, fun j hj => ?_⟩
  rw [List.getElem_append_left hj]
  have hne : name[j] ≠ 0 := fun h => hname (h ▸ List.getElem_mem hj)
  simpa using hne

/-! ### decode -/

theorem nulPos_lt (src : Bytes) : nulPos src < src.length := by
  unfold nulPos
  split
  · rename_i i hi
    have hlt := (List.findIdx?_eq_some_iff_getElem.mp hi).1
    exact Int.lt_of_le_of_lt (sizeToInt_le i) (by omega)
  · omega

/-- What `decode` takes for the name. -/
def nameBefore (src : Bytes) : Bytes := src.take (nulPos src - 1).toNat

/-- What `decode` takes for the message. -/
def bodyAfter (src : Bytes) : Bytes :=
  (src.drop (nulPos src + 1).toNat).take (sizeToInt src.length - nulPos src - 1).toNat

theorem decode_of_pos (h : 0 < nulPos src) : decode pb src =
    match findPrototype pb (nameBefore src) with
    | none => .ok none
    | some prototype =>
      if sizeToInt src.length ≤ nulPos src then .error .range
      else .ok ((pb.parseFromArray prototype (bodyAfter src)).map fun data => ⟨data, nameBefore src, bodyAfter src⟩) := by
  have hlt := nulPos_lt src
  have hlen := sizeToInt_le src.length
  unfold decode nameBefore
  dsimp only
  rw [if_neg (by omega), if_neg (by omega)]
  cases findPrototype pb (src.take (nulPos src - 1).toNat) with
  | none => rfl
  | some prototype =>
    dsimp only
    by_cases hle : sizeToInt src.length ≤ nulPos src
    · rw [if_pos (by omega), if_pos hle]
    · rw [if_neg (by omega), if_neg hle, bodyAfter]
      cases pb.parseFromArray prototype _ <;> rfl

/-- A message comes out with a name that is shorter than what comes before the first NUL. -/
theorem length_msgName_lt {ns : NSMessage Message} (h : decode pb src = .ok (some ns)) :
    ∃ i, src.findIdx? (· = 0) = some i ∧ ns.msgName.length < i := by
  have hpos : 0 < nulPos src := by
    by_contra hle
    unfold decode at h
    dsimp only at h
    by_cases hnull : nulPos src = -1 ∨ nulPos src = 0
    · rw [if_pos hnull] at h
      cases h
    · rw [if_neg hnull, if_pos (by omega)] at h
      cases h
  have hname : ns.msgName = nameBefore src := by
    rw [decode_of_pos hpos] at h
    split at h
    · cases h
    · split_ifs at h
      obtain ⟨data, -, rfl⟩ := Option.map_eq_some_iff.mp (Except.ok.inj h)
      rfl
  rw [hname, nameBefore, List.length_take]
  unfold nulPos at hpos ⊢
  split at hpos
  · rename_i i hi
    have hle := sizeToInt_le i
    exact ⟨i, hi, by omega⟩
  · omega

/-- The bytes for the message are in their place, but the last character of the name is missing. -/
theorem decode_encode (h : pb.serializePartialToArray msg = some body) (hne : pb.getTypeName msg ≠ [])
    (hname : 0 ∉ pb.getTypeName msg) (hlt : (encode pb msg).length < 2 ^ 31) :
    decode pb (encode pb msg) = .ok ((findPrototype pb (pb.getTypeName msg).dropLast).bind fun prototype =>
      (pb.parseFromArray prototype body).map fun data => ⟨data, (pb.getTypeName msg).dropLast, body⟩) := by
  rw [encode_eq h] at hlt ⊢
  generalize pb.getTypeName msg = name at *
  have hpos : 0 < name.length := List.length_pos_of_ne_nil hne
  have hlen : (name ++ 0 :: body).length = name.length + (body.length + 1) := by simp
  have hnul : nulPos (name ++ 0 :: body) = name.length := by
    rw [nulPos, findIdx?_encode hname]
    exact sizeToInt_of_lt (by omega)
  have hsize : sizeToInt (name ++ 0 :: body).length = (name.length + (body.length + 1) : Nat) := by
    rw [sizeToInt_of_lt hlt, hlen]
  have hbefore : nameBefore (name ++ 0 :: body) = name.dropLast := by
    have htoNat : (name.length - 1 : Int).toNat = name.length - 1 := by omega
    rw [nameBefore, hnul, htoNat, List.take_append_of_le_length (Nat.sub_le _ _), List.dropLast_eq_take]
  have hafter : bodyAfter (name ++ 0 :: body) = body := by
    have hdrop : (name ++ 0 :: body).drop (name.length + 1 : Int).toNat = body := by
      have htoNat : (name.length + 1 : Int).toNat = name.length + 1 := by omega
      rw [htoNat, List.drop_length_add_append]
      rfl
    have htake : ((name.length + (body.length + 1) : Nat) - name.length - 1 : Int).toNat = body.length := by omega
    rw [bodyAfter, hnul, hsize, hdrop, htake, List.take_length]
  rw [decode_of_pos (by omega), hbefore, hafter]
  cases findPrototype pb name.dropLast with
  | none => rfl
  | some prototype => exact if_neg (by omega)

/-! ### What the codec keeps -/

/-- A message comes back under its name, from the bytes that were serialized. -/
def RoundTrips (pb : Protobuf Message Descriptor Prototype) (msg : Message) : Prop :=
  ∃ body ns, pb.serializePartialToArray msg = some body ∧ decode pb (encode pb msg) = .ok (some ns) ∧
    ns.msgName = pb.getTypeName msg ∧ ns.parsed = body

theorem not_roundTrips_any (pb : Protobuf Message Descriptor Prototype) (msg : Message) : ¬ RoundTrips pb msg := by
  rintro ⟨body, ns, hbody, hdecode, hname, -⟩
  obtain ⟨i, hi, hlt⟩ := length_msgName_lt hdecode
  rw [encode_eq hbody] at hi
  have hle := findIdx?_encode_le _ hi
  rw [hname] at hlt
  omega

def ReadsInside (pb : Protobuf Message Descriptor Prototype) (src : Bytes) : Prop := ∃ ns, decode pb src = .ok ns

/-- There is no NUL or it is the first byte, or its place is positive as an `int` and, if the name before it is found, so is
    that of the end. -/
def IntPlaces (pb : Protobuf Message Descriptor Prototype) (src : Bytes) : Prop :=
  nulPos src = -1 ∨ nulPos src = 0 ∨ 0 < nulPos src ∧
    (findPrototype pb (nameBefore src) = none ∨ nulPos src < sizeToInt src.length)

theorem readsInside_iff : ReadsInside pb src ↔ IntPlaces pb src := by
  unfold ReadsInside IntPlaces
  by_cases hnull : nulPos src = -1 ∨ nulPos src = 0
  · exact iff_of_true ⟨none, if_pos hnull⟩ (by tauto)
  by_cases hpos : 0 < nulPos src
  · rw [decode_of_pos hpos]
    split
    · rename_i hfind
      exact iff_of_true ⟨none, rfl⟩ (Or.inr (Or.inr ⟨hpos, Or.inl hfind⟩))
    · rename_i prototype hfind
      split_ifs with hle
      · refine iff_of_false (fun ⟨ns, h⟩ => by cases h) ?_
        rw [hfind]
        simp only [reduceCtorEq, false_or]
        omega
      · exact iff_of_true ⟨_, rfl⟩ (Or.inr (Or.inr ⟨hpos, Or.inr (by omega)⟩))
  · have herror : decode pb src = .error .range := by
      unfold decode
      dsimp only
      rw [if_neg hnull, if_pos (by omega)]
    rw [herror]
    exact iff_of_false (fun ⟨ns, h⟩ => by cases h) (by omega)

/-- Every vector of less than 2 GiB. -/
theorem readsInside_of_lt (h : src.length < 2 ^ 31) : ReadsInside pb src := by
  rw [readsInside_iff, IntPlaces, sizeToInt_of_lt h]
  have hlt := nulPos_lt src
  have hge : -1 ≤ nulPos src := by
    unfold nulPos
    split
    · rename_i i hi
      have hi := (List.findIdx?_eq_some_iff_getElem.mp hi).1
      rw [sizeToInt_of_lt (by omega)]
      omega
    · exact Int.le_refl _
  omega

theorem codec_loses_names (pb : Protobuf Message Descriptor Prototype) :
    (∀ msg, ¬ RoundTrips pb msg) ∧ ∀ src, ReadsInside pb src ↔ IntPlaces pb src :=
  ⟨not_roundTrips_any pb, fun _ => readsInside_iff⟩

/-! ### A type -/

/-- The name `ns.Ping`. -/
def pingName : Bytes := [110, 115, 46, 80, 105, 110, 103]

/-- One type and one message of it. -/
def pingProtobuf : Protobuf Unit Unit Unit where
  getTypeName _ := pingName
  byteSize _ := 2
  serializePartialToArray _ := some [8, 1]
  findMessageTypeByName name := if name = pingName then some () else none
  getPrototype _ := some ()
  parseFromArray _ body := if body = [8, 1] then some () else none
  length_serialize _ body h := by
    cases h
    rfl
  parse_serialize _ body h _ _ := by
    cases h
    exact ⟨(), rfl, rfl⟩

/-- The name is looked up as `ns.Pin`. -/
theorem not_roundTrips : ¬ ∀ (Message Descriptor Prototype : Type) (pb : Protobuf Message Descriptor Prototype)
    (msg : Message), pb.getTypeName msg ≠ [] → 0 ∉ pb.getTypeName msg →
      (pb.findMessageTypeByName (pb.getTypeName msg)).isSome → RoundTrips pb msg := by
  intro h
  obtain ⟨body, ns, -, hdecode, -⟩ := h Unit Unit Unit pingProtobuf () (by decide) (by decide) (by decide)
  cases hdecode

end Zylib.Nel.NSTools
