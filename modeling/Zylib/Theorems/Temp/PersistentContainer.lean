import Zylib.Temp.PersistentContainer
import Zylib.Theorems.KNet.Codec

/-! What is read back from the bytes of a container is the container, where the target is empty: a list is added to what it
    has, and a vector that is parsed without elements keeps what it has. -/

namespace Zylib.Temp.PersistentContainer
open LittleEndian
open KNet.MessageDecoder (memcpyAt memcpyAt_zeros)

variable {T : Type} {pod : Pod T}

/-! ### Bytes -/

theorem length_flatMap (data : List T) : (data.flatMap pod.toBytes).length = pod.valueSize * data.length := by
  induction data with
  | nil => rfl
  | cons slot data ih =>
    rw [List.flatMap_cons, List.length_append, pod.length_toBytes, ih, List.length_cons, Nat.mul_succ, Nat.add_comm]

/-- Slot by slot the loop writes what a `memcpy` writes at once. -/
theorem writeSlots_zeros (pod : Pod T) : ∀ (data : List T) (a : Bytes) (k : Nat),
    writeSlots pod data (a ++ List.replicate (pod.valueSize * data.length + k) 0) a.length =
      a ++ data.flatMap pod.toBytes ++ List.replicate k 0
  | [], a, k => by simp [writeSlots]
  | slot :: data, a, k => by
    have hlen : pod.valueSize * (slot :: data).length + k =
        (pod.toBytes slot).length + (pod.valueSize * data.length + k) := by
      rw [pod.length_toBytes, List.length_cons, Nat.mul_succ]
      omega
    have hpos : a.length + pod.valueSize = (a ++ pod.toBytes slot).length := by
      rw [List.length_append, pod.length_toBytes]
    rw [writeSlots, memcpyAt_zeros rfl hlen, hpos, writeSlots_zeros pod data, List.flatMap_cons]
    simp only [List.append_assoc]

theorem toBinary_eq (type : ContainerType) (x : PersistentContainer T) :
    toBinary pod type x = int32Bytes x.nullSentinel ++ x.data.flatMap pod.toBytes := by
  have hsentinel : memcpyAt (List.replicate (bytes pod x) 0) 0 (int32Bytes x.nullSentinel) =
      int32Bytes x.nullSentinel ++ List.replicate (pod.valueSize * x.data.length) 0 := by
    have hlen : bytes pod x = (int32Bytes x.nullSentinel).length + pod.valueSize * x.data.length := by
      rw [length_int32Bytes]
      rfl
    exact memcpyAt_zeros (a := []) rfl hlen
  have hpos : SENTINEL_SIZE = (int32Bytes x.nullSentinel).length := (length_int32Bytes _).symm
  unfold toBinary
  dsimp only
  rw [hsentinel]
  split
  next h =>
    rw [List.isEmpty_iff.mp h]
    rfl
  next =>
    cases type with
    | vector =>
      have hlen : (x.data.flatMap pod.toBytes).length = _ := length_flatMap x.data
      have hmemcpy := memcpyAt_zeros (k := 0) hpos hlen.symm
      rw [List.replicate_zero, List.append_nil] at hmemcpy
      exact hmemcpy
    | list =>
      have hloop := writeSlots_zeros pod x.data (int32Bytes x.nullSentinel) 0
      rw [Nat.add_zero, ← hpos, List.replicate_zero, List.append_nil] at hloop
      exact hloop

/-! ### Slots -/

theorem emplaceSlots_eq (cnt : Nat) (pos : Bytes) (data : List T) :
    emplaceSlots pod cnt pos data = data ++ slots pod cnt pos := by
  induction cnt generalizing pos data with
  | zero => rw [emplaceSlots, slots, List.append_nil]
  | succ cnt ih => rw [emplaceSlots, slots, ih, List.append_assoc, List.singleton_append]

theorem slots_flatMap (data : List T) : slots pod data.length (data.flatMap pod.toBytes) = data := by
  induction data with
  | nil => rfl
  | cons slot data ih =>
    rw [List.length_cons, slots, List.flatMap_cons, List.take_left' (pod.length_toBytes slot),
      List.drop_left' (pod.length_toBytes slot), pod.ofBytes_toBytes, ih]

/-! ### Parsing -/

/-- What is parsed from the bytes of a container. -/
theorem parse_serialize (pod : Pod T) (type : ContainerType) (x y : PersistentContainer T) :
    parseFromBinary pod type y (serializeToBinary pod type x) =
      (true, { nullSentinel := x.nullSentinel
               data := match type with
                 | .vector => if x.data = [] then y.data else x.data
                 | .list => y.data ++ x.data }) := by
  have hsentinel : (int32Bytes x.nullSentinel).length = SENTINEL_SIZE := length_int32Bytes _
  have hlen : (toBinary pod type x).length = SENTINEL_SIZE + pod.valueSize * x.data.length := by
    rw [toBinary_eq, List.length_append, hsentinel, length_flatMap]
  have hsub : (toBinary pod type x).length - SENTINEL_SIZE = pod.valueSize * x.data.length := by
    rw [hlen, Nat.add_sub_cancel_left]
  have hdrop : (toBinary pod type x).drop SENTINEL_SIZE = x.data.flatMap pod.toBytes := by
    rw [toBinary_eq, List.drop_left' hsentinel]
  have htake : int32OfBytes ((toBinary pod type x).take SENTINEL_SIZE) = x.nullSentinel := by
    rw [toBinary_eq, List.take_left' hsentinel, int32OfBytes_int32Bytes]
  have hne : (toBinary pod type x).isEmpty = false := by
    rw [List.isEmpty_eq_false_iff, ← List.length_pos_iff, hlen]
    exact Nat.lt_of_lt_of_le (by decide) (Nat.le_add_right SENTINEL_SIZE _)
  have hlt : ¬(toBinary pod type x).length < SENTINEL_SIZE := by
    rw [hlen]
    exact Nat.not_lt.mpr (Nat.le_add_right _ _)
  unfold parseFromBinary serializeToBinary fromBinary
  dsimp only
  rw [hne, if_neg Bool.false_ne_true, if_neg hlt, hsub, Nat.mul_mod_right, if_neg (not_not_intro rfl),
    Nat.mul_div_cancel_left _ pod.valueSize_pos, hdrop, htake]
  cases type with
  | vector =>
    by_cases hdata : x.data = []
    · simp [hdata]
    · simp [hdata, slots_flatMap]
  | list => simp only [emplaceSlots_eq, slots_flatMap]

/-- A container that is rejected has been compared with nothing but its length. -/
theorem parse_rejects (type : ContainerType) (y : PersistentContainer T) (data : Bytes)
    (h : (parseFromBinary pod type y data).1 = false) : (parseFromBinary pod type y data).2 = y := by
  have hcases : (parseFromBinary pod type y data).1 = true ∨ parseFromBinary pod type y data = (false, y) := by
    unfold parseFromBinary fromBinary
    split
    · exact .inr rfl
    split
    · exact .inr rfl
    dsimp only
    split
    · exact .inr rfl
    cases type with
    | vector =>
      dsimp only
      split <;> exact .inl rfl
    | list => exact .inl rfl
  rcases hcases with htrue | heq
  · cases h.symm.trans htrue
  · rw [heq]

/-! ### Equality -/

theorem equals_iff (x y : PersistentContainer T) : equals pod x y = true ↔
    x.nullSentinel = y.nullSentinel ∧ x.data.length = y.data.length ∧ ∀ ab ∈ x.data.zip y.data, pod.eq ab.1 ab.2 = true := by
  simp [equals, and_assoc]

theorem forall_mem_zip_self (data : List T) :
    (∀ ab ∈ data.zip data, pod.eq ab.1 ab.2 = true) ↔ ∀ value ∈ data, pod.eq value value = true := by
  induction data with
  | nil => simp
  | cons value data ih => rw [List.zip_cons_cons, List.forall_mem_cons, List.forall_mem_cons, ih]

theorem equals_self_iff (x : PersistentContainer T) : equals pod x x = true ↔ ∀ value ∈ x.data, pod.eq value value = true := by
  rw [equals_iff, and_iff_right rfl, and_iff_right rfl, forall_mem_zip_self]

/-- If what is parsed is the container, it is equal to it as far as its elements are equal to themselves. -/
theorem roundTrip_of_parse {type : ContainerType} {x y : PersistentContainer T}
    (h : parseFromBinary pod type y (serializeToBinary pod type x) = (true, x)) :
    RoundTrip pod type x y ↔ ∀ value ∈ x.data, pod.eq value value = true := by
  rw [← equals_self_iff]
  refine ⟨fun hround => ?_, fun hself => ⟨by rw [h], by rw [h]; exact hself, parse_rejects type y⟩⟩
  have hequals := hround.equals
  rwa [h] at hequals

/-- Containers of different lengths are not equal, whatever their elements are. -/
theorem not_roundTrip_of_length {type : ContainerType} {x y z : PersistentContainer T}
    (h : parseFromBinary pod type y (serializeToBinary pod type x) = (true, z)) (hlen : z.data.length ≠ x.data.length) :
    ¬RoundTrip pod type x y := by
  intro hround
  have hequals := hround.equals
  rw [h] at hequals
  exact hlen ((equals_iff z x).mp hequals).2.1

/-- The round trip gives the container back if, and only if, the target fits. -/
theorem roundTrip_iff_fits (pod : Pod T) (type : ContainerType) (x y : PersistentContainer T) :
    RoundTrip pod type x y ↔ Fits pod type x y := by
  have hparse := parse_serialize pod type x y
  unfold Fits
  cases type with
  | vector =>
    by_cases htarget : x.data = [] → y.data = []
    · have hdata : (if x.data = [] then y.data else x.data) = x.data := by
        split
        next h => rw [htarget h, h]
        next => rfl
      rw [roundTrip_of_parse (hparse.trans (by rw [hdata])), and_iff_left htarget]
    · obtain ⟨hx, hy⟩ := Classical.not_imp.mp htarget
      refine iff_of_false (not_roundTrip_of_length hparse ?_) fun h => htarget h.2
      simpa [hx] using hy
  | list =>
    by_cases htarget : y.data = []
    · rw [roundTrip_of_parse (hparse.trans (by rw [htarget, List.nil_append])), and_iff_left htarget]
    · refine iff_of_false (not_roundTrip_of_length hparse ?_) fun h => htarget h.2
      simpa using htarget

/-- The bytes, each a value of its own. -/
def octet : Pod UInt8 where
  valueSize := 1
  valueSize_pos := Nat.one_pos
  toBytes value := [value]
  ofBytes bytes := bytes.headD 0
  length_toBytes _ := rfl
  ofBytes_toBytes _ := rfl
  eq a b := a == b

/-- A list that is parsed into one that has an element gets one more. -/
theorem not_roundTrip : ¬ ∀ (T : Type) (pod : Pod T) (type : ContainerType) (x y : PersistentContainer T),
    (∀ value ∈ x.data, pod.eq value value = true) → RoundTrip pod type x y := by
  intro h
  have hself : ∀ value ∈ [(7 : UInt8)], octet.eq value value = true := by simp [octet]
  have hparse := parse_serialize octet .list { data := [7] } { data := [7] }
  exact not_roundTrip_of_length hparse (by simp) (h UInt8 octet .list _ _ hself)

end Zylib.Temp.PersistentContainer
