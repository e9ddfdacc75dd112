import Mathlib.Data.List.TakeWhile
import Zylib.Rediscpp.Del

/-! What `DEL` sends is what its keys are only as far as `redisCommand` takes each byte of them as itself. The bytes of the
    arguments are counted: a space, a NUL and a directive of the format all leave fewer than the format has. -/

namespace Zylib.Rediscpp

variable {hiredis : Hiredis}

/-! ### Literal texts -/

theorem literal_append {a b : Bytes} (hb : b ≠ []) :
    hiredis.Literal (a ++ b) ↔ (∀ x ∈ a, x ≠ 37) ∧ hiredis.Literal b := by
  induction a with
  | nil => simp
  | cons x a ih =>
    have hne : a ++ b ≠ [] := List.append_ne_nil_of_right_ne_nil a hb
    simp only [List.cons_append, Hiredis.Literal, ih, hne, and_false, List.forall_mem_cons, imp_false, and_assoc]

theorem literal_flatMap_iff : ∀ {keys : List Bytes}, (∀ k ∈ keys, k ≠ []) →
    (hiredis.Literal (keys.flatMap fun k => 32 :: k) ↔ hiredis.Literal keys.flatten)
  | [], _ => Iff.rfl
  | [k], _ => by simp [Hiredis.Literal]
  | k :: k' :: keys, hne => by
    have htail : ∀ x ∈ k' :: keys, x ≠ [] := fun x hx => hne x (List.mem_cons_of_mem k hx)
    have hflat : (k' :: keys).flatten ≠ [] := by simp [htail k' List.mem_cons_self]
    have hmap : (k' :: keys).flatMap (fun k => 32 :: k) ≠ [] := by simp
    rw [List.flatMap_cons, List.flatten_cons, literal_append hmap, literal_append hflat, literal_flatMap_iff htail]
    simp

/-! ### Counting the bytes of the arguments -/

/-- The bytes that are no space. -/
def nonspace (text : Bytes) : Nat := text.countP (· ≠ 32)

def total (argv : List Bytes) : Nat := (argv.map List.length).sum

theorem total_toList (current : Option Bytes) : total current.toList = (current.getD []).length := by
  cases current <;> simp [total]

/-- A `"%%"` is written once. -/
theorem scan_total_le {format : Bytes} {current : Option Bytes} {argv : List Bytes}
    (h : hiredis.scan format current = .send argv) :
    total argv ≤ nonspace format + (current.getD []).length ∧
      (total argv = nonspace format + (current.getD []).length → hiredis.Literal format) := by
  fun_induction Hiredis.scan hiredis format current generalizing argv with
  | case1 current =>
    cases h
    simp [total_toList, nonspace, Hiredis.Literal]
  | case2 current hlone =>
    cases h
    simp [total, nonspace, Hiredis.Literal, hlone, Nat.add_comm]
  | case3 => cases h
  | case4 format current ih =>
    have hle := (ih h).1
    simp only [Option.getD_some, List.length_append, List.length_singleton] at hle
    have hcount : nonspace (37 :: 37 :: format) = nonspace format + 2 := by simp [nonspace]
    exact ⟨by omega, fun heq => by omega⟩
  | case5 => cases h
  | case6 => cases h
  | case7 format current argv' hscan ih =>
    cases h
    obtain ⟨hle, hlit⟩ := ih hscan
    have htotal : total (current.toList ++ argv') = (current.getD []).length + total argv' := by
      rw [← total_toList current]
      simp [total]
    have hcount : nonspace (32 :: format) = nonspace format := by simp [nonspace]
    simp only [Option.getD_none, List.length_nil, Nat.add_zero] at hle hlit
    rw [htotal, hcount]
    exact ⟨by omega, fun heq => ⟨fun h => absurd h (by decide), hlit (by omega)⟩⟩
  | case8 format current hfailed => exact absurd h (hfailed argv)
  | case9 b format current hlone hpercent hdirective hspace ih =>
    obtain ⟨hle, hlit⟩ := ih h
    have hcount : nonspace (b :: format) = nonspace format + 1 := by
      simp [nonspace, show b ≠ 32 from hspace]
    have hlength : ((some (current.getD [] ++ [b])).getD []).length = (current.getD []).length + 1 := by simp
    rw [hlength] at hle hlit
    rw [hcount]
    exact ⟨by omega, fun heq => ⟨fun h => absurd h hdirective, hlit (by omega)⟩⟩

/-- What follows a NUL is lost. -/
theorem nonspace_takeWhile_le (text : Bytes) :
    nonspace (text.takeWhile (· ≠ 0)) ≤ nonspace text ∧
      (nonspace (text.takeWhile (· ≠ 0)) = nonspace text → ∀ b ∈ text, b ≠ 0) := by
  induction text with
  | nil => simp
  | cons b text ih =>
    by_cases hb : b = 0
    · simp [hb, nonspace]
    · obtain ⟨hle, hall⟩ := ih
      have hcons : (b :: text).takeWhile (· ≠ 0) = b :: text.takeWhile (· ≠ 0) := by simp [hb]
      rw [hcons]
      simp only [nonspace, List.countP_cons, List.forall_mem_cons] at hle hall ⊢
      exact ⟨by omega, fun heq => ⟨hb, hall (by omega)⟩⟩

theorem nonspace_flatMap (keys : List Bytes) : nonspace (keys.flatMap fun k => 32 :: k) = nonspace keys.flatten := by
  simp [nonspace, List.countP_flatMap, List.countP_flatten, Function.comp_def]

/-! ### Scanning plain texts -/

theorem scan_cons {b : UInt8} {format : Bytes} (current : Option Bytes) (hspace : b ≠ 32)
    (hpercent : b = 37 → hiredis.lone = true ∧ format = []) :
    hiredis.scan (b :: format) current = hiredis.scan format (some (current.getD [] ++ [b])) := by
  by_cases hb : b = 37
  · obtain ⟨hlone, rfl⟩ := hpercent hb
    subst hb
    simp [Hiredis.scan, hlone]
  · rw [Hiredis.scan]
    · exact fun h _ => hb h
    · exact fun _ h _ => hb h
    · exact hb
    · exact hspace

/-- A word of plain bytes is added to the argument that has been begun. -/
theorem scan_append {rest : Bytes} : ∀ {word : Bytes} (begun : Bytes), (∀ b ∈ word, b ≠ 32) →
    hiredis.Literal (word ++ rest) → hiredis.scan (word ++ rest) (some begun) = hiredis.scan rest (some (begun ++ word))
  | [], begun, _, _ => by rw [List.nil_append, List.append_nil]
  | b :: word, begun, hspace, hlit => by
    obtain ⟨hb, hword⟩ := List.forall_mem_cons.mp hspace
    have hpercent : b = 37 → hiredis.lone = true ∧ word ++ rest = [] := hlit.1
    rw [List.cons_append, scan_cons (some begun) hb hpercent, Option.getD_some, scan_append (begun ++ [b]) hword hlit.2,
      List.append_assoc]
    rfl

theorem scan_space (format : Bytes) {argv : List Bytes} (current : Option Bytes) (h : hiredis.scan format none = .send argv) :
    hiredis.scan (32 :: format) current = .send (current.toList ++ argv) := by
  simp [Hiredis.scan, h]

theorem scan_name (format : Bytes) :
    hiredis.scan (68 :: 69 :: 76 :: format) none = hiredis.scan format (some [68, 69, 76]) := by
  have hplain {b : UInt8} {P : Prop} (hb : b ≠ 37) : b = 37 → P := fun h => absurd h hb
  rw [scan_cons none (by decide) (hplain (by decide)), scan_cons _ (by decide) (hplain (by decide)),
    scan_cons _ (by decide) (hplain (by decide))]
  rfl

theorem scan_keys : ∀ {keys : List Bytes} (current : Option Bytes), (∀ k ∈ keys, k ≠ []) →
    (∀ b ∈ keys.flatten, b ≠ 32) → hiredis.Literal (keys.flatMap fun k => 32 :: k) →
      hiredis.scan (keys.flatMap fun k => 32 :: k) current = .send (current.toList ++ keys)
  | [], current, _, _, _ => by simp [Hiredis.scan]
  | [] :: _, _, hne, _, _ => absurd rfl (hne [] List.mem_cons_self)
  | (b :: k) :: keys, current, hne, hspace, hlit => by
    simp only [List.flatten_cons, List.cons_append, List.mem_cons, List.mem_append] at hspace
    have hlit' : (b = 37 → hiredis.lone = true ∧ (k ++ keys.flatMap fun k => 32 :: k) = []) ∧
        hiredis.Literal (k ++ keys.flatMap fun k => 32 :: k) := hlit.2
    have hkeys := scan_keys (some (b :: k)) (fun x hx => hne x (List.mem_cons_of_mem _ hx))
      (fun x hx => hspace x (.inr (.inr hx))) (by
        cases keys with
        | nil => trivial
        | cons k' keys => exact ((literal_append (by simp)).mp hlit'.2).2)
    have hword : hiredis.scan (b :: k ++ keys.flatMap fun k => 32 :: k) none = .send ((b :: k) :: keys) := by
      rw [List.cons_append, scan_cons none (hspace b (.inl rfl)) hlit'.1,
        scan_append _ (fun x hx => hspace x (.inr (.inl hx))) hlit'.2]
      exact hkeys
    exact scan_space _ current hword

/-! ### The command -/

theorem asString_eq (b : Buffer) : b.asString = b.data := by
  unfold Buffer.asString
  split
  next h => exact (List.isEmpty_iff.mp h).symm
  next => rfl

theorem cmd_eq (keys : List Buffer) :
    cmd keys = [68, 69, 76] ++ 32 :: (keys.map (·.data)).flatMap fun k => 32 :: k := by
  simp [cmd, asString_eq, List.flatMap_map]

/-- The command has as many bytes that are no space as the arguments should have, if the keys have none. -/
theorem nonspace_cmd (keys : List Buffer) : nonspace (cmd keys) = 3 + nonspace (keys.map (·.data)).flatten := by
  have happend (a b : Bytes) : nonspace (a ++ b) = nonspace a + nonspace b := List.countP_append
  have hspace (a : Bytes) : nonspace (32 :: a) = nonspace a := by simp [nonspace]
  rw [cmd_eq, happend, hspace, nonspace_flatMap]
  rfl

theorem total_del (keys : List Bytes) : total ([68, 69, 76] :: keys) = 3 + keys.flatten.length := by
  rw [total, List.map_cons, List.sum_cons, List.length_flatten]
  rfl

theorem takeWhile_cmd {keys : List Buffer} (h : ∀ b ∈ (keys.map (·.data)).flatten, b ≠ 0) :
    (cmd keys).takeWhile (· ≠ 0) = cmd keys := by
  rw [List.takeWhile_eq_self_iff, cmd_eq]
  intro b hb
  simp only [List.mem_append, List.mem_cons, List.mem_flatMap, List.not_mem_nil, or_false] at hb
  have hzero : b ≠ 0 := by
    rcases hb with (rfl | rfl | rfl) | rfl | ⟨k, hk, rfl | hb⟩
    case inr.inr.inr => exact h b (List.mem_flatten.mpr ⟨k, hk, hb⟩)
    all_goals decide
  simpa using hzero

/-- `cmd` is read back as what it was made of if, and only if, no byte of a key is taken for more than itself. -/
theorem format_cmd_iff {keys : List Buffer} (hkeys : ∀ k ∈ keys, k.data ≠ []) :
    hiredis.format (cmd keys) = .send ([68, 69, 76] :: keys.map (·.data)) ↔
      hiredis.Plain (keys.map (·.data)).flatten := by
  have hne : ∀ k ∈ keys.map (·.data), k ≠ [] := by simpa using hkeys
  have hname : hiredis.Literal (cmd keys) ↔ hiredis.Literal (keys.map (·.data)).flatten := by
    rw [← literal_flatMap_iff hne, cmd_eq]
    simp [Hiredis.Literal]
  constructor
  · intro h
    obtain ⟨hle, hlit⟩ := scan_total_le h
    obtain ⟨hcut, hzero⟩ := nonspace_takeWhile_le (cmd keys)
    have hspace : nonspace (keys.map (·.data)).flatten ≤ (keys.map (·.data)).flatten.length := List.countP_le_length
    rw [total_del, Option.getD_none, List.length_nil, Nat.add_zero] at hle hlit
    rw [nonspace_cmd] at hcut hzero
    have hall : ∀ b ∈ cmd keys, b ≠ 0 := hzero (by omega)
    have hflat : ∀ b ∈ (keys.map (·.data)).flatten, b ∈ cmd keys := by
      intro b hb
      obtain ⟨k, hk, hbk⟩ := List.mem_flatten.mp hb
      rw [cmd_eq]
      exact List.mem_append_right _ (List.mem_cons_of_mem _ (List.mem_flatMap.mpr ⟨k, hk, List.mem_cons_of_mem _ hbk⟩))
    have hnone : ∀ b ∈ (keys.map (·.data)).flatten, b ≠ 32 := by
      have hcount : (keys.map (·.data)).flatten.countP (· ≠ 32) = (keys.map (·.data)).flatten.length := by
        unfold nonspace at hspace hcut hle
        omega
      simpa using List.countP_eq_length.mp hcount
    refine ⟨fun b hb => ⟨hnone b hb, hall b (hflat b hb)⟩, hname.mp ?_⟩
    rw [← takeWhile_cmd fun b hb => hall b (hflat b hb)]
    exact hlit (by omega)
  · rintro ⟨hplain, hlit⟩
    have hscan := scan_keys none hne (fun b hb => (hplain b hb).1) ((literal_flatMap_iff hne).mpr hlit)
    have hcmd : cmd keys = 68 :: 69 :: 76 :: 32 :: (keys.map (·.data)).flatMap fun k => 32 :: k := cmd_eq keys
    rw [Hiredis.format, takeWhile_cmd fun b hb => (hplain b hb).2, hcmd, scan_name]
    exact scan_space _ _ hscan

theorem DEL_eq (hiredis : Hiredis) (server : List Bytes → Option Reply) (keys : DelKeys) :
    ∃ bufs : List Buffer, bufs.map (·.data) = keys.bytes ∧ DEL hiredis server keys = delBuffers hiredis server bufs := by
  have hdata (k : Bytes) : (Buffer.ofString k).data = k := by
    unfold Buffer.ofString
    split
    next h => exact (List.isEmpty_iff.mp h).symm
    next => rfl
  cases keys with
  | buffers keys => exact ⟨keys, rfl, rfl⟩
  | buffer key => exact ⟨[key], rfl, rfl⟩
  | strings keys =>
    have hmap : (keys.map Buffer.ofString).map (·.data) = keys := by
      rw [List.map_map]
      exact (List.map_congr_left fun k _ => hdata k).trans (List.map_id keys)
    exact ⟨keys.map .ofString, hmap, rfl⟩
  | string key => exact ⟨[.ofString key], by simp [DelKeys.bytes, hdata], rfl⟩

theorem delBuffers_sends_iff (server : List Bytes → Option Reply) {keys : List Buffer} {argv : List Bytes} (hne : keys ≠ []) :
    (delBuffers hiredis server keys).2 = some argv ↔ hiredis.format (cmd keys) = .send argv := by
  unfold delBuffers
  rw [if_neg (by simpa using hne)]
  split
  next argv' h => simp [h]
  next h => simp [h]
  next h => simp [h]

/-- The server gets the keys as they are if, and only if, no byte of them is a space, a NUL or the `'%'` of a directive. -/
theorem DEL_sends_iff (hiredis : Hiredis) (server : List Bytes → Option Reply) (keys : DelKeys) (hne : keys.bytes ≠ [])
    (hkeys : ∀ k ∈ keys.bytes, k ≠ []) :
    (DEL hiredis server keys).2 = some ([68, 69, 76] :: keys.bytes) ↔ hiredis.Plain keys.bytes.flatten := by
  obtain ⟨bufs, hbytes, hdel⟩ := DEL_eq hiredis server keys
  rw [← hbytes] at hne hkeys ⊢
  rw [hdel, delBuffers_sends_iff server (by simpa using hne), format_cmd_iff (by simpa using hkeys)]

theorem DEL_sends_iff_ab :
    (DEL ⟨true, fun _ => false⟩ (fun _ => none) (.strings [[97], [98]])).2 = some [[68, 69, 76], [97], [98]] ↔
      (⟨true, fun _ => false⟩ : Hiredis).Plain [97, 98] :=
  DEL_sends_iff ⟨true, fun _ => false⟩ (fun _ => none) (.strings [[97], [98]]) (by decide) (by decide)

/-- Of the key `"a b"` there are two. -/
theorem not_DEL_sends : ¬ ∀ (hiredis : Hiredis) (server : List Bytes → Option Reply) (keys : DelKeys), keys.bytes ≠ [] →
    (∀ k ∈ keys.bytes, k ≠ []) → (DEL hiredis server keys).2 = some ([68, 69, 76] :: keys.bytes) := fun h =>
  absurd (h ⟨true, fun _ => false⟩ (fun _ => none) (.string [97, 32, 98]) (by decide) (by decide)) (by decide)

end Zylib.Rediscpp
