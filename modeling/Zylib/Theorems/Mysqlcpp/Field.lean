import Zylib.Mysqlcpp.Column
import Zylib.Theorems.Mysqlcpp.Convert

/-! When a number is the same in a row of a `Statement` and in one of a `PreparedStatement`. The text of a
    `TINYINT` is read as a character, a `DECIMAL` arrives as text in both rows but is read as the bytes of a
    floating point number in one, and an extended `long double` is wider than a `DOUBLE`. -/

namespace Zylib.Mysqlcpp
open LittleEndian Accessor

section
variable (convert : FloatFormat → Bytes → Option ℚ) (longDouble : FloatFormat) (maxLength : Nat)

/-- What is assumed of a value and of its text: an integer is in the range of its column, the text of a
    `DOUBLE` reads back as the same number, and that of a `DECIMAL` as a nearest one. -/
def Sent : ColumnValue → Prop
  | .integer type unsigned width n => (∃ ty, integerType type unsigned = some ty ∧ ty.InRange n) ∧ width ≤ 255
  | .double bits text =>
    (∃ x, FloatFormat.binary64.value bits.toNat = some x ∧ convert .binary64 text = some x) ∧ text.length < 2 ^ 32
  | .decimal d => ∀ format : FloatFormat, ∃ x, convert format d.text = some x ∧ format.Nearest x d.value

/-- The accessor reads the same number from the binary row and from the text row, and nothing outside of
    the buffers. -/
def Agrees (v : ColumnValue) (a : Accessor) : Prop :=
  ∃ x : ℚ, (binaryField v.type maxLength (some v.binary)).bind (fun f => a.read convert longDouble f) = .ok (some x) ∧
    (textField v.type (some v.text)).bind (fun f => a.read convert longDouble f) = .ok (some x)

/-- The column is an integer one of more than one byte and the value is one of the accessor's type, or the
    accessor is `AsUInt64`; or it is a `DOUBLE` and the accessor's type is a double; or it is a zero that is
    written with more than one digit. -/
def ReadAlike : ColumnValue → Accessor → Prop
  | .integer _ _ width n, a =>
    ∃ ty, a.integerType = some ty ∧ if ty.size = 1 then n = 0 ∧ 2 ≤ width else ty.InRange n ∨ ty = .uint64
  | .double .., a => a = .asDouble ∨ longDouble = .binary64
  | .decimal _, _ => False

end

/-! ### Fields -/

theorem textField_eq (type : FieldType) {text : Bytes} (h : text.length < 2 ^ 32) :
    textField type (some text) = .ok { type, buffer := text } := by
  have hmod : text.length % 2 ^ 32 = text.length := Nat.mod_eq_of_lt h
  simp only [textField, Option.getD_some, hmod, Field.setBinaryValue, memcpy, Nat.le_refl, if_true, List.take_length]
  rfl

theorem stmtFetch_eq {size : Nat} {value : Bytes} (h : value.length ≤ size) :
    memcpy (stmtFetch size value) value.length = .ok value := by
  have htake : value.take size = value := List.take_of_length_le h
  unfold memcpy stmtFetch
  rw [htake, if_pos (by simp), List.take_left]

theorem binaryField_eq {type : FieldType} {maxLength size : Nat}
    (hsize : createBindBufferForField type maxLength = some (size, type))
    (h0 : size ≠ 0) {value : Bytes} (h : value.length ≤ size) :
    binaryField type maxLength (some value) = .ok { type, buffer := value, isBinary := true } := by
  unfold binaryField
  rw [hsize]
  simp only [if_neg h0, Field.setBinaryValue, stmtFetch_eq h]
  rfl

/-- A value that is longer than its buffer: the length that is stored is that of the value. -/
theorem binaryField_error {type : FieldType} {maxLength size : Nat}
    (hsize : createBindBufferForField type maxLength = some (size + 1, type)) {value : Bytes} (h : size + 1 < value.length) :
    binaryField type maxLength (some value) = .error .outOfBounds := by
  have hlen : (stmtFetch (size + 1) value).length = size + 1 := by
    rw [stmtFetch, List.length_append, List.length_take_of_le (by omega), List.length_replicate]
    omega
  unfold binaryField
  rw [hsize]
  simp only [if_neg (Nat.succ_ne_zero size), Field.setBinaryValue, memcpy, hlen, if_neg (Nat.not_le.mpr h)]
  rfl

/-! ### Integers -/

theorem read_integer (convert : FloatFormat → Bytes → Option ℚ) (longDouble : FloatFormat) {a : Accessor} {ty : IntType}
    (h : a.integerType = some ty) (f : Field) : a.read convert longDouble f = number (f.asInteger ty) := by
  cases a <;> cases h <;> rfl

theorem createBindBuffer_integer {type : FieldType} {unsigned : Bool} {ty : IntType} (h : integerType type unsigned = some ty)
    (maxLength : Nat) : createBindBufferForField type maxLength = some (ty.size, type) := by
  cases type <;> cases unsigned <;> cases h <;> rfl

theorem documented_integer {type : FieldType} {unsigned : Bool} {ty : IntType} (h : integerType type unsigned = some ty)
    {a : Accessor} (ha : a ∈ documented type) : ∃ ty', a.integerType = some ty' ∧ ty'.size = ty.size := by
  cases type <;> cases unsigned <;> cases h <;> simp only [documented, List.mem_cons, List.not_mem_nil, or_false] at ha <;>
    rcases ha with rfl | rfl <;> exact ⟨_, rfl, rfl⟩

/-- The bytes of an integer and its text agree if the conversions of them do. -/
theorem agrees_integer (convert : FloatFormat → Bytes → Option ℚ) (longDouble : FloatFormat) (maxLength : Nat)
    {type : FieldType} {unsigned : Bool} {ty ty' : IntType} (hty : integerType type unsigned = some ty) {n : Int}
    (hn : ty.InRange n) {width : Nat} (hwidth : width ≤ 255) {a : Accessor} (ha : a.integerType = some ty')
    (hsize : ty'.size = ty.size) :
    Agrees convert longDouble maxLength (.integer type unsigned width n) a ↔ ty'.wrap n = cvtNoexcept ty' (printfD width n) := by
  obtain ⟨hlo, hhi⟩ := IntType.bounds_of_inRange rfl hn
  have hlen : (printfD width n).length < 2 ^ 32 := by
    have habs : n.natAbs < 10 ^ 20 := by
      cases ty <;> simp only [IntType.size] at hlo hhi <;> omega
    have := length_printfD_le (by decide) habs width
    omega
  have hbinary : (ColumnValue.integer type unsigned width n).binary = toLE ty'.size (n % 2 ^ (8 * ty'.size)).toNat := by
    simp only [ColumnValue.binary, hty, hsize]
  have hle : (toLE ty'.size (n % 2 ^ (8 * ty'.size)).toNat).length ≤ ty.size := by rw [length_toLE, hsize]
  have hfield := binaryField_eq (createBindBuffer_integer hty maxLength) (by cases ty <;> decide) hle
  have hcopy : memcpy (toLE ty'.size (n % 2 ^ (8 * ty'.size)).toNat) ty'.size =
      .ok (toLE ty'.size (n % 2 ^ (8 * ty'.size)).toNat) := by
    rw [memcpy, length_toLE, if_pos (Nat.le_refl _), List.take_of_length_le (by rw [length_toLE])]
  unfold Agrees
  rw [hbinary, ColumnValue.type, hfield, ColumnValue.text, textField_eq type hlen]
  simp only [Except.bind, read_integer convert longDouble ha, number, Field.asInteger, Bool.false_eq_true, if_false, if_true, hcopy,
    Except.map, IntType.wrap_ofLE_toLE, Except.ok.injEq, Option.some.injEq]
  constructor
  · rintro ⟨x, hx, hx'⟩
    exact_mod_cast hx.trans hx'.symm
  · exact fun h => ⟨_, rfl, by rw [h]⟩

theorem printfD_zero (width : Nat) : printfD width 0 = List.replicate (width - 1) 48 ++ [48] := rfl

/-- A number of one byte is read from its text as the character of its only digit, or as zero. -/
theorem wrap_eq_char_iff {ty : IntType} (hsize : ty.size = 1) {n : Int} (hn : -2 ^ (8 * ty.size - 1) ≤ n ∧ n < 2 ^ (8 * ty.size))
    (width : Nat) : ty.wrap n = cvtNoexcept ty (printfD width n) ↔ n = 0 ∧ 2 ≤ width := by
  have hzero := IntType.wrap_eq_zero hn
  rw [cvtNoexcept_char hsize]
  rcases Int.lt_or_le n 0 with hneg | hneg
  · obtain ⟨digits, heq, hne, -⟩ := printfD_of_neg width hneg
    obtain ⟨d, ds, rfl⟩ := List.exists_cons_of_ne_nil hne
    simp only [heq, hzero]
    omega
  · obtain ⟨hne, hdigits, hvalue⟩ := printfD_spec width hneg
    split
    · rename_i c heq
      rw [heq] at hdigits hvalue
      have hc := hdigits c List.mem_cons_self
      have hcvalue : c.toNat - 48 = n.natAbs := by simpa [digitsValue] using hvalue
      have hone : ¬(n = 0 ∧ 2 ≤ width) := by
        rintro ⟨rfl, hwidth⟩
        have hlen := congrArg List.length heq
        rw [printfD_zero] at hlen
        simp only [List.length_append, List.length_replicate, List.length_singleton] at hlen
        omega
      have hsub := IntType.wrap_add_ne hsize (k := 48) (by decide) (by decide) n
      have hcn : (c.toNat : Int) = n + 48 := by
        have := hc.1
        omega
      exact iff_of_false (fun h => hsub (hcn ▸ h.symm)) hone
    · rename_i hmany
      rw [hzero]
      refine ⟨fun h => ⟨h, ?_⟩, And.left⟩
      subst h
      rw [Nat.two_le_iff]
      refine ⟨?_, ?_⟩ <;> rintro rfl <;> exact hmany 48 rfl

theorem wrap_eq_cvt_iff {ty ty' : IntType} (hsize : ty'.size = ty.size) {n : Int} (hn : ty.InRange n) (width : Nat) :
    ty'.wrap n = cvtNoexcept ty' (printfD width n) ↔
      if ty'.size = 1 then n = 0 ∧ 2 ≤ width else ty'.InRange n ∨ ty' = .uint64 := by
  have hb := IntType.bounds_of_inRange hsize hn
  have hwide : -2 ^ 63 ≤ n ∧ n < 2 ^ 64 := by
    cases ty' <;> simp only [IntType.size] at hb <;> omega
  split
  · rename_i hone
    exact wrap_eq_char_iff hone hb width
  · rename_i hone
    rw [cvtNoexcept_printfD hone width hwide.1 hwide.2]
    by_cases hrange : ty'.InRange n
    · rw [if_pos hrange]
      exact iff_of_true (IntType.wrap_of_inRange hrange) (Or.inl hrange)
    · rw [if_neg hrange]
      by_cases hty : ty' = .uint64
      · subst hty
        rw [if_pos rfl]
        have hin : IntType.uint64.InRange (n % 2 ^ 64) := ⟨Int.emod_nonneg _ (by decide), Int.emod_lt_of_pos _ (by decide)⟩
        exact iff_of_true ((IntType.wrap_emod .uint64 n).symm.trans (IntType.wrap_of_inRange hin)) (Or.inr rfl)
      · have hne : n ≠ 0 := by
          rintro rfl
          exact hrange (by cases ty' <;> decide)
        rw [if_neg hty, IntType.wrap_eq_zero hb]
        exact iff_of_false hne (not_or.mpr ⟨hrange, hty⟩)

/-! ### Doubles -/

theorem documented_floating {a : Accessor} (ha : a ∈ documented .double) : a = .asDouble ∨ a = .asLongDouble := by
  simpa [documented] using ha

/-- What the accessors of floating point numbers are for a platform. -/
theorem read_floating (convert : FloatFormat → Bytes → Option ℚ) (longDouble : FloatFormat) {a : Accessor}
    (ha : a = .asDouble ∨ a = .asLongDouble) :
    ∃ format, (∀ f, a.read convert longDouble f = f.asFloating convert format) ∧
      (format = .binary64 ↔ a = .asDouble ∨ longDouble = .binary64) := by
  rcases ha with rfl | rfl
  · exact ⟨.binary64, fun _ => rfl, iff_of_true rfl (Or.inl rfl)⟩
  · exact ⟨longDouble, fun _ => rfl, ⟨Or.inr, fun h => h.resolve_left nofun⟩⟩

theorem agrees_double {convert : FloatFormat → Bytes → Option ℚ} {longDouble : FloatFormat} {maxLength : Nat} {bits : UInt64}
    {text : Bytes} (hsent : Sent convert (.double bits text)) {a : Accessor} (ha : a ∈ documented .double) :
    Agrees convert longDouble maxLength (.double bits text) a ↔ a = .asDouble ∨ longDouble = .binary64 := by
  obtain ⟨⟨x, hbits, htext⟩, hlen⟩ := hsent
  obtain ⟨format, hread, hformat⟩ := read_floating convert longDouble (documented_floating ha)
  have hbuffer : createBindBufferForField .double maxLength = some (8, .double) := rfl
  have hfield := binaryField_eq hbuffer (by decide) (Nat.le_of_eq (length_toLE 8 bits.toNat))
  unfold Agrees
  rw [ColumnValue.type, ColumnValue.binary, ColumnValue.text, hfield, textField_eq .double hlen, ← hformat]
  simp only [Except.bind, hread, Field.asFloating, Bool.false_eq_true, if_false, if_true]
  cases format with
  | binary64 =>
    have hcopy : memcpy (toLE 8 bits.toNat) FloatFormat.binary64.size = .ok (toLE 8 bits.toNat) := by
      rw [memcpy, length_toLE, if_pos (by decide), List.take_of_length_le (by rw [length_toLE]; decide)]
    have hnumber : ofLE (toLE 8 bits.toNat) = bits.toNat := by
      exact (ofLE_toLE 8 _).trans (Nat.mod_eq_of_lt bits.toNat_lt)
    refine iff_of_true ⟨x, ?_, ?_⟩ rfl
    · rw [hcopy, Except.map, hnumber, hbits]
    · rw [htext, Option.getD_some]
  | extended80 =>
    have hcopy : memcpy (toLE 8 bits.toNat) FloatFormat.extended80.size = .error .outOfBounds := by
      rw [memcpy, length_toLE, if_neg (by decide)]
    refine iff_of_false ?_ (by decide)
    rintro ⟨x, hx, -⟩
    rw [hcopy] at hx
    cases hx

/-! ### Decimals -/

namespace Decimal

/-- After the first byte of the text there are only digits and the point. -/
theorem text_bytes (d : Decimal) {i : Nat} (h0 : 0 < i) (h : i < d.text.length) :
    46 ≤ d.text[i].toNat ∧ d.text[i].toNat ≤ 57 := by
  have hdigit : ∀ c : UInt8, isDigit c → 46 ≤ c.toNat ∧ c.toNat ≤ 57 := fun c hc => ⟨by have := hc.1; omega, hc.2⟩
  have hbody : ∀ c ∈ d.int ++ (if d.frac = [] then [] else 46 :: d.frac), 46 ≤ c.toNat ∧ c.toNat ≤ 57 := by
    intro c hc
    rcases List.mem_append.mp hc with hc | hc
    · exact hdigit c (d.intDigits.2 c hc)
    · split at hc
      · cases hc
      · rcases List.mem_cons.mp hc with rfl | hc
        · decide
        · exact hdigit c (d.fracDigits c hc)
  have htail : ∀ c ∈ d.text.drop 1, 46 ≤ c.toNat ∧ c.toNat ≤ 57 := by
    intro c hc
    unfold text at hc
    split at hc
    · exact hbody c hc
    · exact hbody c (List.mem_of_mem_drop hc)
  exact htail _ (List.mem_drop_iff_getElem.mpr ⟨i - 1, by omega, by simp only [Nat.add_sub_cancel' h0]⟩)

theorem length_text_le (d : Decimal) : d.text.length ≤ 97 := by
  have hint := d.intLength
  have hfrac := d.fracLength
  unfold text
  split <;> split <;> simp <;> omega

/-- A value that is positive is at least one unit of the last of 30 places. -/
theorem value_cases (d : Decimal) : d.value ≤ 0 ∨ 2 ^ (-100 : ℤ) ≤ d.value := by
  unfold value
  split
  · left
    have : (0 : ℚ) ≤ digitsValue (d.int ++ d.frac) / 10 ^ d.frac.length := by positivity
    linarith
  · rw [one_mul]
    rcases Nat.eq_zero_or_pos (digitsValue (d.int ++ d.frac)) with hzero | hpos
    · left
      simp [hzero]
    · right
      have hone : (1 : ℚ) ≤ digitsValue (d.int ++ d.frac) := by exact_mod_cast hpos
      have hten : (10 : ℚ) ^ d.frac.length ≤ 10 ^ 30 := pow_le_pow_right₀ (by norm_num) d.fracLength
      calc (2 : ℚ) ^ (-100 : ℤ) ≤ 1 / 10 ^ 30 := by norm_num
        _ ≤ 1 / 10 ^ d.frac.length := one_div_le_one_div_of_le (by positivity) hten
        _ ≤ digitsValue (d.int ++ d.frac) / 10 ^ d.frac.length := by gcongr

/-- The first eight bytes of the text as a double. -/
theorem double_value (d : Decimal) (hlen : 8 ≤ d.text.length) :
    ∃ x, FloatFormat.binary64.value (ofLE (d.text.take 8)) = some x ∧ 0 < x ∧ x < 2 ^ (-107 : ℤ) := by
  obtain ⟨h6, h6'⟩ := d.text_bytes (i := 6) (by decide) (by omega)
  obtain ⟨h7, h7'⟩ := d.text_bytes (i := 7) (by decide) (by omega)
  have hlow := ofLE_lt (d.text.take 6)
  have hsplit := ofLE_take_add (show 6 ≤ d.text.length by omega) 2
  rw [List.length_take_of_le (by omega)] at hlow
  rw [List.drop_eq_getElem_cons (by omega), List.drop_eq_getElem_cons (by omega)] at hsplit
  simp only [Nat.reduceAdd, List.take_succ_cons, List.take_zero, ofLE] at hsplit
  exact FloatFormat.value_of_lt (b := 916) (by decide) (by omega) (by omega)

/-- The first sixteen bytes of the text denote no extended number: the leading bit is not set. -/
theorem extended_value (d : Decimal) (hlen : 16 ≤ d.text.length) :
    FloatFormat.extended80.value (ofLE (d.text.take 16)) = none := by
  obtain ⟨h7, h7'⟩ := d.text_bytes (i := 7) (by decide) (by omega)
  obtain ⟨h8, h8'⟩ := d.text_bytes (i := 8) (by decide) (by omega)
  obtain ⟨h9, h9'⟩ := d.text_bytes (i := 9) (by decide) (by omega)
  have hlow := ofLE_lt (d.text.take 7)
  have hsplit := ofLE_take_add (show 7 ≤ d.text.length by omega) 9
  rw [List.length_take_of_le (by omega)] at hlow
  rw [List.drop_eq_getElem_cons (by omega), List.drop_eq_getElem_cons (by omega), List.drop_eq_getElem_cons (by omega)]
    at hsplit
  simp only [Nat.reduceAdd, List.take_succ_cons, ofLE] at hsplit
  have hexponent : ofLE (d.text.take 16) / 2 ^ 64 % 2 ^ 15 ≠ 0 := by omega
  have hsignificand : ofLE (d.text.take 16) % 2 ^ 64 < 2 ^ 63 := by omega
  simp only [FloatFormat.value, if_neg hexponent, if_pos hsignificand, ite_self]

/-- The bytes of the text are not those of a floating point number that is nearest to the value: as a double they
    denote a positive number that is far smaller than a `DECIMAL` can be, and as an extended one none. -/
theorem not_nearest (d : Decimal) (format : FloatFormat) (hlen : format.size ≤ d.text.length) {x : ℚ}
    (hx : format.value (ofLE (d.text.take format.size)) = some x) : ¬format.Nearest x d.value := by
  intro hnearest
  cases format with
  | binary64 =>
    obtain ⟨y, hy, hpos, hlt⟩ := d.double_value hlen
    cases hx.symm.trans hy
    rcases d.value_cases with hvalue | hvalue
    · exact absurd (hnearest.le (FloatFormat.isValue_zero _) hvalue) (not_le.mpr hpos)
    · have hge := hnearest.ge (FloatFormat.isValue_two_pow (e := 923) (by decide) (by decide)) hvalue
      have hsmall : (2 : ℚ) ^ (-107 : ℤ) ≤ 2 ^ ((923 : ℕ) - 1023 : ℤ) := by norm_num
      exact absurd (hsmall.trans hge) (not_le.mpr hlt)
  | extended80 =>
    rw [FloatFormat.size, d.extended_value hlen] at hx
    cases hx

end Decimal

theorem not_agrees_decimal {convert : FloatFormat → Bytes → Option ℚ} {longDouble : FloatFormat} {maxLength : Nat} {d : Decimal}
    (hsent : Sent convert (.decimal d)) {a : Accessor} (ha : a ∈ documented .newdecimal) :
    ¬Agrees convert longDouble maxLength (.decimal d) a := by
  obtain ⟨format, hread, -⟩ := read_floating convert longDouble (documented_floating ha)
  rintro ⟨x, hbinary, htext⟩
  have hlen := d.length_text_le
  rw [ColumnValue.type, ColumnValue.text, textField_eq .newdecimal (by omega)] at htext
  simp only [Except.bind, hread, Field.asFloating, Bool.false_eq_true, if_false] at htext
  cases htext
  obtain ⟨y, hy, hnearest⟩ := hsent format
  rw [hy, Option.getD_some] at hbinary
  rw [ColumnValue.type, ColumnValue.binary] at hbinary
  rcases Nat.lt_or_ge 64 d.text.length with hlong | hshort
  · rw [binaryField_error rfl hlong] at hbinary
    cases hbinary
  · rw [binaryField_eq rfl (by decide) hshort] at hbinary
    simp only [Except.bind, hread, Field.asFloating, Bool.false_eq_true, if_false, if_true, memcpy] at hbinary
    split at hbinary
    · rename_i hle
      simp only [Except.map, Except.ok.injEq] at hbinary
      exact d.not_nearest format hle hbinary hnearest
    · cases hbinary

end Zylib.Mysqlcpp
