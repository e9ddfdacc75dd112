import Zylib.Mysqlcpp.DateTime
import Zylib.Theorems.Mysqlcpp.Convert

/-! Reading back the text of a date and time. The pattern without a fraction is tried first and is not
    anchored: it matches a text with a fraction as well, up to the point. -/

namespace Zylib.Mysqlcpp.Utility
open Pattern MysqlTime

/-- The fields have as many digits as the text gives them. -/
structure Proper (t : MysqlTime) : Prop where
  year : t.year ≤ 9999
  month : t.month ≤ 99
  day : t.day ≤ 99
  hour : t.hour ≤ 99
  minute : t.minute ≤ 99
  second : t.second ≤ 99
  secondPart : t.secondPart ≤ 999999

/-! ### Fields -/

theorem printfField_spec (width : Nat) {n : UInt32} (h : n ≤ 9999) :
    printfField width n ≠ [] ∧ (∀ c ∈ printfField width n, isDigit c) ∧ cvtUInt (printfField width n) = n := by
  have hle : n.toNat ≤ 9999 := UInt32.le_iff_toNat_le.mp h
  have hint : n.toBitVec.toInt = n.toNat := BitVec.toInt_eq_toNat_of_lt (by rw [UInt32.toNat_toBitVec]; omega)
  obtain ⟨hne, hdigits, hvalue⟩ := printfD_spec width (n := n.toBitVec.toInt) (hint ▸ Int.natCast_nonneg _)
  refine ⟨hne, hdigits, ?_⟩
  rw [hint, Int.natAbs_natCast, ← hint] at hvalue
  have hrange : IntType.uint32.InRange (strto .uint32 false n.toNat) := by
    unfold IntType.InRange IntType.min IntType.bound strto
    simp [IntType.signed, IntType.size]
    omega
  unfold cvtUInt cvtNoexcept convert printfField
  rw [if_neg (by decide), signedDigits_of_digits hne hdigits]
  simp only [hvalue, if_pos hrange, Option.getD_some]
  simp [strto, IntType.signed]

theorem matchHere_field {as : List (Atom UInt8)} {s : Bytes} {gs : List Bytes} (width : Nat) {n : UInt32} (hn : n ≤ 9999)
    {c : UInt8} (hc : ¬isDigit c) (h : matchHere as s = some gs) :
    matchHere (digits :: .char c :: as) (printfField width n ++ c :: s) = some (printfField width n :: gs) := by
  obtain ⟨hne, hdigits, -⟩ := printfField_spec width hn
  refine matchHere_run hne (fun x hx => decide_eq_true (hdigits x hx)) (fun x hx => ?_) ((matchHere_char c as s).trans h)
  cases hx
  exact decide_eq_false hc

/-- The first pattern matches what is before the point. -/
theorem search_dateTimeText {t : MysqlTime} (hP : Proper t) {rest : Bytes} (hrest : ∀ c ∈ rest.head?, ¬isDigit c) :
    search dateTimePattern (t.dateTimeText ++ rest) = some [printfField 4 t.year, printfField 2 t.month, printfField 2 t.day,
      printfField 2 t.hour, printfField 2 t.minute, printfField 2 t.second] := by
  have hle : ∀ {n : UInt32}, n ≤ 99 → n ≤ 9999 := fun h => UInt32.le_trans h (by decide)
  apply search_of_matchHere
  simp only [dateTimeText, List.append_assoc, List.cons_append]
  refine matchHere_field 4 hP.year (by decide) (matchHere_field 2 (hle hP.month) (by decide)
    (matchHere_field 2 (hle hP.day) (by decide) (matchHere_field 2 (hle hP.hour) (by decide)
      (matchHere_field 2 (hle hP.minute) (by decide) ?_))))
  obtain ⟨hne, hdigits, -⟩ := printfField_spec 2 (hle hP.second)
  exact matchHere_run hne (fun x hx => decide_eq_true (hdigits x hx)) (fun x hx => decide_eq_false (hrest x hx)) rfl

/-- Whatever the fraction is, it is read as zero. -/
theorem stringTo_getString {t : MysqlTime} (hP : Proper t) :
    stringToDateTimeTimestamp t.getString = some { t with secondPart := 0 } := by
  have hle : ∀ {n : UInt32}, n ≤ 99 → n ≤ 9999 := fun h => UInt32.le_trans h (by decide)
  have htext : ∃ rest, t.getString = t.dateTimeText ++ rest ∧ ∀ c ∈ rest.head?, ¬isDigit c := by
    unfold getString
    split
    · exact ⟨[], (List.append_nil _).symm, nofun⟩
    · refine ⟨_, rfl, fun c hc => ?_⟩
      cases hc
      decide
  obtain ⟨rest, htext, hrest⟩ := htext
  have hne : t.getString ≠ [] := by
    rw [htext]
    simp [dateTimeText]
  unfold stringToDateTimeTimestamp
  rw [if_neg hne, htext, search_dateTimeText hP hrest]
  simp only [(printfField_spec 4 hP.year).2.2, (printfField_spec 2 (hle hP.month)).2.2, (printfField_spec 2 (hle hP.day)).2.2,
    (printfField_spec 2 (hle hP.hour)).2.2, (printfField_spec 2 (hle hP.minute)).2.2, (printfField_spec 2 (hle hP.second)).2.2]

/-- A text is read back as the time it was written for if and only if there is no fraction. -/
theorem roundTrip_iff {t : MysqlTime} (hP : Proper t) :
    stringToDateTimeTimestamp t.getString = some t ↔ t.secondPart = 0 := by
  rw [stringTo_getString hP, Option.some.injEq]
  refine ⟨fun h => h ▸ rfl, fun h => ?_⟩
  cases t
  cases h
  rfl

theorem roundTrip_iff_second :
    stringToDateTimeTimestamp (MysqlTime.getString ⟨2016, 10, 7, 6, 8, 50, 0⟩) = some ⟨2016, 10, 7, 6, 8, 50, 0⟩ ↔
    (0 : UInt64) = 0 :=
  roundTrip_iff (t := ⟨2016, 10, 7, 6, 8, 50, 0⟩) ⟨by decide, by decide, by decide, by decide, by decide, by decide, by decide⟩

/-- A time with half a second. -/
theorem fraction_lost : ¬∀ t : MysqlTime, Proper t → stringToDateTimeTimestamp t.getString = some t := by
  intro h
  have hP : Proper ⟨2016, 10, 7, 6, 8, 50, 500000⟩ :=
    ⟨by decide, by decide, by decide, by decide, by decide, by decide, by decide⟩
  have hhalf := (stringTo_getString hP).symm.trans (h _ hP)
  exact absurd (congrArg MysqlTime.secondPart (Option.some.inj hhalf)) (by decide)

end Zylib.Mysqlcpp.Utility
