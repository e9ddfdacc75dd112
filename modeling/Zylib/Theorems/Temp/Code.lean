import Zylib.Temp.Code

/-! `isUtf8` checks the form of the sequences of a string, and not their values. What it accepts is taken
    apart from the front: the bytes that are due first, and then whole sequences. -/

namespace Zylib.Temp
open Utf8 detail

/-! ### The bits of a byte -/

theorem and_0xC0_eq : ∀ c < 256, (c &&& 0xC0 = 0x80 ↔ 0x80 ≤ c ∧ c < 0xC0) := by decide +kernel

theorem leadMultiLen_eq : ∀ c < 256, leadMultiLen c =
    if c < 0x80 then some 1
    else if c < 0xC0 then none
    else if c < 0xE0 then some 2
    else if c < 0xF0 then some 3
    else if c < 0xF8 then some 4
    else none := by decide +kernel

theorem continues_iff (c : UInt8) : c.toNat &&& 0xC0 = 0x80 ↔ Continues c := and_0xC0_eq c.toNat c.toNat_lt

/-- A sequence is a lead byte, which tells its length, and the bytes that go on with it. -/
theorem form_cons_iff {c : UInt8} {conts : Bytes} : (∃ v, Form (c :: conts) v) ↔
    leadMultiLen c.toNat = some (conts.length + 1) ∧ ∀ b ∈ conts, Continues b := by
  rw [leadMultiLen_eq c.toNat c.toNat_lt]
  constructor
  · rintro ⟨v, h⟩
    cases h with
    | one ha => exact ⟨if_pos ha, by simp⟩
    | two ha ha' hb =>
      rw [if_neg (by omega), if_neg (by omega), if_pos ha']
      exact ⟨rfl, by simpa using hb⟩
    | three ha ha' hb hc =>
      rw [if_neg (by omega), if_neg (by omega), if_neg (by omega), if_pos ha']
      exact ⟨rfl, by simpa using ⟨hb, hc⟩⟩
    | four ha ha' hb hc hd =>
      rw [if_neg (by omega), if_neg (by omega), if_neg (by omega), if_neg (by omega), if_pos ha']
      exact ⟨rfl, by simpa using ⟨hb, hc, hd⟩⟩
  · rintro ⟨hlen, hconts⟩
    match conts with
    | [] =>
      have ha : c.toNat < 0x80 := by grind
      exact ⟨_, .one ha⟩
    | [b] =>
      have ha : 0xC0 ≤ c.toNat ∧ c.toNat < 0xE0 := by grind
      exact ⟨_, .two ha.1 ha.2 (hconts b (by simp))⟩
    | [b, d] =>
      have ha : 0xE0 ≤ c.toNat ∧ c.toNat < 0xF0 := by grind
      exact ⟨_, .three ha.1 ha.2 (hconts b (by simp)) (hconts d (by simp))⟩
    | [b, d, e] =>
      have ha : 0xF0 ≤ c.toNat ∧ c.toNat < 0xF8 := by grind
      exact ⟨_, .four ha.1 ha.2 (hconts b (by simp)) (hconts d (by simp)) (hconts e (by simp))⟩
    | _ :: _ :: _ :: _ :: _ =>
      simp only [List.length_cons] at hlen
      split_ifs at hlen <;> simp at hlen

/-- What the loop accepts when `multiLen` bytes are due: these bytes and then sequences. -/
def Accepts (str : Bytes) (multiLen : Nat) : Prop :=
  ∃ (conts : Bytes) (seqs : List Bytes), str = conts ++ seqs.flatten ∧ conts.length = multiLen ∧
    (∀ b ∈ conts, Continues b) ∧ ∀ q ∈ seqs, ∃ v, Form q v

theorem accepts_nil {multiLen : Nat} : Accepts [] multiLen ↔ multiLen = 0 := by
  constructor
  · rintro ⟨conts, seqs, hstr, rfl, -⟩
    rw [List.eq_nil_of_append_eq_nil hstr.symm |>.1, List.length_nil]
  · rintro rfl
    exact ⟨[], [], rfl, rfl, by simp, by simp⟩

theorem accepts_cons_succ {c : UInt8} {str : Bytes} {multiLen : Nat} :
    Accepts (c :: str) (multiLen + 1) ↔ Continues c ∧ Accepts str multiLen := by
  constructor
  · rintro ⟨conts, seqs, hstr, hlen, hconts, hseqs⟩
    cases conts with
    | nil => simp at hlen
    | cons b conts =>
      obtain ⟨rfl, rfl⟩ := List.cons.inj hstr
      exact ⟨hconts c (List.mem_cons_self ..), conts, seqs, rfl, Nat.succ.inj hlen,
        fun b hb => hconts b (List.mem_cons_of_mem _ hb), hseqs⟩
  · rintro ⟨hc, conts, seqs, rfl, hlen, hconts, hseqs⟩
    exact ⟨c :: conts, seqs, rfl, by rw [List.length_cons, hlen], List.forall_mem_cons.mpr ⟨hc, hconts⟩, hseqs⟩

theorem accepts_cons_zero {c : UInt8} {str : Bytes} :
    Accepts (c :: str) 0 ↔ ∃ multiLen, leadMultiLen c.toNat = some (multiLen + 1) ∧ Accepts str multiLen := by
  constructor
  · rintro ⟨conts, seqs, hstr, hlen, -, hseqs⟩
    rw [List.eq_nil_of_length_eq_zero hlen, List.nil_append] at hstr
    cases seqs with
    | nil => simp at hstr
    | cons q seqs =>
      obtain ⟨v, hq⟩ := hseqs q (List.mem_cons_self ..)
      obtain ⟨a, conts, rfl, -⟩ := hq.exists_lead
      obtain ⟨rfl, rfl⟩ := List.cons.inj hstr
      obtain ⟨hlead, hconts⟩ := form_cons_iff.mp ⟨v, hq⟩
      exact ⟨conts.length, hlead, conts, seqs, rfl, rfl, hconts, fun q hq => hseqs q (List.mem_cons_of_mem _ hq)⟩
  · rintro ⟨multiLen, hlead, conts, seqs, rfl, rfl, hconts, hseqs⟩
    exact ⟨[], (c :: conts) :: seqs, rfl, rfl, by simp,
      List.forall_mem_cons.mpr ⟨form_cons_iff.mpr ⟨hlead, hconts⟩, hseqs⟩⟩

theorem leadMultiLen_pos {c multiLen : Nat} (h : leadMultiLen c = some multiLen) : 0 < multiLen := by
  unfold leadMultiLen at h
  split_ifs at h <;> cases h <;> decide

theorem isUtf8Loop_iff (str : Bytes) (multiLen : Nat) : isUtf8Loop str multiLen = true ↔ Accepts str multiLen := by
  induction str generalizing multiLen with
  | nil =>
    rw [accepts_nil, isUtf8Loop]
    cases multiLen <;> simp
  | cons c str ih =>
    cases multiLen with
    | zero =>
      rw [accepts_cons_zero, isUtf8Loop, if_pos rfl]
      cases hlead : leadMultiLen c.toNat with
      | none => simp
      | some multiLen =>
        obtain ⟨n, rfl⟩ := Nat.exists_eq_succ_of_ne_zero (leadMultiLen_pos hlead).ne'
        simp [ih]
    | succ multiLen =>
      rw [accepts_cons_succ, isUtf8Loop, if_neg (Nat.succ_ne_zero _), ← continues_iff, ← ih]
      by_cases hc : c.toNat &&& 0xC0 = 0x80 <;> simp [hc]

/-! ### `isUtf8` -/

theorem isUtf8_iff (str : Bytes) :
    isUtf8 str = true ↔ ∃ seqs : List Bytes, str = seqs.flatten ∧ ∀ q ∈ seqs, ∃ v, Form q v := by
  rw [isUtf8, isUtf8Internal, List.take_length, isUtf8Loop_iff]
  constructor
  · rintro ⟨conts, seqs, rfl, hlen, -, hseqs⟩
    rw [List.eq_nil_of_length_eq_zero hlen]
    exact ⟨seqs, rfl, hseqs⟩
  · rintro ⟨seqs, rfl, hseqs⟩
    exact ⟨[], seqs, rfl, rfl, by simp, hseqs⟩

/-- The characters of a C string are those of the `std::string` made from it. -/
theorem isUtf8CStr_append {str : Bytes} (h : 0 ∉ str) (memory : Bytes) :
    isUtf8CStr (str ++ 0 :: memory) = isUtf8 str := by
  have hlen : strlen (str ++ 0 :: memory) = str.length := by
    unfold strlen
    rw [List.takeWhile_append_of_pos fun b hb => by simpa using ne_of_mem_of_not_mem hb h]
    simp
  rw [isUtf8CStr, hlen, isUtf8, isUtf8Internal, isUtf8Internal, List.take_left, List.take_length]

/-- `isUtf8` accepts the strings that are made of sequences, and of those the ones are well-formed whose sequences
    all are. -/
theorem isUtf8_wellFormed (str : Bytes) :
    (isUtf8 str = true ↔ ∃ seqs : List Bytes, str = seqs.flatten ∧ ∀ q ∈ seqs, ∃ v, Form q v) ∧
    (∀ seqs : List Bytes, str = seqs.flatten → (∀ q ∈ seqs, ∃ v, Form q v) →
      (WellFormed str ↔ ∀ q ∈ seqs, Canonical q)) ∧
    (WellFormed str → isUtf8 str = true) := by
  refine ⟨isUtf8_iff str, ?_, ?_⟩
  · rintro seqs rfl hseqs
    exact wellFormed_flatten hseqs
  · intro h
    obtain ⟨seqs, hstr, hseqs⟩ := wellFormed_iff_exists.mp h
    exact (isUtf8_iff str).mpr ⟨seqs, hstr, fun q hq => (hseqs q hq).form⟩

/-- The overlong form of U+0000 is accepted. -/
theorem not_isUtf8_wellFormed : ¬(isUtf8 [0xC0, 0x80] = true ↔ WellFormed [0xC0, 0x80]) := by
  intro h
  have hwell : WellFormed [[0xC0, 0x80]].flatten := h.mp (by decide)
  have hform : ∀ q ∈ [[0xC0, 0x80]], ∃ v, Form q v := by
    rintro q hq
    rw [List.mem_singleton.mp hq]
    exact ⟨_, .two (by decide) (by decide) (by decide)⟩
  obtain ⟨v, hv, hleast, -⟩ := (wellFormed_flatten hform).mp hwell _ (List.mem_singleton_self _)
  cases hv with
  | two ha ha' hb => exact absurd hleast (by decide)

end Zylib.Temp
