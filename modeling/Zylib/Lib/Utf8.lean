import Mathlib.InformationTheory.Coding.UniquelyDecodable

/-! UTF-8. `Form q v` says that the bytes `q` have the form of one sequence, with the value bits `v`; the
    encoding of a character is such a sequence, and of those it is the shortest with its value. The
    forms are uniquely decodable: the lead byte of a sequence tells its length. -/

namespace Utf8

/-- A byte `10xxxxxx`, which goes on with a sequence. -/
def Continues (b : UInt8) : Prop := 0x80 ≤ b.toNat ∧ b.toNat < 0xC0

instance (b : UInt8) : Decidable (Continues b) := inferInstanceAs (Decidable (_ ∧ _))

/-- The four forms of a sequence, with the value that their free bits make. -/
inductive Form : List UInt8 → Nat → Prop where
  | one {a : UInt8} (ha : a.toNat < 0x80) : Form [a] a.toNat
  | two {a b : UInt8} (ha : 0xC0 ≤ a.toNat) (ha' : a.toNat < 0xE0) (hb : Continues b) :
      Form [a, b] ((a.toNat - 0xC0) * 64 + (b.toNat - 0x80))
  | three {a b c : UInt8} (ha : 0xE0 ≤ a.toNat) (ha' : a.toNat < 0xF0) (hb : Continues b) (hc : Continues c) :
      Form [a, b, c] ((a.toNat - 0xE0) * 4096 + (b.toNat - 0x80) * 64 + (c.toNat - 0x80))
  | four {a b c d : UInt8} (ha : 0xF0 ≤ a.toNat) (ha' : a.toNat < 0xF8) (hb : Continues b) (hc : Continues c)
      (hd : Continues d) : Form [a, b, c, d]
        ((a.toNat - 0xF0) * 262144 + (b.toNat - 0x80) * 4096 + (c.toNat - 0x80) * 64 + (d.toNat - 0x80))

/-- The least value for which there is no shorter sequence than one of `length` bytes. -/
def least : Nat → Nat
  | 2 => 0x80
  | 3 => 0x800
  | 4 => 0x10000
  | _ => 0

/-- A well-formed sequence: no overlong form, no surrogate and nothing above U+10FFFF. -/
def Canonical (q : List UInt8) : Prop := ∃ v, Form q v ∧ least q.length ≤ v ∧ v.isValidChar

/-- Well-formed UTF-8: the encoding of some characters. -/
def WellFormed (bs : List UInt8) : Prop := ∃ cs : List Char, bs = cs.flatMap String.utf8EncodeChar

/-! ### Unique decoding -/

/-- The length of the sequences that start with `a`. -/
def lengthFrom (a : UInt8) : Nat :=
  if a.toNat < 0x80 then 1 else if a.toNat < 0xE0 then 2 else if a.toNat < 0xF0 then 3 else 4

theorem Form.exists_lead {q : List UInt8} {v : Nat} (h : Form q v) : ∃ a r, q = a :: r ∧ q.length = lengthFrom a := by
  cases h with
  | one ha => exact ⟨_, _, rfl, by simp [lengthFrom, ha]⟩
  | two ha ha' hb => exact ⟨_, _, rfl, by rw [lengthFrom, if_neg (by omega), if_pos ha']; rfl⟩
  | three ha ha' hb hc =>
    exact ⟨_, _, rfl, by rw [lengthFrom, if_neg (by omega), if_neg (by omega), if_pos ha']; rfl⟩
  | four ha ha' hb hc hd =>
    exact ⟨_, _, rfl, by rw [lengthFrom, if_neg (by omega), if_neg (by omega), if_neg (by omega)]; rfl⟩

/-- What two strings start with is the same sequence when the strings are the same. -/
theorem Form.append_inj {p q r s : List UInt8} {v w : Nat} (hp : Form p v) (hq : Form q w) (h : p ++ r = q ++ s) :
    p = q ∧ r = s := by
  obtain ⟨a, p', rfl, hpl⟩ := hp.exists_lead
  obtain ⟨b, q', rfl, hql⟩ := hq.exists_lead
  obtain ⟨rfl, -⟩ := List.cons.inj h
  exact List.append_inj h (hpl.trans hql.symm)

theorem uniquelyDecodable : InformationTheory.UniquelyDecodable {q | ∃ v, Form q v} := by
  intro ps qs hps hqs h
  induction ps generalizing qs with
  | nil =>
    cases qs with
    | nil => rfl
    | cons q qs =>
      obtain ⟨w, hw⟩ := hqs q (List.mem_cons_self ..)
      obtain ⟨b, q', rfl, -⟩ := hw.exists_lead
      simp at h
  | cons p ps ih =>
    obtain ⟨v, hv⟩ := hps p (List.mem_cons_self ..)
    cases qs with
    | nil =>
      obtain ⟨a, p', rfl, -⟩ := hv.exists_lead
      simp at h
    | cons q qs =>
      obtain ⟨w, hw⟩ := hqs q (List.mem_cons_self ..)
      rw [List.flatten_cons, List.flatten_cons] at h
      obtain ⟨rfl, hrest⟩ := hv.append_inj hw h
      rw [ih qs (fun x hx => hps x (List.mem_cons_of_mem _ hx)) (fun x hx => hqs x (List.mem_cons_of_mem _ hx)) hrest]

/-! ### The encoding of a character -/

/-- `String.utf8EncodeChar` of the character that `v` is. -/
def encode (v : Nat) : List UInt8 :=
  if v ≤ 0x7F then [UInt8.ofNat v]
  else if v ≤ 0x7FF then [UInt8.ofNat (v / 64 % 32 + 0xC0), UInt8.ofNat (v % 64 + 0x80)]
  else if v ≤ 0xFFFF then
    [UInt8.ofNat (v / 4096 % 16 + 0xE0), UInt8.ofNat (v / 64 % 64 + 0x80), UInt8.ofNat (v % 64 + 0x80)]
  else
    [UInt8.ofNat (v / 262144 % 8 + 0xF0), UInt8.ofNat (v / 4096 % 64 + 0x80), UInt8.ofNat (v / 64 % 64 + 0x80),
      UInt8.ofNat (v % 64 + 0x80)]

theorem utf8EncodeChar_eq (c : Char) : String.utf8EncodeChar c = encode c.val.toNat := rfl

theorem toNat_ofNat {n : Nat} (h : n < 256) : (UInt8.ofNat n).toNat = n := UInt8.toNat_ofNat_of_lt' h

theorem continues_ofNat (n : Nat) : Continues (UInt8.ofNat (n % 64 + 0x80)) := by
  unfold Continues
  rw [toNat_ofNat (by omega)]
  omega

theorem form_encode {v : Nat} (hv : v < 0x200000) : Form (encode v) v := by
  unfold encode
  split
  · have := Form.one (a := UInt8.ofNat v)
    rw [toNat_ofNat (by omega)] at this
    exact this (by omega)
  split
  · have := Form.two (a := UInt8.ofNat (v / 64 % 32 + 0xC0)) (b := UInt8.ofNat (v % 64 + 0x80))
    rw [toNat_ofNat (by omega), toNat_ofNat (by omega)] at this
    have hval : (v / 64 % 32 + 0xC0 - 0xC0) * 64 + (v % 64 + 0x80 - 0x80) = v := by omega
    rw [hval] at this
    exact this (by omega) (by omega) (continues_ofNat _)
  split
  · have := Form.three (a := UInt8.ofNat (v / 4096 % 16 + 0xE0)) (b := UInt8.ofNat (v / 64 % 64 + 0x80))
      (c := UInt8.ofNat (v % 64 + 0x80))
    rw [toNat_ofNat (by omega), toNat_ofNat (by omega), toNat_ofNat (by omega)] at this
    have hval : (v / 4096 % 16 + 0xE0 - 0xE0) * 4096 + (v / 64 % 64 + 0x80 - 0x80) * 64 + (v % 64 + 0x80 - 0x80) = v := by
      omega
    rw [hval] at this
    exact this (by omega) (by omega) (continues_ofNat _) (continues_ofNat _)
  · have := Form.four (a := UInt8.ofNat (v / 262144 % 8 + 0xF0)) (b := UInt8.ofNat (v / 4096 % 64 + 0x80))
      (c := UInt8.ofNat (v / 64 % 64 + 0x80)) (d := UInt8.ofNat (v % 64 + 0x80))
    rw [toNat_ofNat (by omega), toNat_ofNat (by omega), toNat_ofNat (by omega), toNat_ofNat (by omega)] at this
    have hval : (v / 262144 % 8 + 0xF0 - 0xF0) * 262144 + (v / 4096 % 64 + 0x80 - 0x80) * 4096 +
        (v / 64 % 64 + 0x80 - 0x80) * 64 + (v % 64 + 0x80 - 0x80) = v := by omega
    rw [hval] at this
    exact this (by omega) (by omega) (continues_ofNat _) (continues_ofNat _) (continues_ofNat _)

theorem least_encode (v : Nat) : least (encode v).length ≤ v := by
  unfold encode
  split
  · exact Nat.zero_le v
  split
  · show 0x80 ≤ v
    omega
  split
  · show 0x800 ≤ v
    omega
  · show 0x10000 ≤ v
    omega

theorem ofNat_eq {n : Nat} {b : UInt8} (h : n = b.toNat) : UInt8.ofNat n = b := by
  rw [h, UInt8.ofNat_toNat]

/-- The shortest sequence with a value is its encoding. -/
theorem Form.encode_eq {q : List UInt8} {v : Nat} (h : Form q v) (hv : least q.length ≤ v) : encode v = q := by
  cases h with
  | one ha => rw [encode, if_pos (by omega), UInt8.ofNat_toNat]
  | two ha ha' hb =>
    have hv : 0x80 ≤ _ := hv
    obtain ⟨hb, hb'⟩ := hb
    rw [encode, if_neg (by omega), if_pos (by omega)]
    simp only [List.cons.injEq, and_true]
    exact ⟨ofNat_eq (by omega), ofNat_eq (by omega)⟩
  | three ha ha' hb hc =>
    have hv : 0x800 ≤ _ := hv
    obtain ⟨⟨hb, hb'⟩, hc, hc'⟩ := And.intro hb hc
    rw [encode, if_neg (by omega), if_neg (by omega), if_pos (by omega)]
    simp only [List.cons.injEq, and_true]
    exact ⟨ofNat_eq (by omega), ofNat_eq (by omega), ofNat_eq (by omega)⟩
  | four ha ha' hb hc hd =>
    have hv : 0x10000 ≤ _ := hv
    obtain ⟨⟨hb, hb'⟩, ⟨hc, hc'⟩, hd, hd'⟩ := And.intro hb (And.intro hc hd)
    rw [encode, if_neg (by omega), if_neg (by omega), if_neg (by omega)]
    simp only [List.cons.injEq, and_true]
    exact ⟨ofNat_eq (by omega), ofNat_eq (by omega), ofNat_eq (by omega), ofNat_eq (by omega)⟩

/-- The well-formed sequences are the encodings of the characters. -/
theorem canonical_iff {q : List UInt8} : Canonical q ↔ ∃ c, String.utf8EncodeChar c = q := by
  constructor
  · rintro ⟨v, hq, hleast, hv⟩
    have hval : (Char.ofNat v).val.toNat = v := by
      rw [Char.ofNat, dif_pos hv]
      rfl
    exact ⟨Char.ofNat v, by rw [utf8EncodeChar_eq, hval, hq.encode_eq hleast]⟩
  · rintro ⟨c, rfl⟩
    have hc : c.val.toNat.isValidChar := c.valid
    have hlt : c.val.toNat < 0x200000 := by
      rcases hc with hc | ⟨-, hc⟩ <;> omega
    exact ⟨c.val.toNat, form_encode hlt, least_encode _, hc⟩

theorem Canonical.form {q : List UInt8} (h : Canonical q) : ∃ v, Form q v := by
  obtain ⟨v, hq, -⟩ := h
  exact ⟨v, hq⟩

/-! ### Strings -/

theorem wellFormed_iff_exists {bs : List UInt8} :
    WellFormed bs ↔ ∃ qs : List (List UInt8), bs = qs.flatten ∧ ∀ q ∈ qs, Canonical q := by
  constructor
  · rintro ⟨cs, rfl⟩
    refine ⟨cs.map String.utf8EncodeChar, List.flatMap_def .., fun q hq => ?_⟩
    obtain ⟨c, -, rfl⟩ := List.mem_map.mp hq
    exact canonical_iff.mpr ⟨c, rfl⟩
  · rintro ⟨qs, rfl, hqs⟩
    induction qs with
    | nil => exact ⟨[], rfl⟩
    | cons q qs ih =>
      obtain ⟨c, rfl⟩ := canonical_iff.mp (hqs q (List.mem_cons_self ..))
      obtain ⟨cs, hcs⟩ := ih fun x hx => hqs x (List.mem_cons_of_mem _ hx)
      exact ⟨c :: cs, by rw [List.flatten_cons, List.flatMap_cons, hcs]⟩

/-- Sequences are well-formed together when each of them is. -/
theorem wellFormed_flatten {qs : List (List UInt8)} (hqs : ∀ q ∈ qs, ∃ v, Form q v) :
    WellFormed qs.flatten ↔ ∀ q ∈ qs, Canonical q := by
  constructor
  · intro h
    obtain ⟨ps, hps, hcanon⟩ := wellFormed_iff_exists.mp h
    have : qs = ps := uniquelyDecodable qs ps hqs (fun p hp => (hcanon p hp).form) hps
    subst this
    exact hcanon
  · intro h
    exact wellFormed_iff_exists.mpr ⟨qs, rfl, h⟩

end Utf8
