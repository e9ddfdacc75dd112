import Zylib.NgxString
import Mathlib.Data.List.Basic

/-! What is escaped is read back. The table of `NGX_ESCAPE_REFRESH` has not got the percent sign, which its comment names. -/

namespace Zylib.Ngx

/-- The text up to the first question mark, with it. -/
def throughQuestion : Bytes → Bytes
  | [] => []
  | ch :: s => if ch = 63 then [ch] else ch :: throughQuestion s

/-- What `NGX_UNESCAPE_REDIRECT` leaves of a character. -/
def redirected (type : EscapeType) (ch : UInt8) : Bytes :=
  if type.escapes ch ∧ ¬(37 < ch ∧ ch < 0x7f) then [37, hex (ch >>> 4), hex (ch &&& 0xf)] else [ch]

variable {type : EscapeType} {flags : ℕ} {ch : UInt8} {s : Bytes}

theorem escapes_percent (type : EscapeType) : type.escapes 37 = true ↔ type ≠ .refresh := by
  cases type <;> decide

/-! ### Digits -/

theorem forall_uint8 {p : UInt8 → Prop} (h : ∀ n < 256, p (UInt8.ofNat n)) (ch : UInt8) : p ch := by
  have hch := h ch.toNat ch.toNat_lt
  rwa [UInt8.ofNat_toNat] at hch

/-- A digit of `hex` is one of the two kinds that are read, and its value is read. -/
theorem hex_cases (digit : UInt8) (h : digit < 16) :
    (48 ≤ hex digit ∧ hex digit ≤ 57) ∧ hex digit - 48 = digit ∨
    ¬(48 ≤ hex digit ∧ hex digit ≤ 57) ∧ (97 ≤ hex digit ||| 0x20 ∧ hex digit ||| 0x20 ≤ 102) ∧ (hex digit ||| 0x20) - 97 + 10 = digit := by
  revert h
  revert digit
  exact forall_uint8 (by decide +kernel)

theorem nibbles (ch : UInt8) : ch >>> 4 < 16 ∧ ch &&& 0xf < 16 ∧ (ch >>> 4) <<< 4 + (ch &&& 0xf) = ch := by
  revert ch
  exact forall_uint8 (by decide +kernel)

theorem add_sub_assoc (a b c : UInt8) : a + b - c = a + (b - c) := by
  rw [UInt8.sub_eq_add_neg, UInt8.sub_eq_add_neg, UInt8.add_assoc]

/-! ### A character -/

/-- The first digit is read. -/
theorem unescapeLoop_quoted (flags : ℕ) {digit : UInt8} (h : digit < 16) (s : Bytes) :
    unescapeLoop flags .quoted (hex digit :: s) = unescapeLoop flags (.quotedSecond digit (hex digit)) s := by
  rcases hex_cases digit h with ⟨hdigit, heq⟩ | ⟨hdigit, hletter, heq⟩
  · rw [unescapeLoop, if_pos hdigit, heq]
  · rw [unescapeLoop, if_neg hdigit, if_pos hletter, heq]

/-- What is written for a character whose digits have been read. -/
def unquoted (flags : ℕ) (ch before : UInt8) : Bytes :=
  if flags = NGX_UNESCAPE_REDIRECT ∧ ¬(37 < ch ∧ ch < 0x7f) then [37, before, hex (ch &&& 0xf)] else [ch]

/-- The second digit is read, and the character is there again. If it is a question mark, the digit is a letter. -/
theorem unescapeLoop_second (hflags : flags ∈ [0, NGX_UNESCAPE_URI, NGX_UNESCAPE_REDIRECT]) (ch before : UInt8) (s : Bytes) :
    unescapeLoop flags (.quotedSecond (ch >>> 4) before) (hex (ch &&& 0xf) :: s) =
      if flags ≠ 0 ∧ ch = 63 then [ch] else unquoted flags ch before ++ unescapeLoop flags .usual s := by
  obtain ⟨-, hlow, hch⟩ := nibbles ch
  rcases hex_cases _ hlow with ⟨hdigit, heq⟩ | ⟨hdigit, hletter, heq⟩
  · have hvalue : (ch >>> 4) <<< 4 + hex (ch &&& 0xf) - 48 = ch := by rw [add_sub_assoc, heq, hch]
    have hne : ch ≠ 63 := by
      rintro rfl
      exact absurd hdigit (by decide)
    rw [unescapeLoop]
    simp only [if_pos hdigit, hvalue]
    simp only [List.mem_cons, List.not_mem_nil, or_false] at hflags
    rcases hflags with rfl | rfl | rfl
    · simp [NGX_UNESCAPE_REDIRECT, unquoted]
    · simp [NGX_UNESCAPE_REDIRECT, NGX_UNESCAPE_URI, unquoted, hne]
    · by_cases hplain : 37 < ch ∧ ch < 0x7f <;> simp [NGX_UNESCAPE_REDIRECT, unquoted, hne, hplain]
  · have hvalue : (ch >>> 4) <<< 4 + (hex (ch &&& 0xf) ||| 0x20) - 97 + 10 = ch := by
      rw [add_sub_assoc, UInt8.add_assoc, heq, hch]
    rw [unescapeLoop]
    simp only [if_neg hdigit, if_pos hletter, hvalue]
    simp only [List.mem_cons, List.not_mem_nil, or_false] at hflags
    rcases hflags with rfl | rfl | rfl
    · simp [NGX_UNESCAPE_REDIRECT, NGX_UNESCAPE_URI, unquoted]
    · simp [NGX_UNESCAPE_REDIRECT, NGX_UNESCAPE_URI, unquoted]
    · by_cases hplain : 37 < ch ∧ ch < 0x7f <;> simp [NGX_UNESCAPE_REDIRECT, NGX_UNESCAPE_URI, unquoted, hplain]

/-- What is written for a character of the text that was escaped. -/
def restored (type : EscapeType) (flags : ℕ) (ch : UInt8) : Bytes :=
  if type.escapes ch then unquoted flags ch (hex (ch >>> 4)) else [ch]

theorem unescapeLoop_escapeUri_cons (hflags : flags ∈ [0, NGX_UNESCAPE_URI, NGX_UNESCAPE_REDIRECT])
    (hpercent : ch = 37 → type ≠ .refresh) (s : Bytes) :
    unescapeLoop flags .usual (escapeUri type (ch :: s)) =
      if flags ≠ 0 ∧ ch = 63 then [ch] else restored type flags ch ++ unescapeLoop flags .usual (escapeUri type s) := by
  rw [escapeUri, restored]
  split
  next hescaped =>
    have hquoted : ∀ s, unescapeLoop flags .usual (37 :: s) = unescapeLoop flags .quoted s := fun s => by simp [unescapeLoop]
    rw [hquoted, unescapeLoop_quoted flags (nibbles ch).1, unescapeLoop_second hflags]
  next hescaped =>
    have hne : ch ≠ 37 := fun heq => hescaped (heq ▸ (escapes_percent type).mpr (hpercent heq))
    have hstop : flags &&& (NGX_UNESCAPE_URI ||| NGX_UNESCAPE_REDIRECT) ≠ 0 ↔ flags ≠ 0 := by
      revert hflags
      revert flags
      decide
    rw [unescapeLoop, if_neg hne]
    simp only [hstop, and_comm]
    rfl

/-! ### Texts -/

theorem length_escapeUri (type : EscapeType) (s : Bytes) : (escapeUri type s).length = s.length + 2 * escapeUriCount type s := by
  induction s with
  | nil => rfl
  | cons ch s ih =>
    rw [escapeUriCount] at ih ⊢
    rw [escapeUri]
    split
    next h => simp [h, ih]; omega
    next h => simp [h, ih]; omega

theorem restored_question (type : EscapeType) (flags : ℕ) : restored type flags 63 = [63] := by
  rw [restored, unquoted, if_neg (show ¬(flags = NGX_UNESCAPE_REDIRECT ∧ ¬((37 : UInt8) < 63 ∧ (63 : UInt8) < 0x7f)) from
    fun h => h.2 (by decide)), ite_self]

/-- A text is read back a character at a time, up to a question mark if there are flags. -/
theorem unescapeUri_escapeUri_eq (hflags : flags ∈ [0, NGX_UNESCAPE_URI, NGX_UNESCAPE_REDIRECT]) (hpercent : 37 ∈ s → type ≠ .refresh) :
    unescapeUri flags (escapeUri type s) = (if flags = 0 then s else throughQuestion s).flatMap (restored type flags) := by
  rw [unescapeUri]
  induction s with
  | nil => rw [throughQuestion, ite_self]; rfl
  | cons ch s ih =>
    rw [unescapeLoop_escapeUri_cons hflags (fun heq => hpercent (heq ▸ List.mem_cons_self)),
      ih fun hmem => hpercent (List.mem_cons_of_mem _ hmem), throughQuestion]
    by_cases hzero : flags = 0
    · simp [hzero]
    · by_cases hquestion : ch = 63
      · simp [hzero, hquestion, restored_question]
      · simp [hzero, hquestion]

theorem restored_eq_singleton (hflags : flags ≠ NGX_UNESCAPE_REDIRECT) (type : EscapeType) : restored type flags = fun ch => [ch] := by
  funext ch
  have hunquoted : unquoted flags ch (hex (ch >>> 4)) = [ch] := if_neg fun h => hflags h.1
  rw [restored, hunquoted, ite_self]

theorem restored_redirect (type : EscapeType) : restored type NGX_UNESCAPE_REDIRECT = redirected type := by
  funext ch
  rw [restored, redirected]
  split
  next hescaped => simp [unquoted, hescaped]
  next hescaped => simp [hescaped]

/-- Without flags the escaped text is read back; with `NGX_UNESCAPE_URI`, up to the first question mark, whether or not it was escaped;
    with `NGX_UNESCAPE_REDIRECT`, what is not a plain character stays escaped. The escaped text has the length that was counted. -/
theorem unescape_escape (hpercent : 37 ∈ s → type ≠ .refresh) :
    unescapeUri 0 (escapeUri type s) = s ∧
    unescapeUri NGX_UNESCAPE_URI (escapeUri type s) = throughQuestion s ∧
    unescapeUri NGX_UNESCAPE_REDIRECT (escapeUri type s) = (throughQuestion s).flatMap (redirected type) ∧
    (escapeUri type s).length = s.length + 2 * escapeUriCount type s := by
  refine ⟨?_, ?_, ?_, length_escapeUri type s⟩
  · rw [unescapeUri_escapeUri_eq (by decide) hpercent, if_pos rfl, restored_eq_singleton (by decide), List.flatMap_singleton']
  · rw [unescapeUri_escapeUri_eq (by decide) hpercent, if_neg (by decide), restored_eq_singleton (by decide), List.flatMap_singleton']
  · rw [unescapeUri_escapeUri_eq (by decide) hpercent, if_neg (by decide), restored_redirect]

/-- `a? %`. -/
theorem unescape_escape_args :
    unescapeUri 0 (escapeUri .args [97, 63, 32, 37]) = [97, 63, 32, 37] ∧
    unescapeUri NGX_UNESCAPE_URI (escapeUri .args [97, 63, 32, 37]) = throughQuestion [97, 63, 32, 37] ∧
    unescapeUri NGX_UNESCAPE_REDIRECT (escapeUri .args [97, 63, 32, 37]) = (throughQuestion [97, 63, 32, 37]).flatMap (redirected .args) ∧
    (escapeUri .args [97, 63, 32, 37]).length = [97, 63, 32, 37].length + 2 * escapeUriCount .args [97, 63, 32, 37] :=
  unescape_escape fun _ => by decide

end Zylib.Ngx
