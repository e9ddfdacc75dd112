import Mathlib.Data.List.TakeWhile
import Zylib.Lib.Pieces
import Zylib.SimpleWeb.ClientHttp

/-! The fields of a header: what is written is read back, and the loop over the lines ends at the blank line of every header. -/

namespace Zylib.SimpleWeb
open Pieces (endOf endOf_cons endOf_of_prefix)

variable {line l rest : Bytes} {header : Header}

/-! ### Lines -/

theorem getline_append (hl : 10 ∉ l) (rest line : Bytes) : getline ⟨l ++ 10 :: rest, false⟩ line = (l, ⟨rest, false⟩) := by
  have all : ∀ c ∈ l, decide (c ≠ 10) = true := fun c hc => decide_eq_true fun h => hl (h ▸ hc)
  have drop : (l ++ 10 :: rest).dropWhile (· ≠ 10) = 10 :: rest := by
    rw [List.dropWhile_append_of_pos all]
    simp
  have take : (l ++ 10 :: rest).takeWhile (· ≠ 10) = l := by
    rw [List.takeWhile_append_of_pos all]
    simp
  rw [getline, if_neg Bool.false_ne_true, drop, take]

/-- A line that is ended with both characters keeps the first of them. -/
theorem getline_crlf (hl : 10 ∉ l) (rest line : Bytes) :
    getline ⟨l ++ crlf ++ rest, false⟩ line = (l ++ [13], ⟨rest, false⟩) := by
  have hl' : 10 ∉ l ++ [13] := by simp [hl]
  have e := getline_append hl' rest line
  rw [List.append_assoc, List.singleton_append] at e
  rw [List.append_assoc]
  exact e

theorem idxOf?_append {c : UInt8} (hl : c ∉ l) (back : Bytes) : (l ++ c :: back).idxOf? c = some l.length := by
  induction l with
  | nil => simp [List.idxOf?_cons]
  | cons x l ih =>
    have hx : c ≠ x := List.ne_of_not_mem_cons hl
    rw [List.cons_append, List.idxOf?_cons, ih (List.not_mem_of_not_mem_cons hl)]
    simp [hx.symm]

/-- The first of the characters behind `front`. -/
theorem find_append (front : Bytes) {c : UInt8} (hl : c ∉ l) (back : Bytes) :
    find (front ++ (l ++ c :: back)) c front.length = some (front.length + l.length) := by
  rw [find, List.drop_left, idxOf?_append hl]
  rfl

theorem find_first {c : UInt8} (hl : c ∉ l) (back : Bytes) : find (l ++ c :: back) c 0 = some l.length := by
  rw [find, List.drop_zero, idxOf?_append hl]
  simp

theorem find_eq_none {c : UInt8} (hl : c ∉ l) : find l c 0 = none := by
  rw [find, List.drop_zero, List.idxOf?_eq_none_iff.2 hl]
  rfl

/-- The part of a text between two others. -/
theorem substr_append (front l back : Bytes) {pos : ℕ} {len : Int} (hpos : pos = front.length) (hlen : len = l.length) :
    substr (front ++ (l ++ back)) pos len = l := by
  subst hpos hlen
  rw [substr, if_neg (by omega), List.drop_left, Int.toNat_natCast, List.take_left]

/-! ### Fields -/

/-- A field that can be written in a line. -/
structure Writable (h : Bytes × Bytes) : Prop where
  name : 58 ∉ h.1 ∧ 10 ∉ h.1
  value : 10 ∉ h.2

/-- The line of a field, without its end. -/
def fieldLine (h : Bytes × Bytes) : Bytes := h.1 ++ text ": " ++ h.2

theorem writeField_eq (h : Bytes × Bytes) : writeField h = fieldLine h ++ crlf := rfl

theorem Writable.not_mem {h : Bytes × Bytes} (w : Writable h) : 10 ∉ fieldLine h := by
  simp [fieldLine, w.name.2, w.value, (by decide : 10 ∉ text ": ")]

/-- The field is read back from the line that `getline` takes of it. -/
theorem field_fieldLine (h : Bytes × Bytes) : field (fieldLine h ++ [13]) h.1.length = some h := by
  obtain ⟨name, value⟩ := h
  have e : fieldLine (name, value) ++ [13] = (name ++ [58, 32]) ++ (value ++ [13]) := by
    simp [fieldLine, (by decide : text ": " = [58, 32])]
  have len : (fieldLine (name, value) ++ [13]).length = name.length + value.length + 3 := by
    rw [e]
    simp
    omega
  have space : (fieldLine (name, value) ++ [13])[name.length + 1]? = some 32 := by
    rw [e, List.append_assoc, List.getElem?_append_right (Nat.le_add_right _ _), Nat.add_sub_cancel_left]
    rfl
  have first : substr (fieldLine (name, value) ++ [13]) 0 name.length = name := by
    rw [e, List.append_assoc]
    exact substr_append [] name ([58, 32] ++ (value ++ [13])) rfl rfl
  have second : substr (fieldLine (name, value) ++ [13]) (name.length + 1 + 1)
      (((fieldLine (name, value) ++ [13]).length : Int) - (name.length + 1 + 1 : ℕ) - 1) = value := by
    rw [len, e]
    refine substr_append (name ++ [58, 32]) value [13] (by simp) ?_
    push_cast
    omega
  simp only [field, space, if_true]
  rw [if_pos (by omega), if_pos (by omega), first, second]

/-- A line with a colon is a field, and the loop goes on with the next line. -/
theorem readFields_of_find {param_end : ℕ} (h : find line 58 0 = some param_end) (bytes : Bytes) (header : Header) :
    readFields line ⟨bytes, false⟩ header =
      readFields (getline ⟨bytes, false⟩ line).1 (getline ⟨bytes, false⟩ line).2
        (header ++ (field line param_end).toList) := by
  rw [readFields, h]
  simp

theorem readFields_of_not_mem (h : 58 ∉ line) (s : Stream) (header : Header) : readFields line s header = .ok (header, s) := by
  rw [readFields, find_eq_none h]

/-- The loop reads the fields that have been written, up to the blank line. -/
theorem readFields_written {fields : Header} (w : ∀ h ∈ fields, Writable h) (rest line : Bytes) (header : Header) :
    (let (next, s) := getline ⟨fields.flatMap writeField ++ crlf ++ rest, false⟩ line
     readFields next s header) = .ok (header ++ fields, ⟨rest, false⟩) := by
  induction fields generalizing line header with
  | nil =>
    have e := getline_crlf (l := []) (by simp) rest line
    rw [List.nil_append] at e
    rw [List.flatMap_nil, List.nil_append, e, List.append_nil]
    exact readFields_of_not_mem (by decide) _ _
  | cons h fields ih =>
    have wh := w h List.mem_cons_self
    have e : (h :: fields).flatMap writeField ++ crlf ++ rest =
        fieldLine h ++ crlf ++ (fields.flatMap writeField ++ crlf ++ rest) := by
      rw [List.flatMap_cons, writeField_eq]
      simp only [List.append_assoc]
    have colon : find (fieldLine h ++ [13]) 58 0 = some h.1.length := by
      have e : fieldLine h ++ [13] = h.1 ++ 58 :: 32 :: (h.2 ++ [13]) := by
        simp [fieldLine, (by decide : text ": " = [58, 32])]
      rw [e]
      exact find_first wh.name.1 _
    rw [e, getline_crlf wh.not_mem]
    dsimp only
    rw [readFields_of_find colon, field_fieldLine]
    have step := ih (fun h' hh' => w h' (List.mem_cons_of_mem _ hh')) (fieldLine h ++ [13]) (header ++ [h])
    rw [List.append_assoc header] at step
    exact step

/-- What ends with the end of a line, or is empty. -/
def Lines (b : Bytes) : Prop := b = [] ∨ ∃ front, b = front ++ [10]

/-- The first of the lines. -/
theorem Lines.first {b : Bytes} (h : Lines b) (ne : b ≠ []) : ∃ l b', b = l ++ 10 :: b' ∧ 10 ∉ l ∧ Lines b' := by
  obtain ⟨front, rfl⟩ := h.resolve_left ne
  obtain ⟨l, b', e, hl⟩ := List.eq_append_cons_of_mem (show 10 ∈ front ++ [10] by simp)
  refine ⟨l, b', e, hl, ?_⟩
  rcases List.eq_nil_or_concat b' with rfl | ⟨init, x, rfl⟩
  · exact .inl rfl
  · have e' : front ++ [10] = (l ++ 10 :: init) ++ [x] := by rw [e]; simp
    obtain ⟨-, hx⟩ := List.append_inj' e' rfl
    cases hx
    exact .inr ⟨init, by simp⟩

/-- The loop ends at the latest with the blank line, and takes nothing behind it. -/
theorem readFields_ends {front : Bytes} (h : Lines front) (rest line : Bytes) (header : Header) :
    ∃ header' left, (let (next, s) := getline ⟨front ++ crlf ++ rest, false⟩ line
      readFields next s header) = .ok (header', ⟨left ++ rest, false⟩) := by
  generalize hn : front.length = n
  induction n using Nat.strong_induction_on generalizing front line header with
  | _ n ih =>
    by_cases ne : front = []
    · subst ne
      have e := getline_crlf (l := []) (by simp) rest line
      rw [List.nil_append] at e
      rw [List.nil_append, e]
      exact ⟨header, [], readFields_of_not_mem (by decide) _ _⟩
    · obtain ⟨l, front', rfl, hl, h'⟩ := h.first ne
      have e : l ++ 10 :: front' ++ crlf ++ rest = l ++ 10 :: (front' ++ crlf ++ rest) := by simp
      rw [e, getline_append hl]
      dsimp only
      cases found : find l 58 0 with
      | none => exact ⟨header, front' ++ crlf, by rw [readFields, found]⟩
      | some param_end =>
        rw [readFields_of_find found]
        exact ih front'.length (by simp at hn; omega) h' l _ rfl

/-! ### Where a header ends -/

/-- The end of a line is not the end of the header if no blank line follows. -/
theorem endOf_line (hl : 10 ∉ l) (h : ¬ crlf <+: rest) :
    endOf (crlf ++ crlf) (l ++ crlf ++ rest) = (endOf (crlf ++ crlf) rest).map (l.length + 2 + ·) := by
  induction l with
  | nil =>
    have first : ¬ crlf ++ crlf <+: 13 :: 10 :: rest := fun hp => h (by simpa [crlf] using hp)
    have second : ¬ crlf ++ crlf <+: 10 :: rest := fun hp => by simp [crlf] at hp
    change endOf (crlf ++ crlf) (13 :: 10 :: rest) = _
    rw [endOf_cons first, endOf_cons second, Option.map_map]
    congr 1
    funext n
    simp
    omega
  | cons x l ih =>
    have hl : 10 ∉ l := List.not_mem_of_not_mem_cons hl
    have here : ¬ crlf ++ crlf <+: x :: (l ++ crlf ++ rest) := by
      intro hp
      cases l with
      | nil => simp [crlf] at hp
      | cons y l =>
        have hy : y ≠ 10 := fun e => hl (e ▸ List.mem_cons_self)
        simp [crlf, Ne.symm hy] at hp
    rw [List.cons_append, List.cons_append, endOf_cons here, ih hl, Option.map_map]
    congr 1
    funext n
    simp
    omega

/-- A line and a blank line. -/
theorem endOf_blank (hl : 10 ∉ l) (rest : Bytes) :
    endOf (crlf ++ crlf) (l ++ crlf ++ (crlf ++ rest)) = some (l.length + 4) := by
  induction l with
  | nil => exact endOf_of_prefix ⟨rest, by simp⟩
  | cons x l ih =>
    have hl : 10 ∉ l := List.not_mem_of_not_mem_cons hl
    have here : ¬ crlf ++ crlf <+: x :: (l ++ crlf ++ (crlf ++ rest)) := by
      intro hp
      cases l with
      | nil => simp [crlf] at hp
      | cons y l =>
        have hy : y ≠ 10 := fun e => hl (e ▸ List.mem_cons_self)
        simp [crlf, Ne.symm hy] at hp
    rw [List.cons_append, List.cons_append, endOf_cons here, ih hl]
    simp

theorem Writable.not_blank {h : Bytes × Bytes} (w : Writable h) (rest : Bytes) : ¬ crlf <+: fieldLine h ++ rest := by
  obtain ⟨name, value⟩ := h
  have name10 : 10 ∉ name := w.name.2
  have e : fieldLine (name, value) ++ rest = name ++ 58 :: 32 :: (value ++ rest) := by
    simp [fieldLine, (by decide : text ": " = [58, 32])]
  rw [e]
  intro hp
  match name with
  | [] => simp [crlf] at hp
  | [x] => simp [crlf] at hp
  | x :: y :: name =>
    have hy : y ≠ 10 := fun e => name10 (by simp [e])
    simp [crlf, Ne.symm hy] at hp

/-- The header of a first line and fields ends behind its blank line. -/
theorem endOf_header (hl : 10 ∉ l) {fields : Header} (w : ∀ h ∈ fields, Writable h) (rest : Bytes) :
    endOf (crlf ++ crlf) (l ++ crlf ++ (fields.flatMap writeField ++ crlf ++ rest)) =
      some (l ++ crlf ++ (fields.flatMap writeField ++ crlf)).length := by
  induction fields generalizing l with
  | nil =>
    rw [List.flatMap_nil, List.nil_append, endOf_blank hl]
    simp [crlf]
  | cons h fields ih =>
    have wh := w h List.mem_cons_self
    have e (t : Bytes) : (h :: fields).flatMap writeField ++ crlf ++ t =
        fieldLine h ++ crlf ++ (fields.flatMap writeField ++ crlf ++ t) := by
      rw [List.flatMap_cons, writeField_eq]
      simp only [List.append_assoc]
    have e' := e []
    rw [List.append_nil, List.append_nil] at e'
    have blank : ¬ crlf <+: fieldLine h ++ crlf ++ (fields.flatMap writeField ++ crlf ++ rest) := by
      rw [List.append_assoc]
      exact wh.not_blank _
    rw [e, e', endOf_line hl blank, ih wh.not_mem fun h' hh' => w h' (List.mem_cons_of_mem _ hh')]
    simp [crlf]
    omega

/-! ### Numbers -/

theorem stoull_decimal {n : ℕ} (h : n < 2 ^ 64) : stoull (decimal n) = some n := by
  have digits : (decimal n).takeWhile (decide <| isDigit ·) = decimal n :=
    List.takeWhile_eq_self_iff.2 fun c hc => decide_eq_true (isDigit_of_mem_decimal hc)
  have plain : sign ((decimal n).dropWhile isSpace) = (false, decimal n) := by
    have first : ∃ c cs, decimal n = c :: cs := List.exists_cons_of_ne_nil (decimal_ne_nil n)
    obtain ⟨c, cs, e⟩ := first
    obtain ⟨low, high⟩ : isDigit c := isDigit_of_mem_decimal (n := n) (e ▸ List.mem_cons_self)
    have hspace : isSpace c = false := by
      refine decide_eq_false fun hc => ?_
      rcases hc with rfl | ⟨-, hc⟩
      · exact absurd low (by decide)
      · exact absurd (UInt8.le_iff_toNat_le.1 hc) (by change ¬ c.toNat ≤ 13; omega)
    rw [e, List.dropWhile_cons_of_neg (by simp [hspace])]
    unfold sign
    split
    · rename_i e'
      cases e'
      exact absurd low (by decide)
    · rename_i e'
      cases e'
      exact absurd low (by decide)
    · rfl
  unfold stoull
  rw [plain]
  dsimp only
  rw [digits, digitsValue_decimal, if_neg]
  · simp
  · rintro (e | e)
    · exact decimal_ne_nil n e
    · omega

end Zylib.SimpleWeb
