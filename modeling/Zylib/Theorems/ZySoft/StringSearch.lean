import Zylib.ZySoft.StringSearch
import Zylib.Lib.Places
import Mathlib.Data.List.Lex

/-! What the searches of a static string find, and how it compares. -/

namespace Zylib.ZySoft
open Places

variable {C : Type} [DecidableEq C] {xs ys : List C} {i : ℕ}

/-! ### Places -/

/-- The places of the text where these characters occur. -/
def occurrences (xs ys : List C) : Set ℕ := {i | i ≤ xs.length ∧ ys <+: xs.drop i}

/-- The places of the text whose characters meet `p`. -/
def places (p : C → Prop) (xs : List C) : Set ℕ := {i | ∃ x, xs[i]? = some x ∧ p x}

omit [DecidableEq C] in
theorem lt_of_places {p : C → Prop} (h : i ∈ places p xs) : i < xs.length := by
  obtain ⟨x, hx, -⟩ := h
  exact (List.getElem?_eq_some_iff.mp hx).1

omit [DecidableEq C] in
theorem length_le_of_occurrences (h : i ∈ occurrences xs ys) : i + ys.length ≤ xs.length := by
  have hle := h.2.length_le
  rw [List.length_drop] at hle
  have hi := h.1
  omega

namespace Detail

theorem searchHere_found_iff : searchHere xs ys = .found ↔ ys <+: xs := by
  fun_induction searchHere xs ys with
  | case1 => simp
  | case2 => simp
  | case3 x xs ys ih => simp [ih]
  | case4 x xs y ys hne => simp [Ne.symm hne]

theorem length_lt_of_ended (h : searchHere xs ys = .ended) : xs.length < ys.length := by
  fun_induction searchHere xs ys with
  | case1 => cases h
  | case2 => simp
  | case3 x xs ys ih => simpa using ih h
  | case4 => cases h

/-- `search` finds the first occurrence. It gives up when the text is too short for one. -/
theorem search_first (xs ys : List C) : First (occurrences xs ys) (search xs ys) := by
  induction xs with
  | nil =>
    rw [search]
    cases ys with
    | nil => exact First.of_isLeast ⟨⟨le_rfl, List.nil_prefix⟩, fun _ _ => Nat.zero_le _⟩
    | cons y ys => exact First.of_empty fun i hi => absurd (length_le_of_occurrences hi) (by simp)
  | cons x xs ih =>
    rw [search]
    split
    next hfound => exact First.of_isLeast ⟨⟨Nat.zero_le _, searchHere_found_iff.mp hfound⟩, fun _ _ => Nat.zero_le _⟩
    next hended =>
      have hlt := length_lt_of_ended hended
      exact First.of_empty fun i hi => absurd (length_le_of_occurrences hi) (by omega)
    next hdiffers =>
      refine ih.succ (fun i => by simp [occurrences]) fun hzero => ?_
      exact Inner.noConfusion ((searchHere_found_iff.mpr hzero.2).symm.trans hdiffers)

omit [DecidableEq C] in
/-- The loop of `find_first_of` and `find_not_of`, over the characters that meet `p`. -/
theorem first_places {p : C → Bool} {f : List C → Option ℕ} (hnil : f [] = none)
    (hcons : ∀ x xs, f (x :: xs) = if p x then some 0 else (f xs).map (· + 1)) (xs : List C) : First (places (p ·) xs) (f xs) := by
  induction xs with
  | nil =>
    rw [hnil]
    exact First.of_empty fun i hi => absurd (lt_of_places hi) (Nat.not_lt_zero _)
  | cons x xs ih =>
    rw [hcons]
    split
    next hx => exact First.of_isLeast ⟨⟨x, rfl, hx⟩, fun _ _ => Nat.zero_le _⟩
    next hx =>
      refine ih.succ (fun i => by simp [places]) ?_
      rintro ⟨y, hy, hmem⟩
      cases hy
      exact hx hmem

theorem findFirstOf_first (xs ys : List C) : First (places (· ∈ ys) xs) (findFirstOf xs ys) := by
  simpa using first_places (p := fun x => ys.any (x = ·)) (f := (findFirstOf · ys)) rfl (fun _ _ => rfl) xs

theorem findNotOf_first (xs ys : List C) : First (places (· ∉ ys) xs) (findNotOf xs ys) := by
  simpa using first_places (p := fun x => !ys.contains x) (f := (findNotOf · ys)) rfl (fun _ _ => rfl) xs

/-! ### The order of texts -/

section
variable {C : Type} [LinearOrder C] {x y : C} {xs ys : List C}

/-- The first characters that differ decide. -/
theorem lexicographicalCompare_cons : lexicographicalCompare (x :: xs) (y :: ys) =
    if x < y then .lt else if y < x then .gt else lexicographicalCompare xs ys := by
  simp only [lexicographicalCompare, List.length_cons, Nat.add_lt_add_iff_right, gt_iff_lt, compare]
  split_ifs <;> simp_all

theorem lexicographicalCompare_eq_lt_iff (xs ys : List C) : lexicographicalCompare xs ys = .lt ↔ xs < ys := by
  induction xs generalizing ys with
  | nil => cases ys <;> simp [lexicographicalCompare, compare]
  | cons x xs ih =>
    cases ys with
    | nil => simp [lexicographicalCompare, compare]
    | cons y ys =>
      rw [lexicographicalCompare_cons, List.cons_lt_cons_iff]
      rcases lt_trichotomy x y with hlt | rfl | hgt
      · simp [hlt]
      · simp [ih]
      · simp [hgt, hgt.not_gt, hgt.ne']

theorem lexicographicalCompare_eq_eq_iff (xs ys : List C) : lexicographicalCompare xs ys = .eq ↔ xs = ys := by
  induction xs generalizing ys with
  | nil => cases ys <;> simp [lexicographicalCompare, compare]
  | cons x xs ih =>
    cases ys with
    | nil => simp [lexicographicalCompare, compare]
    | cons y ys =>
      rw [lexicographicalCompare_cons, List.cons.injEq]
      rcases lt_trichotomy x y with hlt | rfl | hgt
      · simp [hlt, hlt.ne]
      · simp [ih]
      · simp [hgt, hgt.not_gt, hgt.ne']

end

end Detail

namespace StaticString

variable [Zero C] {N : ℕ}

omit [DecidableEq C] in
theorem length_content (s : StaticString C N) : s.content.length = s.size := by
  rw [content, List.length_take, Vector.length_toList]
  have hle := s.size_le
  omega

/-- `find` finds the first occurrence that does not begin before `pos`. -/
theorem find_first (s : StaticString C N) (chars : List C) (pos : ℕ) :
    First {i | pos ≤ i ∧ i ∈ occurrences s.content chars} (s.find chars pos) := by
  have hlen := length_content s
  rw [find]
  split
  next hout =>
    refine First.of_empty fun i hi => ?_
    have hle := length_le_of_occurrences hi.2
    have hpos := hi.1
    omega
  next hin =>
    split
    next hnil =>
      rw [List.length_eq_zero_iff.mp hnil]
      exact First.of_isLeast ⟨⟨le_rfl, by omega, List.nil_prefix⟩, fun i hi => hi.1⟩
    next =>
      refine (Detail.search_first _ _).shift (fun i => ?_) fun i hi => hi.1
      simp only [occurrences, Set.mem_ofPred_eq, List.length_drop, List.drop_drop, Nat.le_add_right, true_and]
      exact and_congr_left fun _ => by omega

omit [Zero C] in
theorem rfindLoop_last (xs chars : List C) {sub : ℕ} (hsub : sub ≤ xs.length) :
    Last {i | i ≤ sub ∧ i ∈ occurrences xs chars} (rfindLoop xs chars sub) := by
  induction sub with
  | zero =>
    rw [rfindLoop]
    split
    next heq => exact Last.of_isGreatest ⟨⟨le_rfl, hsub, List.prefix_iff_eq_take.mpr heq.symm⟩, fun i hi => hi.1⟩
    next hne =>
      refine Last.of_empty fun i hi => hne ?_
      rw [← Nat.le_zero.mp hi.1]
      exact (List.prefix_iff_eq_take.mp hi.2.2).symm
  | succ sub ih =>
    rw [rfindLoop]
    split
    next heq => exact Last.of_isGreatest ⟨⟨le_rfl, hsub, List.prefix_iff_eq_take.mpr heq.symm⟩, fun i hi => hi.1⟩
    next hne =>
      convert ih (by omega) using 1
      ext i
      refine ⟨fun hi => ⟨?_, hi.2⟩, fun hi => ⟨Nat.le_succ_of_le hi.1, hi.2⟩⟩
      refine Nat.le_of_lt_succ (lt_of_le_of_ne hi.1 ?_)
      rintro rfl
      exact hne (List.prefix_iff_eq_take.mp hi.2.2).symm

/-- `rfind` finds the last occurrence that does not begin behind `pos`. -/
theorem rfind_last (s : StaticString C N) (chars : List C) (pos : ℕ) :
    Last {i | i ≤ pos ∧ i ∈ occurrences s.content chars} (s.rfind chars pos) := by
  have hlen := length_content s
  rw [rfind]
  split
  next hshort => exact Last.of_empty fun i hi => absurd (length_le_of_occurrences hi.2) (by omega)
  next hlong =>
    -- No occurrence begins behind the place where the loop starts.
    have hset : {i | i ≤ pos ∧ i ∈ occurrences s.content chars} =
        {i | i ≤ (if pos > s.size - chars.length then s.size - chars.length else pos) ∧ i ∈ occurrences s.content chars} := by
      ext i
      refine and_congr_left fun hi => ?_
      have hle := length_le_of_occurrences hi
      split <;> omega
    have hle : (if pos > s.size - chars.length then s.size - chars.length else pos) ≤ s.content.length := by
      split <;> omega
    rw [hset]
    by_cases hnil : chars.length = 0
    · simp only [List.length_eq_zero_iff.mp hnil] at hle ⊢
      exact Last.of_isGreatest ⟨⟨le_rfl, hle, List.nil_prefix⟩, fun i hi => hi.1⟩
    · simp only [if_neg hnil]
      exact rfindLoop_last _ _ hle

/-- `find_first_of` finds the first of these characters that is not before `pos`. -/
theorem findFirstOf_first (s : StaticString C N) (chars : List C) (pos : ℕ) :
    First {i | pos ≤ i ∧ i ∈ places (· ∈ chars) s.content} (s.findFirstOf chars pos) := by
  have hlen := length_content s
  rw [findFirstOf]
  split
  next hout =>
    refine First.of_empty fun i hi => ?_
    have hlt := lt_of_places hi.2
    obtain ⟨hpos, x, -, hx⟩ := hi
    have hne := List.length_pos_of_mem hx
    omega
  next => exact (Detail.findFirstOf_first _ _).shift (fun i => by simp [places]) fun i hi => hi.1

theorem findFirstNotOf_first (s : StaticString C N) (chars : List C) (pos : ℕ) :
    First {i | pos ≤ i ∧ i ∈ places (· ∉ chars) s.content} (s.findFirstNotOf chars pos) := by
  have hlen := length_content s
  rw [findFirstNotOf]
  split
  next hout =>
    refine First.of_empty fun i hi => ?_
    have hlt := lt_of_places hi.2
    have hpos := hi.1
    omega
  next hin =>
    split
    next hnil =>
      rw [List.length_eq_zero_iff.mp hnil]
      exact First.of_isLeast ⟨⟨le_rfl, _, List.getElem?_eq_getElem (by omega), by simp⟩, fun i hi => hi.1⟩
    next => exact (Detail.findNotOf_first _ _).shift (fun i => by simp [places]) fun i hi => hi.1

omit [DecidableEq C] in
/-- A search of the reversed characters, from the one at `last` on. -/
theorem last_of_reverse {p : C → Prop} {s : StaticString C N} (pos last : ℕ) {found : Option ℕ} (hlast : last < s.size)
    (hpos : ∀ i < s.size, i ≤ last ↔ i ≤ pos) (h : First (places p (s.content.reverse.drop (s.size - (last + 1)))) found) :
    Last {i | i ≤ pos ∧ i ∈ places p s.content} (found.map fun i => s.size - 1 - (s.size - (last + 1) + i)) := by
  have hlen := length_content s
  have hback : (fun i => s.size - 1 - (s.size - (last + 1) + i)) = (last - ·) := by
    funext i
    omega
  have hget {i : ℕ} (hi : i ≤ last) : s.content.reverse[s.size - (last + 1) + i]? = s.content[last - i]? := by
    rw [List.getElem?_reverse (by omega)]
    congr 1
    omega
  rw [hback]
  refine h.reverse (fun i hi => ?_) fun i hi => ?_
  · have hlt := lt_of_places hi
    rw [List.length_drop, List.length_reverse] at hlt
    have hle : i ≤ last := by omega
    obtain ⟨x, hx, hp⟩ := hi
    rw [List.getElem?_drop, hget hle] at hx
    exact ⟨hle, (hpos _ (by omega)).mp (Nat.sub_le _ _), x, hx, hp⟩
  · have hle := (hpos i (hlen ▸ lt_of_places hi.2)).mpr hi.1
    obtain ⟨-, x, hx, hp⟩ := hi
    refine ⟨hle, x, ?_, hp⟩
    rw [List.getElem?_drop, hget (Nat.sub_le _ _), Nat.sub_sub_self hle]
    exact hx

theorem findLastOf_last (s : StaticString C N) (chars : List C) (pos : ℕ) :
    Last {i | i ≤ pos ∧ i ∈ places (· ∈ chars) s.content} (s.findLastOf chars pos) := by
  have hlen := length_content s
  rw [findLastOf]
  split
  next hnil => exact Last.of_empty fun i hi => by simp [List.length_eq_zero_iff.mp hnil, places] at hi
  next =>
    rcases Nat.eq_zero_or_pos s.size with hzero | hsize
    · simp only [List.length_eq_zero_iff.mp (hlen.trans hzero), List.reverse_nil, List.drop_nil]
      exact Last.of_empty fun i hi => by simp [places] at hi
    · by_cases hpos : pos ≥ s.size
      · have hstart : s.size - (s.size - 1 + 1) = 0 := by omega
        have hlast := last_of_reverse (s := s) pos (s.size - 1) (by omega) (fun i hi => by omega)
          (Detail.findFirstOf_first _ chars)
        simpa only [if_pos hpos, hstart] using hlast
      · simpa only [if_neg hpos] using
          last_of_reverse (s := s) pos pos (by omega) (fun i _ => Iff.rfl) (Detail.findFirstOf_first _ chars)

theorem findLastNotOf_last (s : StaticString C N) (chars : List C) (pos : ℕ) :
    Last {i | i ≤ pos ∧ i ∈ places (· ∉ chars) s.content} (s.findLastNotOf chars pos) := by
  have hlen := length_content s
  rw [findLastNotOf]
  split
  next hzero =>
    rw [List.length_eq_zero_iff.mp (hlen.trans hzero)]
    exact Last.of_empty fun i hi => by simp [places] at hi
  next hsize =>
    obtain ⟨last, hlast⟩ : ∃ last, last = if pos ≥ s.size then s.size - 1 else pos := ⟨_, rfl⟩
    have hlt : last < s.size ∧ ∀ i < s.size, i ≤ last ↔ i ≤ pos := by
      split at hlast <;> exact ⟨by omega, fun i hi => by omega⟩
    simp only [← hlast]
    split
    next hnil =>
      refine Last.of_isGreatest ⟨⟨(hlt.2 last hlt.1).mp le_rfl, _, List.getElem?_eq_getElem (by omega), ?_⟩, fun i hi => ?_⟩
      · simp [List.length_eq_zero_iff.mp hnil]
      · exact (hlt.2 i (hlen ▸ lt_of_places hi.2)).mpr hi.1
    next => exact last_of_reverse pos last hlt.1 hlt.2 (Detail.findNotOf_first _ chars)

/-- Each search finds the first of the places that are not before `pos`, or the last that are not behind it, whatever `pos` is. -/
theorem searches (s : StaticString C N) (chars : List C) (pos : ℕ) :
    First {i | pos ≤ i ∧ i ∈ occurrences s.content chars} (s.find chars pos) ∧
    Last {i | i ≤ pos ∧ i ∈ occurrences s.content chars} (s.rfind chars pos) ∧
    First {i | pos ≤ i ∧ i ∈ places (· ∈ chars) s.content} (s.findFirstOf chars pos) ∧
    Last {i | i ≤ pos ∧ i ∈ places (· ∈ chars) s.content} (s.findLastOf chars pos) ∧
    First {i | pos ≤ i ∧ i ∈ places (· ∉ chars) s.content} (s.findFirstNotOf chars pos) ∧
    Last {i | i ≤ pos ∧ i ∈ places (· ∉ chars) s.content} (s.findLastNotOf chars pos) :=
  ⟨find_first s chars pos, rfind_last s chars pos, findFirstOf_first s chars pos, findLastOf_last s chars pos,
    findFirstNotOf_first s chars pos, findLastNotOf_last s chars pos⟩

/-- `compare` is the lexicographic order of the texts, so that the comparison operators are those of a linear order. -/
theorem compare_order {C : Type} [LinearOrder C] [Zero C] {N M : ℕ} (s : StaticString C N) (t : StaticString C M) :
    (s.compare t = .lt ↔ s.content < t.content) ∧ (s.compare t = .eq ↔ s.content = t.content) ∧
      (s.compare t = .gt ↔ t.content < s.content) := by
  have hlt := Detail.lexicographicalCompare_eq_lt_iff s.content t.content
  have heq := Detail.lexicographicalCompare_eq_eq_iff s.content t.content
  refine ⟨hlt, heq, ?_⟩
  rcases lt_trichotomy s.content t.content with h | h | h
  · rw [compare, hlt.mpr h]
    simpa using h.le
  · rw [compare, heq.mpr h]
    simp [h]
  · rw [compare]
    rcases hc : Detail.lexicographicalCompare s.content t.content with _ | _ | _
    · exact absurd (hlt.mp hc) h.not_gt
    · exact absurd (heq.mp hc) h.ne'
    · simpa using h

end StaticString
end Zylib.ZySoft
