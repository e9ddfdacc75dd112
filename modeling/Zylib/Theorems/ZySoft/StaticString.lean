import Zylib.ZySoft.StaticString
import Zylib.Lib.Lists

/-! Every member of a static string does to its block of memory what it should do to the text, and keeps the null character behind
    it, whether or not its argument lies in the string. -/

namespace Zylib.ZySoft.StaticString
open Block Text

variable {C : Type} [Zero C] {N : ℕ} {s t : StaticString C N} {xs ys : List C}

/-- The string has these characters, and the null character behind them. -/
structure Represents (s : StaticString C N) (xs : List C) : Prop where
  size : s.size = xs.length
  holds : Holds s.data 0 (xs ++ [0])

/-- A member throws and leaves what it should. -/
def Meets (r : Member C N) (out : Option Failure × List C) : Prop :=
  ∃ e t, r = .ok (e, t) ∧ e.map Exception.failure = out.1 ∧ Represents t out.2

/-! ### Tools -/

theorem Represents.le (h : Represents s xs) : xs.length ≤ N := h.size ▸ s.size_le

theorem Represents.front (h : Represents s xs) : Holds s.data 0 xs := (holds_append.mp h.holds).1

/-- The characters from `k` on, with the null character. -/
theorem Represents.tail (h : Represents s xs) {k : ℕ} (hk : k ≤ xs.length) : Holds s.data k (xs.drop k ++ [0]) := by
  have hdrop := h.holds.drop k
  rwa [Nat.zero_add, List.drop_append_of_le_length hk] at hdrop

theorem Represents.content_eq (h : Represents s xs) : s.content = xs := by
  have hcontent : Holds s.data 0 s.content := (holds_toList s.data).take s.size
  refine hcontent.unique h.front ?_
  rw [content, List.length_take, Vector.length_toList, h.size, Nat.min_eq_left (Nat.le_succ_of_le h.le)]

theorem Represents.terminated (h : Represents s xs) : Terminated s := by
  rw [Terminated, h.size]
  simpa using (holds_append.mp h.holds).2 0 Nat.one_pos

theorem represents_empty : Represents ({} : StaticString C N) [] where
  size := rfl
  holds i hi := by
    rw [Nat.lt_one_iff.mp hi]
    simp

/-- The next action of a member is a write. -/
theorem meets_write {f : Vector C (N + 1) → Except Block.Fault (Vector C (N + 1))} {m : Vector C (N + 1)}
    {k : StaticString C N → Member C N} {out : Option Failure × List C} (hm : f s.data = .ok m)
    (h : Meets (k { s with data := m }) out) : Meets (s.write f >>= k) out := by
  rw [write, hm]
  exact h

theorem meets_size {n : ℕ} {k : StaticString C N → Member C N} {out : Option Failure × List C} (hn : n ≤ N)
    (h : Meets (k { s with size := n, size_le := hn }) out) : Meets (s.setSize n >>= k) out := by
  rw [setSize, dif_pos hn]
  exact h

theorem meets_returning (h : Represents s xs) : Meets (returning s) (none, xs) := ⟨none, s, rfl, rfl, h⟩

theorem meets_throw (h : Represents s xs) (e : Exception) : Meets (throwing e s) (some e.failure, xs) := ⟨some e, s, rfl, rfl, h⟩

theorem represents_term (h : Holds s.data 0 ys) (hn : s.size = ys.length) : Represents s.term ys where
  size := hn
  holds := by
    have hset := writes_set s.data (Nat.lt_succ_of_le s.size_le) 0
    refine holds_append.mpr ⟨hset.frame h (.inl ?_), ?_⟩
    · rw [Nat.zero_add, hn]
    · rw [Nat.zero_add, ← hn]
      exact hset.holds

/-- A member ends with `set_size`, and the null character is there. -/
theorem meets_set (hm : Holds s.data 0 (ys ++ [0])) {n : ℕ} (hn : n = ys.length) (hle : ys.length ≤ N) :
    Meets (s.setSize n >>= returning) (none, ys) := by
  subst hn
  exact meets_size hle ⟨none, _, rfl, rfl, rfl, hm⟩

/-- A member ends with `set_size` and `term`. -/
theorem meets_set_term (hm : Holds s.data 0 ys) {n : ℕ} (hn : n = ys.length) (hle : ys.length ≤ N) :
    Meets (s.setSize n >>= fun t => returning t.term) (none, ys) := by
  subst hn
  exact meets_size hle ⟨none, _, rfl, rfl, represents_term hm rfl⟩

theorem meets_limited {r : Member C N} (h : Represents s xs)
    (hlong : N < ys.length → ∃ what, r = throwing (.lengthError what) s) (hshort : ys.length ≤ N → Meets r (none, ys)) :
    Meets r (limited N xs ys) := by
  rw [limited]
  split
  · exact hshort ‹_›
  · obtain ⟨what, hr⟩ := hlong (by omega)
    rw [hr]
    exact meets_throw h (.lengthError what)

/-! ### `assign` and what ends the string elsewhere -/

omit [Zero C] in
theorem length_chars_inside {offset count : ℕ} (h : offset + count ≤ xs.length) : ((xs.drop offset).take count).length = count := by
  rw [List.length_take, List.length_drop]
  omega

omit [Zero C] in
theorem count_eq {src : Source C} (hsrc : Inside xs src) : src.count = (chars xs src).length := by
  cases src with
  | outside cs => rfl
  | inside offset count => exact (length_chars_inside hsrc).symm

theorem Represents.holds_inside (h : Represents s xs) (offset count : ℕ) : Holds s.data offset ((xs.drop offset).take count) := by
  simpa using h.front.slice offset count

/-- The characters of an argument are in place after a `traits_type::move`. -/
theorem moveFrom_eq (h : Represents s xs) {src : Source C} (hsrc : Inside xs src) (dst : ℕ) (hdst : dst + src.count ≤ N + 1) :
    ∃ m, moveFrom dst src s.data = .ok m ∧ Writes s.data m dst (chars xs src) := by
  cases src with
  | outside cs => exact store_eq _ _ _ hdst
  | inside offset count =>
    have hle := h.le
    rw [Inside] at hsrc
    exact move_eq (h.holds_inside offset count) (length_chars_inside hsrc) dst (by omega) hdst

/-- The same after a `traits_type::copy` to behind the string. -/
theorem copyFrom_eq (h : Represents s xs) {src : Source C} (hsrc : Inside xs src) (hdst : xs.length + src.count ≤ N + 1) :
    ∃ m, copyFrom xs.length src s.data = .ok m ∧ Writes s.data m xs.length (chars xs src) := by
  cases src with
  | outside cs => exact store_eq _ _ _ hdst
  | inside offset count =>
    have hle := h.le
    rw [Inside] at hsrc
    exact copy_eq (h.holds_inside offset count) (length_chars_inside hsrc) _ (by omega) hdst (.inr hsrc)

theorem clear_meets (s : StaticString C N) : Meets s.clear (none, []) :=
  meets_size (Nat.zero_le N) (meets_returning (represents_term (holds_nil _ _) rfl))

theorem assignCount_meets (h : Represents s xs) (count : ℕ) (ch : C) :
    Meets (s.assignCount count ch) (limited N xs (List.replicate count ch)) := by
  refine meets_limited h (fun hlong => ?_) fun hshort => ?_ <;> rw [List.length_replicate] at *
  · exact ⟨_, if_pos hlong⟩
  · obtain ⟨m, hm, hwrites⟩ := fill_eq s.data 0 count ch (by omega)
    rw [assignCount, if_neg (by omega)]
    exact meets_size hshort (meets_write hm (meets_returning (represents_term hwrites.holds List.length_replicate.symm)))

theorem assign_meets (h : Represents s xs) {src : Source C} (hsrc : Inside xs src) :
    Meets (s.assign src) (limited N xs (chars xs src)) := by
  have hcount := count_eq hsrc
  refine meets_limited h (fun hlong => ⟨_, if_pos (hcount ▸ hlong)⟩) fun hshort => ?_
  obtain ⟨m, hm, hwrites⟩ := moveFrom_eq h hsrc 0 (by omega)
  rw [assign, if_neg (by omega)]
  exact meets_size (hcount ▸ hshort) (meets_write hm (meets_returning (represents_term hwrites.holds hcount)))

theorem assignUnchecked_meets (s : StaticString C N) {cs : List C} (hcs : cs.length ≤ N) :
    Meets (s.assignUnchecked cs) (none, cs) := by
  obtain ⟨m, hm, hwrites⟩ := store_eq s.data 0 (cs ++ [0]) (by rw [List.length_append]; simp; omega)
  exact meets_size hcs (meets_write hm (meets_returning ⟨rfl, hwrites.holds⟩))

/-- In the loop of `assign(first, last)` the block holds the characters that were read. -/
theorem assignLoop_meets (cs : List C) : ∀ (s : StaticString C N) {done : List C}, Holds s.data 0 done → done.length ≤ N →
    Meets (s.assignLoop done.length cs)
      (if done.length + cs.length ≤ N then (none, done ++ cs) else (some .length, (done ++ cs).take N)) := by
  induction cs with
  | nil =>
    intro s done hdone hle
    rw [assignLoop, List.append_nil, if_pos (by simpa using hle)]
    exact meets_size hle (meets_returning (represents_term hdone rfl))
  | cons c cs ih =>
    intro s done hdone hle
    rw [assignLoop]
    rcases Nat.lt_or_ge done.length N with hlt | hge
    · obtain ⟨m, hm, hwrites⟩ := store_eq s.data done.length [c] (by simp; omega)
      have hnext : Holds m 0 (done ++ [c]) :=
        holds_append.mpr ⟨hwrites.frame hdone (.inl (by omega)), by simpa using hwrites.holds⟩
      have hloop := ih { s with data := m } hnext (by rwa [List.length_append])
      rw [if_neg (by omega)]
      refine meets_write hm ?_
      simpa [Nat.add_assoc, Nat.add_comm 1] using hloop
    · have hN : done.length = N := by omega
      rw [if_pos hge, if_neg (by simp; omega), List.take_append_of_le_length (by omega), List.take_of_length_le (by omega)]
      refine meets_size hle ?_
      exact ⟨some (.lengthError "n > max_size()"), _, rfl, rfl, represents_term hdone rfl⟩

theorem assignInput_meets (s : StaticString C N) (cs : List C) :
    Meets (s.assignInput cs) (if cs.length ≤ N then (none, cs) else (some .length, cs.take N)) := by
  simpa [assignInput] using assignLoop_meets cs s (holds_nil s.data 0) (Nat.zero_le N)

theorem assignChar_meets (h : Represents s xs) (ch : C) : Meets (s.assignChar ch) (limited N xs [ch]) := by
  refine meets_limited h (fun hlong => ⟨_, if_pos (by simpa using hlong)⟩) fun hshort => ?_
  obtain ⟨m, hm, hwrites⟩ := store_eq s.data 0 [ch] (by simp)
  rw [assignChar, if_neg (not_not.mpr (show 0 < N from hshort))]
  exact meets_size hshort (meets_write hm (meets_returning (represents_term hwrites.holds rfl)))

/-! ### `append`, `push_back`, `pop_back` and `resize` -/

/-- What was written behind the string continues it. -/
theorem Represents.append (h : Represents s xs) {m : Vector C (N + 1)} (hwrites : Writes s.data m xs.length ys) :
    Holds m 0 (xs ++ ys) :=
  holds_append.mpr ⟨hwrites.frame h.front (.inl (by omega)), by simpa using hwrites.holds⟩

theorem appendCount_meets (h : Represents s xs) (count : ℕ) (ch : C) :
    Meets (s.appendCount count ch) (limited N xs (xs ++ List.replicate count ch)) := by
  have hsize := h.size
  have hle := h.le
  refine meets_limited h (fun hlong => ?_) fun hshort => ?_ <;> rw [List.length_append, List.length_replicate] at *
  · exact ⟨_, if_pos (by omega)⟩
  · obtain ⟨m, hm, hwrites⟩ := fill_eq s.data s.size count ch (by omega)
    rw [appendCount, if_neg (by omega)]
    refine meets_write hm (meets_set_term (h.append (hsize ▸ hwrites)) ?_ ?_) <;> rw [List.length_append, List.length_replicate]
    · rw [hsize]
    · exact hshort

theorem append_meets (h : Represents s xs) {src : Source C} (hsrc : Inside xs src) :
    Meets (s.append src) (limited N xs (xs ++ chars xs src)) := by
  have hsize := h.size
  have hcount := count_eq hsrc
  have hle := h.le
  refine meets_limited h (fun hlong => ?_) fun hshort => ?_ <;> rw [List.length_append] at *
  · exact ⟨_, if_pos (by omega)⟩
  · obtain ⟨m, hm, hwrites⟩ := copyFrom_eq h hsrc (by omega)
    rw [← hsize] at hm
    rw [StaticString.append, if_neg (by omega)]
    refine meets_write hm (meets_set_term (h.append hwrites) ?_ ?_) <;> rw [List.length_append]
    · rw [hcount, hsize]
    · exact hshort

theorem pushBack_meets (h : Represents s xs) (ch : C) : Meets (s.pushBack ch) (limited N xs (xs ++ [ch])) := by
  have hsize := h.size
  have hle := h.le
  refine meets_limited h (fun hlong => ?_) fun hshort => ?_ <;> rw [List.length_append, List.length_singleton] at *
  · exact ⟨_, if_pos (by omega)⟩
  · obtain ⟨m, hm, hwrites⟩ := store_eq s.data s.size [ch] (by simp; omega)
    rw [pushBack, if_neg (by omega)]
    refine meets_write hm (meets_set_term (h.append (hsize ▸ hwrites)) ?_ ?_) <;> rw [List.length_append, List.length_singleton]
    · rw [hsize]
    · exact hshort

theorem popBack_meets (h : Represents s xs) (hne : xs ≠ []) : Meets s.popBack (none, xs.dropLast) := by
  have hsize := h.size
  have hpos := List.length_pos_iff.mpr hne
  rw [popBack, if_neg (by omega)]
  have hle := h.le
  refine meets_set_term ?_ ?_ ?_
  · rw [List.dropLast_eq_take]
    exact h.front.take _
  · rw [List.length_dropLast, hsize]
  · rw [List.length_dropLast]
    omega

theorem resize_meets (h : Represents s xs) (n : ℕ) (c : C) :
    Meets (s.resize n c) (limited N xs (xs.take n ++ List.replicate (n - xs.length) c)) := by
  have hsize := h.size
  have hlen : (xs.take n ++ List.replicate (n - xs.length) c).length = n := by
    rw [List.length_append, List.length_take, List.length_replicate]
    omega
  refine meets_limited h (fun hlong => ⟨_, if_pos (hlen ▸ hlong)⟩) fun hshort => ?_
  rw [resize, if_neg (by omega)]
  rcases Nat.lt_or_ge xs.length n with hlt | hge
  · obtain ⟨m, hm, hwrites⟩ := fill_eq s.data s.size (n - s.size) c (by omega)
    simp only [hsize ▸ hlt, if_true]
    refine meets_write hm (meets_set_term ?_ hlen.symm hshort)
    rw [List.take_of_length_le (by omega), ← hsize]
    exact h.append (hsize ▸ hwrites)
  · simp only [show ¬n > s.size by omega, if_false]
    refine meets_set_term ?_ hlen.symm hshort
    rw [Nat.sub_eq_zero_of_le hge, List.replicate_zero, List.append_nil]
    exact h.front.take n

/-! ### A gap in the string -/

/-- The characters before `pos` are in place, and those from `pos + n1` on have been moved to `pos + n2`. -/
structure Gap (m : Vector C (N + 1)) (xs : List C) (pos n1 n2 : ℕ) : Prop where
  before : Holds m 0 (xs.take pos)
  behind : Holds m (pos + n2) (xs.drop (pos + n1) ++ [0])

theorem Gap.holds {m : Vector C (N + 1)} {pos n1 : ℕ} (h : Gap m xs pos n1 ys.length) (hys : Holds m pos ys)
    (hpos : pos ≤ xs.length) : Holds m 0 (splice xs pos n1 ys ++ [0]) := by
  have hlen : (xs.take pos).length = pos := by rw [List.length_take, Nat.min_eq_left hpos]
  rw [splice, List.append_assoc, List.append_assoc, holds_append, holds_append, Nat.zero_add, hlen]
  exact ⟨h.before, hys, h.behind⟩

/-- The gap is filled. -/
theorem Gap.fill {m m' : Vector C (N + 1)} {pos n1 : ℕ} (h : Gap m xs pos n1 ys.length) (hwrites : Writes m m' pos ys)
    (hpos : pos ≤ xs.length) : Holds m' 0 (splice xs pos n1 ys ++ [0]) := by
  refine Gap.holds ⟨hwrites.frame h.before (.inl ?_), hwrites.frame h.behind (.inr le_rfl)⟩ hwrites.holds hpos
  rw [List.length_take]
  omega

theorem Gap.move {m : Vector C (N + 1)} {pos n1 : ℕ} (n2 : ℕ) (hbefore : Holds m 0 (xs.take pos))
    (hbehind : Holds m (pos + n1) (xs.drop (pos + n1) ++ [0])) (hpos : pos + n1 ≤ xs.length) (hle : xs.length ≤ N)
    (hlen : xs.length - n1 + n2 ≤ N) :
    ∃ m', Block.move m (pos + n2) (pos + n1) (xs.length - (pos + n1) + 1) = .ok m' ∧ Gap m' xs pos n1 n2 ∧
      Writes m m' (pos + n2) (xs.drop (pos + n1) ++ [0]) := by
  have hcount : (xs.drop (pos + n1) ++ [0]).length = xs.length - (pos + n1) + 1 := by simp
  obtain ⟨m', hm, hwrites⟩ := move_eq hbehind hcount (pos + n2) (by omega) (by omega)
  refine ⟨m', hm, ⟨hwrites.frame hbefore (.inl ?_), hwrites.holds⟩, hwrites⟩
  rw [List.length_take]
  omega

/-- `n1` characters at `pos` leave room for `n2`. -/
theorem Represents.gap (h : Represents s xs) {pos : ℕ} (n1 n2 : ℕ) (hpos : pos + n1 ≤ xs.length) (hlen : xs.length - n1 + n2 ≤ N) :
    ∃ m, Block.move s.data (pos + n2) (pos + n1) (xs.length - (pos + n1) + 1) = .ok m ∧ Gap m xs pos n1 n2 ∧
      Writes s.data m (pos + n2) (xs.drop (pos + n1) ++ [0]) :=
  Gap.move n2 (h.front.take pos) (h.tail hpos) hpos h.le hlen

omit [Zero C] in
theorem length_splice {pos : ℕ} (n1 : ℕ) (ys : List C) (hpos : pos + n1 ≤ xs.length) : (splice xs pos n1 ys).length = xs.length - n1 + ys.length := by
  rw [splice, List.length_append, List.length_append, List.length_take, List.length_drop]
  omega

/-! ### `insert` and `erase` -/

theorem insertCountAt_meets (h : Represents s xs) {pos : ℕ} (hpos : pos ≤ xs.length) (count : ℕ) (ch : C) :
    Meets (s.insertCountAt pos count ch) (limited N xs (splice xs pos 0 (List.replicate count ch))) := by
  have hsize := h.size
  have hle := h.le
  have hlen : (splice xs pos 0 (List.replicate count ch)).length = xs.length + count := by
    rw [length_splice _ _ hpos, List.length_replicate, Nat.sub_zero]
  refine meets_limited h (fun hlong => ⟨_, if_pos (by omega)⟩) fun hshort => ?_
  obtain ⟨m, hm, hgap, -⟩ := h.gap 0 count hpos (by omega)
  obtain ⟨m', hm', hwrites⟩ := fill_eq m pos count ch (by omega)
  rw [insertCountAt, if_neg (by omega)]
  refine meets_write (hsize ▸ hm) (meets_write hm' (meets_set (Gap.fill ?_ hwrites hpos) (by omega) hshort))
  rwa [List.length_replicate]

omit [Zero C] in
/-- Characters on both sides of `pos`. -/
theorem take_drop_split {offset pos count : ℕ} (hlt : offset ≤ pos) (hle : pos ≤ offset + count) :
    (xs.drop offset).take count = (xs.drop offset).take (pos - offset) ++ (xs.drop pos).take (count - (pos - offset)) := by
  have hcount : count = (pos - offset) + (count - (pos - offset)) := by omega
  conv_lhs => rw [hcount, List.take_add, List.drop_drop, Nat.add_sub_cancel' hlt]

/-- Characters of the string itself are in place after `insert` has moved the end of the string: they are before `pos`, on both
    sides of it, or behind it. -/
theorem insertAt_inside (h : Represents s xs) {pos offset count : ℕ} (hpos : pos ≤ xs.length) (hsrc : offset + count ≤ xs.length)
    (hshort : xs.length + count ≤ N) :
    Meets (s.insertAt pos (.inside offset count)) (none, splice xs pos 0 ((xs.drop offset).take count)) := by
  have hsize := h.size
  have hlen := length_chars_inside hsrc
  obtain ⟨m, hm, hgap, hmoved⟩ := h.gap 0 count hpos (by omega)
  have hbehind : Holds m (pos + count) (xs.drop pos) := (holds_append.mp hgap.behind).1
  have hfill {m' : Vector C (N + 1)} (hwrites : Writes m m' pos ((xs.drop offset).take count)) :
      Meets (({ s with data := m' } : StaticString C N).setSize (s.size + count) >>= returning)
        (none, splice xs pos 0 ((xs.drop offset).take count)) := by
    have hsplice := length_splice 0 ((xs.drop offset).take count) hpos
    refine meets_set (Gap.fill ?_ hwrites hpos) (by omega) (by omega)
    rwa [hlen]
  simp only [insertAt, Source.count]
  rw [if_neg (show ¬count > N - s.size by omega)]
  refine meets_write (hsize ▸ hm) ?_
  by_cases hbefore : ¬offset < s.size ∨ offset + count ≤ pos
  · have hin : Holds m offset ((xs.drop offset).take count) := by
      rcases Nat.eq_zero_or_pos count with rfl | hcount
      · exact holds_nil _ _
      · exact hmoved.frame (h.holds_inside offset count) (by omega)
    obtain ⟨m', hm', hwrites⟩ := copy_eq hin hlen pos (by omega) (by omega) (by omega)
    rw [if_pos hbefore]
    exact meets_write hm' (hfill hwrites)
  rw [if_neg hbefore]
  by_cases hsplit : offset < pos
  · have hfirst := length_chars_inside (show offset + (pos - offset) ≤ xs.length by omega)
    have hin := hmoved.frame (h.holds_inside offset (pos - offset)) (by omega)
    obtain ⟨m₁, hm₁, hwrites₁⟩ := copy_eq hin hfirst pos (by omega) (by omega) (by omega)
    have hsecond := length_chars_inside (show pos + (count - (pos - offset)) ≤ xs.length by omega)
    have hin₁ := hwrites₁.frame (hbehind.take (count - (pos - offset))) (by omega)
    obtain ⟨m₂, hm₂, hwrites₂⟩ := copy_eq hin₁ hsecond (pos + (pos - offset)) (by omega) (by omega) (by omega)
    rw [if_pos hsplit]
    refine meets_write hm₁ (meets_write hm₂ (hfill ?_))
    rw [take_drop_split hsplit.le (by omega)]
    refine hwrites₁.append ?_
    rw [hfirst]
    exact hwrites₂
  · have hin : Holds m (offset + count) ((xs.drop offset).take count) := by
      have hge : pos ≤ offset := by omega
      have hslice := hbehind.slice (offset - pos) count
      rwa [List.drop_drop, Nat.add_right_comm, Nat.add_sub_cancel' hge] at hslice
    obtain ⟨m', hm', hwrites⟩ := copy_eq hin hlen pos (by omega) (by omega) (by omega)
    rw [if_neg hsplit]
    exact meets_write hm' (hfill hwrites)

theorem insertAt_meets (h : Represents s xs) {pos : ℕ} (hpos : pos ≤ xs.length) {src : Source C} (hsrc : Inside xs src) :
    Meets (s.insertAt pos src) (limited N xs (splice xs pos 0 (chars xs src))) := by
  have hsize := h.size
  have hle := h.le
  have hcount := count_eq hsrc
  have hlen : (splice xs pos 0 (chars xs src)).length = xs.length + src.count := by rw [length_splice _ _ hpos, hcount, Nat.sub_zero]
  refine meets_limited h (fun hlong => ⟨_, if_pos (by omega)⟩) fun hshort => ?_
  rw [hlen] at hshort
  cases src with
  | outside cs =>
    have hroom : xs.length + cs.length ≤ N := hshort
    obtain ⟨m, hm, hgap, -⟩ := h.gap 0 cs.length hpos (by omega)
    obtain ⟨m', hm', hwrites⟩ := store_eq m pos cs (by omega)
    rw [insertAt, if_neg (by omega)]
    refine meets_write (hsize ▸ hm) (meets_write hm' (meets_set (hgap.fill hwrites hpos) ?_ ?_))
    · rw [← hsize] at hlen
      exact hlen.symm
    · exact hlen.trans_le hshort
  | inside offset count => exact insertAt_inside h hpos hsrc hshort

theorem insertUncheckedAt_meets (h : Represents s xs) {pos : ℕ} (hpos : pos ≤ xs.length) (cs : List C) :
    Meets (s.insertUncheckedAt pos cs) (limited N xs (splice xs pos 0 cs)) := insertAt_meets h hpos (show Inside xs (.outside cs) from trivial)

/-! ### Characters of input iterators -/

/-- The characters are read back from `k` on. -/
theorem readLoop_room (overwrite_null : Bool) (cs : List C) : ∀ (s : StaticString C N) {k : ℕ}, k + cs.length ≤ N →
    ∃ m, readLoop overwrite_null s k cs = .ok (true, { s with data := m }) ∧ Writes s.data m (k + (!overwrite_null).toNat) cs := by
  induction cs with
  | nil => exact fun s k _ => ⟨s.data, rfl, holds_nil _ _, fun h _ => h⟩
  | cons c cs ih =>
    intro s k hk
    rw [List.length_cons] at hk
    have hbool := Bool.toNat_le (!overwrite_null)
    obtain ⟨m, hm, hwrites⟩ := store_eq s.data (k + (!overwrite_null).toNat) [c] (by simp; omega)
    obtain ⟨m', hm', hwrites'⟩ := ih { s with data := m } (k := k + 1) (by omega)
    refine ⟨m', ?_, ?_⟩
    · rw [readLoop, if_neg (by omega), write, hm]
      exact hm'
    · rw [Nat.add_right_comm] at hwrites'
      exact hwrites.append hwrites'

/-- There is no room for the characters. The string is as it was. -/
theorem readLoop_full (overwrite_null : Bool) (cs : List C) : ∀ (s : StaticString C N) {k : ℕ}, N < k + cs.length →
    xs.length ≤ k → k ≤ N → s.size = xs.length → Holds s.data 0 (if overwrite_null then xs else xs ++ [0]) →
    ∃ t, readLoop overwrite_null s k cs = .ok (false, t) ∧ Represents t xs := by
  induction cs with
  | nil => exact fun s k hlt _ hk => absurd hlt (by simpa using hk)
  | cons c cs ih =>
    intro s k hlt hxs hk hsize hholds
    rw [readLoop]
    rcases Nat.lt_or_ge k N with hroom | hfull
    · have hbool := Bool.toNat_le (!overwrite_null)
      obtain ⟨m, hm, hwrites⟩ := store_eq s.data (k + (!overwrite_null).toNat) [c] (by simp; omega)
      rw [if_neg (by omega), write, hm]
      refine ih { s with data := m } (by rw [List.length_cons] at hlt; omega) (by omega) hroom hsize (hwrites.frame hholds (.inl ?_))
      cases overwrite_null <;> simp <;> omega
    · rw [if_pos hfull]
      cases overwrite_null
      · exact ⟨s, rfl, hsize, hholds⟩
      · exact ⟨s.term, rfl, represents_term hholds hsize⟩

theorem appendInput_meets (h : Represents s xs) (cs : List C) : Meets (s.appendInput cs) (limited N xs (xs ++ cs)) := by
  have hsize := h.size
  have hlen : (xs ++ cs).length = s.size + cs.length := by rw [List.length_append, hsize]
  rw [limited]
  split
  · rename_i hshort
    obtain ⟨m, hm, hwrites⟩ := readLoop_room true cs s (k := s.size) (hlen ▸ hshort)
    rw [appendInput, readBack, hm]
    exact meets_set_term (h.append (hsize ▸ hwrites)) hlen.symm hshort
  · rename_i hlong
    obtain ⟨t, ht, hrepresents⟩ := readLoop_full true cs s (k := s.size) (by omega) hsize.ge s.size_le hsize h.front
    rw [appendInput, readBack, ht]
    exact ⟨_, t, rfl, rfl, hrepresents⟩

/-- The characters are in place after they have been read back and `std::rotate` has put them before those from `pos` on. -/
theorem readBack_rotated (h : Represents s xs) {pos : ℕ} (hpos : pos ≤ xs.length) (cs : List C) (hroom : xs.length + cs.length ≤ N) :
    ∃ m₁ m₂, readBack s false cs = .ok (true, { s with data := m₁ }) ∧
      Block.rotate m₁ pos (s.size + 1) (s.size + cs.length + 1) = .ok m₂ ∧
      Holds m₂ 0 (xs.take pos) ∧ Holds m₂ pos cs ∧ Holds m₂ (pos + cs.length) (xs.drop pos ++ [0]) := by
  have hsize := h.size
  have htail : (xs.drop pos ++ [0]).length = s.size - pos + 1 := by simp [hsize]
  obtain ⟨m₁, hm₁, hwrites⟩ := readLoop_room false cs s (k := s.size) (by omega)
  have hkept := hwrites.frame (h.tail hpos) (.inl (by simp; omega))
  obtain ⟨m₂, hm₂, hwrites'⟩ := rotate_eq (s.size + 1) hkept (by omega) hwrites.holds rfl (by omega)
  rw [Nat.add_right_comm] at hm₂
  have hbefore := hwrites'.frame (hwrites.frame (h.front.take pos) (.inl (by simp; omega))) (.inl (by simp))
  exact ⟨m₁, m₂, hm₁, hm₂, hbefore, holds_append.mp hwrites'.holds⟩

theorem insertInputAt_meets (h : Represents s xs) {pos : ℕ} (hpos : pos ≤ xs.length) (cs : List C) :
    Meets (s.insertInputAt pos cs) (limited N xs (splice xs pos 0 cs)) := by
  have hsize := h.size
  have hlen : (splice xs pos 0 cs).length = s.size + cs.length := by rw [length_splice _ _ hpos, hsize, Nat.sub_zero]
  rw [insertInputAt, if_neg (by omega), limited]
  split
  · rename_i hshort
    obtain ⟨m₁, m₂, hm₁, hm₂, hbefore, hcs, hbehind⟩ := readBack_rotated h hpos cs (by omega)
    rw [hm₁]
    exact meets_write hm₂ (meets_set (Gap.holds ⟨hbefore, hbehind⟩ hcs hpos) hlen.symm hshort)
  · rename_i hlong
    obtain ⟨t, ht, hrepresents⟩ := readLoop_full false cs s (k := s.size) (by omega) hsize.ge s.size_le hsize h.holds
    rw [readBack, ht]
    exact ⟨_, t, rfl, rfl, hrepresents⟩

/-! ### `erase` and `replace` -/

theorem meets_within {r : Member C N} {index : ℕ} {out : Option Failure × List C} (h : Represents s xs)
    (houtside : s.size < index → ∃ what, r = throwing (.outOfRange what) s) (hinside : index ≤ xs.length → Meets r out) :
    Meets r (within xs index out) := by
  have hsize := h.size
  rw [within]
  split
  · exact hinside ‹_›
  · obtain ⟨what, hr⟩ := houtside (by omega)
    rw [hr]
    exact meets_throw h (.outOfRange what)

omit [Zero C] in
/-- No more characters are replaced than there are. -/
theorem splice_min (xs : List C) (pos n1 : ℕ) (ys : List C) : splice xs pos (min (xs.length - pos) n1) ys = splice xs pos n1 ys := by
  rw [splice, splice]
  rcases Nat.le_total n1 (xs.length - pos) with hle | hge
  · rw [Nat.min_eq_right hle]
  · rw [Nat.min_eq_left hge, List.drop_of_length_le (by omega), List.drop_of_length_le (by omega)]

theorem eraseAt_meets (h : Represents s xs) {index n : ℕ} (hindex : index + n ≤ xs.length) :
    Meets (s.eraseAt index n) (none, splice xs index n []) := by
  have hsize := h.size
  have hle := h.le
  have hlen : (splice xs index n []).length = xs.length - n + 0 := length_splice _ _ hindex
  obtain ⟨m, hm, hgap, -⟩ := h.gap n 0 hindex (by omega)
  have hnone : Gap m xs index n ([] : List C).length := hgap
  refine meets_write (hsize ▸ hm) (meets_set (hnone.fill (writes_nil m index) (by omega)) ?_ ?_)
  · exact hsize ▸ hlen.symm
  · omega

theorem erase_meets (h : Represents s xs) (index count : ℕ) :
    Meets (s.erase index count) (within xs index (none, splice xs index count [])) := by
  have hsize := h.size
  refine meets_within h (fun houtside => ⟨"index > size()", ?_⟩) fun hinside => ?_
  · rw [erase, cappedLength, if_pos houtside]
  · rw [erase, cappedLength, if_neg (by omega), ← splice_min, ← hsize]
    exact eraseAt_meets h (by omega)

/-- The replaced string has room for one more character. -/
theorem meets_replaced {r : Member C N} {pos n1 : ℕ} (h : Represents s xs)
    (hlong : N ≤ (splice xs pos n1 ys).length → ∃ what, r = throwing (.lengthError what) s)
    (hshort : (splice xs pos n1 ys).length < N → Meets r (none, splice xs pos n1 ys)) : Meets r (replaced N xs pos n1 ys) := by
  rw [replaced]
  split
  · exact hshort ‹_›
  · obtain ⟨what, hr⟩ := hlong (by omega)
    rw [hr]
    exact meets_throw h (.lengthError what)

theorem replaceCountAt_meets (h : Represents s xs) {pos n1 : ℕ} (hpos : pos + n1 ≤ xs.length) (n : ℕ) (c : C) :
    Meets (s.replaceCountAt pos n1 n c) (replaced N xs pos n1 (List.replicate n c)) := by
  have hsize := h.size
  have hle := h.le
  have hlen : (splice xs pos n1 (List.replicate n c)).length = xs.length - n1 + n := by
    rw [length_splice _ _ hpos, List.length_replicate]
  refine meets_replaced h (fun hlong => ⟨_, if_pos (by omega)⟩) fun hshort => ?_
  obtain ⟨m, hm, hgap, -⟩ := h.gap n1 n hpos (by omega)
  obtain ⟨m', hm', hwrites⟩ := fill_eq m pos n c (by omega)
  rw [replaceCountAt, if_neg (by omega)]
  refine meets_write (hsize ▸ hm) (meets_write hm' (meets_set (Gap.fill ?_ hwrites (by omega)) ?_ (by omega)))
  · rwa [List.length_replicate]
  · exact hsize ▸ hlen.symm

theorem replaceUncheckedAt_meets (h : Represents s xs) {pos n1 : ℕ} (hpos : pos + n1 ≤ xs.length) (cs : List C) :
    Meets (s.replaceUncheckedAt pos n1 cs) (replaced N xs pos n1 cs) := by
  have hsize := h.size
  have hle := h.le
  have hlen : (splice xs pos n1 cs).length = xs.length - n1 + cs.length := length_splice _ _ hpos
  refine meets_replaced h (fun hlong => ⟨_, if_pos (by omega)⟩) fun hshort => ?_
  obtain ⟨m, hm, hgap, -⟩ := h.gap n1 cs.length hpos (by omega)
  obtain ⟨m', hm', hwrites⟩ := store_eq m pos cs (by omega)
  rw [replaceUncheckedAt, if_neg (by omega)]
  refine meets_write (hsize ▸ hm) (meets_write hm' (meets_set (hgap.fill hwrites (by omega)) ?_ (by omega)))
  exact hsize ▸ hlen.symm

omit [Zero C] in
theorem splice_self (xs : List C) (pos n : ℕ) : splice xs pos n ((xs.drop pos).take n) = xs := by
  rw [splice, ← List.take_add, List.take_append_drop]

/-- Characters of the string itself replace others of it. They are before the replaced ones; or they and the room for them grow, when
    those before the end of the gap are where they were and the others have been moved with the end of the string; or they are
    fetched before the end of the string closes up. -/
theorem replaceAt_inside (h : Represents s xs) {pos n1 offset n2 : ℕ} (hpos : pos + n1 ≤ xs.length) (hsrc : offset + n2 ≤ xs.length)
    (hshort : xs.length - n1 + n2 < N) :
    Meets (s.replaceAt pos n1 (.inside offset n2)) (none, splice xs pos n1 ((xs.drop offset).take n2)) := by
  have hsize := h.size
  have hlen := length_chars_inside hsrc
  have hsplice := length_splice n1 ((xs.drop offset).take n2) hpos
  have hle := h.le
  have hset {t : StaticString C N} (ht : Holds t.data 0 (splice xs pos n1 ((xs.drop offset).take n2) ++ [0])) :
      Meets (t.setSize (xs.length - n1 + n2) >>= returning) (none, splice xs pos n1 ((xs.drop offset).take n2)) :=
    meets_set ht (by omega) (by omega)
  simp only [replaceAt, Source.count]
  rw [if_neg (by omega)]
  by_cases hsame : offset < s.size ∧ offset = pos ∧ n1 = n2
  · obtain ⟨-, rfl, rfl⟩ := id hsame
    rw [if_pos hsame, splice_self]
    exact meets_returning h
  rw [if_neg hsame]
  rw [hsize, Nat.sub_sub]
  by_cases hbefore : ¬offset < xs.length ∨ offset + n2 ≤ pos
  · obtain ⟨m, hm, hgap, hmoved⟩ := h.gap n1 n2 hpos (by omega)
    have hin : Holds m offset ((xs.drop offset).take n2) := by
      rcases Nat.eq_zero_or_pos n2 with rfl | hn2
      · exact holds_nil _ _
      · exact hmoved.frame (h.holds_inside offset n2) (by omega)
    obtain ⟨m', hm', hwrites⟩ := copy_eq hin hlen pos (by omega) (by omega) (by omega)
    rw [if_pos hbefore]
    exact meets_write hm (meets_write hm' (hset (Gap.fill (hlen.symm ▸ hgap) hwrites (by omega))))
  rw [if_neg hbefore]
  by_cases hgrow : n2 ≥ n1
  · obtain ⟨m, hm, hgap, hmoved⟩ := h.gap n1 n2 hpos (by omega)
    rw [if_pos hgrow]
    obtain ⟨diff, hdiff⟩ : ∃ diff, diff = if offset ≤ pos + n1 then min (pos + n1 - offset) n2 else 0 := ⟨_, rfl⟩
    simp only [← hdiff]
    -- The first `diff` characters end before the gap does, and the others begin behind it.
    have hends : diff ≤ n2 ∧ (diff = 0 ∨ offset + diff ≤ pos + n1) ∧
        (diff = n2 ∧ offset + diff ≤ pos + n1 ∨ pos + n1 ≤ offset + diff) := by
      split at hdiff <;> omega
    have hfirst := length_chars_inside (show offset + diff ≤ xs.length by omega)
    have hin : Holds m offset ((xs.drop offset).take diff) := by
      rcases Nat.eq_zero_or_pos diff with rfl | hpos'
      · exact holds_nil _ _
      · exact hmoved.frame (h.holds_inside offset diff) (by omega)
    obtain ⟨m₁, hm₁, hwrites₁⟩ := move_eq hin hfirst pos (by omega) (by omega)
    have hsecond : ((xs.drop (offset + diff)).take (n2 - diff)).length = n2 - diff := length_chars_inside (by omega)
    have hin₁ : Holds m₁ (offset + n2 + diff - n1) ((xs.drop (offset + diff)).take (n2 - diff)) := by
      rcases Nat.eq_zero_or_pos (n2 - diff) with hzero | hpos'
      · rw [hzero]
        exact holds_nil _ _
      · have hbehind := (holds_append.mp (hwrites₁.frame hgap.behind (by omega))).1
        have hslice := hbehind.slice (offset + diff - (pos + n1)) (n2 - diff)
        rw [List.drop_drop, Nat.add_sub_cancel' (by omega)] at hslice
        convert hslice using 1
        omega
    obtain ⟨m₂, hm₂, hwrites₂⟩ := move_eq hin₁ hsecond (pos + diff) (by omega) (by omega)
    refine meets_write hm (meets_write hm₁ (meets_write hm₂ (hset (Gap.fill (hlen.symm ▸ hgap) ?_ (by omega)))))
    rw [take_drop_split (Nat.le_add_right offset diff) (by omega), Nat.add_sub_cancel_left]
    refine hwrites₁.append ?_
    rw [hfirst]
    exact hwrites₂
  · have hin := h.holds_inside offset n2
    obtain ⟨m, hm, hwrites⟩ := move_eq hin hlen pos (by omega) (by omega)
    have hbefore' := hwrites.frame (h.front.take pos) (.inl (by rw [List.length_take]; omega))
    obtain ⟨m', hm', hgap, hmoved⟩ := Gap.move n2 hbefore' (hwrites.frame (h.tail hpos) (.inr (by omega))) hpos (by omega) (by omega)
    rw [if_neg hgrow]
    refine meets_write hm (meets_write hm' (hset ?_))
    exact Gap.holds (hlen.symm ▸ hgap) (hmoved.frame hwrites.holds (.inl (by omega))) (by omega)

theorem replaceAt_meets (h : Represents s xs) {pos n1 : ℕ} (hpos : pos + n1 ≤ xs.length) {src : Source C} (hsrc : Inside xs src) :
    Meets (s.replaceAt pos n1 src) (replaced N xs pos n1 (chars xs src)) := by
  have hsize := h.size
  have hle := h.le
  have hcount := count_eq hsrc
  have hlen : (splice xs pos n1 (chars xs src)).length = xs.length - n1 + src.count := by rw [length_splice _ _ hpos, hcount]
  refine meets_replaced h (fun hlong => ⟨_, if_pos (by omega)⟩) fun hshort => ?_
  rw [hlen] at hshort
  cases src with
  | outside cs =>
    have hroom : xs.length - n1 + cs.length < N := hshort
    obtain ⟨m, hm, hgap, -⟩ := h.gap n1 cs.length hpos (by omega)
    obtain ⟨m', hm', hwrites⟩ := store_eq m pos cs (by omega)
    rw [← Nat.sub_sub, ← hsize] at hm
    rw [replaceAt, if_neg (by omega)]
    refine meets_write hm (meets_write hm' (meets_set (hgap.fill hwrites (by omega)) ?_ ?_))
    · rw [← hsize] at hlen
      exact hlen.symm
    · exact hlen.trans_le (Nat.le_of_lt hshort)
  | inside offset count => exact replaceAt_inside h hpos hsrc hshort

/-- The members with a place and a number of characters, of which there may be fewer. -/
theorem meets_cappedLength {pos n1 : ℕ} {f : ℕ → Member C N} (h : Represents s xs)
    (hf : ∀ n, pos + n ≤ xs.length → Meets (f n) (replaced N xs pos n ys)) :
    Meets (match s.cappedLength pos n1 with | .error e => throwing e s | .ok n1 => f n1) (within xs pos (replaced N xs pos n1 ys)) := by
  have hsize := h.size
  refine meets_within h (fun houtside => ⟨"index > size()", ?_⟩) fun hinside => ?_
  · rw [cappedLength, if_pos houtside]
  · have hmin : replaced N xs pos n1 ys = replaced N xs pos (min (xs.length - pos) n1) ys := by
      rw [replaced, replaced, splice_min]
    rw [cappedLength, if_neg (by omega), hmin, ← hsize]
    exact hf _ (by omega)

/-! ### Calls and programs -/

/-- A call does to the block what it should do to the text. -/
theorem call_meets (h : Represents s xs) {op : Op C} (hvalid : Valid N xs op) : Meets (s.call op) (apply N xs op) := by
  have hsize := h.size
  have hindex {index : ℕ} {r : Member C N} (e : String) (hlt : s.size < index) :
      ∃ what, (if index > s.size then throwing (.outOfRange e) s else r) = throwing (.outOfRange what) s := ⟨e, if_pos hlt⟩
  cases op with
  | clear => exact clear_meets s
  | assignCount count ch => exact assignCount_meets h count ch
  | assign src => exact assign_meets h hvalid
  | assignUnchecked cs => exact assignUnchecked_meets s hvalid
  | assignInput cs => exact assignInput_meets s cs
  | assignChar ch => exact assignChar_meets h ch
  | insertCount index count ch =>
    refine meets_within h (hindex "index > size()") fun hinside => ?_
    rw [call, insertCount, if_neg (by omega)]
    exact insertCountAt_meets h hinside count ch
  | insert index src =>
    refine meets_within h (hindex "index > size()") fun hinside => ?_
    rw [call, insert, if_neg (by omega)]
    exact insertAt_meets h hinside hvalid
  | insertUnchecked index cs =>
    refine meets_within h (hindex "index > size()") fun hinside => ?_
    rw [call, insertUnchecked, if_neg (by omega)]
    exact insertUncheckedAt_meets h hinside cs
  | insertInput pos cs => exact insertInputAt_meets h hvalid cs
  | erase index count => exact erase_meets h index count
  | pushBack ch => exact pushBack_meets h ch
  | popBack => exact popBack_meets h hvalid
  | appendCount count ch => exact appendCount_meets h count ch
  | append src => exact append_meets h hvalid
  | appendInput cs => exact appendInput_meets h cs
  | resize n c => exact resize_meets h n c
  | replaceCount pos n1 n2 c => exact meets_cappedLength h fun n hn => replaceCountAt_meets h hn n2 c
  | replace pos n1 src => exact meets_cappedLength h fun n hn => replaceAt_meets h hn hvalid
  | replaceUnchecked pos n1 cs =>
    rcases Nat.lt_or_ge s.size pos with hlt | hge
    · refine meets_within h (fun _ => ⟨"pos > size()", if_pos hlt⟩) fun hinside => absurd hinside (by omega)
    · rw [call, replaceUnchecked, if_neg (by omega)]
      exact meets_cappedLength h fun n hn => replaceUncheckedAt_meets h hn cs

/-- Every program of valid calls runs to its end, throws what it should and leaves the text that it should. -/
theorem run_represents (ops : List (Op C)) : ∀ {s : StaticString C N} {xs : List C} (thrown : List (Option Exception)),
    Represents s xs → Valids N xs ops → ∃ t es, Run.run step (s, thrown) ops = .ok (t, thrown ++ es) ∧
      es.map (Option.map Exception.failure) = (applyAll N xs ops).1 ∧ Represents t (applyAll N xs ops).2 := by
  induction ops with
  | nil => exact fun thrown h _ => ⟨_, [], by rw [List.append_nil]; rfl, rfl, h⟩
  | cons op ops ih =>
    intro s xs thrown h hvalids
    obtain ⟨e, t, hcall, hfailure, hrepresents⟩ := call_meets h hvalids.1
    obtain ⟨u, es, hrun, hfailures, hrepresents'⟩ := ih (thrown ++ [e]) hrepresents hvalids.2
    have hstep : step (s, thrown) op = .ok (t, thrown ++ [e]) := by
      rw [step, hcall]
      rfl
    refine ⟨u, e :: es, ?_, ?_, hrepresents'⟩
    · rw [Run.run_cons hstep, hrun, List.append_assoc]
      rfl
    · rw [List.map_cons, hfailure, hfailures]
      rfl

/-- A program of calls of a string, which is empty at first, is memory safe and does what it should: it throws where the text has no
    such place or would be too long, the text is what it should be, and the null character is behind it. -/
theorem run_refines {N : ℕ} {ops : List (Op C)} (hvalids : Valids N [] ops) :
    ∃ t es, Run.run step (({} : StaticString C N), []) ops = .ok (t, es) ∧ t.content = (applyAll N [] ops).2 ∧ Terminated t ∧
      es.map (Option.map Exception.failure) = (applyAll N [] ops).1 := by
  obtain ⟨t, es, hrun, hfailures, hrepresents⟩ := run_represents ops [] represents_empty hvalids
  exact ⟨t, es, hrun, hrepresents.content_eq, hrepresents.terminated, hfailures⟩

/-- Characters of the string are inserted in the middle of themselves, and a replacement is too long. -/
theorem run_refines_inside :
    ∃ t es, Run.run step (({} : StaticString ℕ 8), [])
        [.assign (.outside [1, 2, 3, 4]), .insert 2 (.inside 1 3), .replace 0 1 (.outside [5, 6])] = .ok (t, es) ∧
      t.content = [1, 2, 2, 3, 4, 3, 4] ∧ Terminated t ∧ es.map (Option.map Exception.failure) = [none, none, some .length] :=
  run_refines (N := 8) (by decide)

/-! ### `replace` with input iterators -/

/-- A member that ends with a move and `set_size` is as it should be if the move is, and the text is there after it. -/
theorem meets_move_iff (dst src count : ℕ) {n : ℕ} (hn : n = ys.length) (hle : ys.length ≤ N) :
    Meets (do let t ← s.write (Block.move · dst src count); let t ← t.setSize n; returning t) (none, ys) ↔
      ∃ m, Block.move s.data dst src count = .ok m ∧ Holds m 0 (ys ++ [0]) := by
  subst hn
  constructor
  · rintro ⟨e, t, ht, -, hrepresents⟩
    rcases hm : Block.move s.data dst src count with fault | m
    · rw [write, hm] at ht
      cases ht
    · rw [write, hm] at ht
      change (setSize _ _ >>= returning) = _ at ht
      rw [setSize, dif_pos hle] at ht
      cases ht
      exact ⟨m, rfl, hrepresents.holds⟩
  · rintro ⟨m, hm, hholds⟩
    exact meets_write hm (meets_set hholds rfl hle)

/-- With more than one character, what is moved must be in the block. Its first characters are those that belong there. -/
theorem rotated_move_pos {m : Vector C (N + 1)} {pos n1 count : ℕ} {cs : List C} (hpos : pos + n1 ≤ xs.length) (hcs : cs ≠ [])
    (hbefore : Holds m 0 (xs.take pos)) (hmiddle : Holds m pos cs) (hbehind : Holds m (pos + cs.length) (xs.drop pos ++ [0]))
    (hcount : count = xs.length - (pos + n1) + cs.length) (hle : xs.length + 2 * cs.length ≤ N + 1) :
    ∃ m', Block.move m (pos + cs.length) (pos + cs.length + n1) count = .ok m' ∧ Holds m' 0 (splice xs pos n1 cs ++ [0]) := by
  have hlen := List.length_pos_iff.mpr hcs
  obtain ⟨ws, hws, hholds⟩ := exists_holds m (pos + cs.length + n1) count (by omega)
  obtain ⟨m', hm', hwrites⟩ := move_eq hholds hws (pos + cs.length) (by omega) (by omega)
  have htail : Holds m (pos + cs.length + n1) (xs.drop (pos + n1) ++ [0]) := by
    have hdrop := hbehind.drop n1
    rwa [List.drop_append_of_le_length (by rw [List.length_drop]; omega), List.drop_drop] at hdrop
  have hfirst : ws.take (xs.length - (pos + n1) + 1) = xs.drop (pos + n1) ++ [0] :=
    (hholds.take _).unique htail (by simp; omega)
  refine ⟨m', hm', Gap.holds ⟨hwrites.frame hbefore (.inl (by simp)), ?_⟩ (hwrites.frame hmiddle (.inl le_rfl)) (by omega)⟩
  rw [← hfirst]
  exact hwrites.holds.take _

/-- Without characters, all but the null character are moved. -/
theorem rotated_move_nil {m : Vector C (N + 1)} {pos n1 : ℕ} (hpos : pos + n1 ≤ xs.length) (hle : xs.length ≤ N)
    (hholds : Holds m 0 (xs ++ [0])) :
    (∃ m', Block.move m pos (pos + n1) (xs.length - (pos + n1)) = .ok m' ∧ Holds m' 0 (splice xs pos n1 [] ++ [0])) ↔
      (0 < n1 → xs[xs.length - n1]? = some 0) := by
  have hslice := (holds_append.mp hholds).1.drop (pos + n1)
  rw [Nat.zero_add] at hslice
  obtain ⟨m', hm', hwrites⟩ := move_eq hslice List.length_drop pos (by omega) (by omega)
  have hlast : m'[xs.length - n1]? = (xs ++ [0])[xs.length - n1]? := by
    have hlt : xs.length - n1 < (xs ++ [0]).length := by
      rw [List.length_append, List.length_singleton]
      omega
    obtain ⟨c, hc⟩ : ∃ c, (xs ++ [0])[xs.length - n1]? = some c := ⟨_, List.getElem?_eq_getElem hlt⟩
    have hone : Holds m (xs.length - n1) [c] := by
      have hm := hholds (xs.length - n1) hlt
      rwa [Nat.zero_add, hc, ← holds_singleton] at hm
    rw [hc, ← holds_singleton]
    exact hwrites.frame hone (.inr (by rw [List.length_drop]; omega))
  have hsplice : splice xs pos n1 [] = xs.take pos ++ xs.drop (pos + n1) := by rw [splice, List.append_nil]
  have htext : Holds m' 0 (splice xs pos n1 []) := by
    rw [hsplice, holds_append]
    refine ⟨hwrites.frame ((holds_append.mp hholds).1.take pos) (.inl (by simp)), ?_⟩
    rw [Nat.zero_add, List.length_take, Nat.min_eq_left (by omega)]
    exact hwrites.holds
  have hnull : Holds m' 0 (splice xs pos n1 [] ++ [0]) ↔ (xs ++ [0])[xs.length - n1]? = some 0 := by
    rw [holds_append, and_iff_right htext, Nat.zero_add, length_splice _ _ hpos, holds_singleton, ← hlast]
    rfl
  have hmove : (∃ m', Block.move m pos (pos + n1) (xs.length - (pos + n1)) = .ok m' ∧ Holds m' 0 (splice xs pos n1 [] ++ [0])) ↔
      Holds m' 0 (splice xs pos n1 [] ++ [0]) := by
    rw [hm']
    exact ⟨fun ⟨_, heq, h⟩ => by cases heq; exact h, fun h => ⟨m', rfl, h⟩⟩
  rw [hmove, hnull]
  rcases Nat.eq_zero_or_pos n1 with rfl | hn1
  · simp
  · rw [List.getElem?_append_left (by omega)]
    simp [hn1]

/-- `replace` with input iterators moves `cs.length - 1` characters too many, and if there are none it leaves the null character where
    it is. -/
theorem replaceInputAt_meets_iff (h : Represents s xs) {pos n1 : ℕ} (hpos : pos + n1 ≤ xs.length) (cs : List C) :
    Meets (s.replaceInputAt pos n1 cs) (if xs.length + cs.length ≤ N then (none, splice xs pos n1 cs) else (some .length, xs)) ↔
      (xs.length + cs.length ≤ N → xs.length + 2 * cs.length ≤ N + 1 ∧ (cs = [] → 0 < n1 → xs[xs.length - n1]? = some 0)) := by
  have hsize := h.size
  have hlen : (splice xs pos n1 cs).length = xs.length - n1 + cs.length := length_splice _ _ hpos
  rw [replaceInputAt, if_neg (by omega)]
  split
  case isFalse hlong =>
    obtain ⟨t, ht, hrepresents⟩ := readLoop_full false cs s (k := s.size) (by omega) hsize.ge s.size_le hsize h.holds
    rw [readBack, ht]
    exact iff_of_true ⟨_, t, rfl, rfl, hrepresents⟩ fun hshort => absurd hshort hlong
  case isTrue hshort =>
    obtain ⟨m₁, m₂, hm₁, hm₂, hbefore, hcs, hbehind⟩ := readBack_rotated h (show pos ≤ xs.length by omega) cs hshort
    have hend := meets_move_iff (s := { s with data := m₂ }) (pos + cs.length) (pos + cs.length + n1) (s.size - n1 + cs.length - pos)
      (show s.size - n1 + cs.length = (splice xs pos n1 cs).length by omega) (by omega)
    have hwrite : ({ s with data := m₁ } : StaticString C N).write (Block.rotate · pos (s.size + 1) (s.size + cs.length + 1)) =
        .ok { s with data := m₂ } := by
      rw [write, hm₂]
    rw [hm₁]
    simp only [hshort, true_imp_iff]
    change Meets (({ s with data := m₁ } : StaticString C N).write _ >>= _) _ ↔ _
    rw [hwrite]
    refine hend.trans ?_
    rcases List.eq_nil_or_concat cs with rfl | ⟨_, _, hcs'⟩
    · have hle := h.le
      have hholds : Holds m₂ 0 (xs ++ [0]) := by
        have hgap : Gap m₂ xs pos 0 ([] : List C).length := ⟨hbefore, hbehind⟩
        have hall := hgap.holds hcs (by omega)
        rwa [show splice xs pos 0 [] = xs by simp [splice]] at hall
      have hnil := rotated_move_nil hpos hle hholds
      have hcount : s.size - n1 + ([] : List C).length - pos = xs.length - (pos + n1) := by simp; omega
      rw [hcount]
      refine hnil.trans ?_
      simp
      omega
    · have hne : cs ≠ [] := by simp [hcs']
      simp only [hne, IsEmpty.forall_iff, and_true]
      constructor
      · rintro ⟨m₃, hm₃, -⟩
        by_contra hlt
        rw [Block.move, Block.read, if_neg (by omega)] at hm₃
        cases hm₃
      · exact rotated_move_pos hpos hne hbefore hcs hbehind (by omega)

theorem replaceInputAt_meets_iff_overrun :
    (Meets ((⟨#v[1, 2, 3, 0, 0, 0], 3, by decide⟩ : StaticString ℕ 5).replaceInputAt 0 2 [7, 8])
        (if [1, 2, 3].length + [7, 8].length ≤ 5 then (none, splice [1, 2, 3] 0 2 [7, 8]) else (some .length, [1, 2, 3])) ↔
      ([1, 2, 3].length + [7, 8].length ≤ 5 →
        [1, 2, 3].length + 2 * [7, 8].length ≤ 5 + 1 ∧ ([7, 8] = [] → 0 < 2 → [1, 2, 3][[1, 2, 3].length - 2]? = some 0))) :=
  replaceInputAt_meets_iff (C := ℕ) (N := 5) ⟨rfl, by decide⟩ (by decide) [7, 8]

/-! ### `swap` -/

theorem copyWhole_represents {s t : StaticString C N} (h : Represents t ys) :
    ∃ u, copyWhole s t = .ok u ∧ Represents u ys := by
  have hle := h.le
  have hlen : (ys ++ [0]).length = t.size + 1 := by rw [List.length_append, h.size]; rfl
  have hread := h.holds.read_eq (by rw [hlen, h.size]; omega)
  obtain ⟨m, hm, hwrites⟩ := store_eq s.data 0 (ys ++ [0]) (by rw [hlen, h.size]; omega)
  rw [hlen] at hread
  have hwrite : ({ s with size := t.size, size_le := t.size_le } : StaticString C N).write (Block.store · 0 (ys ++ [0])) =
      .ok { data := m, size := t.size, size_le := t.size_le } := by
    rw [write, hm]
  refine ⟨{ data := m, size := t.size, size_le := t.size_le }, ?_, h.size, hwrites.holds⟩
  rw [copyWhole, setSize, dif_pos t.size_le, hread]
  exact hwrite

/-- Two strings exchange their texts. -/
theorem swap_represents {s t : StaticString C N} (hs : Represents s xs) (ht : Represents t ys) :
    ∃ s' t', swap s t = .ok (s', t') ∧ Represents s' ys ∧ Represents t' xs := by
  obtain ⟨tmp, htmp, hrtmp⟩ := copyWhole_represents (s := ({} : StaticString C N)) ht
  obtain ⟨t', ht', hrt⟩ := copyWhole_represents (s := t) hs
  obtain ⟨s', hs', hrs⟩ := copyWhole_represents (s := s) hrtmp
  refine ⟨s', t', ?_, hrs, hrt⟩
  rw [swap, htmp]
  change (copyWhole t s >>= _) = _
  rw [ht']
  change (copyWhole s tmp >>= _) = _
  rw [hs']
  rfl

end Zylib.ZySoft.StaticString
