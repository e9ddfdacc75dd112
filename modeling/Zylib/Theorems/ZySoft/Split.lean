import Zylib.ZySoft.Split

/-! What a `split` leaves in the recipients. The source string is taken apart from the front: behind each piece
    that was taken the rest of it is empty or begins with a delimiter. -/

namespace Zylib.ZySoft.Split

variable {C : Type}

/-- Nothing, or a delimiter and what is behind it. -/
def AtDelim (delim : C) (rest : List C) : Prop := rest = [] ∨ ∃ t, rest = delim :: t

theorem intercalate_cons (delim : C) (p : List C) (ps : List (List C)) :
    [delim].intercalate (p :: ps) = p ++ ps.flatMap (delim :: ·) := by
  induction ps generalizing p with
  | nil => simp [List.intercalate]
  | cons q ps ih =>
    rw [List.flatMap_cons, List.cons_append, ← ih q]
    simp [List.intercalate]

namespace Scan

/-! ### The end of the source, and the last block -/

/-- What holds between two blocks. -/
structure Inv (s : List C) (delim : C) (scan : Scan) : Prop where
  le : scan.it1 ≤ s.length
  atDelim : AtDelim delim (s.drop scan.it1)

variable {s : List C} {delim : C} {scan : Scan}

theorem Inv.eq_length (h : Inv s delim scan) (hnil : s.drop scan.it1 = []) : s.length = scan.it1 :=
  Nat.le_antisymm (List.drop_eq_nil_iff.mp hnil) h.le

theorem ne_length_of_cons {t : List C} (hcons : s.drop scan.it1 = delim :: t) : s.length ≠ scan.it1 := by
  intro h
  rw [← h, List.drop_length] at hcons
  cases hcons

theorem drop_succ_of_cons {t : List C} (hcons : s.drop scan.it1 = delim :: t) : s.drop (scan.it1 + 1) = t := by
  rw [← List.drop_drop, hcons, List.drop_one, List.tail_cons]

theorem piece_empty (s : List C) (scan : Scan) : piece s { scan with it0 := scan.it1 } = [] := by
  simp [piece, text]

theorem last_of_nil (h : Inv s delim scan) (hnil : s.drop scan.it1 = []) :
    scan.last s.length = { scan with it0 := scan.it1 } := by
  rw [last, if_neg (not_not.mpr (h.eq_length hnil))]

theorem last_of_cons {t : List C} (hcons : s.drop scan.it1 = delim :: t) :
    (scan.last s.length).cnt = scan.cnt + 1 ∧ (scan.last s.length).piece s = t := by
  rw [last, if_pos (ne_length_of_cons hcons)]
  refine ⟨rfl, ?_⟩
  show (s.drop (scan.it1 + 1)).take (s.length - (scan.it1 + 1)) = t
  rw [List.take_of_length_le (Nat.le_of_eq List.length_drop), drop_succ_of_cons hcons]

end Scan

/-! ### The rest of the source -/

variable [DecidableEq C]

theorem not_mem_take_idxOf (l : List C) (delim : C) : delim ∉ l.take (l.idxOf delim) := by
  intro h
  exact Nat.lt_irrefl _ ((List.mem_take_iff_idxOf_lt (List.mem_of_mem_take h)).mp h)

theorem atDelim_drop_idxOf (l : List C) (delim : C) : AtDelim delim (l.drop (l.idxOf delim)) := by
  by_cases h : l.idxOf delim < l.length
  · right
    exact ⟨l.drop (l.idxOf delim + 1), by rw [List.drop_eq_getElem_cons h, List.getElem_idxOf]⟩
  · left
    exact List.drop_eq_nil_of_le (by omega)

/-- `out` are recipients that took what is in `rest`: each of its delimiters is in front of a piece, and the last
    recipient keeps the delimiters that there are no more recipients for. -/
structure Fills (delim : C) (rest : List C) (out : List (List C)) : Prop where
  join : rest = (out.take (rest.count delim)).flatMap (delim :: ·)
  clean : ∀ p ∈ out.take (min (rest.count delim) (out.length - 1)), delim ∉ p
  empty : ∀ p ∈ out.drop (rest.count delim), p = []

theorem fills_nil (delim : C) (m : Nat) : Fills delim [] (List.replicate m []) :=
  { join := by simp
    clean := by simp
    empty := by simp }

theorem fills_last (delim : C) (t : List C) : Fills delim (delim :: t) [t] :=
  { join := by simp
    clean := by simp
    empty := by simp }

theorem Fills.cons {delim : C} {p rest : List C} {out : List (List C)} (h : Fills delim rest out) (hp : delim ∉ p)
    (hout : out ≠ []) : Fills delim (delim :: (p ++ rest)) (p :: out) := by
  have hcount : (delim :: (p ++ rest)).count delim = rest.count delim + 1 := by
    rw [List.count_cons_self, List.count_append, List.count_eq_zero_of_not_mem hp, Nat.zero_add]
  have hlen := List.length_pos_iff.mpr hout
  constructor
  · rw [hcount, List.take_succ_cons, List.flatMap_cons, ← h.join, List.cons_append]
  · have : min (rest.count delim + 1) ((p :: out).length - 1) = min (rest.count delim) (out.length - 1) + 1 := by
      rw [List.length_cons]
      omega
    rw [hcount, this, List.take_succ_cons]
    exact List.forall_mem_cons.mpr ⟨hp, h.clean⟩
  · rw [hcount, List.drop_succ_cons]
    exact h.empty

/-! ### The blocks -/

theorem find_eq (s : List C) (first : Nat) (delim : C) :
    find s first s.length delim = first + (s.drop first).idxOf delim := by
  unfold find
  rw [List.take_of_length_le (Nat.le_of_eq List.length_drop)]

theorem find_le {s : List C} {first : Nat} (h : first ≤ s.length) (delim : C) :
    find s first s.length delim ≤ s.length := by
  have := List.idxOf_le_length (l := s.drop first) (a := delim)
  rw [List.length_drop] at this
  rw [find_eq]
  omega

theorem text_find (s : List C) (first : Nat) (delim : C) :
    text s first (find s first s.length delim) = (s.drop first).take ((s.drop first).idxOf delim) := by
  rw [text, find_eq, Nat.add_sub_cancel_left]

theorem drop_find (s : List C) (first : Nat) (delim : C) :
    s.drop (find s first s.length delim) = (s.drop first).drop ((s.drop first).idxOf delim) := by
  rw [find_eq, List.drop_drop]

namespace Scan

/-- The blocks of `m` recipients between the first and the last, and the last block. -/
def fill (s : List C) (delim : C) : Nat → Scan → Nat × List (List C)
  | 0, scan => ((scan.last s.length).cnt, [(scan.last s.length).piece s])
  | m + 1, scan =>
    let scan := scan.next s s.length delim
    ((fill s delim m scan).1, scan.piece s :: (fill s delim m scan).2)

variable {s : List C} {delim : C} {scan : Scan}

theorem inv_first (s : List C) (delim : C) : Inv s delim (first s s.length delim) := by
  refine ⟨find_le (Nat.zero_le _) delim, ?_⟩
  show AtDelim delim (s.drop (find s 0 s.length delim))
  rw [drop_find]
  exact atDelim_drop_idxOf _ _

theorem next_of_nil (h : Inv s delim scan) (hnil : s.drop scan.it1 = []) :
    scan.next s s.length delim = { scan with it0 := scan.it1 } := by
  rw [next, if_neg (not_not.mpr (h.eq_length hnil))]

/-- Behind the end of the source each recipient is assigned an empty string. -/
theorem fill_of_nil (h : Inv s delim scan) (hnil : s.drop scan.it1 = []) (m : Nat) :
    fill s delim m scan = (scan.cnt, List.replicate (m + 1) []) := by
  induction m generalizing scan with
  | zero => rw [fill, last_of_nil h hnil, piece_empty, List.replicate_one]
  | succ m ih =>
    have hinv : Inv s delim { scan with it0 := scan.it1 } := ⟨h.le, h.atDelim⟩
    simp only [fill, next_of_nil h hnil, ih hinv hnil, piece_empty]
    rw [List.replicate_succ (n := m + 1)]

/-- A block in front of a delimiter takes the piece behind it. -/
theorem next_of_cons {t : List C} (hcons : s.drop scan.it1 = delim :: t) (hle : scan.it1 + 1 ≤ s.length) :
    let scan' := scan.next s s.length delim
    Inv s delim scan' ∧ scan'.cnt = scan.cnt + 1 ∧ delim ∉ scan'.piece s ∧ t = scan'.piece s ++ s.drop scan'.it1 := by
  rw [next, if_pos (ne_length_of_cons hcons)]
  have ht := drop_succ_of_cons hcons
  have hdrop := drop_find s (scan.it1 + 1) delim
  have htext := text_find s (scan.it1 + 1) delim
  rw [ht] at hdrop htext
  refine ⟨⟨find_le hle delim, ?_⟩, rfl, ?_, ?_⟩
  · show AtDelim delim (s.drop (find s (scan.it1 + 1) s.length delim))
    rw [hdrop]
    exact atDelim_drop_idxOf t delim
  · show delim ∉ text s (scan.it1 + 1) (find s (scan.it1 + 1) s.length delim)
    rw [htext]
    exact not_mem_take_idxOf t delim
  · show t = text s (scan.it1 + 1) _ ++ s.drop (find s (scan.it1 + 1) s.length delim)
    rw [htext, hdrop, List.take_append_drop]

theorem length_fill (s : List C) (delim : C) (m : Nat) (scan : Scan) : (fill s delim m scan).2.length = m + 1 := by
  induction m generalizing scan with
  | zero => rfl
  | succ m ih => rw [fill, List.length_cons, ih]

theorem fill_spec (h : Inv s delim scan) (m : Nat) :
    Fills delim (s.drop scan.it1) (fill s delim m scan).2 ∧
      (fill s delim m scan).1 = scan.cnt + min ((s.drop scan.it1).count delim) (m + 1) := by
  induction m generalizing scan with
  | zero =>
    rcases h.atDelim with hnil | ⟨t, hcons⟩
    · rw [fill_of_nil h hnil, hnil]
      exact ⟨fills_nil delim 1, by simp⟩
    · obtain ⟨hcnt, hpiece⟩ := last_of_cons hcons
      rw [fill, hpiece, hcnt, hcons]
      exact ⟨fills_last delim t, by simp⟩
  | succ m ih =>
    rcases h.atDelim with hnil | ⟨t, hcons⟩
    · rw [fill_of_nil h hnil, hnil]
      exact ⟨fills_nil delim (m + 2), by simp⟩
    · have hlt : scan.it1 < s.length := Nat.lt_of_le_of_ne h.le (ne_length_of_cons hcons).symm
      obtain ⟨hinv, hcnt, hpiece, ht⟩ := next_of_cons hcons hlt
      obtain ⟨hfills, hfill⟩ := ih hinv
      have hout : (fill s delim m (scan.next s s.length delim)).2 ≠ [] := by
        rw [← List.length_pos_iff, length_fill]
        exact Nat.succ_pos m
      have hcount : t.count delim = (s.drop (scan.next s s.length delim).it1).count delim := by
        conv_lhs => rw [ht, List.count_append, List.count_eq_zero_of_not_mem hpiece, Nat.zero_add]
      simp only [fill]
      refine ⟨?_, ?_⟩
      · rw [hcons, ht]
        exact hfills.cons hpiece hout
      · rw [hfill, hcnt, hcons, List.count_cons_self, hcount]
        omega

end Scan

/-! ### What a call promises -/

/-- The number of pieces that there are recipients for. -/
def pieces (s : List C) (delim : C) (n : Nat) : Nat := min (s.count delim + 1) n

/-- The law of a call with `n` recipients that returned `cnt` and left `out` in them. -/
structure Conforms (s : List C) (delim : C) (n cnt : Nat) (out : List (List C)) : Prop where
  length : out.length = n
  join : [delim].intercalate (out.take (pieces s delim n)) = s
  clean : ∀ p ∈ out.take (min (pieces s delim n) (n - 1)), delim ∉ p
  empty : ∀ p ∈ out.drop (pieces s delim n), p = []
  cnt_eq_zero_iff : cnt = 0 ↔ delim ∉ s
  cnt_eq : 3 ≤ n → 1 ≤ s.count delim → cnt = pieces s delim n

/-- The first piece and recipients that took the rest. -/
theorem Fills.conforms {delim : C} {p rest : List C} {out : List (List C)} {cnt : Nat} (h : Fills delim rest out)
    (hout : out ≠ []) (hp : delim ∉ p) (hcnt : cnt = 0 ↔ rest.count delim = 0)
    (hcnt' : 2 ≤ out.length → 1 ≤ rest.count delim → cnt = min (rest.count delim + 1) (out.length + 1)) :
    Conforms (p ++ rest) delim (out.length + 1) cnt (p :: out) := by
  have hcount : (p ++ rest).count delim = rest.count delim := by
    rw [List.count_append, List.count_eq_zero_of_not_mem hp, Nat.zero_add]
  have hpieces : pieces (p ++ rest) delim (out.length + 1) = min (rest.count delim) out.length + 1 := by
    rw [pieces, hcount]
    omega
  constructor
  case length => rfl
  case join => rw [hpieces, List.take_succ_cons, intercalate_cons, ← List.take_eq_take_min, ← h.join]
  case clean =>
    have hlen := List.length_pos_iff.mpr hout
    have : min (pieces (p ++ rest) delim (out.length + 1)) (out.length + 1 - 1) =
        min (rest.count delim) (out.length - 1) + 1 := by
      rw [hpieces]
      omega
    rw [this, List.take_succ_cons]
    exact List.forall_mem_cons.mpr ⟨hp, h.clean⟩
  case empty =>
    rw [hpieces, List.drop_succ_cons, ← List.drop_eq_drop_min]
    exact h.empty
  case cnt_eq_zero_iff => rw [hcnt, ← hcount, List.count_eq_zero]
  case cnt_eq =>
    intro hn hd
    rw [hcount] at hd
    rw [hcnt' (by omega) hd, pieces, hcount]

/-! ### The overloads -/

namespace Scan

/-- The first block takes the characters in front of the first delimiter. -/
theorem piece_first (s : List C) (delim : C) :
    let scan := first s s.length delim
    delim ∉ scan.piece s ∧ scan.piece s ++ s.drop scan.it1 = s := by
  have htext := text_find s 0 delim
  have hdrop := drop_find s 0 delim
  rw [List.drop_zero] at htext hdrop
  constructor
  · show delim ∉ text s 0 (find s 0 s.length delim)
    rw [htext]
    exact not_mem_take_idxOf s delim
  · show text s 0 (find s 0 s.length delim) ++ s.drop (find s 0 s.length delim) = s
    rw [htext, hdrop, List.take_append_drop]

theorem cnt_first (s : List C) (delim : C) :
    let scan := first s s.length delim
    scan.cnt = min ((s.drop scan.it1).count delim) 1 := by
  intro scan
  have hinv : Inv s delim scan := inv_first s delim
  rcases hinv.atDelim with hnil | ⟨t, hcons⟩
  · have hcnt : scan.cnt = 0 := if_neg (not_not.mpr (hinv.eq_length hnil).symm)
    rw [hcnt, hnil, List.count_nil, Nat.zero_min]
  · have hcnt : scan.cnt = 1 := if_pos (ne_length_of_cons hcons).symm
    rw [hcnt, hcons, List.count_cons_self]
    omega

theorem conforms_fill (s : List C) (delim : C) (m : Nat) :
    let scan := first s s.length delim
    Conforms s delim (m + 3) (scan.fill s delim (m + 1)).1 (scan.piece s :: (scan.fill s delim (m + 1)).2) := by
  intro scan
  have hinv : Inv s delim scan := inv_first s delim
  obtain ⟨hpiece, happend⟩ : delim ∉ scan.piece s ∧ scan.piece s ++ s.drop scan.it1 = s := piece_first s delim
  obtain ⟨hfills, hfill⟩ := fill_spec hinv (m + 1)
  have hcnt : scan.cnt = min ((s.drop scan.it1).count delim) 1 := cnt_first s delim
  have hlen := length_fill s delim (m + 1) scan
  have hout : (scan.fill s delim (m + 1)).2 ≠ [] := by
    rw [← List.length_pos_iff, hlen]
    exact Nat.succ_pos _
  have hconforms : Conforms (scan.piece s ++ s.drop scan.it1) delim ((scan.fill s delim (m + 1)).2.length + 1)
      (scan.fill s delim (m + 1)).1 (scan.piece s :: (scan.fill s delim (m + 1)).2) :=
    hfills.conforms hout hpiece (by omega) (by omega)
  rwa [happend, hlen] at hconforms

end Scan

theorem split_eq_fill (s : List C) (delim : C) {recipients : List (List C)} {m : Nat} (hlen : recipients.length = m + 3)
    (hm : m ≤ 3) : split s delim recipients =
      let scan := Scan.first s s.length delim
      some ((scan.fill s delim (m + 1)).1, scan.piece s :: (scan.fill s delim (m + 1)).2) := by
  match m, recipients, hlen with
  | 0, [_, _, _], _ => rfl
  | 1, [_, _, _, _], _ => rfl
  | 2, [_, _, _, _, _], _ => rfl
  | 3, [_, _, _, _, _, _], _ => rfl

/-- The copy with two recipients leaves the second as it is when there is no delimiter. -/
theorem split_two (s : List C) (delim : C) (s0 s1 : List C) :
    (delim ∉ s ∧ split s delim [s0, s1] = some (0, [s, s1])) ∨
    ∃ p t, delim ∉ p ∧ p ++ delim :: t = s ∧ split s delim [s0, s1] = some (1, [p, t]) := by
  have hinv := Scan.inv_first s delim
  obtain ⟨hpiece, happend⟩ := Scan.piece_first s delim
  rcases hinv.atDelim with hnil | ⟨t, hcons⟩
  · left
    rw [hnil, List.append_nil] at happend
    rw [happend] at hpiece
    have : splitImpl2 s s.length delim s1 = (false, (Scan.first s s.length delim).piece s, s1) := if_pos (hinv.eq_length hnil)
    exact ⟨hpiece, by rw [split, this, happend]; rfl⟩
  · right
    rw [hcons] at happend
    have htext : text s ((Scan.first s s.length delim).it1 + 1) s.length = t := by
      rw [text, List.take_of_length_le (Nat.le_of_eq List.length_drop), Scan.drop_succ_of_cons hcons]
    have : splitImpl2 s s.length delim s1 =
        (true, (Scan.first s s.length delim).piece s, text s ((Scan.first s s.length delim).it1 + 1) s.length) :=
      if_neg (Scan.ne_length_of_cons hcons)
    exact ⟨_, t, hpiece, happend, by rw [split, this, htext]; rfl⟩

theorem conforms_two_of_not_mem {s s1 : List C} {delim : C} (h : delim ∉ s) : Conforms s delim 2 0 [s, s1] ↔ s1 = [] := by
  have hcount : s.count delim = 0 := List.count_eq_zero_of_not_mem h
  constructor
  · intro hconforms
    have := hconforms.empty
    rw [pieces, hcount] at this
    exact this s1 (by simp)
  · rintro rfl
    have : Conforms (s ++ []) delim 2 0 [s, []] :=
      (fills_nil delim 1).conforms (by simp) h (by simp) (by simp)
    rwa [List.append_nil] at this

theorem conforms_two_of_mem {delim : C} {p : List C} (hp : delim ∉ p) (t : List C) :
    Conforms (p ++ delim :: t) delim 2 1 [p, t] := by
  refine (fills_last delim t).conforms (by simp) hp ?_ ?_
  · simp
  · intro hlen
    simp at hlen

/-- A call with two recipients and no delimiter conforms only if nothing was in the second; the others all do. -/
theorem split_conforms_iff (s : List C) (delim : C) {recipients : List (List C)} (hmin : 2 ≤ recipients.length)
    (hmax : recipients.length ≤ 6) :
    (∃ cnt out, split s delim recipients = some (cnt, out) ∧ Conforms s delim recipients.length cnt out) ↔
      (recipients.length = 2 → delim ∉ s → recipients[1]? = some []) := by
  obtain hlen | ⟨m, hlen⟩ : recipients.length = 2 ∨ ∃ m, recipients.length = m + 3 := by
    rcases Nat.eq_or_lt_of_le hmin with h | h
    · exact .inl h.symm
    · exact .inr ⟨recipients.length - 3, by omega⟩
  · obtain ⟨s0, s1, rfl⟩ := List.length_eq_two.mp hlen
    rcases split_two s delim s0 s1 with ⟨hmem, hsplit⟩ | ⟨p, t, hp, rfl, hsplit⟩
    · rw [hsplit]
      constructor
      · rintro ⟨cnt, out, h, hconforms⟩ - -
        cases h
        rw [(conforms_two_of_not_mem hmem).mp hconforms]
        rfl
      · intro h
        have hs1 : s1 = [] := Option.some.inj (h rfl hmem)
        exact ⟨0, [s, s1], rfl, (conforms_two_of_not_mem hmem).mpr hs1⟩
    · rw [hsplit]
      exact ⟨fun _ _ h => absurd (by simp) h, fun _ => ⟨1, [p, t], rfl, conforms_two_of_mem hp t⟩⟩
  · rw [split_eq_fill s delim hlen (by omega), hlen]
    exact ⟨fun _ h => absurd h (by omega), fun _ => ⟨_, _, rfl, Scan.conforms_fill s delim m⟩⟩

theorem split_conforms_iff_three :
    ∃ cnt out, split ['a', '.'] '.' [['x'], [], ['y']] = some (cnt, out) ∧ Conforms ['a', '.'] '.' 3 cnt out :=
  (split_conforms_iff ['a', '.'] '.' (by decide) (by decide)).mpr fun h => absurd h (by decide)

/-- What a recipient holds from an earlier call is still there. -/
theorem not_split_conforms : ¬∃ cnt out, split ['a', 'b', 'c'] '.' [[], ['x']] = some (cnt, out) ∧
    Conforms ['a', 'b', 'c'] '.' 2 cnt out := by
  rintro ⟨cnt, out, h, hconforms⟩
  have hsplit : split ['a', 'b', 'c'] '.' [[], ['x']] = some (0, [['a', 'b', 'c'], ['x']]) := by decide
  rw [hsplit] at h
  cases h
  exact absurd (hconforms.empty ['x'] (by decide)) (by decide)

end Zylib.ZySoft.Split
