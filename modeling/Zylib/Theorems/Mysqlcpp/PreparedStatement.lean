import Zylib.Mysqlcpp.PreparedStatement
import Zylib.Theorems.Mysqlcpp.Field
import Zylib.Lib.Lists

/-! The rows that `executeQuery` returns are the ones that the server sent, and no memory fault happens, if and only if each
    column has a bind buffer and no text of a `DECIMAL` is longer than its buffer. -/

namespace Zylib.Mysqlcpp
open Lists

/-- A value that a column can have. -/
def ResultColumn.Fits (c : ResultColumn) (value : Bytes) : Prop :=
  match c.type with
  | .null => False
  | .tiny => value.length = 1
  | .short | .year => value.length = 2
  | .int24 | .long | .float => value.length = 4
  | .double | .longlong => value.length = 8
  | .timestamp | .date | .time | .datetime => value.length = sizeofMysqlTime
  | .bit => value.length ≤ 8
  | _ => value.length ≤ c.maxLength

/-- What is assumed of a result set: there is one only if there are columns, each row has a cell for each column, and the
    longest value of a column is known. -/
structure Query.WellFormed (q : Query) : Prop where
  columns : q.metadata = true → q.columns ≠ []
  rows : ∀ row ∈ q.rows, List.Forall₂ (fun (c : ResultColumn) cell => ∀ v ∈ cell, c.Fits v) q.columns row

/-- The field of what the server sent. -/
def Field.Holds (f : Field) (cell : Option Bytes) : Prop :=
  match cell with
  | none => f.isNull = true
  | some v => f.isNull = false ∧ f.buffer = v

/-- No memory fault happens, and a `ResultSet` that is returned has the rows that the server sent. -/
def Query.Faithful (q : Query) : Prop :=
  ∃ result, q.executeQuery = .ok result ∧
    ∀ rows, result = some rows → List.Forall₂ (List.Forall₂ Field.Holds) rows q.rows

/-- The value fits in the buffer of a `DECIMAL`, if that is the type of the column. -/
def ResultColumn.Short (c : ResultColumn) (cell : Option Bytes) : Prop :=
  c.type = .decimal ∨ c.type = .newdecimal → ∀ v ∈ cell, v.length ≤ 64

/-- Once the result is stored, each column has a bind buffer, and in the rows that are then fetched no `DECIMAL` is longer
    than its buffer. -/
def Query.Buffered (q : Query) : Prop :=
  q.metadata = true → q.bindParam = true → q.storeResult = true →
    (∀ c ∈ q.columns, (createBindBufferForField c.type c.maxLength).isSome) ∧
      (q.bindResult = true → ∀ row ∈ q.fetched, List.Forall₂ ResultColumn.Short q.columns row)

section
variable {c : ResultColumn} {bind : Query.Bind} {columns : List ResultColumn} {binds : List Query.Bind} {row : SentRow}

/-- The buffer is the one of the column. -/
def IsBound (c : ResultColumn) (bind : Query.Bind) : Prop := createBindBufferForField c.type c.maxLength = some bind

theorem length_le_of_fits {v : Bytes} (hbind : IsBound c bind) (hfits : c.Fits v) (hshort : c.Short (some v)) :
    bind.1 ≠ 0 ∧ v.length ≤ bind.1 := by
  obtain ⟨type, maxLength⟩ := c
  have hshort : type = .decimal ∨ type = .newdecimal → v.length ≤ 64 := fun h => hshort h v rfl
  unfold IsBound at hbind
  cases type <;> cases hbind <;> simp only [ResultColumn.Fits, sizeofMysqlTime] at hfits hshort ⊢ <;> grind

theorem rowField_holds {cell : Option Bytes} (hbind : IsBound c bind) (hfits : ∀ v ∈ cell, c.Fits v) (hshort : c.Short cell) :
    ∃ f, Query.rowField bind cell = .ok f ∧ f.Holds cell := by
  cases cell with
  | none => exact ⟨_, rfl, rfl⟩
  | some v =>
    obtain ⟨h0, hle⟩ := length_le_of_fits hbind (hfits v rfl) hshort
    refine ⟨{ type := bind.2, buffer := v, isBinary := true }, ?_, rfl, rfl⟩
    simp only [Query.rowField, if_neg h0, Field.setBinaryValue, stmtFetch_eq hle]
    rfl

/-- A field of a row that is filled on its own. -/
theorem rowField_eq (hbind : IsBound c bind) (cell : Option Bytes) :
    Query.rowField bind cell = binaryField c.type c.maxLength cell := by
  unfold IsBound at hbind
  rw [binaryField, hbind]
  cases cell <;> rfl

/-- A field is filled only if the value fits. -/
theorem short_of_rowField {cell : Option Bytes} {f : Field} (hbind : IsBound c bind) (h : Query.rowField bind cell = .ok f) :
    c.Short cell := by
  rintro htype v rfl
  by_contra hlong
  rw [rowField_eq hbind] at h
  have herror : binaryField c.type c.maxLength (some v) = .error .outOfBounds := by
    rcases htype with htype | htype <;> rw [htype] <;> exact binaryField_error rfl (Nat.not_le.mp hlong)
  cases herror.symm.trans h

theorem rowData_holds (hbinds : List.Forall₂ IsBound columns binds)
    (hfits : List.Forall₂ (fun (c : ResultColumn) cell => ∀ v ∈ cell, c.Fits v) columns row)
    (hshort : List.Forall₂ ResultColumn.Short columns row) :
    ∃ fields, Query.rowData binds row = .ok fields ∧ List.Forall₂ Field.Holds fields row := by
  unfold Query.rowData
  simp only [mapM_eq_ok_iff]
  induction hbinds generalizing row with
  | nil =>
    cases hfits
    exact ⟨[], .nil, .nil⟩
  | cons hbind hbinds ih =>
    cases hfits with
    | cons hfit hfits =>
      cases hshort with
      | cons hshort₁ hshort =>
        obtain ⟨fields, hfields, hholds⟩ := ih hfits hshort
        obtain ⟨f, hf, hhold⟩ := rowField_holds hbind hfit hshort₁
        exact ⟨f :: fields, .cons hf hfields, .cons hhold hholds⟩

theorem short_of_rowData {fields : List Field} (hbinds : List.Forall₂ IsBound columns binds)
    (hlength : columns.length = row.length) (h : Query.rowData binds row = .ok fields) :
    List.Forall₂ ResultColumn.Short columns row := by
  unfold Query.rowData at h
  rw [mapM_eq_ok_iff] at h
  induction hbinds generalizing row fields with
  | nil =>
    cases row with
    | nil => exact .nil
    | cons cell row => cases hlength
  | cons hbind hbinds ih =>
    cases row with
    | nil => cases hlength
    | cons cell row =>
      cases h with
      | cons hf h => exact .cons (short_of_rowField hbind hf) (ih (Nat.succ.inj hlength) h)

end

namespace Query

variable {q : Query} {binds : List Bind}

theorem createBindBuffers_eq_ok_iff : q.createBindBuffers = .ok binds ↔ List.Forall₂ IsBound q.columns binds := by
  unfold createBindBuffers
  rw [mapM_eq_ok_iff]
  refine iff_of_eq (congrArg (List.Forall₂ · q.columns binds) ?_)
  funext c bind
  unfold IsBound
  cases createBindBufferForField c.type c.maxLength <;> simp

/-- The buffers are made if each column has one. -/
theorem exists_binds_iff : (∃ binds, q.createBindBuffers = .ok binds) ↔
    ∀ c ∈ q.columns, (createBindBufferForField c.type c.maxLength).isSome := by
  unfold createBindBuffers
  rw [exists_mapM_eq_ok_iff]
  refine forall₂_congr fun c _ => ?_
  cases createBindBufferForField c.type c.maxLength <;> simp

theorem mem_rows_of_mem_fetched {row : SentRow} (h : row ∈ q.fetched) : row ∈ q.rows := by
  unfold fetched at h
  split at h
  · exact h
  · exact List.mem_of_mem_take h

theorem fetched_of_not_failed (h : q.failed = false) : q.fetched = q.rows := by
  unfold failed at h
  unfold fetched
  split at h
  · rfl
  · exact List.take_of_length_le (Nat.not_lt.mp (of_decide_eq_false h))

/-- The rows are read without a fault if and only if no value is too long. -/
theorem exists_rows_iff (hwf : q.WellFormed) (hbinds : List.Forall₂ IsBound q.columns binds) :
    (∃ rows, q.fetched.mapM (rowData binds) = .ok rows) ↔ ∀ row ∈ q.fetched, List.Forall₂ ResultColumn.Short q.columns row := by
  rw [exists_mapM_eq_ok_iff]
  refine forall₂_congr fun row hrow => ?_
  have hfits := hwf.rows row (mem_rows_of_mem_fetched hrow)
  constructor
  · rintro ⟨fields, hfields⟩
    exact short_of_rowData hbinds hfits.length_eq hfields
  · intro hshort
    obtain ⟨fields, hfields, -⟩ := rowData_holds hbinds hfits hshort
    exact ⟨fields, hfields⟩

theorem rows_hold (hwf : q.WellFormed) (hbinds : List.Forall₂ IsBound q.columns binds)
    {sent : List SentRow} {rows : List (List Field)} (hsent : ∀ row ∈ sent, row ∈ q.rows)
    (h : List.Forall₂ (fun row fields => rowData binds row = .ok fields) sent rows) :
    List.Forall₂ (List.Forall₂ Field.Holds) rows sent := by
  induction h with
  | nil => exact .nil
  | @cons row fields sent rows hrow h ih =>
    have hfits := hwf.rows row (hsent row List.mem_cons_self)
    obtain ⟨fields', hfields', hholds⟩ := rowData_holds hbinds hfits (short_of_rowData hbinds hfits.length_eq hrow)
    cases hrow.symm.trans hfields'
    exact .cons hholds (ih fun row hrow => hsent row (List.mem_cons_of_mem _ hrow))

/-- The rows of a stored result, whose buffers are bound. -/
theorem fetch_iff (hwf : q.WellFormed) (hbinds : List.Forall₂ IsBound q.columns binds) :
    (∃ result, (match q.fetched.mapM (rowData binds) with
        | .error e => .error e
        | .ok rows => if q.failed then .ok none else .ok (some rows)) = Except.ok (ε := MemoryFault) result ∧
      ∀ rows, result = some rows → List.Forall₂ (List.Forall₂ Field.Holds) rows q.rows) ↔
        ∀ row ∈ q.fetched, List.Forall₂ ResultColumn.Short q.columns row := by
  rw [← exists_rows_iff hwf hbinds]
  cases hrows : q.fetched.mapM (rowData binds) with
  | error e =>
    refine ⟨?_, ?_⟩
    · rintro ⟨result, h, -⟩
      cases h
    · rintro ⟨rows, h⟩
      cases h
  | ok rows =>
    refine ⟨fun _ => ⟨rows, rfl⟩, fun _ => ?_⟩
    cases hfailed : q.failed with
    | true => exact ⟨none, rfl, fun _ h => by cases h⟩
    | false =>
      refine ⟨some rows, rfl, fun rows' h => ?_⟩
      cases h
      rw [fetched_of_not_failed hfailed, mapM_eq_ok_iff] at hrows
      exact rows_hold hwf hbinds (fun _ h => h) hrows

theorem bindRows_iff (hwf : q.WellFormed) (hcolumns : q.columns ≠ []) (hstore : q.storeResult = true) :
    (∃ result, q.bindRows = .ok result ∧ ∀ rows, result = some rows → List.Forall₂ (List.Forall₂ Field.Holds) rows q.rows) ↔
      (∀ c ∈ q.columns, (createBindBufferForField c.type c.maxLength).isSome) ∧
        (q.bindResult = true → ∀ row ∈ q.fetched, List.Forall₂ ResultColumn.Short q.columns row) := by
  have hfields : q.numFields ≠ 0 := fun h => hcolumns (List.length_eq_zero_iff.mp h)
  rw [bindRows, hstore, if_neg (by decide), ← exists_binds_iff]
  cases hbinds : q.createBindBuffers with
  | error e =>
    refine ⟨?_, ?_⟩
    · rintro ⟨result, h, -⟩
      cases h
    · rintro ⟨⟨binds, h⟩, -⟩
      cases h
  | ok binds =>
    refine Iff.trans ?_ (and_iff_right ⟨binds, rfl⟩).symm
    cases hbound : q.bindResult with
    | false => exact ⟨fun _ h => (by cases h), fun _ => ⟨none, if_pos ⟨hfields, rfl⟩, fun _ h => by cases h⟩⟩
    | true =>
      rw [forall_prop_of_true rfl]
      dsimp only
      rw [if_neg fun h => Bool.noConfusion h.2]
      by_cases hrows : q.numRows = 0
      · have hnil : q.rows = [] := List.length_eq_zero_iff.mp hrows
        refine ⟨fun _ row hrow => ?_, fun _ => ⟨some [], if_pos (.inl hrows), fun rows h => ?_⟩⟩
        · have := mem_rows_of_mem_fetched hrow
          rw [hnil] at this
          cases this
        · cases h
          rw [hnil]
          exact .nil
      · rw [if_neg (not_or.mpr ⟨hrows, hfields⟩)]
        exact fetch_iff hwf (createBindBuffers_eq_ok_iff.mp hbinds)

/-- The query is faithful if and only if its columns and values fit the buffers. -/
theorem faithful_iff (hwf : q.WellFormed) : q.Faithful ↔ q.Buffered := by
  have hnone : ∃ result, Except.ok (ε := MemoryFault) none = .ok result ∧
      ∀ rows, result = some rows → List.Forall₂ (List.Forall₂ Field.Holds) rows q.rows := ⟨none, rfl, fun _ h => by cases h⟩
  unfold Faithful Buffered executeQuery
  cases hmeta : q.metadata with
  | false => exact ⟨fun _ h => (by cases h), fun _ => hnone⟩
  | true =>
    cases hparam : q.bindParam with
    | false => exact ⟨fun _ _ h => (by cases h), fun _ => hnone⟩
    | true =>
      cases hstore : q.storeResult with
      | false =>
        refine ⟨fun _ _ _ h => (by cases h), fun _ => ?_⟩
        rw [bindRows, hstore]
        exact hnone
      | true =>
        rw [if_neg (by decide), if_neg (by decide), bindRows_iff hwf (hwf.columns hmeta) hstore]
        exact ⟨fun h _ _ _ => h, fun h => h rfl rfl rfl⟩

/-- A query of a text with a byte 0 and of a `DECIMAL`, and of two nulls. -/
theorem faithful_iff_text :
    let q : Query := {
      columns := [⟨.varString, 3⟩, ⟨.newdecimal, 4⟩]
      rows := [[some [97, 0, 98], some [45, 49, 46, 53]], [none, none]] }
    q.Faithful ↔ q.Buffered := by
  intro q
  refine faithful_iff ⟨fun _ => List.cons_ne_nil _ _, ?_⟩
  refine List.forall_mem_cons.mpr ⟨?_, List.forall_mem_singleton.mpr ?_⟩
  · refine .cons (fun v hv => ?_) (.cons (fun v hv => ?_) .nil) <;> cases hv <;> exact Nat.le_refl _
  · exact .cons (fun v hv => by cases hv) (.cons (fun v hv => by cases hv) .nil)

/-- A column of type `GEOMETRY` has no bind buffer. -/
theorem geometry_fault : ¬∀ q : Query, q.WellFormed → q.Faithful := by
  intro h
  have hwf : ({ columns := [⟨.geometry, 0⟩], rows := [] } : Query).WellFormed :=
    ⟨fun _ => List.cons_ne_nil _ _, fun row hrow => (List.not_mem_nil hrow).elim⟩
  have hbuffer := ((faithful_iff hwf).mp (h _ hwf) rfl rfl rfl).1 ⟨.geometry, 0⟩ List.mem_cons_self
  exact absurd hbuffer (by decide)

end Query

end Zylib.Mysqlcpp
