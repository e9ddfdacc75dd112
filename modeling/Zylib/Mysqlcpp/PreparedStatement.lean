import Zylib.Mysqlcpp.Field

/-! `PreparedStatement::executeQuery`: the buffers that are bound to the columns, and the rows that are fetched into them.
    What the client library does, as far as the code can tell, is given. -/

namespace Zylib.Mysqlcpp

/-- What the code reads of a `MYSQL_FIELD`. -/
structure ResultColumn where
  type : FieldType
  maxLength : Nat
deriving DecidableEq

/-- A row as the server sends it. -/
abbrev SentRow := List (Option Bytes)

/-- The result set and the calls of the client library: whether there is a result set, whether the parameters are bound
    and the statement is executed, whether the result is stored and the buffers are bound, and the number of the row
    whose fetch fails, if one fails. -/
structure Query where
  columns : List ResultColumn
  rows : List SentRow
  metadata : Bool := true
  bindParam : Bool := true
  storeResult : Bool := true
  bindResult : Bool := true
  fetchFails : Option Nat := none
deriving DecidableEq

namespace Query

def numFields (q : Query) : Nat := q.columns.length

def numRows (q : Query) : Nat := q.rows.length

/-- The rows that `mysql_stmt_fetch` gives, the last one before it fails or before there are no more. A row that is
    truncated is treated like any other. -/
def fetched (q : Query) : List SentRow :=
  match q.fetchFails with
  | none => q.rows
  | some n => q.rows.take n

def failed (q : Query) : Bool :=
  match q.fetchFails with
  | none => false
  | some n => n < q.rows.length

/-- A bind buffer: its size, and the type that is asked for. -/
abbrev Bind := Nat × FieldType

/-- `ResultBind::bindResult` before the buffers are handed to the library. -/
def createBindBuffers (q : Query) : Except MemoryFault (List Bind) :=
  q.columns.mapM fun column =>
    match createBindBufferForField column.type column.maxLength with
    | none => .error .nullBuffer
    | some bind => .ok bind

/-- A field of a row, from the buffer after the fetch. -/
def rowField (bind : Bind) (cell : Option Bytes) : Except MemoryFault Field :=
  match cell with
  | none => .ok (({} : Field).setNullValue bind.2)
  | some value =>
    ({} : Field).setBinaryValue bind.2 (if bind.1 = 0 then none else some (stmtFetch bind.1 value)) value.length true

def rowData (binds : List Bind) (row : SentRow) : Except MemoryFault (List Field) :=
  (binds.zip row).mapM fun (bind, cell) => rowField bind cell

/-- `PreparedStatement::bindResult`, which gives the rows if it succeeds. -/
def bindRows (q : Query) : Except MemoryFault (Option (List (List Field))) :=
  if q.storeResult = false then .ok none
  else
    match q.createBindBuffers with
    | .error e => .error e
    | .ok binds =>
      -- without a column nothing is bound
      if q.numFields ≠ 0 ∧ q.bindResult = false then .ok none
      else if q.numRows = 0 ∨ q.numFields = 0 then .ok (some [])
      else
        match q.fetched.mapM (rowData binds) with
        | .error e => .error e
        | .ok rows => if q.failed then .ok none else .ok (some rows)

/-- The rows of the `ResultSet` that is returned, if one is. -/
def executeQuery (q : Query) : Except MemoryFault (Option (List (List Field))) :=
  if q.metadata = false then .ok none
  else if q.bindParam = false then .ok none
  else q.bindRows

end Query

end Zylib.Mysqlcpp
