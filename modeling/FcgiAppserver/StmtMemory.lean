import FcgiAppserver.JsonWriter
import FcgiAppserver.StmtBuffers

namespace FcgiAppserver.Db

open ByteStrings Json

/-- A column's buffer with its contents, `is_null`, and the length that `mysql_stmt_bind_result` was given. What
`new` leaves indeterminate is some value. -/
structure ColumnMemory where
  field : MysqlField
  buffer : Option Bytes
  bufferLength : ℕ
  actualLength : ℕ
  isNull : Bool
deriving DecidableEq, Repr

structure Indeterminate where
  bytes : ℕ → Byte
  actualLength : ℕ
  isNull : Bool

def newBytes (bytes : ℕ → Byte) (size : ℕ) : Bytes := (List.range size).map bytes

def sizeofMysqlTime : ℕ := 40

def allocated (field : MysqlField) : ℕ := if isTimeField field.type then sizeofMysqlTime else field.length

def newColumnMemory (indeterminate : Indeterminate) (field : MysqlField) : ColumnMemory :=
  if field.type ≠ .blob then
    { field
      buffer := some (newBytes indeterminate.bytes (allocated field))
      bufferLength := field.length
      actualLength := indeterminate.actualLength
      isNull := indeterminate.isNull }
  else
    { field
      buffer := none
      bufferLength := 0
      actualLength := indeterminate.actualLength
      isNull := indeterminate.isNull }

def newStmtMemory (indeterminate : ℕ → Indeterminate) (fields : List MysqlField) : List ColumnMemory :=
  fields.mapIdx (fun i field => newColumnMemory (indeterminate i) field)

/-- The size of the C value that the client library stores, for a type that has one. -/
def cValueSize : FieldType → Option ℕ
  | .tiny => some 1
  | .short => some 2
  | .long => some 4
  | .longlong => some 8
  | .float => some 4
  | .double => some 8
  | .time => some sizeofMysqlTime
  | .date => some sizeofMysqlTime
  | .datetime => some sizeofMysqlTime
  | .timestamp => some sizeofMysqlTime
  | .string => none
  | .varString => none
  | .blob => none
  | .other => none

def storedBytes (type : FieldType) (bufferLength : ℕ) (value : Bytes) : Bytes :=
  match cValueSize type with
  | some size => newBytes (fun i => value.getD i 0) size
  | none => value.take bufferLength

def storedLength (type : FieldType) (value : Bytes) : ℕ := (cValueSize type).getD value.length

/-- Bytes that go past the end of the buffer are not in it. -/
def overwrite (buffer bytes : Bytes) : Bytes := bytes.take buffer.length ++ buffer.drop bytes.length

/-- What the client library does for one bound column: a NULL sets `is_null` alone. -/
def storeColumn (bufferLength : ℕ) (column : ColumnMemory) : Option Bytes → ColumnMemory
  | none => { column with isNull := true }
  | some value =>
    { column with
      buffer := column.buffer.map (overwrite · (storedBytes column.field.type bufferLength value))
      actualLength := storedLength column.field.type value
      isNull := false }

/-- A row of the result as `fetch` gets it: which calls of `mysql_stmt_fetch_column` succeed, and what the
memory of the new buffers happens to hold. -/
structure ClientRow where
  values : ℕ → Option Bytes
  fetchesColumn : ℕ → Bool
  fresh : ℕ → ℕ → Byte

inductive ClientFetch
  | noData
  | error
  | row (r : ClientRow)

def mysqlStmtFetch (r : ClientRow) (i : ℕ) : List ColumnMemory → List ColumnMemory
  | [] => []
  | column :: columns => storeColumn column.bufferLength column (r.values i) :: mysqlStmtFetch r (i + 1) columns

/-- The old buffer of a `BLOB` goes, and an empty value gets no new one. -/
def newBlob (fresh : ℕ → Byte) (column : ColumnMemory) : ColumnMemory :=
  if column.field.type = .blob then
    if column.actualLength ≠ 0 then { column with buffer := some (newBytes fresh column.actualLength) }
    else { column with buffer := none }
  else column

def fetchesBlob (column : ColumnMemory) : Bool := column.field.type = .blob && column.actualLength ≠ 0

def fetchBlobs (r : ClientRow) (i : ℕ) : List ColumnMemory → List ColumnMemory × FetchResult
  | [] => ([], .row)
  | column :: columns =>
    let column := newBlob (r.fresh i) column
    if fetchesBlob column then
      if r.fetchesColumn i then
        let (columns, result) := fetchBlobs r (i + 1) columns
        (storeColumn column.actualLength column (r.values i) :: columns, result)
      else (column :: columns, .dbException "fetch_column")
    else
      let (columns, result) := fetchBlobs r (i + 1) columns
      (column :: columns, result)

def fetchMemory (columns : List ColumnMemory) : ClientFetch → List ColumnMemory × FetchResult
  | .noData => (columns, .noData)
  | .error => (columns, .dbException "stmt_fetch")
  | .row r => fetchBlobs r 0 (mysqlStmtFetch r 0 columns)

def fetchAllMemory (columns : List ColumnMemory) (fetches : List ClientFetch) : List ColumnMemory :=
  fetches.foldl (fun columns e => (fetchMemory columns e).1) columns

inductive Converted
  | text (s : Bytes)
  | dbException (what operation : String)
  -- a read past the end of the buffer
  | undefined
deriving DecidableEq, Repr

/-- How a stream prints the bytes of a `float` and of a `double`: with at least one character. -/
structure FloatText where
  float : Bytes → Bytes
  double : Bytes → Bytes
  float_ne_nil : ∀ bytes, float bytes ≠ []
  double_ne_nil : ∀ bytes, double bytes ≠ []

def readBuffer (column : ColumnMemory) (size : ℕ) : Option Bytes :=
  if size = 0 then some []
  else
    match column.buffer with
    | some bytes => if size ≤ bytes.length then some (bytes.take size) else none
    | none => none

def unsigned (bytes : Bytes) : ℕ := bytes.foldr (fun b n => b.toNat + 256 * n) 0

def signed (bytes : Bytes) : ℤ :=
  if 2 * unsigned bytes < 256 ^ bytes.length then unsigned bytes else unsigned bytes - 256 ^ bytes.length

def setw (width n : ℕ) : Bytes := List.replicate (width - (writeNat n).length) 48 ++ writeNat n

/-- The `i`th of the `unsigned int`s that a `MYSQL_TIME` begins with. -/
def timeMember (ts : Bytes) (i : ℕ) : ℕ := unsigned ((ts.drop (4 * i)).take 4)

def convertTimestamp (ts : Bytes) : Bytes :=
  setw 4 (timeMember ts 0) ++ ascii "-" ++ setw 2 (timeMember ts 1) ++ ascii "-" ++ setw 2 (timeMember ts 2) ++
    ascii " " ++ setw 2 (timeMember ts 3) ++ ascii ":" ++ setw 2 (timeMember ts 4) ++ ascii ":" ++
    setw 2 (timeMember ts 5)

def writeBytes (column : ColumnMemory) (size : ℕ) (f : Bytes → Bytes) : Converted :=
  match readBuffer column size with
  | some bytes => .text (f bytes)
  | none => .undefined

def columnToString (floats : FloatText) (column : ColumnMemory) : Converted :=
  match column.field.type with
  | .tiny => writeBytes column 1 (fun bytes => writeInt (signed bytes))
  | .short => writeBytes column 2 (fun bytes => writeInt (signed bytes))
  | .long => writeBytes column 4 (fun bytes => writeInt (signed bytes))
  | .longlong => writeBytes column 8 (fun bytes => writeInt (signed bytes))
  | .double => writeBytes column 8 floats.double
  | .float => writeBytes column 4 floats.float
  | .string => writeBytes column column.actualLength id
  | .varString => writeBytes column column.actualLength id
  | .blob => writeBytes column column.actualLength id
  | .time => .dbException "Don't know how to convert type MYSQL_TYPE_TIME" "stmt_fetch"
  | .date => .dbException "Don't know how to convert type MYSQL_TYPE_DATE" "stmt_fetch"
  | .datetime => writeBytes column 24 convertTimestamp
  | .timestamp => writeBytes column 24 convertTimestamp
  | .other => .text []

def asString (floats : FloatText) (columns : List ColumnMemory) (colno : ℕ) : Converted :=
  match columns[colno]? with
  | none => .text []
  | some column => columnToString floats column

/-- `is_null`, which `asString` does not ask. -/
def isNull (columns : List ColumnMemory) (colno : ℕ) : Option Bool := columns[colno]?.map (·.isNull)

/-- What there is of a column without its contents. -/
def ColumnMemory.shape (column : ColumnMemory) : MysqlField × ℕ × Bool :=
  (column.field, column.actualLength, column.buffer.isSome)

def Column.shape (column : Column) : MysqlField × ℕ × Bool :=
  (column.data.field, column.data.actualLength, column.data.buffer.isSome)

theorem shape_eq {memory : ColumnMemory} {column : Column} (h : memory.shape = column.shape) :
    memory.field = column.data.field ∧ memory.actualLength = column.data.actualLength ∧
      memory.buffer.isSome = column.data.buffer.isSome := by
  simpa [ColumnMemory.shape, Column.shape] using h

theorem storeColumn_shape {bufferLength : ℕ} {memory : ColumnMemory} {column : Column}
    (h : memory.shape = column.shape) (value : Option Bytes) :
    (storeColumn bufferLength memory value).shape =
      { column with data.actualLength := (storeColumn bufferLength memory value).actualLength }.shape := by
  obtain ⟨hfield, -, hbuffer⟩ := shape_eq h
  cases value <;> simp [storeColumn, ColumnMemory.shape, Column.shape, hfield, hbuffer]

theorem newBlob_shape (fresh : ℕ → Byte) (heap : AllocationLedger.Heap) {memory : ColumnMemory} {column : Column}
    (h : memory.shape = column.shape) : (newBlob fresh memory).shape = (fetchColumn heap column).2.shape := by
  obtain ⟨hfield, hlength, hbuffer⟩ := shape_eq h
  by_cases hblob : column.data.field.type = .blob
  · by_cases hlen : column.data.actualLength = 0
    · rw [fetchColumn_empty heap hblob hlen, newBlob, if_pos (hfield ▸ hblob), if_neg (by omega)]
      simp [ColumnMemory.shape, Column.shape, hfield, hlength]
    · rw [fetchColumn_value heap hblob hlen, newBlob, if_pos (hfield ▸ hblob), if_pos (by omega)]
      simp [ColumnMemory.shape, Column.shape, hfield, hlength]
  · rw [fetchColumn_other heap hblob, newBlob, if_neg (hfield ▸ hblob)]
    exact h

theorem failsColumn_shape {memory : ColumnMemory} {column : Column} (h : memory.shape = column.shape)
    (fetchesColumn : ℕ → Bool) (i : ℕ) :
    failsColumn fetchesColumn i column = (fetchesBlob memory && !fetchesColumn i) := by
  obtain ⟨hfield, hlength, -⟩ := shape_eq h
  rw [failsColumn, fetchesBlob, hfield, hlength]

/-- `mysql_stmt_fetch_column` stores the length that `mysql_stmt_fetch` has stored. -/
theorem storeColumn_again (bufferLength bufferLength' : ℕ) (fresh : ℕ → Byte) (memory : ColumnMemory)
    (value : Option Bytes) :
    (storeColumn bufferLength' (newBlob fresh (storeColumn bufferLength memory value)) value).shape =
      (newBlob fresh (storeColumn bufferLength memory value)).shape := by
  cases value with
  | none => rfl
  | some value =>
    unfold newBlob
    split_ifs <;> simp [storeColumn, ColumnMemory.shape]

@[simp] theorem fetchesBlob_newBlob (fresh : ℕ → Byte) (memory : ColumnMemory) :
    fetchesBlob (newBlob fresh memory) = fetchesBlob memory := by
  unfold newBlob
  split_ifs <;> rfl

theorem fetchBlobs_cons (r : ClientRow) (i : ℕ) (column : ColumnMemory) (columns : List ColumnMemory) :
    fetchBlobs r i (column :: columns) =
      if fetchesBlob column && !r.fetchesColumn i then
        (newBlob (r.fresh i) column :: columns, .dbException "fetch_column")
      else
        ((if fetchesBlob column then
            storeColumn (newBlob (r.fresh i) column).actualLength (newBlob (r.fresh i) column) (r.values i)
          else newBlob (r.fresh i) column) :: (fetchBlobs r (i + 1) columns).1,
          (fetchBlobs r (i + 1) columns).2) := by
  rw [fetchBlobs]
  simp only [fetchesBlob_newBlob]
  cases fetchesBlob column <;> cases r.fetchesColumn i <;> simp

theorem row_shapes (r : ClientRow) (i : ℕ) {memory : List ColumnMemory} {columns : List Column}
    (h : memory.map ColumnMemory.shape = columns.map Column.shape) :
    ∃ lengths : ℕ → ℕ,
      (mysqlStmtFetch r i memory).map ColumnMemory.shape = (storeLengths lengths columns).map Column.shape ∧
      ∀ heap, (fetchBlobs r i (mysqlStmtFetch r i memory)).1.map ColumnMemory.shape =
          (fetchColumns r.fetchesColumn i heap (storeLengths lengths columns)).2.1.map Column.shape ∧
        (fetchBlobs r i (mysqlStmtFetch r i memory)).2 =
          (fetchColumns r.fetchesColumn i heap (storeLengths lengths columns)).2.2 := by
  induction memory generalizing i columns with
  | nil =>
    obtain rfl := List.map_eq_nil_iff.mp h.symm
    exact ⟨fun _ => 0, rfl, fun heap => ⟨rfl, rfl⟩⟩
  | cons first memory ih =>
    obtain ⟨column, columns, rfl, hfirst, hrest⟩ := List.map_eq_cons_iff.mp h.symm
    obtain ⟨lengths, hrests, ih⟩ := ih (i + 1) hrest.symm
    have hstored : (storeColumn first.bufferLength first (r.values i)).shape = _ :=
      storeColumn_shape hfirst.symm (r.values i)
    have hagain := storeColumn_again first.bufferLength
      (newBlob (r.fresh i) (storeColumn first.bufferLength first (r.values i))).actualLength (r.fresh i) first (r.values i)
    refine ⟨fun k => Nat.casesOn k (storeColumn first.bufferLength first (r.values i)).actualLength lengths, ?_⟩
    rw [mysqlStmtFetch]
    generalize storeColumn first.bufferLength first (r.values i) = stored at hstored hagain ⊢
    have hlengths : storeLengths (fun k => Nat.casesOn k stored.actualLength lengths) (column :: columns) =
        { column with data.actualLength := stored.actualLength } :: storeLengths lengths columns := List.mapIdx_cons
    rw [hlengths]
    generalize ({ column with data.actualLength := stored.actualLength } : Column) = bound at hstored ⊢
    refine ⟨congrArg₂ List.cons hstored hrests, ?_⟩
    intro heap
    have hblob := newBlob_shape (r.fresh i) heap hstored
    obtain ⟨hmemory, hresult⟩ := ih (fetchColumn heap bound).1
    rw [fetchBlobs_cons, fetchColumns_cons, failsColumn_shape hstored]
    split_ifs with hfails hfetches
    · exact ⟨congrArg₂ List.cons hblob hrests, rfl⟩
    · exact ⟨congrArg₂ List.cons (hagain.trans hblob) hmemory, hresult⟩
    · exact ⟨congrArg₂ List.cons hblob hmemory, hresult⟩

/-- Without the contents, a fetch is a fetch of the buffers' identities. -/
theorem fetch_shapes {memory : List ColumnMemory} {s : DBStmt}
    (h : memory.map ColumnMemory.shape = s.columns.map Column.shape) (e : ClientFetch) :
    ∃ e', (fetchMemory memory e).1.map ColumnMemory.shape = (s.fetch e').1.columns.map Column.shape ∧
      (fetchMemory memory e).2 = (s.fetch e').2 := by
  cases e with
  | noData => exact ⟨.noData, h, rfl⟩
  | error => exact ⟨.error, h, rfl⟩
  | row r =>
    obtain ⟨lengths, -, hrow⟩ := row_shapes r 0 h
    exact ⟨.row lengths r.fetchesColumn, hrow s.heap⟩

theorem newStmt_shapes {indeterminate : ℕ → Indeterminate} {actualLength : ℕ}
    (h : ∀ i, (indeterminate i).actualLength = actualLength) (heap : AllocationLedger.Heap) (fields : List MysqlField) :
    (newStmtMemory indeterminate fields).map ColumnMemory.shape =
      (newColumns sizeofMysqlTime actualLength heap fields).2.map Column.shape := by
  induction fields generalizing indeterminate heap with
  | nil => rfl
  | cons field fields ih =>
    have hfirst : (newColumnMemory (indeterminate 0) field).shape =
        (newColumn sizeofMysqlTime actualLength heap field).2.shape := by
      rw [newColumnMemory, newColumn]
      split_ifs <;> simp [ColumnMemory.shape, Column.shape, h 0]
    rw [newStmtMemory, List.mapIdx_cons, List.map_cons, hfirst]
    exact congrArg _ (ih (fun i => h (i + 1)) _)

theorem fetchAll_shapes {indeterminate : ℕ → Indeterminate} {actualLength : ℕ}
    (h : ∀ i, (indeterminate i).actualLength = actualLength) (fields : List MysqlField) (fetches : List ClientFetch) :
    ∃ fetches', (fetchAllMemory (newStmtMemory indeterminate fields) fetches).map ColumnMemory.shape =
      ((newStmt sizeofMysqlTime actualLength fields).fetchAll fetches').columns.map Column.shape := by
  have hrun : ∀ (memory : List ColumnMemory) (s : DBStmt), memory.map ColumnMemory.shape = s.columns.map Column.shape →
      ∃ fetches', (fetchAllMemory memory fetches).map ColumnMemory.shape =
        (s.fetchAll fetches').columns.map Column.shape := by
    induction fetches with
    | nil => exact fun memory s hs => ⟨[], hs⟩
    | cons e fetches ih =>
      intro memory s hs
      obtain ⟨e', hfetch, -⟩ := fetch_shapes hs e
      obtain ⟨fetches', hrest⟩ := ih _ _ hfetch
      exact ⟨e' :: fetches', hrest⟩
  exact hrun _ _ (newStmt_shapes h _ fields)

end FcgiAppserver.Db
