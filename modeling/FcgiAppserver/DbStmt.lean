import FcgiAppserver.AllocationLedger
import FcgiAppserver.TransitionRuns

namespace FcgiAppserver.Db

open AllocationLedger TransitionRuns

inductive FieldType
  | tiny
  | short
  | long
  | longlong
  | float
  | double
  | string
  | varString
  | blob
  | time
  | date
  | datetime
  | timestamp
  | other
deriving DecidableEq, Repr

structure MysqlField where
  type : FieldType
  length : ℕ
deriving DecidableEq, Repr

structure ColumnData where
  length : ℕ
  buffer : Option ℕ
  actualLength : ℕ
  field : MysqlField
deriving DecidableEq, Repr

structure MysqlBind where
  bufferType : FieldType
  buffer : Option ℕ
  bufferLength : ℕ
deriving DecidableEq, Repr

structure Column where
  bindOut : MysqlBind
  data : ColumnData
deriving DecidableEq, Repr

structure DBStmt where
  columns : List Column
  heap : Heap
deriving DecidableEq, Repr

def isTimeField (type : FieldType) : Bool :=
  type = .time || type = .date || type = .datetime || type = .timestamp

def newColumn (sizeofMysqlTime indeterminate : ℕ) (heap : Heap) (field : MysqlField) : Heap × Column :=
  -- new column_data_t[] leaves actual_length indeterminate
  if field.type ≠ .blob then
    let (buffer, heap) := heap.new (if isTimeField field.type then sizeofMysqlTime else field.length)
    (heap,
      { bindOut := ⟨field.type, some buffer, field.length⟩
        data := ⟨field.length, some buffer, indeterminate, field⟩ })
  else
    (heap, { bindOut := ⟨field.type, none, 0⟩, data := ⟨0, none, indeterminate, field⟩ })

def newColumns (sizeofMysqlTime indeterminate : ℕ) (heap : Heap) : List MysqlField → Heap × List Column
  | [] => (heap, [])
  | field :: fields =>
    let (heap, column) := newColumn sizeofMysqlTime indeterminate heap field
    let (heap, columns) := newColumns sizeofMysqlTime indeterminate heap fields
    (heap, column :: columns)

def newStmt (sizeofMysqlTime indeterminate : ℕ) (fields : List MysqlField) : DBStmt :=
  let (heap, columns) := newColumns sizeofMysqlTime indeterminate .empty fields
  { columns, heap }

inductive FetchResult
  | row
  | noData
  | dbException (operation : String)
deriving DecidableEq, Repr

/-- What the client library does in one `fetch`: `mysql_stmt_fetch` ends the result, fails, or stores the
lengths of a row, and `mysql_stmt_fetch_column` succeeds or not for each column it is called for. -/
inductive MysqlFetch
  | noData
  | error
  | row (lengths : ℕ → ℕ) (fetchesColumn : ℕ → Bool)

def fetchColumn (heap : Heap) (column : Column) : Heap × Column :=
  if column.data.field.type = .blob then
    let heap := heap.delete column.data.buffer
    let column := { column with data.buffer := none }
    if column.data.actualLength ≠ 0 then
      let (buffer, heap) := heap.new column.data.actualLength
      let column := { column with data.buffer := some buffer }
      let column := { column with bindOut.buffer := column.data.buffer }
      (heap, { column with bindOut.bufferLength := column.data.actualLength })
    else (heap, column)
  else (heap, column)

def failsColumn (fetchesColumn : ℕ → Bool) (i : ℕ) (column : Column) : Bool :=
  column.data.field.type = .blob && column.data.actualLength ≠ 0 && !fetchesColumn i

def fetchColumns (fetchesColumn : ℕ → Bool) (i : ℕ) (heap : Heap) : List Column → Heap × List Column × FetchResult
  | [] => (heap, [], .row)
  | column :: columns =>
    let (heap, column) := fetchColumn heap column
    if failsColumn fetchesColumn i column then (heap, column :: columns, .dbException "fetch_column")
    else
      let (heap, columns, result) := fetchColumns fetchesColumn (i + 1) heap columns
      (heap, column :: columns, result)

def storeLengths (lengths : ℕ → ℕ) (columns : List Column) : List Column :=
  columns.mapIdx (fun i column => { column with data.actualLength := lengths i })

namespace DBStmt

def fetch (s : DBStmt) : MysqlFetch → DBStmt × FetchResult
  | .noData => (s, .noData)
  | .error => (s, .dbException "stmt_fetch")
  | .row lengths fetchesColumn =>
    let (heap, columns, result) := fetchColumns fetchesColumn 0 s.heap (storeLengths lengths s.columns)
    ({ columns, heap }, result)

def destroy (s : DBStmt) : Heap := s.heap.deleteAll (s.columns.map (fun column => column.bindOut.buffer))

def fetchAll (s : DBStmt) (fetches : List MysqlFetch) : DBStmt := fetches.foldl (fun s e => (s.fetch e).1) s

def step (s : DBStmt) (e : MysqlFetch) : Except Empty DBStmt := .ok (s.fetch e).1

theorem exec_step (s : DBStmt) (fetches : List MysqlFetch) : exec step s fetches = .ok (s.fetchAll fetches) := by
  induction fetches generalizing s with
  | nil => rfl
  | cons e fetches ih => exact ih (s.fetch e).1

end DBStmt

end FcgiAppserver.Db
