import FcgiAppserver.StmtRows

namespace FcgiAppserver.Db

open AllocationLedger

inductive MysqlType
  | decimal | tiny | short | long | float | double | null | timestamp | longlong | int24 | date | time | datetime | year
  | newdate | varchar | bit | json | newdecimal | enum | set | tinyBlob | mediumBlob | longBlob | blob | varString | string
  | geometry
deriving DecidableEq

def MysqlType.fieldType : MysqlType → FieldType
  | tiny => .tiny
  | short => .short
  | long => .long
  | longlong => .longlong
  | float => .float
  | double => .double
  | string => .string
  | varString => .varString
  | blob => .blob
  | time => .time
  | date => .date
  | datetime => .datetime
  | timestamp => .timestamp
  | _ => .other

/-- The size of the C value that the client library stores, of a `MEDIUMINT` and of a `YEAR` too. -/
def MysqlType.cSize : MysqlType → Option ℕ
  | int24 => some 4
  | year => some 2
  | type => cValueSize type.fieldType

structure BoundStmt where
  types : List MysqlType
  stmt : DBStmt
  bound : List MysqlBind

inductive RowFetch
  | noData
  | error
  | row (values : ℕ → Option ℕ) (fetchesColumn : ℕ → Bool)

inductive StmtEvent
  | execute
  | fetch (e : RowFetch)

def newField (field : MysqlType × ℕ) : MysqlField := ⟨field.1.fieldType, field.2⟩

/-- The lengths that `new column_data_t[]` leaves indeterminate are some numbers. -/
def newBoundStmt (indeterminate : ℕ → ℕ) (fields : List (MysqlType × ℕ)) : BoundStmt :=
  let stmt := newStmt sizeofMysqlTime 0 (fields.map newField)
  { types := fields.map Prod.fst
    stmt := { stmt with columns := storeLengths indeterminate stmt.columns }
    bound := stmt.columns.map Column.bindOut }

def storedActualLength (type : MysqlType) (actualLength : ℕ) (value : Option ℕ) : ℕ :=
  value.elim actualLength (fun length => type.cSize.getD length)

namespace BoundStmt

def storedLengths (s : BoundStmt) (values : ℕ → Option ℕ) (i : ℕ) : ℕ :=
  (do return storedActualLength (← s.types[i]?) (← s.stmt.columns[i]?).data.actualLength (values i)).getD 0

def mysqlFetch (s : BoundStmt) : RowFetch → MysqlFetch
  | .noData => .noData
  | .error => .error
  | .row values fetchesColumn => .row (s.storedLengths values) fetchesColumn

def fetch (s : BoundStmt) (e : RowFetch) : BoundStmt × FetchResult :=
  let (stmt, result) := s.stmt.fetch (s.mysqlFetch e)
  ({ s with stmt }, result)

/-- `mysql_stmt_bind_result`, which copies the binds. An `execute` that fails leaves all as it is. -/
def execute (s : BoundStmt) : BoundStmt := { s with bound := s.stmt.columns.map Column.bindOut }

def step (s : BoundStmt) : StmtEvent → BoundStmt
  | .execute => s.execute
  | .fetch e => (s.fetch e).1

def run (s : BoundStmt) (events : List StmtEvent) : BoundStmt := events.foldl step s

end BoundStmt

structure Access where
  buffer : Option ℕ
  size : ℕ

def Access.Inside (a : Access) (heap : Heap) (column : Column) : Prop :=
  a.size = 0 ∨ ∃ b size, a.buffer = some b ∧ column.data.buffer = some b ∧ heap.Live b ∧
    heap.allocated[b]? = some size ∧ a.size ≤ size

/-- A column of a row that `fetch` accepts: with its value, what the library has bound for it, and the column before
and after the fetch. -/
structure FetchedColumn where
  type : MysqlType
  value : Option ℕ
  bound : MysqlBind
  heap : Heap
  column : Column
  heapAfter : Heap
  columnAfter : Column

def BoundStmt.fetchedColumn (s : BoundStmt) (values : ℕ → Option ℕ) (fetchesColumn : ℕ → Bool) (i : ℕ) :
    Option FetchedColumn :=
  let (s', result) := s.fetch (.row values fetchesColumn)
  if result = .row then do
    return {
      type := ← s.types[i]?
      value := values i
      bound := ← s.bound[i]?
      heap := s.stmt.heap
      column := ← s.stmt.columns[i]?
      heapAfter := s'.stmt.heap
      columnAfter := ← s'.stmt.columns[i]? }
  else none

/-- Of a value and the buffer for a declared length. Of a NULL a string takes the length before it, and a number is
printed all the same. -/
def FitsLength (type : MysqlType) (value : Option ℕ) (actualLength length : ℕ) : Prop :=
  match type.fieldType with
  | .blob => True
  | .time => True
  | .date => True
  | .datetime => True
  | .timestamp => True
  | .string => value.getD actualLength ≤ length
  | .varString => value.getD actualLength ≤ length
  | .other => value = none ∨ type.cSize.getD 0 ≤ length
  | _ => type.cSize.getD 0 ≤ length

namespace FetchedColumn

variable (c : FetchedColumn)

def stored : Access :=
  ⟨c.bound.buffer, c.value.elim 0 (fun length => c.type.cSize.getD (min length c.bound.bufferLength))⟩

def fetched : Access :=
  ⟨c.columnAfter.bindOut.buffer,
    if c.type = .blob ∧ c.columnAfter.data.actualLength ≠ 0 then
      c.value.elim 0 (fun length => min length c.columnAfter.bindOut.bufferLength)
    else 0⟩

def read : Access :=
  ⟨c.columnAfter.data.buffer, bytesRead c.columnAfter.data.field.type c.columnAfter.data.actualLength⟩

structure InBounds : Prop where
  stored : c.stored.Inside c.heap c.column
  fetched : c.fetched.Inside c.heapAfter c.columnAfter
  read : c.read.Inside c.heapAfter c.columnAfter

def Fits : Prop :=
  if c.type = .blob then c.value.getD 0 = 0 ∨ c.bound.buffer = none ∨ c.bound.buffer = c.column.data.buffer
  else FitsLength c.type c.value c.column.data.actualLength c.column.data.field.length

end FetchedColumn

def AtRows (s : BoundStmt) (P : FetchedColumn → Prop) (events : List StmtEvent) : Prop :=
  ∀ before values fetchesColumn after i c, events = before ++ .fetch (.row values fetchesColumn) :: after →
    (s.run before).fetchedColumn values fetchesColumn i = some c → P c

end FcgiAppserver.Db
