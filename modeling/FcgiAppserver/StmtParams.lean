import FcgiAppserver.DbStmt
import FcgiAppserver.ByteStrings

namespace FcgiAppserver.Db

open ByteStrings

/-- What a parameter of a statement can be sent as. A `double` is its bits. -/
inductive MysqlValue
  | long (value : Int32)
  | double (bits : UInt64)
  | string (value : Bytes)
deriving DecidableEq

structure BlobParam where
  param : Int32
  value : Bytes

def BlobParam.number (blob : BlobParam) : ℕ := blob.param.toUInt32.toNat

/-- The part of a `DBStmt` that binds parameters, with the values of the variables that `m_bind_in` points to, and
the data that the client library has appended for the coming execution. -/
structure StmtParams where
  paramCount : ℕ
  numFields : ℕ
  bindIn : ℕ → Option MysqlValue
  blobParams : List BlobParam
  longData : ℕ → Option Bytes
  -- a statement counts its parameters in 16 bits
  paramCount_lt : paramCount < 2 ^ 16

def newParams (paramCount numFields : ℕ) (h : paramCount < 2 ^ 16) : StmtParams where
  paramCount := paramCount
  numFields := numFields
  bindIn := fun _ => none
  blobParams := []
  longData := fun _ => none
  paramCount_lt := h

structure ExecuteAnswers where
  bindsParam : Bool
  sendsLongData : ℕ → Bool
  executes : Bool
  bindsResult : Bool

inductive ExecuteResult
  | done
  | dbException (operation : String)
deriving DecidableEq

inductive StmtCall
  | bindInt (colno : ℕ) (value : Int32)
  | bindDouble (colno : ℕ) (bits : UInt64)
  | bindString (colno : ℕ) (value : Bytes)
  | bindBlob (colno : ℕ) (value : Bytes)
  | execute (answers : ExecuteAnswers)

def sendLongData (longData : ℕ → Option Bytes) (blob : BlobParam) : ℕ → Option Bytes :=
  Function.update longData blob.number (some ((longData blob.number).getD [] ++ blob.value))

def sendBlobs (sends : ℕ → Bool) (i : ℕ) (longData : ℕ → Option Bytes) : List BlobParam → (ℕ → Option Bytes) × Bool
  | [] => (longData, true)
  | blob :: blobs =>
    if sends i then sendBlobs sends (i + 1) (sendLongData longData blob) blobs else (longData, false)

namespace StmtParams

def bindSlot (s : StmtParams) (colno : ℕ) (value : MysqlValue) : StmtParams :=
  if colno < s.paramCount then { s with bindIn := Function.update s.bindIn colno (some value) } else s

def bindInt (s : StmtParams) (colno : ℕ) (value : Int32) : StmtParams := s.bindSlot colno (.long value)

def bindDouble (s : StmtParams) (colno : ℕ) (bits : UInt64) : StmtParams := s.bindSlot colno (.double bits)

def bindString (s : StmtParams) (colno : ℕ) (value : Bytes) : StmtParams := s.bindSlot colno (.string value)

def bindBlob (s : StmtParams) (colno : ℕ) (value : Bytes) : StmtParams :=
  if colno < s.paramCount then
    { s with
      -- a null buffer of length 0
      bindIn := Function.update s.bindIn colno (some (.string []))
      blobParams := s.blobParams ++ [⟨Int32.ofNat colno, value⟩] }
  else s

/-- Data that was appended for a parameter goes before what its slot holds. -/
def sentValue (s : StmtParams) (c : ℕ) : Option MysqlValue :=
  match s.longData c with
  | some data => some (.string data)
  | none => s.bindIn c

structure Executed where
  sent : Option (ℕ → Option MysqlValue)
  stmt : StmtParams
  result : ExecuteResult

def stmtExecute (s : StmtParams) (answers : ExecuteAnswers) : Executed :=
  let sent := s.sentValue
  let s := { s with longData := fun _ => none }
  if !answers.executes then ⟨some sent, s, .dbException "execute"⟩
  else if s.numFields ≠ 0 && !answers.bindsResult then ⟨some sent, s, .dbException "bind_result"⟩
  else ⟨some sent, s, .done⟩

def execute (s : StmtParams) (answers : ExecuteAnswers) : Executed :=
  if s.paramCount ≠ 0 then
    if !answers.bindsParam then ⟨none, s, .dbException "bind_param"⟩
    else
      let (longData, sentAll) := sendBlobs answers.sendsLongData 0 s.longData s.blobParams
      let s := { s with longData }
      if !sentAll then ⟨none, s, .dbException "send_long_data"⟩ else s.stmtExecute answers
  else s.stmtExecute answers

def step (s : StmtParams) : StmtCall → StmtParams
  | .bindInt colno value => s.bindInt colno value
  | .bindDouble colno bits => s.bindDouble colno bits
  | .bindString colno value => s.bindString colno value
  | .bindBlob colno value => s.bindBlob colno value
  | .execute answers => (s.execute answers).stmt

def run (s : StmtParams) (calls : List StmtCall) : StmtParams := calls.foldl step s

end StmtParams

inductive Bind
  | int (value : Int32)
  | double (bits : UInt64)
  | string (value : Bytes)
  | blob (value : Bytes)
deriving DecidableEq

namespace Bind

def value : Bind → MysqlValue
  | int value => .long value
  | double bits => .double bits
  | string value => .string value
  | blob value => .string value

def slot : Bind → MysqlValue
  | blob _ => .string []
  | bind => bind.value

def blobValue : Bind → Option Bytes
  | blob value => some value
  | _ => none

end Bind

def bindFor (c : ℕ) : StmtCall → Option Bind
  | .bindInt colno value => if colno = c then some (.int value) else none
  | .bindDouble colno bits => if colno = c then some (.double bits) else none
  | .bindString colno value => if colno = c then some (.string value) else none
  | .bindBlob colno value => if colno = c then some (.blob value) else none
  | .execute _ => none

def lastBind (calls : List StmtCall) (c : ℕ) : Option Bind := (calls.filterMap (bindFor c)).getLast?

def blobsFor (calls : List StmtCall) (c : ℕ) : List Bytes := (calls.filterMap (bindFor c)).filterMap Bind.blobValue

/-- What was bound last, of a parameter with these blobs and with this data left over by executions that failed, is
what gets sent. -/
def SentAlone (leftOver : Bytes) (blobs : List Bytes) : Bind → Prop
  | .int _ => blobs = []
  | .double _ => blobs = []
  | .string value => blobs = [] ∨ leftOver ++ blobs.flatten = value
  | .blob _ => leftOver = [] ∧ ∀ blob ∈ blobs.dropLast, blob = []

end FcgiAppserver.Db
