import FcgiAppserver.StmtMemory

namespace FcgiAppserver.Db

open ByteStrings Json

def bytesRead (type : FieldType) (actualLength : ℕ) : ℕ :=
  match type with
  | .tiny => 1
  | .short => 2
  | .long => 4
  | .longlong => 8
  | .double => 8
  | .float => 4
  | .string => actualLength
  | .varString => actualLength
  | .blob => actualLength
  | .time => 0
  | .date => 0
  | .datetime => 24
  | .timestamp => 24
  | .other => 0

/-- What `column_to_string` makes of the bytes it reads, for a type that it reads. -/
def conversion (floats : FloatText) : FieldType → Option (Bytes → Bytes)
  | .tiny => some (fun bytes => writeInt (signed bytes))
  | .short => some (fun bytes => writeInt (signed bytes))
  | .long => some (fun bytes => writeInt (signed bytes))
  | .longlong => some (fun bytes => writeInt (signed bytes))
  | .double => some floats.double
  | .float => some floats.float
  | .string => some id
  | .varString => some id
  | .blob => some id
  | .datetime => some convertTimestamp
  | .timestamp => some convertTimestamp
  | .time => none
  | .date => none
  | .other => none

def Fits (field : MysqlField) (value : Bytes) : Prop :=
  field.type = .blob ∨ bytesRead field.type (storedLength field.type value) ≤ allocated field

/-- A column that is not converted at all, or a value that its buffer holds. -/
def Settled (field : MysqlField) (value : Option Bytes) : Prop :=
  field.type = .other ∨ ∃ v, value = some v ∧ Fits field v

/-- All rows that have `value` in a column are read the same, after whatever rows and in whatever memory. -/
def RowDetermined (floats : FloatText) (fields : List MysqlField) (colno : ℕ) (value : Option Bytes) : Prop :=
  ∃ result, result ≠ .undefined ∧ (value = none → result = .text []) ∧
    ∀ indeterminate earlier r, r.values colno = value →
      (fetchMemory (fetchAllMemory (newStmtMemory indeterminate fields) earlier) (.row r)).2 = .row →
      asString floats (fetchMemory (fetchAllMemory (newStmtMemory indeterminate fields) earlier) (.row r)).1 colno = result

/-- What a column's memory keeps of its field from construction on. -/
structure Allocated (field : MysqlField) (column : ColumnMemory) : Prop where
  field_eq : column.field = field
  buffer_eq : field.type ≠ .blob → ∃ bytes, column.buffer = some bytes ∧ bytes.length = allocated field
  bound : field.type ≠ .blob → column.bufferLength = field.length

section

variable {field : MysqlField} {column : ColumnMemory}

@[simp] theorem length_newBytes (bytes : ℕ → Byte) (size : ℕ) : (newBytes bytes size).length = size := by
  simp [newBytes]

theorem length_overwrite (buffer bytes : Bytes) : (overwrite buffer bytes).length = buffer.length := by
  rw [overwrite, List.length_append, List.length_take, List.length_drop]
  omega

theorem overwrite_take {buffer bytes : Bytes} {n : ℕ} (hn : n ≤ bytes.length) (hfits : n ≤ buffer.length) :
    (overwrite buffer bytes).take n = bytes.take n := by
  rw [overwrite, List.take_append_of_le_length (by rw [List.length_take]; omega), List.take_take, Nat.min_eq_left hfits]

theorem allocated_new (indeterminate : Indeterminate) (field : MysqlField) :
    Allocated field (newColumnMemory indeterminate field) := by
  unfold newColumnMemory
  split
  · exact ⟨rfl, fun _ => ⟨_, rfl, length_newBytes _ _⟩, fun _ => rfl⟩
  · rename_i hblob
    exact ⟨rfl, fun h => absurd h hblob, fun h => absurd h hblob⟩

theorem Allocated.store (h : Allocated field column) (bufferLength : ℕ) (value : Option Bytes) :
    Allocated field (storeColumn bufferLength column value) := by
  cases value with
  | none => exact ⟨h.field_eq, h.buffer_eq, h.bound⟩
  | some value =>
    refine ⟨h.field_eq, ?_, h.bound⟩
    intro hblob
    obtain ⟨bytes, hbuffer, hlen⟩ := h.buffer_eq hblob
    exact ⟨_, by rw [storeColumn, hbuffer]; rfl, (length_overwrite _ _).trans hlen⟩

theorem newBlob_other (fresh : ℕ → Byte) (h : column.field.type ≠ .blob) : newBlob fresh column = column := if_neg h

theorem Allocated.newBlob (h : Allocated field column) (fresh : ℕ → Byte) : Allocated field (newBlob fresh column) := by
  by_cases hblob : column.field.type = .blob
  · have hfield : (Db.newBlob fresh column).field = field := by
      rw [Db.newBlob, if_pos hblob, ← h.field_eq]
      split_ifs <;> rfl
    rw [h.field_eq] at hblob
    exact ⟨hfield, fun hne => absurd hblob hne, fun hne => absurd hblob hne⟩
  · rw [newBlob_other fresh hblob]
    exact h

/-- A column after the loop of `fetch` has got past it. -/
def fetched (r : ClientRow) (i : ℕ) (column : ColumnMemory) : ColumnMemory :=
  if fetchesBlob column then
    storeColumn (newBlob (r.fresh i) column).actualLength (newBlob (r.fresh i) column) (r.values i)
  else newBlob (r.fresh i) column

theorem Allocated.fetched (h : Allocated field column) (r : ClientRow) (i : ℕ) : Allocated field (fetched r i column) := by
  unfold Db.fetched
  split_ifs
  · exact (h.newBlob _).store _ _
  · exact h.newBlob _

end

abbrev AllAllocated (fields : List MysqlField) (columns : List ColumnMemory) : Prop :=
  List.Forall₂ Allocated fields columns

theorem allAllocated_new (indeterminate : ℕ → Indeterminate) (fields : List MysqlField) :
    AllAllocated fields (newStmtMemory indeterminate fields) := by
  induction fields generalizing indeterminate with
  | nil => exact .nil
  | cons field fields ih =>
    rw [newStmtMemory, List.mapIdx_cons]
    exact .cons (allocated_new _ field) (ih (fun i => indeterminate (i + 1)))

section

variable {fields : List MysqlField} {columns : List ColumnMemory}

theorem AllAllocated.stored (h : AllAllocated fields columns) (r : ClientRow) (i : ℕ) :
    AllAllocated fields (mysqlStmtFetch r i columns) := by
  induction h generalizing i with
  | nil => exact .nil
  | cons hfirst _ ih => exact .cons (hfirst.store _ _) (ih (i + 1))

theorem AllAllocated.fetchBlobs (h : AllAllocated fields columns) (r : ClientRow) (i : ℕ) :
    AllAllocated fields (fetchBlobs r i columns).1 := by
  induction h generalizing i with
  | nil => exact .nil
  | cons hfirst hrest ih =>
    rw [fetchBlobs_cons]
    split_ifs with hfails hfetches
    · exact .cons (hfirst.newBlob _) hrest
    · exact .cons ((hfirst.newBlob _).store _ _) (ih (i + 1))
    · exact .cons (hfirst.newBlob _) (ih (i + 1))

theorem AllAllocated.fetch (h : AllAllocated fields columns) (e : ClientFetch) :
    AllAllocated fields (fetchMemory columns e).1 := by
  cases e with
  | noData => exact h
  | error => exact h
  | row r => exact (h.stored r 0).fetchBlobs r 0

theorem AllAllocated.fetchAll (h : AllAllocated fields columns) (fetches : List ClientFetch) :
    AllAllocated fields (fetchAllMemory columns fetches) := by
  induction fetches generalizing columns with
  | nil => exact h
  | cons e fetches ih => exact ih (h.fetch e)

theorem fetchBlobs_getElem? (r : ClientRow) (i : ℕ) (hrow : (fetchBlobs r i columns).2 = .row) (c : ℕ) :
    (fetchBlobs r i columns).1[c]? = columns[c]?.map (fetched r (i + c)) := by
  induction columns generalizing i c with
  | nil => rfl
  | cons column columns ih =>
    have hfails : ¬ (fetchesBlob column && !r.fetchesColumn i) = true := by
      intro hfails
      rw [fetchBlobs_cons, if_pos hfails] at hrow
      cases hrow
    rw [fetchBlobs_cons, if_neg hfails] at hrow ⊢
    cases c with
    | zero => rfl
    | succ c =>
      rw [List.getElem?_cons_succ, List.getElem?_cons_succ, ih (i + 1) hrow, Nat.add_right_comm]
      rfl

theorem mysqlStmtFetch_getElem? (r : ClientRow) (i c : ℕ) :
    (mysqlStmtFetch r i columns)[c]? =
      columns[c]?.map (fun column => storeColumn column.bufferLength column (r.values (i + c))) := by
  induction columns generalizing i c with
  | nil => rfl
  | cons column columns ih =>
    cases c with
    | zero => rfl
    | succ c =>
      rw [mysqlStmtFetch, List.getElem?_cons_succ, List.getElem?_cons_succ, ih (i + 1), Nat.add_right_comm]
      rfl

/-- A column of a row that was fetched comes from the same column alone. -/
theorem fetch_getElem? {r : ClientRow} (hrow : (fetchMemory columns (.row r)).2 = .row) (c : ℕ) :
    (fetchMemory columns (.row r)).1[c]? = columns[c]?.map (fun column =>
      fetched r c (storeColumn column.bufferLength column (r.values c))) := by
  have hblobs := fetchBlobs_getElem? r 0 hrow c
  rw [mysqlStmtFetch_getElem?, Option.map_map, Nat.zero_add] at hblobs
  exact hblobs

theorem fetchBlobs_row {r : ClientRow} (h : ∀ i, r.fetchesColumn i = true) (i : ℕ) (columns : List ColumnMemory) :
    (fetchBlobs r i columns).2 = .row := by
  induction columns generalizing i with
  | nil => rfl
  | cons column columns ih =>
    rw [fetchBlobs_cons, h i]
    simpa using ih (i + 1)

end

section

variable {floats : FloatText} {field : MysqlField} {column : ColumnMemory}

theorem readBuffer_eq {bytes : Bytes} {n : ℕ} (hbuffer : column.buffer = some bytes) (hn : n ≤ bytes.length) :
    readBuffer column n = some (bytes.take n) := by
  unfold readBuffer
  split
  · rename_i hz
    rw [hz, List.take_zero]
  · rw [hbuffer]
    exact if_pos hn

theorem readBuffer_outside {bytes : Bytes} {n : ℕ} (hbuffer : column.buffer = some bytes) (hn : bytes.length < n) :
    readBuffer column n = none := by
  unfold readBuffer
  rw [if_neg (Nat.ne_of_gt (Nat.zero_lt_of_lt hn)), hbuffer]
  exact if_neg (Nat.not_le.mpr hn)

theorem readBuffer_length {bytes : Bytes} {n : ℕ} (h : readBuffer column n = some bytes) : bytes.length = n := by
  unfold readBuffer at h
  split_ifs at h with hz
  · cases h
    exact hz.symm
  · split at h
    · split_ifs at h with hn
      cases h
      exact List.length_take_of_le hn
    · cases h

theorem columnToString_read {f : Bytes → Bytes} (h : conversion floats column.field.type = some f) :
    columnToString floats column = writeBytes column (bytesRead column.field.type column.actualLength) f := by
  unfold columnToString
  cases htype : column.field.type <;> rw [htype] at h <;>
    simp only [conversion, Option.some.injEq, reduceCtorEq] at h <;> rw [← h] <;> rfl

theorem columnToString_unread (h : conversion floats column.field.type = none) :
    columnToString floats column ≠ .undefined ∧ bytesRead column.field.type column.actualLength = 0 ∧
      (columnToString floats column = .text [] → column.field.type = .other) := by
  unfold columnToString
  cases htype : column.field.type <;> rw [htype] at h <;> simp only [conversion, reduceCtorEq] at h <;>
    simp [bytesRead]

theorem convertTimestamp_ne_nil (ts : Bytes) : convertTimestamp ts ≠ [] := by
  have hyear : setw 4 (timeMember ts 0) ≠ [] := List.append_ne_nil_of_right_ne_nil _ (writeNat_ne_nil _)
  simp [convertTimestamp, hyear]

theorem conversion_ne_nil {type : FieldType} {f : Bytes → Bytes} (h : conversion floats type = some f) {bytes : Bytes}
    (hne : bytes ≠ []) : f bytes ≠ [] := by
  cases type <;> simp only [conversion, Option.some.injEq, reduceCtorEq] at h <;> rw [← h]
  case tiny => exact writeInt_ne_nil _
  case short => exact writeInt_ne_nil _
  case long => exact writeInt_ne_nil _
  case longlong => exact writeInt_ne_nil _
  case float => exact floats.float_ne_nil _
  case double => exact floats.double_ne_nil _
  case string => exact hne
  case varString => exact hne
  case blob => exact hne
  case datetime => exact convertTimestamp_ne_nil _
  case timestamp => exact convertTimestamp_ne_nil _

theorem bytesRead_ne_zero {type : FieldType} {f : Bytes → Bytes} (h : conversion floats type = some f) {actualLength : ℕ}
    (hne : actualLength ≠ 0) : bytesRead type actualLength ≠ 0 := by
  cases type <;> simp only [conversion, Option.some.injEq, reduceCtorEq] at h <;> simp [bytesRead, hne]

theorem columnToString_congr {column' : ColumnMemory} (htype : column.field.type = column'.field.type)
    (hlength : column.actualLength = column'.actualLength)
    (hread : readBuffer column (bytesRead column.field.type column.actualLength) =
      readBuffer column' (bytesRead column.field.type column.actualLength)) :
    columnToString floats column = columnToString floats column' := by
  cases hconversion : conversion floats column.field.type with
  | some f =>
    rw [columnToString_read hconversion, columnToString_read (htype ▸ hconversion), ← htype, ← hlength, writeBytes,
      writeBytes, hread]
  | none =>
    unfold columnToString
    rw [← htype]
    cases htypes : column.field.type <;> rw [htypes] at hconversion <;>
      simp only [conversion, reduceCtorEq] at hconversion

theorem columnToString_undefined :
    columnToString floats column = .undefined ↔
      readBuffer column (bytesRead column.field.type column.actualLength) = none := by
  cases hconversion : conversion floats column.field.type with
  | some f =>
    rw [columnToString_read hconversion, writeBytes]
    cases readBuffer column (bytesRead column.field.type column.actualLength) <;> simp
  | none =>
    obtain ⟨hdefined, hread, -⟩ := columnToString_unread hconversion
    rw [hread]
    exact iff_of_false hdefined (by simp [readBuffer])

theorem columnToString_nil (h : columnToString floats column = .text []) (hne : column.actualLength ≠ 0) :
    column.field.type = .other := by
  cases hconversion : conversion floats column.field.type with
  | some f =>
    rw [columnToString_read hconversion, writeBytes] at h
    have hread := bytesRead_ne_zero hconversion hne
    cases hbytes : readBuffer column (bytesRead column.field.type column.actualLength) with
    | none =>
      rw [hbytes] at h
      cases h
    | some bytes =>
      rw [hbytes] at h
      have hlen := readBuffer_length hbytes
      have hbytes_ne : bytes ≠ [] := List.ne_nil_of_length_pos (by omega)
      exact absurd (Converted.text.inj h) (conversion_ne_nil hconversion hbytes_ne)
  | none => exact (columnToString_unread hconversion).2.2 h

theorem columnToString_other (h : column.field.type = .other) : columnToString floats column = .text [] := by
  rw [columnToString, h]

theorem bytesRead_le (type : FieldType) (v : Bytes) :
    bytesRead type (storedLength type v) ≤ (storedBytes type v.length v).length := by
  cases type <;> simp [bytesRead, storedLength, storedBytes, cValueSize, sizeofMysqlTime]

theorem storedBytes_whole {type : FieldType} {v : Bytes} {bufferLength n : ℕ} (hn : n ≤ (storedBytes type v.length v).length)
    (hfits : cValueSize type = none → n ≤ bufferLength) :
    n ≤ (storedBytes type bufferLength v).length ∧
      (storedBytes type bufferLength v).take n = (storedBytes type v.length v).take n := by
  unfold storedBytes at hn ⊢
  cases hsize : cValueSize type with
  | some size =>
    rw [hsize] at hn
    exact ⟨hn, rfl⟩
  | none =>
    rw [hsize] at hn
    have hle := hfits hsize
    simp only [List.take_length] at hn ⊢
    refine ⟨?_, ?_⟩
    · rw [List.length_take]
      omega
    · rw [List.take_take, Nat.min_eq_left hle]

/-- A column that holds a value and nothing else. -/
def holding (field : MysqlField) (v : Bytes) : ColumnMemory where
  field
  buffer := some (storedBytes field.type v.length v)
  bufferLength := 0
  actualLength := storedLength field.type v
  isNull := false

theorem readBuffer_holding (field : MysqlField) (v : Bytes) :
    readBuffer (holding field v) (bytesRead field.type (storedLength field.type v)) =
      some ((storedBytes field.type v.length v).take (bytesRead field.type (storedLength field.type v))) :=
  readBuffer_eq rfl (bytesRead_le field.type v)

theorem fetched_other (r : ClientRow) (i : ℕ) (h : column.field.type ≠ .blob) : fetched r i column = column := by
  have hno : fetchesBlob column = false := by simp [fetchesBlob, h]
  rw [fetched, hno, newBlob_other _ h]
  rfl

theorem allocated_string {field : MysqlField} (h : cValueSize field.type = none) : allocated field = field.length := by
  have htime : isTimeField field.type = false := by
    cases htype : field.type <;> rw [htype] at h <;> simp [isTimeField, cValueSize] at h ⊢
  rw [allocated, htime]
  rfl

theorem readBuffer_blob {r : ClientRow} {i : ℕ} {v : Bytes} (hv : r.values i = some v)
    (hblob : column.field.type = .blob) (hlength : column.actualLength = v.length) :
    readBuffer (fetched r i column) v.length = some v := by
  by_cases hz : v.length = 0
  · rw [hz, List.length_eq_zero_iff.mp hz]
    rfl
  · have hnew : newBlob (r.fresh i) column = { column with buffer := some (newBytes (r.fresh i) v.length) } := by
      rw [newBlob, if_pos hblob, if_pos (by omega), hlength]
    have hfetches : fetchesBlob column = true := by simp [fetchesBlob, hblob, hlength, hz]
    have hbuffer : (fetched r i column).buffer = some (overwrite (newBytes (r.fresh i) v.length) v) := by
      rw [fetched, if_pos hfetches, hv, hnew, storeColumn, hblob, storedBytes, hlength]
      simp [cValueSize]
    have hlen : (newBytes (r.fresh i) v.length).length = v.length := length_newBytes _ _
    rw [readBuffer_eq hbuffer (by rw [length_overwrite, hlen]), overwrite_take (le_refl _) (by rw [hlen]), List.take_length]

theorem readBuffer_stored (h : Allocated field column) (hblob : field.type ≠ .blob) {v : Bytes}
    (hfits : bytesRead field.type (storedLength field.type v) ≤ allocated field) :
    readBuffer (storeColumn column.bufferLength column (some v)) (bytesRead field.type (storedLength field.type v)) =
      readBuffer (holding field v) (bytesRead field.type (storedLength field.type v)) := by
  obtain ⟨bytes, hbuffer, hlen⟩ := h.buffer_eq hblob
  have hroom : cValueSize field.type = none →
      bytesRead field.type (storedLength field.type v) ≤ column.bufferLength := by
    intro hstring
    rw [h.bound hblob, ← allocated_string hstring]
    exact hfits
  obtain ⟨hstored, hwhole⟩ := storedBytes_whole (bytesRead_le field.type v) hroom
  have hcontents : (storeColumn column.bufferLength column (some v)).buffer =
      some (overwrite bytes (storedBytes field.type column.bufferLength v)) := by
    rw [storeColumn, hbuffer, ← h.field_eq]
    rfl
  rw [readBuffer_holding, ← hwhole, readBuffer_eq hcontents (by rw [length_overwrite]; omega),
    overwrite_take hstored (by omega)]

/-- What was read or stored before is not among the bytes of a value that fits. -/
theorem readBuffer_fetched (h : Allocated field column) {r : ClientRow} {i : ℕ} {v : Bytes} (hv : r.values i = some v)
    (hfits : Fits field v) :
    readBuffer (fetched r i (storeColumn column.bufferLength column (some v)))
        (bytesRead field.type (storedLength field.type v)) =
      readBuffer (holding field v) (bytesRead field.type (storedLength field.type v)) := by
  have hfield := (h.store column.bufferLength (some v)).field_eq
  by_cases hblob : field.type = .blob
  · have hlength : (storeColumn column.bufferLength column (some v)).actualLength = v.length := by
      rw [storeColumn, h.field_eq, hblob]
      rfl
    rw [readBuffer_holding, hblob]
    change readBuffer _ v.length = some (((v.take v.length).take v.length))
    rw [readBuffer_blob hv (by rw [hfield]; exact hblob) hlength, List.take_length, List.take_length]
  · rw [fetched_other r i (by rw [hfield]; exact hblob)]
    exact readBuffer_stored h hblob (hfits.resolve_left hblob)

theorem newBlob_actualLength (fresh : ℕ → Byte) (column : ColumnMemory) :
    (newBlob fresh column).actualLength = column.actualLength := by
  unfold newBlob
  split_ifs <;> rfl

theorem fetched_actualLength (r : ClientRow) (i bufferLength : ℕ) (column : ColumnMemory) :
    (fetched r i (storeColumn bufferLength column (r.values i))).actualLength =
      (storeColumn bufferLength column (r.values i)).actualLength := by
  rw [fetched]
  split_ifs
  · have hagain := storeColumn_again bufferLength
      (newBlob (r.fresh i) (storeColumn bufferLength column (r.values i))).actualLength (r.fresh i) column (r.values i)
    have hlength := congrArg (fun shape => shape.2.1) hagain
    exact hlength.trans (newBlob_actualLength _ _)
  · exact newBlob_actualLength _ _

theorem fetched_value (h : Allocated field column) {r : ClientRow} {i : ℕ} {v : Bytes} (hv : r.values i = some v)
    (hfits : Fits field v) :
    columnToString floats (fetched r i (storeColumn column.bufferLength column (some v))) =
      columnToString floats (holding field v) := by
  have hfield := ((h.store column.bufferLength (some v)).fetched r i).field_eq
  have hlength : (fetched r i (storeColumn column.bufferLength column (some v))).actualLength =
      storedLength field.type v := by
    rw [← hv, fetched_actualLength, hv, storeColumn, h.field_eq]
  apply columnToString_congr
  · rw [hfield]
    rfl
  · exact hlength
  · rw [hfield, hlength]
    exact readBuffer_fetched h hv hfits

theorem holding_defined (field : MysqlField) (v : Bytes) : columnToString floats (holding field v) ≠ .undefined := by
  rw [ne_eq, columnToString_undefined]
  change readBuffer (holding field v) (bytesRead field.type (storedLength field.type v)) ≠ none
  rw [readBuffer_holding]
  exact Option.some_ne_none _

theorem fetched_outside (h : Allocated field column) (r : ClientRow) (i : ℕ) {v : Bytes}
    (hfits : ¬ Fits field v) :
    columnToString floats (fetched r i (storeColumn column.bufferLength column (some v))) = .undefined := by
  rw [Fits, not_or, Nat.not_le] at hfits
  have hstored := h.store column.bufferLength (some v)
  obtain ⟨bytes, hbuffer, hlen⟩ := hstored.buffer_eq hfits.1
  have hlength : (storeColumn column.bufferLength column (some v)).actualLength = storedLength field.type v := by
    rw [storeColumn, h.field_eq]
  rw [fetched_other r i (by rw [hstored.field_eq]; exact hfits.1), columnToString_undefined, hstored.field_eq, hlength]
  apply readBuffer_outside hbuffer
  rw [hlen]
  exact hfits.2

end

theorem AllAllocated.getElem? {fields : List MysqlField} {columns : List ColumnMemory} (h : AllAllocated fields columns)
    (c : ℕ) :
    (fields[c]? = none ∧ columns[c]? = none) ∨
      ∃ field column, fields[c]? = some field ∧ columns[c]? = some column ∧ Allocated field column := by
  induction h generalizing c with
  | nil => exact Or.inl ⟨rfl, rfl⟩
  | @cons field column fields columns hfirst _ ih =>
    cases c with
    | zero => exact Or.inr ⟨field, column, rfl, rfl, hfirst⟩
    | succ c => exact ih c

theorem newColumnMemory_actualLength (indeterminate : Indeterminate) (field : MysqlField) :
    (newColumnMemory indeterminate field).actualLength = indeterminate.actualLength := by
  unfold newColumnMemory
  split_ifs <;> rfl

theorem asString_fetched {floats : FloatText} {columns : List ColumnMemory} {r : ClientRow}
    (hrow : (fetchMemory columns (.row r)).2 = .row) {colno : ℕ} {column : ColumnMemory}
    (hcolumn : columns[colno]? = some column) :
    asString floats (fetchMemory columns (.row r)).1 colno =
      columnToString floats (fetched r colno (storeColumn column.bufferLength column (r.values colno))) := by
  rw [asString, fetch_getElem? hrow, hcolumn]
  rfl

theorem storeColumn_isNull (bufferLength : ℕ) (column : ColumnMemory) (value : Option Bytes) :
    (storeColumn bufferLength column value).isNull = value.isNone := by
  cases value <;> rfl

/-- The flag itself is right after every row. -/
theorem isNull_fetched {columns : List ColumnMemory} {r : ClientRow}
    (hrow : (fetchMemory columns (.row r)).2 = .row) {colno : ℕ} {column : ColumnMemory}
    (hcolumn : columns[colno]? = some column) :
    isNull (fetchMemory columns (.row r)).1 colno = some (r.values colno).isNone := by
  have hstored := storeColumn_isNull column.bufferLength column (r.values colno)
  have hnew : ∀ fresh column, (newBlob fresh column).isNull = column.isNull := by
    intro fresh column
    unfold newBlob
    split_ifs <;> rfl
  rw [isNull, fetch_getElem? hrow, hcolumn, Option.map_map, Option.map_some, Option.some_inj, Function.comp_apply,
    fetched]
  split_ifs
  · exact storeColumn_isNull _ _ _
  · exact (hnew _ _).trans hstored

/-- The first row's reading already shows whether a value settles the column: here in memory where the
length of every column happens to be 1. -/
theorem settled_of_determined {floats : FloatText} {fields : List MysqlField} {colno : ℕ} {value : Option Bytes}
    (h : RowDetermined floats fields colno value) {field : MysqlField} (hfield : fields[colno]? = some field) :
    Settled field value := by
  obtain ⟨result, hdefined, hempty, hall⟩ := h
  let indeterminate : ℕ → Indeterminate := fun _ => ⟨fun _ => 0, 1, false⟩
  let r : ClientRow := ⟨fun _ => value, fun _ => true, fun _ _ => 0⟩
  have hrow : (fetchMemory (newStmtMemory indeterminate fields) (.row r)).2 = .row := fetchBlobs_row (fun _ => rfl) 0 _
  have hnew : (newStmtMemory indeterminate fields)[colno]? = some (newColumnMemory (indeterminate colno) field) := by
    rw [newStmtMemory, List.getElem?_mapIdx, hfield]
    rfl
  have hallocated := allocated_new (indeterminate colno) field
  have hresult := (asString_fetched hrow hnew).symm.trans (hall indeterminate [] r rfl hrow)
  cases value with
  | none =>
    have hlength := fetched_actualLength r colno (newColumnMemory (indeterminate colno) field).bufferLength
      (newColumnMemory (indeterminate colno) field)
    have hone : (storeColumn (newColumnMemory (indeterminate colno) field).bufferLength
        (newColumnMemory (indeterminate colno) field) (r.values colno)).actualLength = 1 :=
      newColumnMemory_actualLength (indeterminate colno) field
    have hother := columnToString_nil (hresult.trans (hempty rfl)) (by rw [hlength, hone]; decide)
    rw [((hallocated.store _ _).fetched r colno).field_eq] at hother
    exact Or.inl hother
  | some v =>
    by_contra hnot
    have hfits : ¬ Fits field v := fun hfits => hnot (Or.inr ⟨v, rfl, hfits⟩)
    exact hdefined (hresult.symm.trans (fetched_outside hallocated r colno hfits))

theorem text_defined (s : Bytes) : Converted.text s ≠ .undefined := by
  intro h
  cases h

section

variable {fields : List MysqlField} {colno : ℕ}

theorem column_outside (hfield : fields[colno]? = none) (indeterminate : ℕ → Indeterminate)
    (earlier : List ClientFetch) : (fetchAllMemory (newStmtMemory indeterminate fields) earlier)[colno]? = none := by
  rcases ((allAllocated_new indeterminate fields).fetchAll earlier).getElem? colno with
    ⟨-, hcolumn⟩ | ⟨field, column, hsome, -, -⟩
  · exact hcolumn
  · rw [hfield] at hsome
    cases hsome

theorem column_allocated {field : MysqlField} (hfield : fields[colno]? = some field)
    (indeterminate : ℕ → Indeterminate) (earlier : List ClientFetch) :
    ∃ column, (fetchAllMemory (newStmtMemory indeterminate fields) earlier)[colno]? = some column ∧
      Allocated field column := by
  rcases ((allAllocated_new indeterminate fields).fetchAll earlier).getElem? colno with
    ⟨hnone, -⟩ | ⟨field', column, hsome, hcolumn, hallocated⟩
  · rw [hfield] at hnone
    cases hnone
  · cases hfield.symm.trans hsome
    exact ⟨column, hcolumn, hallocated⟩

theorem determined_outside (floats : FloatText) (hfield : fields[colno]? = none) (value : Option Bytes) :
    RowDetermined floats fields colno value := by
  refine ⟨.text [], text_defined [], fun _ => rfl, ?_⟩
  intro indeterminate earlier r _ hrow
  rw [asString, fetch_getElem? hrow, column_outside hfield]
  rfl

theorem determined_of_settled (floats : FloatText) {field : MysqlField} (hfield : fields[colno]? = some field)
    {value : Option Bytes} (h : Settled field value) : RowDetermined floats fields colno value := by
  rcases h with hother | ⟨v, rfl, hfits⟩
  · refine ⟨.text [], text_defined [], fun _ => rfl, ?_⟩
    intro indeterminate earlier r _ hrow
    obtain ⟨column, hcolumn, hallocated⟩ := column_allocated hfield indeterminate earlier
    rw [asString_fetched hrow hcolumn]
    apply columnToString_other
    rw [((hallocated.store _ _).fetched r colno).field_eq]
    exact hother
  · refine ⟨columnToString floats (holding field v), holding_defined field v, fun hv => absurd hv (Option.some_ne_none v), ?_⟩
    intro indeterminate earlier r hv hrow
    obtain ⟨column, hcolumn, hallocated⟩ := column_allocated hfield indeterminate earlier
    rw [asString_fetched hrow hcolumn, hv]
    exact fetched_value hallocated hv hfits

end

theorem row_determined_iff (floats : FloatText) (fields : List MysqlField) (colno : ℕ) (value : Option Bytes) :
    RowDetermined floats fields colno value ↔ ∀ field, fields[colno]? = some field → Settled field value := by
  constructor
  · intro h field hfield
    exact settled_of_determined h hfield
  · intro hsettled
    cases hfield : fields[colno]? with
    | none => exact determined_outside floats hfield value
    | some field => exact determined_of_settled floats hfield (hsettled field hfield)

/-- A stream that prints every `float` as 0. -/
def zeroFloats : FloatText := ⟨fun _ => ascii "0", fun _ => ascii "0", fun _ => by decide, fun _ => by decide⟩

def nameField : MysqlField := ⟨.varString, 32⟩

def plainRow (value : Option Bytes) : ClientRow := ⟨fun _ => value, fun _ => true, fun _ _ => 0⟩

def emptyMemory : ℕ → Indeterminate := fun _ => ⟨fun _ => 0, 0, false⟩

theorem null_reads_earlier_row :
    asString zeroFloats (fetchAllMemory (newStmtMemory emptyMemory [nameField])
        [.row (plainRow (some (ascii "alice"))), .row (plainRow none)]) 0 = .text (ascii "alice") ∧
      asString zeroFloats (fetchAllMemory (newStmtMemory emptyMemory [nameField])
        [.row (plainRow (some (ascii "bob"))), .row (plainRow none)]) 0 = .text (ascii "bob") ∧
      ¬ RowDetermined zeroFloats [nameField] 0 none := by
  have halice : asString zeroFloats (fetchAllMemory (newStmtMemory emptyMemory [nameField])
      [.row (plainRow (some (ascii "alice"))), .row (plainRow none)]) 0 = .text (ascii "alice") := by decide +kernel
  refine ⟨halice, by decide +kernel, ?_⟩
  rintro ⟨result, -, hempty, hall⟩
  have hread := hall emptyMemory [.row (plainRow (some (ascii "alice")))] (plainRow none) rfl (by decide +kernel)
  rw [hempty rfl] at hread
  exact absurd (halice.symm.trans hread) (by decide +kernel)

end FcgiAppserver.Db
