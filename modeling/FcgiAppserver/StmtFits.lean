import FcgiAppserver.StmtBounds

namespace FcgiAppserver.Db

open AllocationLedger

theorem fetchColumn_allocated (heap : Heap) (column : Column) : heap.allocated <+: (fetchColumn heap column).1.allocated := by
  by_cases hblob : column.data.field.type = .blob
  · by_cases hlen : column.data.actualLength = 0
    · rw [fetchColumn_empty heap hblob hlen, Heap.delete_allocated]
    · rw [fetchColumn_value heap hblob hlen, ← Heap.delete_allocated heap column.data.buffer]
      exact List.prefix_append _ _
  · rw [fetchColumn_other heap hblob]

theorem fetchColumns_allocated (fetchesColumn : ℕ → Bool) (i : ℕ) (heap : Heap) (columns : List Column) :
    heap.allocated <+: (fetchColumns fetchesColumn i heap columns).1.allocated := by
  induction columns generalizing i heap with
  | nil => exact List.prefix_refl _
  | cons column columns ih =>
    have hfirst := fetchColumn_allocated heap column
    rw [fetchColumns_cons]
    split_ifs
    · exact hfirst
    · exact hfirst.trans (ih (i + 1) _)

/-- A column after the loop is as it was, if the loop did not come to it, or as one turn leaves it. -/
theorem fetchColumns_at (fetchesColumn : ℕ → Bool) (i : ℕ) (heap : Heap) {columns : List Column} {j : ℕ}
    {column' : Column} (h : (fetchColumns fetchesColumn i heap columns).2.1[j]? = some column') :
    ∃ column, columns[j]? = some column ∧
      ((fetchColumns fetchesColumn i heap columns).2.2 ≠ .row ∧ column' = column ∨
        ∃ heap', column' = (fetchColumn heap' column).2 ∧
          (fetchColumn heap' column).1.allocated <+: (fetchColumns fetchesColumn i heap columns).1.allocated) := by
  induction columns generalizing i heap j with
  | nil => cases h
  | cons column columns ih =>
    rw [fetchColumns_cons] at h ⊢
    split_ifs at h ⊢ with hfails
    · cases j with
      | zero =>
        obtain rfl := Option.some_inj.mp h
        exact ⟨column, rfl, Or.inr ⟨heap, rfl, List.prefix_refl _⟩⟩
      | succ j => exact ⟨column', h, Or.inl ⟨FetchResult.noConfusion, rfl⟩⟩
    · cases j with
      | zero =>
        obtain rfl := Option.some_inj.mp h
        exact ⟨column, rfl, Or.inr ⟨heap, rfl, fetchColumns_allocated _ _ _ _⟩⟩
      | succ j => exact ih (i + 1) _ h

theorem storeLengths_at {lengths : ℕ → ℕ} {columns : List Column} {j : ℕ} {column' : Column}
    (h : (storeLengths lengths columns)[j]? = some column') :
    ∃ column, columns[j]? = some column ∧ column' = { column with data.actualLength := lengths j } := by
  rw [storeLengths, List.getElem?_mapIdx, Option.map_eq_some_iff] at h
  obtain ⟨column, hcolumn, rfl⟩ := h
  exact ⟨column, hcolumn, rfl⟩

theorem newColumn_allocated (sizeofMysqlTime indeterminate : ℕ) (heap : Heap) (field : MysqlField) :
    heap.allocated <+: (newColumn sizeofMysqlTime indeterminate heap field).1.allocated := by
  unfold newColumn
  split
  · exact List.prefix_append _ _
  · exact List.prefix_refl _

theorem newColumns_allocated (sizeofMysqlTime indeterminate : ℕ) (heap : Heap) (fields : List MysqlField) :
    heap.allocated <+: (newColumns sizeofMysqlTime indeterminate heap fields).1.allocated := by
  induction fields generalizing heap with
  | nil => exact List.prefix_refl _
  | cons field fields ih => exact (newColumn_allocated _ _ heap field).trans (ih _)

theorem newColumns_at (sizeofMysqlTime indeterminate : ℕ) (heap : Heap) {fields : List MysqlField} {j : ℕ}
    {column : Column} (h : (newColumns sizeofMysqlTime indeterminate heap fields).2[j]? = some column) :
    ∃ field heap', fields[j]? = some field ∧ column = (newColumn sizeofMysqlTime indeterminate heap' field).2 ∧
      (newColumn sizeofMysqlTime indeterminate heap' field).1.allocated <+:
        (newColumns sizeofMysqlTime indeterminate heap fields).1.allocated := by
  induction fields generalizing heap j with
  | nil => cases h
  | cons field fields ih =>
    cases j with
    | zero =>
      obtain rfl := Option.some_inj.mp h
      exact ⟨field, heap, rfl, rfl, newColumns_allocated _ _ _ fields⟩
    | succ j => exact ih _ h

/-- A bind of a `BLOB` has no buffer, or one that was allocated with its length. -/
def Sized (heap : Heap) (bind : MysqlBind) : Prop :=
  bind.buffer = none ∧ bind.bufferLength = 0 ∨
    ∃ b, bind.buffer = some b ∧ heap.allocated[b]? = some bind.bufferLength ∧ bind.bufferLength ≠ 0

theorem Sized.mono {heap heap' : Heap} (h : heap.allocated <+: heap'.allocated) {bind : MysqlBind}
    (hs : Sized heap bind) : Sized heap' bind := by
  rcases hs with hnone | ⟨b, hb, hsize, hne⟩
  · exact Or.inl hnone
  · exact Or.inr ⟨b, hb, Heap.allocated_mono h hsize, hne⟩

/-- What holds of a column and of the bind that the library has for it. -/
structure ColumnKept (heap : Heap) (type : MysqlType) (column : Column) (bound : MysqlBind) : Prop where
  type_eq : column.data.field.type = type.fieldType
  plain : type.fieldType ≠ .blob → ∃ b, column.data.buffer = some b ∧
    heap.allocated[b]? = some (allocated column.data.field) ∧
    (column.bindOut.buffer = some b ∧ column.bindOut.bufferLength = column.data.field.length) ∧
    bound.buffer = some b ∧ bound.bufferLength = column.data.field.length
  blob : type.fieldType = .blob → Sized heap column.bindOut ∧ Sized heap bound

section

variable {heap heap' : Heap} {type : MysqlType} {column : Column} {bound : MysqlBind}

theorem ColumnKept.mono (h : ColumnKept heap type column bound) (hmore : heap.allocated <+: heap'.allocated) :
    ColumnKept heap' type column bound where
  type_eq := h.type_eq
  plain hplain := by
    obtain ⟨b, hb, hsize, hbinds⟩ := h.plain hplain
    exact ⟨b, hb, Heap.allocated_mono hmore hsize, hbinds⟩
  blob hblob := ⟨(h.blob hblob).1.mono hmore, (h.blob hblob).2.mono hmore⟩

theorem ColumnKept.store (h : ColumnKept heap type column bound) (length : ℕ) :
    ColumnKept heap type { column with data.actualLength := length } bound :=
  ⟨h.type_eq, h.plain, h.blob⟩

theorem ColumnKept.bind (h : ColumnKept heap type column bound) : ColumnKept heap type column column.bindOut where
  type_eq := h.type_eq
  plain hplain := by
    obtain ⟨b, hb, hsize, hbind, -⟩ := h.plain hplain
    exact ⟨b, hb, hsize, hbind, hbind⟩
  blob hblob := ⟨(h.blob hblob).1, (h.blob hblob).1⟩

theorem ColumnKept.fetch (h : ColumnKept heap type column bound) {heap₁ : Heap}
    (hturn : (fetchColumn heap₁ column).1.allocated <+: heap'.allocated) (hmore : heap.allocated <+: heap'.allocated) :
    ColumnKept heap' type (fetchColumn heap₁ column).2 bound := by
  by_cases hblob : column.data.field.type = .blob
  · have htype : type.fieldType = .blob := h.type_eq.symm.trans hblob
    obtain ⟨hbind, hbound⟩ := h.blob htype
    by_cases hlen : column.data.actualLength = 0
    · rw [fetchColumn_empty heap₁ hblob hlen]
      exact ⟨h.type_eq, fun hplain => absurd htype hplain, fun _ => ⟨hbind.mono hmore, hbound.mono hmore⟩⟩
    · rw [fetchColumn_value heap₁ hblob hlen] at hturn ⊢
      have hnew := Heap.allocated_mono hturn (Heap.new_allocated _ _)
      exact ⟨h.type_eq, fun hplain => absurd htype hplain, fun _ => ⟨Or.inr ⟨_, rfl, hnew, hlen⟩, hbound.mono hmore⟩⟩
  · rw [fetchColumn_other heap₁ hblob]
    exact h.mono hmore

end

theorem newColumn_kept (indeterminate : ℕ) (heap : Heap) (type : MysqlType) (length : ℕ) :
    ColumnKept (newColumn sizeofMysqlTime indeterminate heap (newField (type, length))).1 type
      (newColumn sizeofMysqlTime indeterminate heap (newField (type, length))).2
      (newColumn sizeofMysqlTime indeterminate heap (newField (type, length))).2.bindOut := by
  by_cases hblob : type.fieldType = .blob
  · rw [newColumn, if_neg (fun hplain => hplain hblob)]
    exact ⟨rfl, fun hplain => absurd hblob hplain, fun _ => ⟨Or.inl ⟨rfl, rfl⟩, Or.inl ⟨rfl, rfl⟩⟩⟩
  · rw [newColumn, if_pos (show (newField (type, length)).type ≠ .blob from hblob)]
    exact ⟨rfl, fun _ => ⟨_, rfl, Heap.new_allocated _ _, ⟨rfl, rfl⟩, rfl, rfl⟩, fun h => absurd h hblob⟩

namespace BoundStmt

/-- Each column keeps its buffers, and each is bound. -/
structure BoundInv (s : BoundStmt) : Prop where
  owns : s.stmt.heap.Owns (buffers s.stmt.columns)
  kept : ∀ (i : ℕ) (type : MysqlType) (column : Column) (bound : MysqlBind), s.types[i]? = some type →
    s.stmt.columns[i]? = some column → s.bound[i]? = some bound → ColumnKept s.stmt.heap type column bound
  covers : ∀ (i : ℕ) (column : Column), s.stmt.columns[i]? = some column → ∃ bound, s.bound[i]? = some bound

theorem bindOut_getElem? {columns : List Column} {i : ℕ} {column : Column} (h : columns[i]? = some column) :
    (columns.map Column.bindOut)[i]? = some column.bindOut := by
  rw [List.getElem?_map, h]
  rfl

theorem boundInv_new (indeterminate : ℕ → ℕ) (fields : List (MysqlType × ℕ)) :
    BoundInv (newBoundStmt indeterminate fields) := by
  have hbound {i : ℕ} {column : Column}
      (hcolumn : (newBoundStmt indeterminate fields).stmt.columns[i]? = some column) :
      (newBoundStmt indeterminate fields).bound[i]? = some column.bindOut := by
    obtain ⟨first, hfirst, rfl⟩ := storeLengths_at hcolumn
    have hbind := bindOut_getElem? hfirst
    exact hbind
  constructor
  · have howns := (DBStmt.newStmt_spec sizeofMysqlTime 0 (fields.map newField)).1
    rw [← buffers_storeLengths indeterminate] at howns
    exact howns
  · intro i type column bound htype hcolumn hbind
    obtain rfl := Option.some_inj.mp ((hbound hcolumn).symm.trans hbind)
    obtain ⟨first, hfirst, rfl⟩ := storeLengths_at hcolumn
    obtain ⟨field, heap, hfield, rfl, hmore⟩ := newColumns_at sizeofMysqlTime 0 .empty hfirst
    obtain ⟨⟨type', length⟩, hentry, rfl⟩ := Option.map_eq_some_iff.mp ((List.getElem?_map ..).symm.trans hfield)
    obtain ⟨entry, hentry', rfl⟩ := Option.map_eq_some_iff.mp ((List.getElem?_map ..).symm.trans htype)
    obtain rfl := Option.some_inj.mp (hentry.symm.trans hentry')
    exact ((newColumn_kept 0 heap type' length).mono hmore).store (indeterminate i)
  · intro i column hcolumn
    exact ⟨_, hbound hcolumn⟩

theorem boundInv_execute {s : BoundStmt} (hs : BoundInv s) : BoundInv s.execute where
  owns := hs.owns
  kept i type column bound htype hcolumn hbound := by
    have hbind : s.execute.bound[i]? = some column.bindOut := bindOut_getElem? hcolumn
    obtain rfl := Option.some_inj.mp (hbind.symm.trans hbound)
    obtain ⟨bound, hold⟩ := hs.covers i column hcolumn
    exact (hs.kept i type column bound htype hcolumn hold).bind
  covers i column hcolumn := ⟨column.bindOut, bindOut_getElem? hcolumn⟩

theorem boundInv_fetch {s : BoundStmt} (hs : BoundInv s) (e : RowFetch) : BoundInv (s.fetch e).1 := by
  cases e with
  | noData => exact ⟨hs.owns, hs.kept, hs.covers⟩
  | error => exact ⟨hs.owns, hs.kept, hs.covers⟩
  | row values fetchesColumn =>
    have hmore := fetchColumns_allocated fetchesColumn 0 s.stmt.heap (storeLengths (s.storedLengths values) s.stmt.columns)
    constructor
    · exact DBStmt.fetch_owns hs.owns (s.mysqlFetch (.row values fetchesColumn))
    · intro i type column' bound htype hcolumn hbound
      obtain ⟨stored, hstored, hturn⟩ := fetchColumns_at fetchesColumn 0 s.stmt.heap hcolumn
      obtain ⟨column, hcolumn, rfl⟩ := storeLengths_at hstored
      have hkept := (hs.kept i type column bound htype hcolumn hbound).store (s.storedLengths values i)
      rcases hturn with ⟨-, rfl⟩ | ⟨heap, rfl, hturn⟩
      · exact hkept.mono hmore
      · exact hkept.fetch hturn hmore
    · intro i column' hcolumn
      obtain ⟨stored, hstored, -⟩ := fetchColumns_at fetchesColumn 0 s.stmt.heap hcolumn
      obtain ⟨column, hcolumn, -⟩ := storeLengths_at hstored
      exact hs.covers i column hcolumn

theorem boundInv_step {s : BoundStmt} (hs : BoundInv s) (event : StmtEvent) : BoundInv (s.step event) := by
  cases event with
  | execute => exact boundInv_execute hs
  | fetch e => exact boundInv_fetch hs e

theorem boundInv_run {s : BoundStmt} (hs : BoundInv s) (events : List StmtEvent) : BoundInv (s.run events) := by
  induction events generalizing s with
  | nil => exact hs
  | cons event events ih => exact ih (boundInv_step hs event)

end BoundStmt

/-- The column between `mysql_stmt_fetch` and the loop of `fetch`. -/
def FetchedColumn.storedColumn (c : FetchedColumn) : Column :=
  { c.column with data.actualLength := storedActualLength c.type c.column.data.actualLength c.value }

structure FetchedColumn.Fetched (c : FetchedColumn) : Prop where
  kept : ColumnKept c.heap c.type c.column c.bound
  live : ∀ b, c.column.data.buffer = some b → c.heap.Live b
  liveAfter : ∀ b, c.columnAfter.data.buffer = some b → c.heapAfter.Live b
  more : c.heap.allocated <+: c.heapAfter.allocated
  turn : ∃ heap, c.columnAfter = (fetchColumn heap c.storedColumn).2 ∧
    (fetchColumn heap c.storedColumn).1.allocated <+: c.heapAfter.allocated

namespace BoundStmt

theorem buffer_live {heap : Heap} {columns : List Column} (ho : heap.Owns (buffers columns)) {i : ℕ} {column : Column}
    (hcolumn : columns[i]? = some column) : ∀ b, column.data.buffer = some b → heap.Live b := by
  intro b hb
  exact ho.live (List.mem_filterMap.mpr ⟨column, List.mem_of_getElem? hcolumn, hb⟩)

theorem fetched_of_row {s : BoundStmt} (hs : BoundInv s) {values : ℕ → Option ℕ} {fetchesColumn : ℕ → Bool} {i : ℕ}
    {c : FetchedColumn} (h : s.fetchedColumn values fetchesColumn i = some c) : c.Fetched := by
  have hinv := boundInv_fetch hs (.row values fetchesColumn)
  rw [fetchedColumn] at h
  dsimp only at h
  split_ifs at h with hrow
  simp only [Option.bind_eq_bind, Option.pure_def, Option.bind_eq_some_iff, Option.some_inj] at h
  obtain ⟨type, htype, bound, hbound, column, hcolumn, columnAfter, hafter, rfl⟩ := h
  obtain ⟨stored, hstored, hturn⟩ := fetchColumns_at fetchesColumn 0 s.stmt.heap hafter
  obtain ⟨column', hcolumn', rfl⟩ := storeLengths_at hstored
  obtain rfl := Option.some_inj.mp (hcolumn.symm.trans hcolumn')
  have hlength : s.storedLengths values i = storedActualLength type column.data.actualLength (values i) := by
    rw [storedLengths, htype, hcolumn]
    rfl
  rw [hlength] at hturn
  exact {
    kept := hs.kept i type column bound htype hcolumn hbound
    live := buffer_live hs.owns hcolumn
    liveAfter := buffer_live hinv.owns hafter
    more := fetchColumns_allocated _ _ _ _
    turn := hturn.resolve_left (fun hleft => hleft.1 hrow) }

end BoundStmt

theorem fieldType_blob {type : MysqlType} : type.fieldType = .blob ↔ type = .blob := by
  cases type <;> simp [MysqlType.fieldType]

theorem inside_of_size {heap : Heap} {column : Column} {buffer : Option ℕ} {b size : ℕ} (n : ℕ) (hbuffer : buffer = some b)
    (hb : column.data.buffer = some b) (hlive : heap.Live b) (hsize : heap.allocated[b]? = some size) :
    Access.Inside ⟨buffer, n⟩ heap column ↔ n ≤ size := by
  constructor
  · rintro (hzero | ⟨b', size', hb', -, -, hsize', hle⟩)
    · exact (Nat.le_of_eq hzero).trans (Nat.zero_le size)
    · obtain rfl := Option.some_inj.mp (hbuffer.symm.trans hb')
      obtain rfl := Option.some_inj.mp (hsize.symm.trans hsize')
      exact hle
  · intro hle
    exact Or.inr ⟨b, size, hbuffer, hb, hlive, hsize, hle⟩

theorem cut_le (value : Option ℕ) (length : ℕ) : value.elim 0 (fun n => min n length) ≤ length := by
  cases value with
  | none => exact Nat.zero_le length
  | some n => exact Nat.min_le_right n length

theorem cut_eq_zero {value : Option ℕ} {length : ℕ} :
    value.elim 0 (fun n => min n length) = 0 ↔ value.getD 0 = 0 ∨ length = 0 := by
  cases value with
  | none => exact iff_of_true rfl (Or.inl rfl)
  | some n => exact Nat.min_eq_zero_iff

theorem sizes_fit {type : MysqlType} (hplain : type.fieldType ≠ .blob) (value : Option ℕ) (actualLength length : ℕ) :
    value.elim 0 (fun n => type.cSize.getD (min n length)) ≤ (if isTimeField type.fieldType then sizeofMysqlTime else length) ∧
      bytesRead type.fieldType (storedActualLength type actualLength value) ≤
        (if isTimeField type.fieldType then sizeofMysqlTime else length) ↔
    FitsLength type value actualLength length := by
  cases type with
  | blob => exact absurd rfl hplain
  | _ =>
    cases value <;> simp [MysqlType.fieldType, MysqlType.cSize, cValueSize, isTimeField, bytesRead, storedActualLength,
      FitsLength, sizeofMysqlTime]

namespace FetchedColumn

variable {c : FetchedColumn}

theorem inBounds_plain (h : c.Fetched) (hplain : c.type.fieldType ≠ .blob) : c.InBounds ↔ c.Fits := by
  have htype := h.kept.type_eq
  obtain ⟨b, hb, hsize, -, hbound, hlength⟩ := h.kept.plain hplain
  obtain ⟨heap, hafter, -⟩ := h.turn
  rw [fetchColumn_other heap (htype ▸ hplain)] at hafter
  have hbAfter : c.columnAfter.data.buffer = some b := by rw [hafter]; exact hb
  have hstored := inside_of_size c.stored.size hbound hb (h.live b hb) hsize
  have hread := inside_of_size c.read.size hbAfter hbAfter (h.liveAfter b hbAfter) (Heap.allocated_mono h.more hsize)
  have hfetched : c.fetched.Inside c.heapAfter c.columnAfter :=
    Or.inl (if_neg (fun hblob => hplain (fieldType_blob.mpr hblob.1)))
  have hstoredSize : c.stored.size =
      c.value.elim 0 (fun n => c.type.cSize.getD (min n c.column.data.field.length)) := by
    rw [← hlength]
    rfl
  have hbytesRead : c.read.size =
      bytesRead c.type.fieldType (storedActualLength c.type c.column.data.actualLength c.value) := by
    rw [read, hafter, ← htype]
    rfl
  have halloc : allocated c.column.data.field =
      if isTimeField c.type.fieldType then sizeofMysqlTime else c.column.data.field.length := by
    rw [allocated, htype]
  rw [halloc] at hstored hread
  rw [Fits, if_neg (fun hblob => hplain (fieldType_blob.mpr hblob)), ← sizes_fit hplain, ← hstoredSize, ← hbytesRead,
    ← hstored, ← hread]
  constructor
  · intro hin
    exact ⟨hin.stored, hin.read⟩
  · rintro ⟨hin, hin'⟩
    exact ⟨hin, hfetched, hin'⟩

theorem blob_refetched (h : c.Fetched) (hblob : c.type.fieldType = .blob) :
    c.fetched.Inside c.heapAfter c.columnAfter ∧ c.read.Inside c.heapAfter c.columnAfter := by
  obtain ⟨heap, hafter, hturn⟩ := h.turn
  have htype : c.storedColumn.data.field.type = .blob := h.kept.type_eq.trans hblob
  generalize c.storedColumn = stored at hafter hturn htype
  by_cases hlen : stored.data.actualLength = 0
  · rw [fetchColumn_empty heap htype hlen] at hafter
    have hzero : c.columnAfter.data.actualLength = 0 := by
      rw [hafter]
      exact hlen
    have hread : c.read.size = 0 := by
      rw [read, hzero, hafter, htype]
      rfl
    exact ⟨Or.inl (if_neg (fun hne => hne.2 hzero)), Or.inl hread⟩
  · rw [fetchColumn_value heap htype hlen] at hafter hturn
    have hnew := Heap.allocated_mono hturn (Heap.new_allocated _ _)
    generalize ((heap.delete stored.data.buffer).new stored.data.actualLength).1 = b at hafter hnew
    have hb : c.columnAfter.data.buffer = some b := by rw [hafter]
    have hbind : c.columnAfter.bindOut.buffer = some b := by rw [hafter]
    have hbindLength : c.columnAfter.bindOut.bufferLength = stored.data.actualLength := by rw [hafter]
    have hread : c.read.size = stored.data.actualLength := by
      rw [read, hafter, htype]
      rfl
    constructor
    · apply (inside_of_size c.fetched.size hbind hb (h.liveAfter b hb) hnew).mpr
      rw [fetched, hbindLength]
      split_ifs
      · exact cut_le c.value _
      · exact Nat.zero_le _
    · apply (inside_of_size c.read.size hb hb (h.liveAfter b hb) hnew).mpr
      exact Nat.le_of_eq hread

theorem inBounds_blob (h : c.Fetched) (hblob : c.type.fieldType = .blob) : c.InBounds ↔ c.Fits := by
  have htype : c.type = .blob := fieldType_blob.mp hblob
  obtain ⟨hfetched, hread⟩ := blob_refetched h hblob
  have hsize : c.stored.size = c.value.elim 0 (fun length => min length c.bound.bufferLength) := by
    rw [stored, htype]
    rfl
  rw [Fits, if_pos htype]
  constructor
  · intro hin
    rcases hin.stored with hzero | ⟨b, size, hb, hbuffer, -⟩
    · rw [hsize, cut_eq_zero] at hzero
      rcases (h.kept.blob hblob).2 with ⟨hnone, -⟩ | ⟨-, -, -, hne⟩
      · exact Or.inr (Or.inl hnone)
      · exact Or.inl (hzero.resolve_right hne)
    · exact Or.inr (Or.inr (hb.trans hbuffer.symm))
  · intro hfits
    refine ⟨?_, hfetched, hread⟩
    rcases (h.kept.blob hblob).2 with ⟨-, hzero⟩ | ⟨b, hb, hallocated, hne⟩
    · left
      rw [hsize, cut_eq_zero]
      exact Or.inr hzero
    · rcases hfits with hempty | hnone | hsame
      · left
        rw [hsize, cut_eq_zero]
        exact Or.inl hempty
      · rw [hnone] at hb
        cases hb
      · have hown : c.column.data.buffer = some b := hsame.symm.trans hb
        apply (inside_of_size c.stored.size hb hown (h.live b hown) hallocated).mpr
        rw [hsize]
        exact cut_le c.value _

theorem inBounds_iff (h : c.Fetched) : c.InBounds ↔ c.Fits := by
  by_cases hblob : c.type.fieldType = .blob
  · exact inBounds_blob h hblob
  · exact inBounds_plain h hblob

end FetchedColumn

open BoundStmt

/-- A run stays in its buffers exactly when every value of every row it gets fits. -/
theorem in_bounds_iff (indeterminate : ℕ → ℕ) (fields : List (MysqlType × ℕ)) (events : List StmtEvent) :
    AtRows (newBoundStmt indeterminate fields) FetchedColumn.InBounds events ↔
      AtRows (newBoundStmt indeterminate fields) FetchedColumn.Fits events := by
  have hiff {before : List StmtEvent} {values : ℕ → Option ℕ} {fetchesColumn : ℕ → Bool} {i : ℕ} {c : FetchedColumn}
      (hc : ((newBoundStmt indeterminate fields).run before).fetchedColumn values fetchesColumn i = some c) :
      c.InBounds ↔ c.Fits :=
    FetchedColumn.inBounds_iff (fetched_of_row (boundInv_run (boundInv_new indeterminate fields) before) hc)
  constructor
  · intro h before values fetchesColumn after i c hevents hc
    exact (hiff hc).mp (h before values fetchesColumn after i c hevents hc)
  · intro h before values fetchesColumn after i c hevents hc
    exact (hiff hc).mpr (h before values fetchesColumn after i c hevents hc)

theorem narrow_int_overflows : ¬ AtRows (newBoundStmt (fun _ => 0) [(.long, 1)]) FetchedColumn.InBounds
    [.execute, .fetch (.row (fun _ => some 1) (fun _ => true))] := by
  intro h
  have hin := h [.execute] (fun _ => some 1) (fun _ => true) [] 0 _ rfl rfl
  rcases hin.stored with hzero | ⟨b, size, hb, -, -, hsize, hle⟩
  · exact absurd hzero (by decide)
  · cases hb
    cases hsize
    exact absurd hle (by decide)

end FcgiAppserver.Db
