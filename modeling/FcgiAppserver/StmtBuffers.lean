import FcgiAppserver.DbStmt

namespace FcgiAppserver.Db

open AllocationLedger TransitionRuns

def buffers (columns : List Column) : List ℕ := columns.filterMap (fun column => column.data.buffer)

def Agree (columns : List Column) : Prop := ∀ column ∈ columns, column.bindOut.buffer = column.data.buffer

def BuffersAgree (s : DBStmt) : Prop :=
  ∀ column ∈ s.columns, column.bindOut.buffer = column.data.buffer ∧
    ∀ b, column.data.buffer = some b → s.heap.Live b

/-- No `BLOB` column the loop gets to goes from a value to an empty one. -/
def NoValueEmptied (fetchesColumn : ℕ → Bool) (i : ℕ) : List Column → Prop
  | [] => True
  | column :: columns =>
    (column.data.field.type = .blob → column.data.actualLength = 0 → column.data.buffer = none) ∧
      (failsColumn fetchesColumn i column = false → NoValueEmptied fetchesColumn (i + 1) columns)

def KeepsValues (s : DBStmt) : MysqlFetch → Prop
  | .noData => True
  | .error => True
  | .row lengths fetchesColumn => NoValueEmptied fetchesColumn 0 (storeLengths lengths s.columns)

theorem buffers_cons (column : Column) (columns : List Column) :
    buffers (column :: columns) = column.data.buffer.toList ++ buffers columns := by
  cases hb : column.data.buffer <;> simp [buffers, hb]

theorem newColumn_spec (sizeofMysqlTime indeterminate : ℕ) {heap : Heap} {held : List ℕ} (ho : heap.Owns held)
    (field : MysqlField) :
    (newColumn sizeofMysqlTime indeterminate heap field).1.Owns
        (held ++ (newColumn sizeofMysqlTime indeterminate heap field).2.data.buffer.toList) ∧
      (newColumn sizeofMysqlTime indeterminate heap field).2.bindOut.buffer =
        (newColumn sizeofMysqlTime indeterminate heap field).2.data.buffer := by
  unfold newColumn
  split
  · exact ⟨ho.new _, rfl⟩
  · exact ⟨by simpa using ho, rfl⟩

theorem newColumns_spec (sizeofMysqlTime indeterminate : ℕ) {heap : Heap} {held : List ℕ} (ho : heap.Owns held)
    (fields : List MysqlField) :
    (newColumns sizeofMysqlTime indeterminate heap fields).1.Owns
        (held ++ buffers (newColumns sizeofMysqlTime indeterminate heap fields).2) ∧
      Agree (newColumns sizeofMysqlTime indeterminate heap fields).2 := by
  induction fields generalizing heap held with
  | nil => exact ⟨by simpa [newColumns, buffers] using ho, by simp [newColumns, Agree]⟩
  | cons field fields ih =>
    obtain ⟨hfirst, hagree⟩ := newColumn_spec sizeofMysqlTime indeterminate ho field
    obtain ⟨hrest, hagrees⟩ := ih hfirst
    refine ⟨?_, ?_⟩
    · rw [newColumns, buffers_cons, ← List.append_assoc]
      exact hrest
    · rw [newColumns]
      exact List.forall_mem_cons.mpr ⟨hagree, hagrees⟩

theorem fetchColumn_other (heap : Heap) {column : Column} (h : column.data.field.type ≠ .blob) :
    fetchColumn heap column = (heap, column) := if_neg h

theorem fetchColumn_empty (heap : Heap) {column : Column} (h : column.data.field.type = .blob)
    (hlen : column.data.actualLength = 0) :
    fetchColumn heap column = (heap.delete column.data.buffer, { column with data.buffer := none }) := by
  rw [fetchColumn, if_pos h]
  exact if_neg (by simpa using hlen)

theorem fetchColumn_value (heap : Heap) {column : Column} (h : column.data.field.type = .blob)
    (hlen : column.data.actualLength ≠ 0) :
    fetchColumn heap column =
      (((heap.delete column.data.buffer).new column.data.actualLength).2,
        { bindOut := { column.bindOut with
            buffer := some ((heap.delete column.data.buffer).new column.data.actualLength).1
            bufferLength := column.data.actualLength }
          data := { column.data with
            buffer := some ((heap.delete column.data.buffer).new column.data.actualLength).1 } }) := by
  rw [fetchColumn, if_pos h]
  exact if_pos hlen

theorem fetchColumn_owns {heap : Heap} {held : List ℕ} {column : Column}
    (ho : heap.Owns (held ++ column.data.buffer.toList)) :
    (fetchColumn heap column).1.Owns (held ++ (fetchColumn heap column).2.data.buffer.toList) := by
  by_cases hblob : column.data.field.type = .blob
  · by_cases hlen : column.data.actualLength = 0
    · rw [fetchColumn_empty heap hblob hlen]
      simpa using ho.delete
    · rw [fetchColumn_value heap hblob hlen]
      exact ho.delete.new _
  · rw [fetchColumn_other heap hblob]
    exact ho

theorem fetchColumn_agrees_iff (heap : Heap) {column : Column} (h : column.bindOut.buffer = column.data.buffer) :
    (fetchColumn heap column).2.bindOut.buffer = (fetchColumn heap column).2.data.buffer ↔
      (column.data.field.type = .blob → column.data.actualLength = 0 → column.data.buffer = none) := by
  by_cases hblob : column.data.field.type = .blob
  · by_cases hlen : column.data.actualLength = 0
    · rw [fetchColumn_empty heap hblob hlen]
      simp [hblob, hlen, h]
    · rw [fetchColumn_value heap hblob hlen]
      simp [hlen]
  · rw [fetchColumn_other heap hblob]
    simp [hblob, h]

theorem failsColumn_fetchColumn (fetchesColumn : ℕ → Bool) (i : ℕ) (heap : Heap) (column : Column) :
    failsColumn fetchesColumn i (fetchColumn heap column).2 = failsColumn fetchesColumn i column := by
  by_cases hblob : column.data.field.type = .blob
  · by_cases hlen : column.data.actualLength = 0
    · rw [fetchColumn_empty heap hblob hlen]
      rfl
    · rw [fetchColumn_value heap hblob hlen]
      rfl
  · rw [fetchColumn_other heap hblob]

theorem fetchColumns_cons (fetchesColumn : ℕ → Bool) (i : ℕ) (heap : Heap) (column : Column)
    (columns : List Column) :
    fetchColumns fetchesColumn i heap (column :: columns) =
      if failsColumn fetchesColumn i column then
        ((fetchColumn heap column).1, (fetchColumn heap column).2 :: columns, .dbException "fetch_column")
      else
        ((fetchColumns fetchesColumn (i + 1) (fetchColumn heap column).1 columns).1,
          (fetchColumn heap column).2 ::
            (fetchColumns fetchesColumn (i + 1) (fetchColumn heap column).1 columns).2.1,
          (fetchColumns fetchesColumn (i + 1) (fetchColumn heap column).1 columns).2.2) := by
  rw [fetchColumns]
  simp only [failsColumn_fetchColumn]

theorem fetchColumns_owns (fetchesColumn : ℕ → Bool) (i : ℕ) {heap : Heap} {held : List ℕ}
    {columns : List Column} (ho : heap.Owns (held ++ buffers columns)) :
    (fetchColumns fetchesColumn i heap columns).1.Owns
      (held ++ buffers (fetchColumns fetchesColumn i heap columns).2.1) := by
  induction columns generalizing i heap held with
  | nil => exact ho
  | cons column columns ih =>
    have hfirst : (fetchColumn heap column).1.Owns
        (held ++ (fetchColumn heap column).2.data.buffer.toList ++ buffers columns) := by
      have hswap : (held ++ buffers (column :: columns)).Perm
          (held ++ buffers columns ++ column.data.buffer.toList) := by
        rw [buffers_cons, List.append_assoc]
        exact List.perm_append_comm.append_left held
      refine Heap.Owns.perm ?_ (fetchColumn_owns (ho.perm hswap))
      rw [List.append_assoc, List.append_assoc]
      exact List.perm_append_comm.append_left held
    rw [fetchColumns_cons]
    split
    · rw [buffers_cons, ← List.append_assoc]
      exact hfirst
    · rw [buffers_cons, ← List.append_assoc]
      exact ih (i + 1) hfirst

theorem agree_cons {column : Column} {columns : List Column} :
    Agree (column :: columns) ↔ column.bindOut.buffer = column.data.buffer ∧ Agree columns :=
  List.forall_mem_cons

theorem fetchColumns_agree_iff (fetchesColumn : ℕ → Bool) (i : ℕ) (heap : Heap) {columns : List Column}
    (h : Agree columns) :
    Agree (fetchColumns fetchesColumn i heap columns).2.1 ↔ NoValueEmptied fetchesColumn i columns := by
  induction columns generalizing i heap with
  | nil => exact iff_of_true (by simp [fetchColumns, Agree]) trivial
  | cons column columns ih =>
    obtain ⟨hcolumn, hcolumns⟩ := agree_cons.mp h
    rw [fetchColumns_cons, NoValueEmptied, ← fetchColumn_agrees_iff heap hcolumn]
    cases hfails : failsColumn fetchesColumn i column with
    | true => simp [agree_cons, hcolumns]
    | false => simp [agree_cons, ih (i + 1) (fetchColumn heap column).1 hcolumns]

theorem buffers_storeLengths (lengths : ℕ → ℕ) (columns : List Column) :
    buffers (storeLengths lengths columns) = buffers columns := by
  induction columns generalizing lengths with
  | nil => rfl
  | cons column columns ih =>
    have hrest := ih (fun i => lengths (i + 1))
    rw [storeLengths] at hrest
    rw [storeLengths, List.mapIdx_cons, buffers_cons, buffers_cons, hrest]

theorem agree_storeLengths {lengths : ℕ → ℕ} {columns : List Column} (h : Agree columns) :
    Agree (storeLengths lengths columns) := by
  intro column hcolumn
  obtain ⟨i, hi, rfl⟩ := List.mem_mapIdx.mp hcolumn
  exact h columns[i] (List.getElem_mem hi)

namespace DBStmt

theorem newStmt_spec (sizeofMysqlTime indeterminate : ℕ) (fields : List MysqlField) :
    (newStmt sizeofMysqlTime indeterminate fields).heap.Owns
        (buffers (newStmt sizeofMysqlTime indeterminate fields).columns) ∧
      Agree (newStmt sizeofMysqlTime indeterminate fields).columns :=
  newColumns_spec sizeofMysqlTime indeterminate Heap.owns_empty fields

theorem fetch_owns {s : DBStmt} (ho : s.heap.Owns (buffers s.columns)) (e : MysqlFetch) :
    (s.fetch e).1.heap.Owns (buffers (s.fetch e).1.columns) := by
  cases e with
  | noData => exact ho
  | error => exact ho
  | row lengths fetchesColumn =>
    rw [← buffers_storeLengths lengths] at ho
    have hheld : s.heap.Owns ([] ++ buffers (storeLengths lengths s.columns)) := ho
    exact fetchColumns_owns fetchesColumn 0 hheld

theorem fetch_agree_iff {s : DBStmt} (h : Agree s.columns) (e : MysqlFetch) :
    Agree (s.fetch e).1.columns ↔ KeepsValues s e := by
  cases e with
  | noData => exact iff_of_true h trivial
  | error => exact iff_of_true h trivial
  | row lengths fetchesColumn => exact fetchColumns_agree_iff fetchesColumn 0 s.heap (agree_storeLengths h)

theorem buffersAgree_iff {s : DBStmt} (ho : s.heap.Owns (buffers s.columns)) :
    BuffersAgree s ↔ Agree s.columns := by
  constructor
  · intro h column hcolumn
    exact (h column hcolumn).1
  · intro h column hcolumn
    refine ⟨h column hcolumn, ?_⟩
    intro b hb
    exact ho.live (List.mem_filterMap.mpr ⟨column, hcolumn, hb⟩)

theorem destroy_freedOnce {s : DBStmt} (ho : s.heap.Owns (buffers s.columns)) (h : Agree s.columns) :
    s.destroy.FreedOnce := by
  have hsame : (s.columns.map (fun column => column.bindOut.buffer)).filterMap id = buffers s.columns := by
    rw [List.filterMap_map, buffers]
    exact List.filterMap_congr h
  apply Heap.Owns.freedOnce
  rw [hsame]
  exact ho

theorem fetchAll_owns {s : DBStmt} (ho : s.heap.Owns (buffers s.columns)) (fetches : List MysqlFetch) :
    (s.fetchAll fetches).heap.Owns (buffers (s.fetchAll fetches).columns) := by
  induction fetches generalizing s with
  | nil => exact ho
  | cons e fetches ih => exact ih (fetch_owns ho e)

theorem agree_run_iff {s : DBStmt} (ho : s.heap.Owns (buffers s.columns)) (h : Agree s.columns)
    (fetches : List MysqlFetch) :
    Along step KeepsValues s fetches ↔ ∀ before, before <+: fetches → Agree (s.fetchAll before).columns := by
  have hstep : ∀ s : DBStmt, ∀ e, s.heap.Owns (buffers s.columns) → Agree s.columns →
      (KeepsValues s e ↔ ∀ s', s.step e = .ok s' → Agree s'.columns) := by
    intro s e _ hs
    rw [← fetch_agree_iff hs]
    simp [step]
  have howns : ∀ (s : DBStmt) e s', s.heap.Owns (buffers s.columns) → s.step e = .ok s' →
      s'.heap.Owns (buffers s'.columns) := by
    intro s e s' hs hs'
    rw [step, Except.ok.injEq] at hs'
    exact hs' ▸ fetch_owns hs e
  rw [along_iff_prefixes (I := fun s => Agree s.columns) howns hstep ho h]
  simp [exec_step]

theorem buffers_released_iff (sizeofMysqlTime indeterminate : ℕ) (fields : List MysqlField)
    (fetches : List MysqlFetch) :
    ((∀ before, before <+: fetches →
        BuffersAgree ((newStmt sizeofMysqlTime indeterminate fields).fetchAll before)) ∧
      ((newStmt sizeofMysqlTime indeterminate fields).fetchAll fetches).destroy.FreedOnce) ↔
    Along step KeepsValues (newStmt sizeofMysqlTime indeterminate fields) fetches := by
  obtain ⟨howns, hagree⟩ := newStmt_spec sizeofMysqlTime indeterminate fields
  rw [agree_run_iff howns hagree]
  constructor
  · rintro ⟨hagrees, -⟩ before hbefore
    exact (buffersAgree_iff (fetchAll_owns howns before)).mp (hagrees before hbefore)
  · intro h
    constructor
    · intro before hbefore
      exact (buffersAgree_iff (fetchAll_owns howns before)).mpr (h before hbefore)
    · exact destroy_freedOnce (fetchAll_owns howns fetches) (h fetches (List.prefix_refl fetches))

theorem emptied_value_freed_twice :
    ((newStmt 40 0 [⟨.blob, 65535⟩]).fetchAll [.row (fun _ => 3) (fun _ => true),
        .row (fun _ => 0) (fun _ => true)]).destroy.freed = [0, 0] ∧
      ¬ BuffersAgree ((newStmt 40 0 [⟨.blob, 65535⟩]).fetchAll [.row (fun _ => 3) (fun _ => true),
        .row (fun _ => 0) (fun _ => true)]) := by
  refine ⟨by decide, ?_⟩
  intro h
  exact absurd (h _ List.mem_cons_self).1 (by decide)

end DBStmt

end FcgiAppserver.Db
