import FcgiAppserver.StmtBuffers

namespace FcgiAppserver.Db

open AllocationLedger

def isBlob (fields : List MysqlField) (c : ℕ) : Bool := fields[c]?.any (fun field => field.type = .blob)

/-- No `mysql_stmt_fetch_column` fails before the column. -/
def getsTo (fields : List MysqlField) (lengths : ℕ → ℕ) (fetchesColumn : ℕ → Bool) (c : ℕ) : Bool :=
  (List.range c).all fun i => !(isBlob fields i && lengths i ≠ 0 && !fetchesColumn i)

def columnLengths (fields : List MysqlField) (c : ℕ) : List MysqlFetch → List ℕ
  | [] => []
  | .row lengths fetchesColumn :: fetches =>
    (if getsTo fields lengths fetchesColumn c then [lengths c] else []) ++ columnLengths fields c fetches
  | _ :: fetches => columnLengths fields c fetches

/-- There was a value, and the last row has none. -/
def emptied (lengths : List ℕ) : Bool := lengths.getLast? = some 0 && lengths.any (· ≠ 0)

/-- Whether `~DBStmt` deletes a buffer that a `fetch` has deleted. -/
def deletesTwice (fields : List MysqlField) (fetches : List MysqlFetch) : Bool :=
  (List.range fields.length).any fun c => isBlob fields c && emptied (columnLengths fields c fetches)

theorem emptied_short {lengths : List ℕ} (h : lengths.length ≤ 1) : emptied lengths = false := by
  match lengths, h with
  | [], _ => rfl
  | [n], _ => cases n <;> rfl

theorem length_columnLengths_le (fields : List MysqlField) (c : ℕ) (fetches : List MysqlFetch) :
    (columnLengths fields c fetches).length ≤ fetches.length := by
  induction fetches with
  | nil => exact Nat.le_refl _
  | cons e fetches ih =>
    cases e with
    | noData => exact Nat.le_succ_of_le ih
    | error => exact Nat.le_succ_of_le ih
    | row lengths fetchesColumn =>
      rw [columnLengths, List.length_append, List.length_cons]
      split
      · rw [List.length_singleton]
        omega
      · rw [List.length_nil]
        omega

theorem deletesTwice_short (fields : List MysqlField) {fetches : List MysqlFetch} (h : fetches.length ≤ 1) :
    deletesTwice fields fetches = false := by
  rw [deletesTwice, List.any_eq_false]
  intro c _
  rw [emptied_short ((length_columnLengths_le fields c fetches).trans h), Bool.and_false]
  exact Bool.false_ne_true

theorem columnLengths_append (fields : List MysqlField) (c : ℕ) (fetches later : List MysqlFetch) :
    columnLengths fields c (fetches ++ later) = columnLengths fields c fetches ++ columnLengths fields c later := by
  induction fetches with
  | nil => rfl
  | cons e fetches ih =>
    cases e with
    | noData => exact ih
    | error => exact ih
    | row lengths fetchesColumn =>
      rw [List.cons_append, columnLengths, columnLengths, ih, List.append_assoc]

/-- What the two pointers of a column tell of the lengths it had. -/
structure Tracks (heap : Heap) (column : Column) (lengths : List ℕ) : Prop where
  data : column.data.field.type = .blob → (column.data.buffer = none ↔ lengths = [] ∨ lengths.getLast? = some 0)
  bound : column.data.field.type = .blob → (column.bindOut.buffer = none ↔ ∀ n ∈ lengths, n = 0)
  other : column.data.field.type ≠ .blob → column.bindOut.buffer = column.data.buffer
  same : column.data.buffer ≠ none → column.bindOut.buffer = column.data.buffer
  stale : column.data.field.type = .blob → column.data.buffer = none → ∀ b, column.bindOut.buffer = some b → b ∈ heap.freed

theorem Tracks.mono {heap heap' : Heap} {column : Column} {lengths : List ℕ} (h : Tracks heap column lengths)
    (hmore : heap.freed ⊆ heap'.freed) : Tracks heap' column lengths :=
  { h with stale := fun hblob hnone b hb => hmore (h.stale hblob hnone b hb) }

theorem Tracks.agrees_iff {heap : Heap} {column : Column} {lengths : List ℕ} (h : Tracks heap column lengths) :
    column.bindOut.buffer = column.data.buffer ↔ ¬ (column.data.field.type = .blob ∧ emptied lengths = true) := by
  by_cases hblob : column.data.field.type = .blob
  · have hdata := h.data hblob
    have hbound := h.bound hblob
    have hemptied : emptied lengths = true ↔ lengths.getLast? = some 0 ∧ ¬ ∀ n ∈ lengths, n = 0 := by
      simp [emptied]
    rw [hemptied, and_iff_right hblob]
    constructor
    · rintro hagree ⟨hlast, hsome⟩
      apply hsome
      rw [← hbound, hagree]
      exact hdata.mpr (Or.inr hlast)
    · intro hnot
      by_cases hnone : column.data.buffer = none
      · rw [hnone]
        apply hbound.mpr
        rcases hdata.mp hnone with hnil | hlast
        · rw [hnil]
          exact List.forall_mem_nil _
        · by_contra hsome
          exact hnot ⟨hlast, hsome⟩
      · exact h.same hnone
  · exact iff_of_true (h.other hblob) (fun hand => hblob hand.1)

theorem delete_freed (heap : Heap) (b : Option ℕ) : heap.freed ⊆ (heap.delete b).freed := by
  cases b with
  | none => exact List.Subset.refl _
  | some b => exact List.subset_append_left _ _

theorem fetchColumn_freed (heap : Heap) (column : Column) : heap.freed ⊆ (fetchColumn heap column).1.freed := by
  by_cases hblob : column.data.field.type = .blob
  · by_cases hlen : column.data.actualLength = 0
    · rw [fetchColumn_empty heap hblob hlen]
      exact delete_freed heap _
    · rw [fetchColumn_value heap hblob hlen]
      exact delete_freed heap _
  · rw [fetchColumn_other heap hblob]
    exact List.Subset.refl _

theorem fetchColumns_freed (fetchesColumn : ℕ → Bool) (i : ℕ) (heap : Heap) (columns : List Column) :
    heap.freed ⊆ (fetchColumns fetchesColumn i heap columns).1.freed := by
  induction columns generalizing i heap with
  | nil => exact List.Subset.refl _
  | cons column columns ih =>
    have hfirst := fetchColumn_freed heap column
    rw [fetchColumns_cons]
    split
    · exact hfirst
    · exact List.Subset.trans hfirst (ih (i + 1) _)

theorem Tracks.store {heap : Heap} {column : Column} {lengths : List ℕ} (h : Tracks heap column lengths) (n : ℕ) :
    Tracks heap { column with data.actualLength := n } lengths :=
  ⟨h.data, h.bound, h.other, h.same, h.stale⟩

theorem Tracks.fetch {heap : Heap} {column : Column} {lengths : List ℕ} (h : Tracks heap column lengths) :
    Tracks (fetchColumn heap column).1 (fetchColumn heap column).2 (lengths ++ [column.data.actualLength]) := by
  by_cases hblob : column.data.field.type = .blob
  · by_cases hlen : column.data.actualLength = 0
    · rw [fetchColumn_empty heap hblob hlen, hlen]
      refine ⟨fun _ => iff_of_true rfl (Or.inr List.getLast?_concat), ?_, fun hother => absurd hblob hother,
        fun hnone => absurd rfl hnone, ?_⟩
      · intro _
        rw [List.forall_mem_append, List.forall_mem_singleton, and_iff_left rfl]
        exact h.bound hblob
      · intro _ _ b hb
        change column.bindOut.buffer = some b at hb
        by_cases hnone : column.data.buffer = none
        · exact delete_freed heap _ (h.stale hblob hnone b hb)
        · rw [← h.same hnone, hb]
          exact List.mem_append_right _ List.mem_cons_self
    · rw [fetchColumn_value heap hblob hlen]
      refine ⟨fun _ => iff_of_false (Option.some_ne_none _) ?_, fun _ => iff_of_false (Option.some_ne_none _) ?_,
        fun hother => absurd hblob hother, fun _ => rfl, fun _ hnone => absurd hnone (Option.some_ne_none _)⟩
      · rw [List.getLast?_concat]
        rintro (hnil | hzero)
        · exact List.append_ne_nil_of_right_ne_nil _ (List.cons_ne_nil _ _) hnil
        · exact hlen (Option.some.inj hzero)
      · intro hall
        exact hlen (hall _ (List.mem_append_right _ List.mem_cons_self))
  · rw [fetchColumn_other heap hblob]
    exact ⟨fun h' => absurd h' hblob, fun h' => absurd h' hblob, h.other, h.same, fun h' => absurd h' hblob⟩

theorem fetchColumn_field (heap : Heap) (column : Column) : (fetchColumn heap column).2.data.field = column.data.field := by
  by_cases hblob : column.data.field.type = .blob
  · by_cases hlen : column.data.actualLength = 0
    · rw [fetchColumn_empty heap hblob hlen]
    · rw [fetchColumn_value heap hblob hlen]
  · rw [fetchColumn_other heap hblob]

theorem fetchColumns_tracks (fetchesColumn : ℕ → Bool) (i : ℕ) (heap : Heap) {columns : List Column} {j : ℕ}
    {column : Column} {lengths : List ℕ} (hcolumn : columns[j]? = some column) (h : Tracks heap column lengths) :
    ∃ column', (fetchColumns fetchesColumn i heap columns).2.1[j]? = some column' ∧
      column'.data.field = column.data.field ∧
      Tracks (fetchColumns fetchesColumn i heap columns).1 column' (lengths ++
        if ((columns.take j).zipIdx i).all (fun e => !failsColumn fetchesColumn e.2 e.1) then [column.data.actualLength]
        else []) := by
  induction columns generalizing i heap j with
  | nil => cases hcolumn
  | cons first columns ih =>
    rw [fetchColumns_cons]
    cases j with
    | zero =>
      cases hcolumn
      have hfetched := h.fetch
      split
      · exact ⟨_, rfl, fetchColumn_field _ _, hfetched⟩
      · exact ⟨_, rfl, fetchColumn_field _ _, hfetched.mono (fetchColumns_freed _ _ _ _)⟩
    | succ j =>
      have hlater := h.mono (fetchColumn_freed heap first)
      rw [List.take_succ_cons, List.zipIdx_cons, List.all_cons]
      cases hfails : failsColumn fetchesColumn i first with
      | true => exact ⟨column, hcolumn, rfl, by simpa using hlater⟩
      | false => exact ih (i + 1) (fetchColumn heap first).1 hcolumn hlater

structure TracksAll (fields : List MysqlField) (fetches : List MysqlFetch) (s : DBStmt) : Prop where
  shape : s.columns.map (fun column => column.data.field) = fields
  columns : ∀ j column, s.columns[j]? = some column → Tracks s.heap column (columnLengths fields j fetches)

theorem newColumn_tracks (sizeofMysqlTime indeterminate : ℕ) (heap heap' : Heap) (field : MysqlField) :
    Tracks heap' (newColumn sizeofMysqlTime indeterminate heap field).2 [] ∧
      (newColumn sizeofMysqlTime indeterminate heap field).2.data.field = field := by
  unfold newColumn
  split
  · rename_i hplain
    exact ⟨⟨fun h => absurd h hplain, fun h => absurd h hplain, fun _ => rfl, fun _ => rfl, fun h => absurd h hplain⟩, rfl⟩
  · refine ⟨⟨fun _ => iff_of_true rfl (Or.inl rfl), fun _ => iff_of_true rfl (List.forall_mem_nil _), fun _ => rfl,
      fun _ => rfl, ?_⟩, rfl⟩
    intro _ _ b hb
    cases hb

theorem newColumns_tracks (sizeofMysqlTime indeterminate : ℕ) (heap heap' : Heap) (fields : List MysqlField) :
    (newColumns sizeofMysqlTime indeterminate heap fields).2.map (fun column => column.data.field) = fields ∧
      ∀ column ∈ (newColumns sizeofMysqlTime indeterminate heap fields).2, Tracks heap' column [] := by
  induction fields generalizing heap with
  | nil => exact ⟨rfl, List.forall_mem_nil _⟩
  | cons field fields ih =>
    obtain ⟨htracks, hfield⟩ := newColumn_tracks sizeofMysqlTime indeterminate heap heap' field
    obtain ⟨hfields, hall⟩ := ih (newColumn sizeofMysqlTime indeterminate heap field).1
    rw [newColumns]
    refine ⟨?_, List.forall_mem_cons.mpr ⟨htracks, hall⟩⟩
    rw [List.map_cons, hfields, hfield]

theorem storeLengths_getElem? (lengths : ℕ → ℕ) (columns : List Column) (i : ℕ) :
    (storeLengths lengths columns)[i]? =
      columns[i]?.map (fun column => { column with data.actualLength := lengths i }) := List.getElem?_mapIdx

theorem getsTo_eq (lengths : ℕ → ℕ) (fetchesColumn : ℕ → Bool) (columns : List Column) (j : ℕ) :
    (((storeLengths lengths columns).take j).zipIdx 0).all (fun e => !failsColumn fetchesColumn e.2 e.1) =
      getsTo (columns.map fun column => column.data.field) lengths fetchesColumn j := by
  have hat : ∀ i column, columns[i]? = some column →
      failsColumn fetchesColumn i { column with data.actualLength := lengths i } =
        (isBlob (columns.map fun column => column.data.field) i && lengths i ≠ 0 && !fetchesColumn i) := by
    intro i column hcolumn
    rw [isBlob, List.getElem?_map, hcolumn]
    rfl
  rw [Bool.eq_iff_iff, getsTo, List.all_eq_true, List.all_eq_true]
  constructor
  · intro hall i hi
    cases hcolumn : columns[i]? with
    | none => simp [isBlob, hcolumn]
    | some column =>
      rw [← hat i column hcolumn]
      apply hall ({ column with data.actualLength := lengths i }, i)
      rw [List.mk_mem_zipIdx_iff_getElem?, List.getElem?_take_of_lt (List.mem_range.mp hi), storeLengths_getElem?, hcolumn]
      rfl
  · rintro hall ⟨column', i⟩ hmem
    rw [List.mk_mem_zipIdx_iff_getElem?, List.getElem?_take] at hmem
    split_ifs at hmem with hi
    rw [storeLengths_getElem?] at hmem
    obtain ⟨column, hcolumn, rfl⟩ := Option.map_eq_some_iff.mp hmem
    change (!failsColumn fetchesColumn i _) = true
    rw [hat i column hcolumn]
    exact hall i (List.mem_range.mpr hi)

theorem fetchColumns_fields (fetchesColumn : ℕ → Bool) (i : ℕ) (heap : Heap) (columns : List Column) :
    (fetchColumns fetchesColumn i heap columns).2.1.map (fun column => column.data.field) =
      columns.map fun column => column.data.field := by
  induction columns generalizing i heap with
  | nil => rfl
  | cons column columns ih =>
    rw [fetchColumns_cons]
    split
    · rw [List.map_cons, List.map_cons, fetchColumn_field]
    · rw [List.map_cons, List.map_cons, fetchColumn_field, ih]

theorem fetch_tracks {fields : List MysqlField} {fetches : List MysqlFetch} {s : DBStmt} (h : TracksAll fields fetches s)
    (e : MysqlFetch) : TracksAll fields (fetches ++ [e]) (s.fetch e).1 := by
  cases e with
  | noData =>
    refine ⟨h.shape, ?_⟩
    intro j column hcolumn
    rw [columnLengths_append]
    exact (List.append_nil _).symm ▸ h.columns j column hcolumn
  | error =>
    refine ⟨h.shape, ?_⟩
    intro j column hcolumn
    rw [columnLengths_append]
    exact (List.append_nil _).symm ▸ h.columns j column hcolumn
  | row lengths fetchesColumn =>
    have hshape : (storeLengths lengths s.columns).map (fun column => column.data.field) = fields := by
      rw [← h.shape]
      apply List.ext_getElem?
      intro i
      rw [List.getElem?_map, List.getElem?_map, storeLengths_getElem?, Option.map_map]
      rfl
    refine ⟨(fetchColumns_fields fetchesColumn 0 s.heap _).trans hshape, ?_⟩
    intro j column' hcolumn'
    change (fetchColumns fetchesColumn 0 s.heap (storeLengths lengths s.columns)).2.1[j]? = some column' at hcolumn'
    cases hcolumn : s.columns[j]? with
    | none =>
      have hnone : ((fetchColumns fetchesColumn 0 s.heap (storeLengths lengths s.columns)).2.1.map
          fun column => column.data.field)[j]? = none := by
        rw [fetchColumns_fields, hshape, ← h.shape, List.getElem?_map, hcolumn]
        rfl
      rw [List.getElem?_map, hcolumn'] at hnone
      cases hnone
    | some column =>
      have hstored : (storeLengths lengths s.columns)[j]? = some { column with data.actualLength := lengths j } := by
        rw [storeLengths_getElem?, hcolumn]
        rfl
      obtain ⟨column₁, hget, -, htracks⟩ :=
        fetchColumns_tracks fetchesColumn 0 s.heap hstored ((h.columns j column hcolumn).store (lengths j))
      obtain rfl := Option.some.inj (hget.symm.trans hcolumn')
      rw [getsTo_eq, h.shape] at htracks
      rw [columnLengths_append, columnLengths, columnLengths, List.append_nil]
      exact htracks

theorem fetchAll_tracks (sizeofMysqlTime indeterminate : ℕ) (fields : List MysqlField) (fetches : List MysqlFetch) :
    TracksAll fields fetches ((newStmt sizeofMysqlTime indeterminate fields).fetchAll fetches) := by
  induction fetches using List.reverseRecOn with
  | nil =>
    have hnew := newColumns_tracks sizeofMysqlTime indeterminate .empty
      (newColumns sizeofMysqlTime indeterminate .empty fields).1 fields
    exact ⟨hnew.1, fun j column hcolumn => hnew.2 column (List.mem_of_getElem? hcolumn)⟩
  | append_singleton fetches e ih =>
    rw [DBStmt.fetchAll, List.foldl_append]
    exact fetch_tracks ih e

theorem TracksAll.agree_iff {fields : List MysqlField} {fetches : List MysqlFetch} {s : DBStmt}
    (h : TracksAll fields fetches s) : Agree s.columns ↔ deletesTwice fields fetches = false := by
  have hblob : ∀ j column, s.columns[j]? = some column → (isBlob fields j = true ↔ column.data.field.type = .blob) := by
    intro j column hcolumn
    rw [isBlob, ← h.shape, List.getElem?_map, hcolumn]
    simp
  rw [deletesTwice, List.any_eq_false]
  constructor
  · intro hagree j hj
    rw [List.mem_range, ← h.shape, List.length_map] at hj
    have hcolumn := List.getElem?_eq_getElem hj
    have hsame := (h.columns j _ hcolumn).agrees_iff.mp (hagree _ (List.getElem_mem hj))
    rw [← hblob j _ hcolumn] at hsame
    rw [Bool.and_eq_true]
    exact hsame
  · intro hnone column hmem
    obtain ⟨j, hcolumn⟩ := List.mem_iff_getElem?.mp hmem
    apply (h.columns j column hcolumn).agrees_iff.mpr
    rw [← hblob j column hcolumn, ← Bool.and_eq_true]
    apply hnone j
    rw [List.mem_range, ← h.shape, List.length_map]
    exact (List.getElem?_eq_some_iff.mp hcolumn).1

/-- `~DBStmt` frees each buffer once if and only if no `BLOB` column was left empty after a value. -/
theorem destroy_freedOnce_iff (sizeofMysqlTime indeterminate : ℕ) (fields : List MysqlField) (fetches : List MysqlFetch) :
    ((newStmt sizeofMysqlTime indeterminate fields).fetchAll fetches).destroy.FreedOnce ↔
      deletesTwice fields fetches = false := by
  have htracks := fetchAll_tracks sizeofMysqlTime indeterminate fields fetches
  have howns := DBStmt.fetchAll_owns (DBStmt.newStmt_spec sizeofMysqlTime indeterminate fields).1 fetches
  generalize (newStmt sizeofMysqlTime indeterminate fields).fetchAll fetches = s at htracks howns
  rw [← htracks.agree_iff]
  constructor
  · intro honce column hmem
    obtain ⟨j, hcolumn⟩ := List.mem_iff_getElem?.mp hmem
    have hcol := htracks.columns j column hcolumn
    by_contra hdiffer
    have hblob : column.data.field.type = .blob := by
      by_contra hother
      exact hdiffer (hcol.other hother)
    have hnone : column.data.buffer = none := by
      by_contra hsome
      exact hdiffer (hcol.same hsome)
    rw [hnone] at hdiffer
    obtain ⟨b, hb⟩ := Option.ne_none_iff_exists'.mp hdiffer
    have hfreed := hcol.stale hblob hnone b hb
    have hallocated : b < s.heap.allocated.length := by
      rw [← List.mem_range, ← howns.mem_iff]
      exact List.mem_append_right _ hfreed
    have hbound : b ∈ (s.columns.map (fun column => column.bindOut.buffer)).filterMap id := by
      rw [List.mem_filterMap]
      exact ⟨some b, List.mem_map.mpr ⟨column, hmem, hb⟩, rfl⟩
    have hone := honce b
    rw [DBStmt.destroy, Heap.deleteAll_eq, List.count_append] at hone
    have hfirst := List.count_pos_iff.mpr hfreed
    have hsecond := List.count_pos_iff.mpr hbound
    have htwo := hone hallocated
    omega
  · exact DBStmt.destroy_freedOnce howns

end FcgiAppserver.Db
