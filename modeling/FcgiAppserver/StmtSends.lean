import FcgiAppserver.StmtParams

namespace FcgiAppserver.Db

open ByteStrings

theorem number_ofNat {colno : ℕ} (h : colno < 2 ^ 16) (value : Bytes) :
    (BlobParam.mk (Int32.ofNat colno) value).number = colno := by
  rw [BlobParam.number, Int32.toUInt32_ofNat', UInt32.toNat_ofNat_of_lt' (h.trans (by decide))]

def appendAll (data : Option Bytes) (values : List Bytes) : Option Bytes :=
  values.foldl (fun data value => some (data.getD [] ++ value)) data

theorem appendAll_some (data : Bytes) (values : List Bytes) : appendAll (some data) values = some (data ++ values.flatten) := by
  induction values generalizing data with
  | nil => rw [List.flatten_nil, List.append_nil]; rfl
  | cons value values ih =>
    rw [List.flatten_cons, ← List.append_assoc, ← ih]
    rfl

theorem appendAll_ne_nil (data : Option Bytes) {values : List Bytes} (h : values ≠ []) :
    appendAll data values = some (data.getD [] ++ values.flatten) := by
  obtain ⟨value, values, rfl⟩ := List.exists_cons_of_ne_nil h
  rw [List.flatten_cons, ← List.append_assoc]
  exact appendAll_some _ values

def valuesFor (blobs : List BlobParam) (c : ℕ) : List Bytes :=
  (blobs.filter (fun blob => blob.number = c)).map BlobParam.value

theorem valuesFor_cons (blob : BlobParam) (blobs : List BlobParam) (c : ℕ) :
    valuesFor (blob :: blobs) c = if blob.number = c then blob.value :: valuesFor blobs c else valuesFor blobs c := by
  unfold valuesFor
  split_ifs with h
  · rw [List.filter_cons, if_pos (decide_eq_true h), List.map_cons]
  · rw [List.filter_cons, if_neg (fun hnumber => h (of_decide_eq_true hnumber))]

theorem valuesFor_append (blobs : List BlobParam) (blob : BlobParam) (c : ℕ) :
    valuesFor (blobs ++ [blob]) c = valuesFor blobs c ++ if blob.number = c then [blob.value] else [] := by
  rw [valuesFor, List.filter_append, List.map_append]
  exact congrArg (valuesFor blobs c ++ ·) (valuesFor_cons blob [] c)

theorem sendBlobs_all {sends : ℕ → Bool} {i : ℕ} {longData : ℕ → Option Bytes} {blobs : List BlobParam}
    (h : (sendBlobs sends i longData blobs).2 = true) (c : ℕ) :
    (sendBlobs sends i longData blobs).1 c = appendAll (longData c) (valuesFor blobs c) := by
  induction blobs generalizing i longData with
  | nil => rfl
  | cons blob blobs ih =>
    rw [sendBlobs] at h ⊢
    split_ifs at h ⊢ with hsend
    · rw [ih h, valuesFor_cons]
      split_ifs with hnumber
      · rw [sendLongData, ← hnumber, Function.update_self]
        rfl
      · rw [sendLongData, Function.update_of_ne (Ne.symm hnumber)]

theorem sendBlobs_other (sends : ℕ → Bool) (i : ℕ) (longData : ℕ → Option Bytes) {blobs : List BlobParam} {c : ℕ}
    (h : valuesFor blobs c = []) : (sendBlobs sends i longData blobs).1 c = longData c := by
  induction blobs generalizing i longData with
  | nil => rfl
  | cons blob blobs ih =>
    rw [valuesFor_cons] at h
    split_ifs at h with hnumber
    rw [sendBlobs]
    split_ifs
    · rw [ih _ _ h, sendLongData, Function.update_of_ne (Ne.symm hnumber)]
    · rfl

section

variable {calls : List StmtCall} {call : StmtCall} {c : ℕ} {bind : Bind}

theorem lastBind_bound (h : bindFor c call = some bind) : lastBind (calls ++ [call]) c = some bind := by
  rw [lastBind, List.filterMap_append, List.filterMap_cons_some h]
  exact List.getLast?_concat

theorem lastBind_other (h : bindFor c call = none) : lastBind (calls ++ [call]) c = lastBind calls c := by
  rw [lastBind, List.filterMap_append, List.filterMap_cons_none h]
  exact congrArg List.getLast? (List.append_nil _)

theorem blobsFor_bound (h : bindFor c call = some bind) :
    blobsFor (calls ++ [call]) c = blobsFor calls c ++ bind.blobValue.toList := by
  rw [blobsFor, List.filterMap_append, List.filterMap_cons_some h, List.filterMap_append]
  cases hblob : bind.blobValue with
  | none => rw [List.filterMap_cons_none hblob]; rfl
  | some value => rw [List.filterMap_cons_some hblob]; rfl

theorem blobsFor_other (h : bindFor c call = none) : blobsFor (calls ++ [call]) c = blobsFor calls c := by
  rw [blobsFor, List.filterMap_append, List.filterMap_cons_none h]
  exact congrArg (List.filterMap Bind.blobValue) (List.append_nil _)

end

namespace StmtParams

/-- What the statement holds after some calls, told by the calls. -/
structure Follows (calls : List StmtCall) (s : StmtParams) (c : ℕ) : Prop where
  slot : s.bindIn c = (lastBind calls c).map Bind.slot
  blobs : valuesFor s.blobParams c = blobsFor calls c
  leftOver : blobsFor calls c = [] → s.longData c = none

theorem follows_newParams (paramCount numFields : ℕ) (h : paramCount < 2 ^ 16) (c : ℕ) :
    Follows [] (newParams paramCount numFields h) c := ⟨rfl, rfl, fun _ => rfl⟩

section

variable {calls : List StmtCall} {s : StmtParams} {c : ℕ}

theorem Follows.other (h : Follows calls s c) {call : StmtCall} (hcall : bindFor c call = none) :
    Follows (calls ++ [call]) s c := by
  obtain ⟨hslot, hblobs, hleft⟩ := h
  rw [← lastBind_other hcall] at hslot
  rw [← blobsFor_other hcall] at hblobs hleft
  exact ⟨hslot, hblobs, hleft⟩

theorem follows_bindSlot (hc : c < s.paramCount) (h : Follows calls s c) {call : StmtCall} {colno : ℕ} (bind : Bind)
    (hcall : bindFor c call = if colno = c then some bind else none) (hplain : bind.blobValue = none) :
    Follows (calls ++ [call]) (s.bindSlot colno bind.slot) c := by
  by_cases hcol : colno = c
  · rw [if_pos hcol] at hcall
    rw [bindSlot, if_pos (hcol ▸ hc), hcol]
    have hsame : blobsFor (calls ++ [call]) c = blobsFor calls c := by
      rw [blobsFor_bound hcall, hplain]
      exact List.append_nil _
    constructor
    · rw [lastBind_bound hcall]
      exact Function.update_self c _ s.bindIn
    · exact h.blobs.trans hsame.symm
    · exact hsame ▸ h.leftOver
  · rw [if_neg hcol] at hcall
    rw [bindSlot]
    split_ifs
    · obtain ⟨hslot, hblobs, hleft⟩ := h.other hcall
      exact ⟨(Function.update_of_ne (Ne.symm hcol) _ s.bindIn).trans hslot, hblobs, hleft⟩
    · exact h.other hcall

theorem follows_bindBlob (hc : c < s.paramCount) (h : Follows calls s c) (colno : ℕ) (value : Bytes) :
    Follows (calls ++ [.bindBlob colno value]) (s.bindBlob colno value) c := by
  by_cases hcol : colno = c
  · have hcall : bindFor c (.bindBlob colno value) = some (.blob value) := if_pos hcol
    have hnumber : (BlobParam.mk (Int32.ofNat colno) value).number = c :=
      hcol ▸ number_ofNat (hcol ▸ hc.trans s.paramCount_lt) value
    rw [bindBlob, if_pos (hcol ▸ hc)]
    constructor
    · rw [lastBind_bound hcall]
      exact hcol ▸ Function.update_self colno _ s.bindIn
    · rw [blobsFor_bound hcall, ← h.blobs]
      exact (valuesFor_append _ _ c).trans (congrArg (valuesFor s.blobParams c ++ ·) (if_pos hnumber))
    · intro hnone
      rw [blobsFor_bound hcall] at hnone
      exact absurd hnone (List.append_ne_nil_of_right_ne_nil _ (List.cons_ne_nil value []))
  · have hcall : bindFor c (.bindBlob colno value) = none := if_neg hcol
    obtain ⟨hslot, hblobs, hleft⟩ := h.other hcall
    rw [bindBlob]
    split_ifs with hin
    · have hnumber : (BlobParam.mk (Int32.ofNat colno) value).number ≠ c := by
        rw [number_ofNat (hin.trans s.paramCount_lt)]
        exact hcol
      constructor
      · exact (Function.update_of_ne (Ne.symm hcol) _ s.bindIn).trans hslot
      · rw [← hblobs]
        exact (valuesFor_append _ _ c).trans ((congrArg (valuesFor s.blobParams c ++ ·) (if_neg hnumber)).trans
          (List.append_nil _))
      · exact hleft
    · exact ⟨hslot, hblobs, hleft⟩

theorem stmtExecute_stmt (s : StmtParams) (answers : ExecuteAnswers) :
    (s.stmtExecute answers).stmt = { s with longData := fun _ => none } := by
  unfold stmtExecute
  dsimp only
  split_ifs <;> rfl

/-- An execution changes nothing but the data appended, and nothing is appended for a parameter without blobs. -/
theorem execute_stmt (s : StmtParams) (answers : ExecuteAnswers) : ∃ longData : ℕ → Option Bytes,
    (s.execute answers).stmt = { s with longData := longData } ∧
      ∀ c, valuesFor s.blobParams c = [] → s.longData c = none → longData c = none := by
  by_cases hcount : s.paramCount ≠ 0
  · rw [execute, if_pos hcount]
    split_ifs with hbind
    · exact ⟨s.longData, rfl, fun _ _ hnone => hnone⟩
    · generalize hsent : sendBlobs answers.sendsLongData 0 s.longData s.blobParams = appended
      obtain ⟨longData, sentAll⟩ := appended
      dsimp only
      split_ifs
      · refine ⟨longData, rfl, ?_⟩
        intro c hblobs hnone
        have hother := sendBlobs_other answers.sendsLongData 0 s.longData hblobs
        rw [hsent] at hother
        exact hother.trans hnone
      · exact ⟨fun _ => none, stmtExecute_stmt _ answers, fun _ _ _ => rfl⟩
  · rw [execute, if_neg hcount]
    exact ⟨fun _ => none, stmtExecute_stmt s answers, fun _ _ _ => rfl⟩

theorem follows_execute (h : Follows calls s c) (answers : ExecuteAnswers) :
    Follows (calls ++ [.execute answers]) (s.execute answers).stmt c := by
  have hcall : bindFor c (.execute answers) = none := rfl
  obtain ⟨hslot, hblobs, hleft⟩ := h.other hcall
  obtain ⟨longData, hstmt, hnone⟩ := execute_stmt s answers
  rw [hstmt]
  refine ⟨hslot, hblobs, ?_⟩
  intro hempty
  exact hnone c (hblobs.trans hempty) (hleft hempty)

theorem follows_step (hc : c < s.paramCount) (h : Follows calls s c) (call : StmtCall) :
    Follows (calls ++ [call]) (s.step call) c := by
  cases call with
  | bindInt colno value => exact follows_bindSlot hc h (.int value) rfl rfl
  | bindDouble colno bits => exact follows_bindSlot hc h (.double bits) rfl rfl
  | bindString colno value => exact follows_bindSlot hc h (.string value) rfl rfl
  | bindBlob colno value => exact follows_bindBlob hc h colno value
  | execute answers => exact follows_execute h answers

end

theorem bindSlot_paramCount (s : StmtParams) (colno : ℕ) (value : MysqlValue) :
    (s.bindSlot colno value).paramCount = s.paramCount := by
  unfold bindSlot
  split_ifs <;> rfl

theorem step_paramCount (s : StmtParams) (call : StmtCall) : (s.step call).paramCount = s.paramCount := by
  cases call with
  | bindInt colno value => exact bindSlot_paramCount s colno _
  | bindDouble colno bits => exact bindSlot_paramCount s colno _
  | bindString colno value => exact bindSlot_paramCount s colno _
  | bindBlob colno value =>
    rw [step, bindBlob]
    split_ifs <;> rfl
  | execute answers =>
    obtain ⟨longData, hstmt, -⟩ := execute_stmt s answers
    rw [step, hstmt]

theorem run_append (s : StmtParams) (calls : List StmtCall) (call : StmtCall) :
    s.run (calls ++ [call]) = (s.run calls).step call := by
  rw [run, List.foldl_append]
  rfl

theorem run_paramCount (s : StmtParams) (calls : List StmtCall) : (s.run calls).paramCount = s.paramCount := by
  induction calls using List.reverseRecOn with
  | nil => rfl
  | append_singleton calls call ih => rw [run_append, step_paramCount, ih]

theorem follows_run {paramCount numFields : ℕ} (hcount : paramCount < 2 ^ 16) (calls : List StmtCall) {c : ℕ}
    (hc : c < paramCount) : Follows calls ((newParams paramCount numFields hcount).run calls) c := by
  induction calls using List.reverseRecOn with
  | nil => exact follows_newParams paramCount numFields hcount c
  | append_singleton calls call ih =>
    rw [run_append]
    apply follows_step _ ih
    rw [run_paramCount]
    exact hc

theorem stmtExecute_sent (s : StmtParams) (answers : ExecuteAnswers) :
    (s.stmtExecute answers).sent = some s.sentValue := by
  unfold stmtExecute
  dsimp only
  split_ifs <;> rfl

theorem sentValue_eq (s : StmtParams) (c : ℕ) :
    s.sentValue c = ((s.longData c).map MysqlValue.string).or (s.bindIn c) := by
  unfold sentValue
  cases s.longData c with
  | none => rfl
  | some data => rfl

theorem execute_sent {s : StmtParams} {answers : ExecuteAnswers} {sent : ℕ → Option MysqlValue} {c : ℕ}
    (hc : c < s.paramCount) (h : (s.execute answers).sent = some sent) :
    sent c = ((appendAll (s.longData c) (valuesFor s.blobParams c)).map MysqlValue.string).or (s.bindIn c) := by
  have hcount : s.paramCount ≠ 0 := Nat.ne_zero_of_lt hc
  rw [execute, if_pos hcount] at h
  split_ifs at h with hbind
  generalize hsent : sendBlobs answers.sendsLongData 0 s.longData s.blobParams = appended at h
  obtain ⟨longData, sentAll⟩ := appended
  dsimp only at h
  split_ifs at h with hall
  rw [stmtExecute_sent] at h
  obtain rfl := Option.some_inj.mp h
  have hdata := sendBlobs_all (by rw [hsent]; simpa using hall) c
  rw [hsent] at hdata
  rw [← hdata]
  exact sentValue_eq _ c

theorem blobsFor_last {calls : List StmtCall} {c : ℕ} {value : Bytes} (h : lastBind calls c = some (.blob value)) :
    ∃ earlier, blobsFor calls c = earlier ++ [value] := by
  obtain ⟨binds, hbinds⟩ := List.getLast?_eq_some_iff.mp h
  refine ⟨binds.filterMap Bind.blobValue, ?_⟩
  rw [blobsFor, hbinds, List.filterMap_append]
  rfl

theorem appended_last (leftOver : Bytes) (earlier : List Bytes) (value : Bytes) :
    leftOver ++ (earlier ++ [value]).flatten = value ↔ leftOver = [] ∧ ∀ blob ∈ earlier, blob = [] := by
  rw [List.flatten_append, List.flatten_singleton, ← List.append_assoc, List.append_left_eq_self, List.append_eq_nil_iff,
    List.flatten_eq_nil_iff]

theorem sent_iff {calls : List StmtCall} {s : StmtParams} {c : ℕ} (hc : c < s.paramCount) (hs : Follows calls s c)
    {answers : ExecuteAnswers} {sent : ℕ → Option MysqlValue} (hsent : (s.execute answers).sent = some sent)
    {bind : Bind} (hbind : lastBind calls c = some bind) :
    sent c = some bind.value ↔ SentAlone ((s.longData c).getD []) (blobsFor calls c) bind := by
  rw [execute_sent hc hsent, hs.blobs, hs.slot, hbind]
  by_cases hnone : blobsFor calls c = []
  · rw [hnone, hs.leftOver hnone]
    cases bind with
    | int value => exact iff_of_true rfl rfl
    | double bits => exact iff_of_true rfl rfl
    | string value => exact iff_of_true rfl (Or.inl rfl)
    | blob value =>
      obtain ⟨earlier, hblobs⟩ := blobsFor_last hbind
      rw [hnone] at hblobs
      exact absurd hblobs.symm (List.concat_ne_nil value earlier)
  · rw [appendAll_ne_nil _ hnone, Option.map_some, Option.some_or, Option.some_inj]
    cases bind with
    | int value => exact iff_of_false MysqlValue.noConfusion hnone
    | double bits => exact iff_of_false MysqlValue.noConfusion hnone
    | string value =>
      rw [Bind.value, MysqlValue.string.injEq]
      exact (or_iff_right hnone).symm
    | blob value =>
      obtain ⟨earlier, hblobs⟩ := blobsFor_last hbind
      rw [Bind.value, MysqlValue.string.injEq, hblobs, appended_last, SentAlone, List.dropLast_concat]

end StmtParams

open StmtParams

/-- At each place where a sequence of calls executes the statement: a property of the calls before it, of what the
execution sends and of each bound parameter with its last bind call. -/
def AtExecutions (s : StmtParams) (P : List StmtCall → (ℕ → Option MysqlValue) → ℕ → Bind → Prop) (calls : List StmtCall) :
    Prop :=
  ∀ before answers after sent c bind, calls = before ++ .execute answers :: after →
    ((s.run before).execute answers).sent = some sent → c < s.paramCount → lastBind before c = some bind →
    P before sent c bind

/-- Executions send what was bound last exactly when nothing that was appended gets in between. -/
theorem sends_last_bound_iff (paramCount numFields : ℕ) (hcount : paramCount < 2 ^ 16) (calls : List StmtCall) :
    AtExecutions (newParams paramCount numFields hcount) (fun _ sent c bind => sent c = some bind.value) calls ↔
      AtExecutions (newParams paramCount numFields hcount) (fun before _ c bind =>
        SentAlone ((((newParams paramCount numFields hcount).run before).longData c).getD []) (blobsFor before c) bind)
        calls := by
  have hiff {before : List StmtCall} {answers : ExecuteAnswers} {sent : ℕ → Option MysqlValue} {c : ℕ} {bind : Bind}
      (hsent : (((newParams paramCount numFields hcount).run before).execute answers).sent = some sent)
      (hc : c < paramCount) (hbind : lastBind before c = some bind) :=
    sent_iff (by rw [run_paramCount]; exact hc) (follows_run hcount before hc) hsent hbind
  constructor
  · intro h before answers after sent c bind hcalls hsent hc hbind
    exact (hiff hsent hc hbind).mp (h before answers after sent c bind hcalls hsent hc hbind)
  · intro h before answers after sent c bind hcalls hsent hc hbind
    exact (hiff hsent hc hbind).mpr (h before answers after sent c bind hcalls hsent hc hbind)

def answersAll : ExecuteAnswers := ⟨true, fun _ => true, true, true⟩

theorem sends_last_bound_iff_one :
    AtExecutions (newParams 1 0 (by decide)) (fun _ sent c bind => sent c = some bind.value)
        [.bindBlob 0 (ascii "a"), .bindInt 0 7, .execute answersAll] ↔
      AtExecutions (newParams 1 0 (by decide)) (fun before _ c bind =>
        SentAlone ((((newParams 1 0 (by decide)).run before).longData c).getD []) (blobsFor before c) bind)
        [.bindBlob 0 (ascii "a"), .bindInt 0 7, .execute answersAll] :=
  sends_last_bound_iff 1 0 (by decide) [.bindBlob 0 (ascii "a"), .bindInt 0 7, .execute answersAll]

theorem blob_sent_again : ¬ AtExecutions (newParams 1 0 (by decide)) (fun _ sent c bind => sent c = some bind.value)
    [.bindBlob 0 (ascii "a"), .execute answersAll, .bindBlob 0 (ascii "b"), .execute answersAll] := by
  intro h
  have hsent := h [.bindBlob 0 (ascii "a"), .execute answersAll, .bindBlob 0 (ascii "b")] answersAll [] _ 0
    (.blob (ascii "b")) rfl rfl (by decide) rfl
  exact absurd hsent (by decide)

end FcgiAppserver.Db
