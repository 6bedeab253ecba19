import FcgiAppserver.JsonRoundtrip
import FcgiAppserver.PoolReplies
import FcgiAppserver.StmtRows

namespace FcgiAppserver.Db

open ByteStrings Json JsonReader

def littleEndian : ℕ → ℕ → Bytes
  | 0, _ => []
  | width + 1, n => n.toUInt8 :: littleEndian width (n / 256)

/-- An integer as the client library stores it, signed or not. -/
def encodeInt (width : ℕ) (n : ℤ) : Bytes := littleEndian width (n % 256 ^ width).toNat

def intWidth : FieldType → Option ℕ
  | .tiny => some 1
  | .short => some 2
  | .long => some 4
  | .longlong => some 8
  | _ => none

/-- The members of a `MYSQL_TIME` that `convert_timestamp` prints. -/
structure Timestamp where
  year : ℕ
  month : ℕ
  day : ℕ
  hour : ℕ
  minute : ℕ
  second : ℕ
deriving DecidableEq

def Timestamp.members (t : Timestamp) : List ℕ := [t.year, t.month, t.day, t.hour, t.minute, t.second]

structure Timestamp.Printable (t : Timestamp) : Prop where
  year : t.year < 10 ^ 4
  short : ∀ n ∈ t.members.tail, n < 10 ^ 2

def encodeTime (t : Timestamp) (rest : Bytes) : Bytes := t.members.flatMap (littleEndian 4) ++ rest

def isTimestamp (type : FieldType) : Prop := type = .datetime ∨ type = .timestamp

def Timestamp.date (t : Timestamp) : Bytes := setw 4 t.year ++ ascii "-" ++ setw 2 t.month ++ ascii "-" ++ setw 2 t.day

def Timestamp.time (t : Timestamp) : Bytes := setw 2 t.hour ++ ascii ":" ++ setw 2 t.minute ++ ascii ":" ++ setw 2 t.second

def Timestamp.text (t : Timestamp) : Bytes := t.date ++ ascii " " ++ t.time

/-- The numbers at their places in a text of 19 bytes. -/
def timestampOf (s : Bytes) : Timestamp :=
  ⟨natOf (s.take 4), natOf ((s.drop 5).take 2), natOf ((s.drop 8).take 2), natOf ((s.drop 11).take 2),
    natOf ((s.drop 14).take 2), natOf ((s.drop 17).take 2)⟩

theorem length_littleEndian (width n : ℕ) : (littleEndian width n).length = width := by
  induction width generalizing n with
  | zero => rfl
  | succ width ih => rw [littleEndian, List.length_cons, ih]

theorem length_encodeInt (width : ℕ) (n : ℤ) : (encodeInt width n).length = width := length_littleEndian width _

theorem unsigned_littleEndian (width n : ℕ) : unsigned (littleEndian width n) = n % 256 ^ width := by
  induction width generalizing n with
  | zero => rw [pow_zero, Nat.mod_one]; rfl
  | succ width ih =>
    have hbyte : n.toUInt8.toNat = n % 256 := by rw [Nat.toUInt8, UInt8.toNat_ofNat']
    have hcons : unsigned (littleEndian (width + 1) n) = n.toUInt8.toNat + 256 * unsigned (littleEndian width (n / 256)) := rfl
    rw [hcons, hbyte, ih, pow_succ, Nat.mul_comm (256 ^ width), Nat.mod_mul]

theorem signed_encodeInt {width : ℕ} (hwidth : 0 < width) (n : ℤ) : signed (encodeInt width n) = n.bmod (256 ^ width) := by
  have hpos : (0 : ℤ) < 256 ^ width := by positivity
  have hmod := Int.emod_nonneg n hpos.ne'
  have hlt := Int.emod_lt_of_pos n hpos
  have hunsigned : (unsigned (encodeInt width n) : ℤ) = n % 256 ^ width := by
    have hsmall : (n % 256 ^ width).toNat < 256 ^ width := by zify; omega
    rw [encodeInt, unsigned_littleEndian, Nat.mod_eq_of_lt hsmall, Int.toNat_of_nonneg hmod]
  obtain ⟨k, hk⟩ : ∃ k, (256 : ℕ) ^ width = 2 * k := by
    obtain ⟨w, rfl⟩ := Nat.exists_eq_succ_of_ne_zero hwidth.ne'
    exact ⟨128 * 256 ^ w, by rw [pow_succ]; ring⟩
  have hk' : (256 : ℤ) ^ width = 2 * k := by exact_mod_cast hk
  rw [signed, encodeInt, length_littleEndian, ← encodeInt, Int.bmod_def, hk]
  rw [hk'] at hunsigned hmod hlt
  push_cast
  rw [hk']
  split_ifs <;> omega

theorem not_space_digit {b : Byte} (hb : isDigit b = true) : isSpace b = false := by
  have hdigit : 48 ≤ b.toNat ∧ b.toNat ≤ 57 := by
    simpa [isDigit, UInt8.le_iff_toNat_le] using hb
  simp only [isSpace, Bool.or_eq_false_iff, beq_eq_false_iff_ne, Bool.and_eq_false_iff, decide_eq_false_iff_not, ne_eq,
    UInt8.le_iff_toNat_le, ← UInt8.toNat_inj]
  change ¬ b.toNat = 32 ∧ (¬ 9 ≤ b.toNat ∨ ¬ b.toNat ≤ 13)
  omega

theorem strtol_writeInt (i : ℤ) : strtol (writeInt i) = max (-2 ^ 63) (min (2 ^ 63 - 1) i) := by
  have hnul : (0 : Byte) ∉ writeInt i := by
    rw [writeInt]
    split_ifs
    · rw [List.mem_cons, not_or]
      exact ⟨by decide, not_mem_writeNat rfl⟩
    · exact not_mem_writeNat rfl
  have hstring : cString (writeInt i) = writeInt i := by
    rw [cString, List.takeWhile_eq_self_iff]
    exact ne_of_not_mem hnul
  obtain ⟨b, s, hs, hb⟩ := writeNat_head i.natAbs
  have hvalue : ((b :: s).takeWhile isDigit).foldl (fun n b => 10 * n + (b.toNat - 48)) 0 = i.natAbs := by
    have hall : (b :: s).takeWhile isDigit = b :: s := by
      rw [List.takeWhile_eq_self_iff, ← hs]
      exact writeNat_digits _
    rw [hall, ← hs]
    exact natOf_writeNat _
  have hspace := not_space_digit hb
  have hsign : b ≠ 43 ∧ b ≠ 45 := by
    constructor <;> rintro rfl <;> cases hb
  rw [strtol, hstring, writeInt]
  by_cases hneg : i < 0
  · rw [if_pos hneg, hs]
    have hdrop : (45 :: b :: s).dropWhile isSpace = 45 :: b :: s := List.dropWhile_cons_of_neg (by decide)
    simp only [hdrop, List.head?_cons, List.tail_cons, or_true, if_true, hvalue]
    omega
  · rw [if_neg hneg, hs]
    have hdrop : (b :: s).dropWhile isSpace = b :: s := List.dropWhile_cons_of_neg (by simp [hspace])
    simp only [hdrop, List.head?_cons, Option.some.injEq, hsign.1, hsign.2, or_self, if_false, hvalue]
    omega

theorem writeInt_not_blank (i : ℤ) : (writeInt i).all isSpace = false := by
  obtain ⟨b, s, hs, hb⟩ := writeNat_head i.natAbs
  rw [writeInt, hs]
  split_ifs
  · rfl
  · rw [List.all_cons, not_space_digit hb, Bool.false_and]

theorem readInt_writeInt (i : ℤ) :
    Handlers.readInt (writeInt i) = some (Int32.ofInt (max (-2 ^ 31) (min (2 ^ 31 - 1) i))) := by
  rw [Handlers.readInt, writeInt_not_blank, if_neg Bool.false_ne_true, strtol_writeInt]
  congr 2
  omega

def asInt (floats : FloatText) (columns : List ColumnMemory) (colno : ℕ) : Option Int32 :=
  match asString floats columns colno with
  | .text s => Handlers.readInt s
  | _ => none

/-- The memory after a row that was fetched whole, whatever was fetched before it. -/
structure RowFetched (fields : List MysqlField) (r : ClientRow) (columns : List ColumnMemory) : Prop where
  after : ∃ indeterminate earlier,
    fetchMemory (fetchAllMemory (newStmtMemory indeterminate fields) earlier) (.row r) = (columns, .row)

section

variable {floats : FloatText} {fields : List MysqlField} {r : ClientRow} {columns : List ColumnMemory} {colno : ℕ}
  {field : MysqlField}

theorem asString_value (h : RowFetched fields r columns) (hfield : fields[colno]? = some field) {v : Bytes}
    (hv : r.values colno = some v) (hfits : Fits field v) :
    asString floats columns colno = columnToString floats (holding field v) := by
  obtain ⟨indeterminate, earlier, hfetch⟩ := h.after
  obtain ⟨column, hcolumn, hallocated⟩ := column_allocated hfield indeterminate earlier
  have hrow : asString floats _ colno = _ := asString_fetched (congrArg Prod.snd hfetch) hcolumn
  rw [hfetch, hv] at hrow
  rw [hrow]
  exact fetched_value hallocated hv hfits

theorem columnToString_holding {f : Bytes → Bytes} (h : conversion floats field.type = some f) (v : Bytes) :
    columnToString floats (holding field v) =
      .text (f ((storedBytes field.type v.length v).take (bytesRead field.type (storedLength field.type v)))) := by
  have hread : writeBytes (holding field v) (bytesRead field.type (storedLength field.type v)) f =
      .text (f ((storedBytes field.type v.length v).take (bytesRead field.type (storedLength field.type v)))) := by
    rw [writeBytes, readBuffer_holding]
  exact (columnToString_read h).trans hread

theorem take_newBytes {v : Bytes} {size n : ℕ} (hsize : n ≤ size) (hv : n ≤ v.length) :
    (newBytes (fun i => v.getD i 0) size).take n = v.take n := by
  apply List.ext_getElem
  · rw [List.length_take, List.length_take, length_newBytes]
    omega
  · intro i h₁ h₂
    have hi : i < v.length := Nat.lt_of_lt_of_le h₂ (List.length_take_le' n v)
    rw [List.getElem_take, List.getElem_take]
    simp [newBytes, hi]

theorem columnToString_int {width : ℕ} (hwidth : intWidth field.type = some width) {v : Bytes} (hlen : v.length = width) :
    columnToString floats (holding field v) = .text (writeInt (signed v)) := by
  have hall : (newBytes (fun i => v.getD i 0) width).take width = v := by
    rw [take_newBytes (le_refl width) (Nat.le_of_eq hlen.symm), ← hlen, List.take_length]
  obtain ⟨type, length⟩ := field
  cases type <;> simp only [intWidth, Option.some.injEq, reduceCtorEq] at hwidth
  all_goals
    subst hwidth
    rw [columnToString_holding rfl]
    exact congrArg (fun v => Converted.text (writeInt (signed v))) hall

theorem fits_int {width : ℕ} (hwidth : intWidth field.type = some width) (hlen : width ≤ field.length) (v : Bytes) :
    Fits field v := by
  obtain ⟨type, length⟩ := field
  cases type <;> simp only [intWidth, Option.some.injEq, reduceCtorEq] at hwidth
  all_goals
    subst hwidth
    exact Or.inr hlen

theorem asInt_text {i : ℤ} (h : asString floats columns colno = .text (writeInt i)) :
    asInt floats columns colno = some (Int32.ofInt (max (-2 ^ 31) (min (2 ^ 31 - 1) i))) := by
  rw [asInt, h, ← readInt_writeInt]

theorem intWidth_pos {type : FieldType} {width : ℕ} (h : intWidth type = some width) : 0 < width := by
  cases type <;> simp only [intWidth, Option.some.injEq, reduceCtorEq] at h
  all_goals omega

/-- What a stored integer comes back as: its low bytes as a signed number, cut to 32 bits. -/
structure ReadsInt (floats : FloatText) (columns : List ColumnMemory) (colno width : ℕ) (n : ℤ) : Prop where
  text : asString floats columns colno = .text (writeInt (n.bmod (256 ^ width)))
  value : asInt floats columns colno = some (Int32.ofInt (max (-2 ^ 31) (min (2 ^ 31 - 1) (n.bmod (256 ^ width)))))
  exact : -256 ^ width ≤ 2 * n → n < 256 ^ width →
    ((asInt floats columns colno).map Int32.toInt = some n ↔ 2 * n < 256 ^ width ∧ -2 ^ 31 ≤ n ∧ n < 2 ^ 31)

theorem stored_integer (floats : FloatText) {width : ℕ} (h : RowFetched fields r columns)
    (hfield : fields[colno]? = some field) (hwidth : intWidth field.type = some width) (hlen : width ≤ field.length)
    (n : ℤ) (hv : r.values colno = some (encodeInt width n)) : ReadsInt floats columns colno width n := by
  have htext : asString floats columns colno = .text (writeInt (n.bmod (256 ^ width))) := by
    rw [asString_value h hfield hv (fits_int hwidth hlen _), columnToString_int hwidth (length_encodeInt width n),
      signed_encodeInt (intWidth_pos hwidth)]
  have hvalue := asInt_text htext
  refine ⟨htext, hvalue, ?_⟩
  intro hlow hhigh
  have hclamp : (Int32.ofInt (max (-2 ^ 31) (min (2 ^ 31 - 1) (n.bmod (256 ^ width))))).toInt =
      max (-2 ^ 31) (min (2 ^ 31 - 1) (n.bmod (256 ^ width))) := by
    apply Int32.toInt_ofInt_of_le <;> omega
  obtain ⟨k, hk⟩ : ∃ k, (256 : ℕ) ^ width = 2 * k := by
    obtain ⟨w, rfl⟩ := Nat.exists_eq_succ_of_ne_zero (intWidth_pos hwidth).ne'
    exact ⟨128 * 256 ^ w, by rw [pow_succ]; ring⟩
  have hk' : (256 : ℤ) ^ width = 2 * k := by exact_mod_cast hk
  rw [hvalue, Option.map_some, Option.some.injEq, hclamp]
  rw [hk'] at hlow hhigh ⊢
  rw [hk]
  by_cases hhalf : n < k
  · have hsame : n.bmod (2 * k) = n := Int.bmod_eq_of_le (by omega) (by omega)
    rw [hsame]
    omega
  · have hwraps : n.bmod (2 * k) = n - 2 * k := by
      rw [Int.bmod_eq_iff (by omega)]
      refine ⟨by omega, by omega, ?_⟩
      push_cast
      exact ⟨-1, by ring⟩
    rw [hwraps]
    omega

theorem natOf_setw (width n : ℕ) : natOf (setw width n) = n := by
  have hzeros : ∀ (k : ℕ) (s : Bytes), natOf (List.replicate k 48 ++ s) = natOf s := by
    intro k s
    induction k with
    | zero => rfl
    | succ k ih => exact ih
  rw [setw, hzeros, natOf_writeNat]

theorem length_setw {width n : ℕ} (hwidth : 0 < width) (h : n < 10 ^ width) : (setw width n).length = width := by
  have hlen : (writeNat n).length ≤ width := by
    rw [writeNat]
    split_ifs
    · exact hwidth
    · rw [List.length_map, List.length_reverse]
      exact (Nat.digits_length_le_iff (by decide) n).mpr h
  rw [setw, List.length_append, List.length_replicate]
  omega

theorem text_eq (t : Timestamp) : t.text = setw 4 t.year ++ 45 :: (setw 2 t.month ++ 45 :: (setw 2 t.day ++
    32 :: (setw 2 t.hour ++ 58 :: (setw 2 t.minute ++ 58 :: setw 2 t.second)))) := by
  simp [Timestamp.text, Timestamp.date, Timestamp.time, ascii]

theorem setw_short {t : Timestamp} (ht : t.Printable) {n : ℕ} (hn : n ∈ t.members.tail) : (setw 2 n).length = 2 :=
  length_setw (by decide) (ht.short n hn)

theorem length_text {t : Timestamp} (ht : t.Printable) : t.text.length = 19 := by
  have hshort : ∀ n ∈ t.members.tail, (setw 2 n).length = 2 := fun n hn => setw_short ht hn
  simp only [Timestamp.members, List.tail_cons, List.forall_mem_cons] at hshort
  obtain ⟨hmonth, hday, hhour, hminute, hsecond, -⟩ := hshort
  rw [text_eq]
  simp only [List.length_append, List.length_cons, length_setw (show 0 < 4 by decide) ht.year, hmonth, hday, hhour,
    hminute, hsecond]

theorem drop_past {s : Bytes} {n : ℕ} (h : s.length = n) (c : Byte) (rest : Bytes) :
    (s ++ c :: rest).drop (n + 1) = rest := by
  rw [← h, List.drop_append, Nat.add_sub_cancel_left, List.drop_of_length_le (Nat.le_succ _)]
  rfl

theorem timestampOf_text {t : Timestamp} (ht : t.Printable) : timestampOf t.text = t := by
  have hyear := length_setw (show 0 < 4 by decide) ht.year
  have hshort : ∀ n ∈ t.members.tail, (setw 2 n).length = 2 := fun n hn => setw_short ht hn
  simp only [Timestamp.members, List.tail_cons, List.forall_mem_cons] at hshort
  obtain ⟨hmonth, hday, hhour, hminute, hsecond, -⟩ := hshort
  have hnext : ∀ {i : ℕ} {u v : Bytes} {c : Byte}, u.length = 2 → t.text.drop i = u ++ c :: v → t.text.drop (i + 3) = v := by
    intro i u v c hu hdrop
    rw [← List.drop_drop, hdrop]
    exact drop_past hu c v
  have h5 : t.text.drop 5 = _ := (congrArg (List.drop 5) (text_eq t)).trans (drop_past hyear 45 _)
  have h8 := hnext hmonth h5
  have h11 := hnext hday h8
  have h14 := hnext hhour h11
  have h17 := hnext hminute h14
  rw [timestampOf, h5, h8, h11, h14, h17, text_eq, List.take_left' hyear, List.take_left' hmonth, List.take_left' hday,
    List.take_left' hhour, List.take_left' hminute, List.take_of_length_le (Nat.le_of_eq hsecond)]
  simp only [natOf_setw]

theorem text_inj {t t' : Timestamp} (ht : t.Printable) (ht' : t'.Printable) (h : t.text = t'.text) : t = t' := by
  rw [← timestampOf_text ht, h, timestampOf_text ht']

theorem fits_time (h : isTimestamp field.type) (v : Bytes) : Fits field v := by
  have hsize : 24 ≤ sizeofMysqlTime := by decide
  obtain ⟨type, length⟩ := field
  apply Or.inr
  rcases h with h | h
  · cases h
    exact hsize
  · cases h
    exact hsize

theorem length_members (ms : List ℕ) : (ms.flatMap (littleEndian 4)).length = 4 * ms.length := by
  induction ms with
  | nil => rfl
  | cons m ms ih =>
    rw [List.flatMap_cons, List.length_append, length_littleEndian, ih, List.length_cons]
    omega

theorem member_at {ms : List ℕ} {i : ℕ} (hi : i < ms.length) :
    ((ms.flatMap (littleEndian 4)).drop (4 * i)).take 4 = littleEndian 4 (ms.getD i 0) := by
  induction ms generalizing i with
  | nil => cases hi
  | cons m ms ih =>
    rw [List.flatMap_cons]
    cases i with
    | zero => exact List.take_left' (length_littleEndian 4 m)
    | succ i =>
      have hfour : 4 * (i + 1) = (littleEndian 4 m).length + 4 * i := by
        rw [length_littleEndian]
        omega
      rw [hfour, List.drop_length_add_append, List.getD_cons_succ]
      exact ih (Nat.lt_of_succ_lt_succ hi)

theorem timeMember_encodeTime {t : Timestamp} (ht : t.Printable) (rest : Bytes) {i : ℕ} (hi : i < 6) :
    timeMember ((encodeTime t rest).take 24) i = t.members.getD i 0 := by
  have hstarts : (encodeTime t rest).take 24 = t.members.flatMap (littleEndian 4) :=
    List.take_left' (length_members t.members)
  have hmember : t.members.getD i 0 < 256 ^ 4 := by
    cases i with
    | zero => exact Nat.lt_trans ht.year (by decide)
    | succ i =>
      have hmem : t.members.getD (i + 1) 0 ∈ t.members.tail := by
        have htail : i < t.members.tail.length := Nat.lt_of_succ_lt_succ hi
        have hget : t.members.getD (i + 1) 0 = t.members.tail[i] := by
          rw [← List.getD_eq_getElem t.members.tail 0 htail]
          rfl
        rw [hget]
        exact List.getElem_mem htail
      exact Nat.lt_trans (ht.short _ hmem) (by decide)
  rw [hstarts, timeMember, member_at hi, unsigned_littleEndian, Nat.mod_eq_of_lt hmember]

theorem columnToString_time (htype : isTimestamp field.type) {t : Timestamp} (ht : t.Printable) (rest : Bytes) :
    columnToString floats (holding field (encodeTime t rest)) = .text t.text := by
  have hlong : 24 ≤ (encodeTime t rest).length := by
    rw [encodeTime, List.length_append, length_members]
    exact Nat.le_add_right _ _
  have hbytes : convertTimestamp ((newBytes (fun i => (encodeTime t rest).getD i 0) sizeofMysqlTime).take 24) = t.text := by
    rw [take_newBytes (by decide) hlong, convertTimestamp]
    simp only [timeMember_encodeTime ht rest (show 0 < 6 by decide), timeMember_encodeTime ht rest (show 1 < 6 by decide),
      timeMember_encodeTime ht rest (show 2 < 6 by decide), timeMember_encodeTime ht rest (show 3 < 6 by decide),
      timeMember_encodeTime ht rest (show 4 < 6 by decide), timeMember_encodeTime ht rest (show 5 < 6 by decide)]
    simp [Timestamp.members, Timestamp.text, Timestamp.date, Timestamp.time]
  obtain ⟨type, length⟩ := field
  rcases htype with h | h
  · cases h
    rw [columnToString_holding rfl]
    exact congrArg Converted.text hbytes
  · cases h
    rw [columnToString_holding rfl]
    exact congrArg Converted.text hbytes

theorem stored_time (floats : FloatText) (h : RowFetched fields r columns) (hfield : fields[colno]? = some field)
    (htype : isTimestamp field.type) {t : Timestamp} (ht : t.Printable) {rest : Bytes}
    (hv : r.values colno = some (encodeTime t rest)) : asString floats columns colno = .text t.text := by
  rw [asString_value h hfield hv (fits_time htype _), columnToString_time htype ht]

end

theorem rowFetched_of {fields : List MysqlField} {r : ClientRow} (indeterminate : ℕ → Indeterminate)
    (earlier : List ClientFetch)
    (hrow : (fetchMemory (fetchAllMemory (newStmtMemory indeterminate fields) earlier) (.row r)).2 = .row) :
    RowFetched fields r (fetchMemory (fetchAllMemory (newStmtMemory indeterminate fields) earlier) (.row r)).1 :=
  ⟨indeterminate, earlier, by rw [← hrow]⟩

def countField : MysqlField := ⟨.longlong, 21⟩

def countRow : ClientRow := plainRow (some (encodeInt 8 300))

def countColumns : List ColumnMemory := (fetchMemory (newStmtMemory emptyMemory [countField]) (.row countRow)).1

theorem countColumns_fetched : RowFetched [countField] countRow countColumns := rowFetched_of emptyMemory [] rfl

theorem stored_integer_count : ReadsInt zeroFloats countColumns 0 8 300 := by
  apply stored_integer zeroFloats countColumns_fetched
  · exact rfl
  · exact rfl
  · decide
  · exact rfl

end FcgiAppserver.Db
