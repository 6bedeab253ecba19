import FcgiAppserver.SitemapDocument
import FcgiAppserver.StoredValues

namespace FcgiAppserver.Handlers

open ByteStrings Db Json ScopedEffects ScopedEffects.Act

def cellOf : Converted → Option (Except DbException Bytes)
  | .text s => some (.ok s)
  | .dbException what _ => some (.error ⟨ascii what⟩)
  | .undefined => none

/-- The row of texts that the handlers work on, if no column is read past its buffer. -/
def rowOf (floats : FloatText) : List ColumnMemory → Option Row
  | [] => some []
  | column :: columns => do
    let cell ← cellOf (columnToString floats column)
    let row ← rowOf floats columns
    return cell :: row

inductive Stored
  | text (s : Bytes)
  | time (t : Timestamp)
  | bigint (n : ℤ)

def IsText (type : FieldType) : Prop := type = .string ∨ type = .varString ∨ type = .blob

/-- A column of a type for `stored` that is wide enough, and its value in the row. -/
def Stored.In (stored : Stored) (field : MysqlField) (value : Option Bytes) : Prop :=
  match stored with
  | .text s => IsText field.type ∧ (field.type = .blob ∨ s.length ≤ field.length) ∧ value = some s
  | .time t => isTimestamp field.type ∧ t.Printable ∧ ∃ rest, value = some (encodeTime t rest)
  | .bigint n => field.type = .longlong ∧ 8 ≤ field.length ∧ -2 ^ 63 ≤ n ∧ n < 2 ^ 63 ∧ value = some (encodeInt 8 n)

def Stored.shown : Stored → Bytes
  | .text s => s
  | .time t => t.text
  | .bigint n => writeInt n

/-- The first columns of a row of a statement, in their order. -/
def Selects (fields : List MysqlField) (r : ClientRow) (stored : List Stored) : Prop :=
  ∀ i (h : i < stored.length), ∃ field, fields[i]? = some field ∧ (stored[i]).In field (r.values i)

section

variable {floats : FloatText} {fields : List MysqlField} {r : ClientRow} {columns : List ColumnMemory} {row : Row}
  {stored : List Stored}

theorem columnToString_text {field : MysqlField} (h : IsText field.type) (s : Bytes) :
    columnToString floats (holding field s) = .text s := by
  obtain ⟨type, length⟩ := field
  rcases h with h | h | h
  all_goals
    cases h
    rw [columnToString_holding rfl]
    simp [storedBytes, storedLength, bytesRead, cValueSize]

theorem fits_text {field : MysqlField} {s : Bytes} (h : IsText field.type) (hlength : field.type = .blob ∨ s.length ≤ field.length) :
    Fits field s := by
  apply hlength.imp_right
  intro hle
  obtain ⟨type, length⟩ := field
  rcases h with h | h | h
  all_goals
    cases h
    exact hle

theorem asString_stored (h : RowFetched fields r columns) {colno : ℕ} {field : MysqlField} {value : Stored}
    (hfield : fields[colno]? = some field) (hin : value.In field (r.values colno)) :
    Db.asString floats columns colno = .text value.shown := by
  cases value with
  | text s =>
    obtain ⟨htype, hlength, hvalue⟩ := hin
    rw [asString_value h hfield hvalue (fits_text htype hlength)]
    exact columnToString_text htype s
  | time t =>
    obtain ⟨htype, hprintable, rest, hvalue⟩ := hin
    exact stored_time floats h hfield htype hprintable hvalue
  | bigint n =>
    obtain ⟨htype, hlength, hlow, hhigh, hvalue⟩ := hin
    have hwidth : intWidth field.type = some 8 := by rw [htype]; rfl
    have hfits := fits_int hwidth hlength (encodeInt 8 n)
    rw [asString_value h hfield hvalue hfits, columnToString_int hwidth (length_encodeInt 8 n),
      signed_encodeInt (by decide), Int.bmod_eq_of_le (by omega) (by omega)]
    rfl

theorem rowOf_text (hrow : rowOf floats columns = some row) {colno : ℕ} {column : ColumnMemory} {s : Bytes}
    (hcolumn : columns[colno]? = some column) (h : columnToString floats column = .text s) :
    asString row colno = .ok s := by
  induction columns generalizing row colno with
  | nil => cases hcolumn
  | cons first columns ih =>
    obtain ⟨cell, hcell, hafter⟩ := Option.bind_eq_some_iff.mp hrow
    obtain ⟨rest, hrest, hreturn⟩ := Option.bind_eq_some_iff.mp hafter
    cases hreturn
    cases colno with
    | zero =>
      cases hcolumn
      rw [h] at hcell
      cases hcell
      rfl
    | succ colno => exact ih hrest hcolumn

theorem column_fetched (h : RowFetched fields r columns) {colno : ℕ} {field : MysqlField}
    (hfield : fields[colno]? = some field) : ∃ column, columns[colno]? = some column := by
  obtain ⟨indeterminate, earlier, hfetch⟩ := h.after
  obtain ⟨column, hcolumn, -⟩ := column_allocated hfield indeterminate earlier
  have hget := fetch_getElem? (congrArg Prod.snd hfetch) colno
  rw [hfetch, hcolumn] at hget
  exact ⟨_, hget⟩

theorem length_fetched (h : RowFetched fields r columns) : columns.length = fields.length := by
  obtain ⟨indeterminate, earlier, hfetch⟩ := h.after
  have hallocated : AllAllocated fields (fetchMemory (fetchAllMemory (newStmtMemory indeterminate fields) earlier) (.row r)).1 :=
    ((allAllocated_new indeterminate fields).fetchAll earlier).fetch (.row r)
  rw [hfetch] at hallocated
  exact hallocated.length_eq.symm

theorem rowOf_texts (h : List.Forall₂ (fun column (value : Stored) => columnToString floats column = .text value.shown)
    columns stored) : rowOf floats columns = some (stored.map fun value => .ok value.shown) := by
  induction h with
  | nil => rfl
  | cons hfirst _ ih =>
    rw [rowOf, hfirst, ih]
    rfl

/-- A statement of these columns alone has a row that is read whole. -/
theorem rowOf_selected (h : RowFetched fields r columns) (hselects : Selects fields r stored)
    (hlength : stored.length = fields.length) :
    rowOf floats columns = some (stored.map fun value => .ok value.shown) := by
  apply rowOf_texts
  apply List.forall₂_iff_get.mpr
  refine ⟨(length_fetched h).trans hlength.symm, ?_⟩
  intro i hcolumn hvalue
  obtain ⟨field, hfield, hin⟩ := hselects i hvalue
  have htext : Db.asString floats columns i = _ := asString_stored h hfield hin
  rw [Db.asString, List.getElem?_eq_getElem hcolumn] at htext
  exact htext

/-- The handlers see what the database holds. -/
theorem asString_selected (h : RowFetched fields r columns) (hselects : Selects fields r stored)
    (hrow : rowOf floats columns = some row) {colno : ℕ} (hcolno : colno < stored.length) :
    asString row colno = .ok stored[colno].shown := by
  obtain ⟨field, hfield, hin⟩ := hselects colno hcolno
  obtain ⟨column, hcolumn⟩ := column_fetched h hfield
  have htext : Db.asString floats columns colno = _ := asString_stored h hfield hin
  rw [Db.asString, hcolumn] at htext
  exact rowOf_text hrow hcolumn htext

end

namespace Sitemap

def zeroTime : Timestamp := ⟨0, 0, 0, 0, 0, 0⟩

/-- The time of a page: that of its creation if it was never modified. -/
def chosen (modified created : Timestamp) : Timestamp := if modified = zeroTime then created else modified

/-- The date and time of the sitemap protocol. -/
def w3c (t : Timestamp) : Bytes := t.date ++ ascii "T" ++ t.time ++ ascii "+00:00"

theorem length_date {t : Timestamp} (ht : t.Printable) : t.date.length = 10 := by
  have hlen := length_text ht
  have htime : t.time.length = 8 := by
    rw [Timestamp.time]
    simp only [List.length_append, setw_short ht (n := t.hour) (by simp [Timestamp.members]),
      setw_short ht (n := t.minute) (by simp [Timestamp.members]), setw_short ht (n := t.second) (by simp [Timestamp.members])]
    rfl
  rw [Timestamp.text, List.length_append, List.length_append, htime] at hlen
  have hspace : (ascii " ").length = 1 := rfl
  omega

theorem lastmod_text {url : Url} {t : Timestamp} (ht : t.Printable) (h : url.modified = t.text) : url.lastmod = w3c t := by
  have hlen := length_date ht
  have htake : t.text.take 10 = t.date := by
    rw [Timestamp.text, List.append_assoc]
    exact List.take_left' hlen
  have hdrop : t.text.drop 11 = t.time := by
    rw [Timestamp.text, List.append_assoc]
    exact drop_past hlen 32 t.time
  rw [Url.lastmod, h, htake, hdrop, w3c]

theorem zeroTime_text : zeroTime.text = zeroDate := by decide

theorem zeroTime_printable : zeroTime.Printable := ⟨by decide, by decide⟩

theorem text_eq_zeroDate {t : Timestamp} (ht : t.Printable) : t.text = zeroDate ↔ t = zeroTime := by
  rw [← zeroTime_text]
  constructor
  · exact text_inj ht zeroTime_printable
  · rintro rfl
    rfl

theorem printable_chosen {t t' : Timestamp} (ht : t.Printable) (ht' : t'.Printable) : (chosen t t').Printable := by
  rw [chosen]
  split_ifs
  · exact ht'
  · exact ht

theorem lastModified_stored {row : Row} {t t' : Timestamp} (h₁ : asString row 1 = .ok t.text)
    (h₂ : asString row 2 = .ok t'.text) (ht : t.Printable) : lastModified row = .ok (chosen t t').text := by
  rw [lastModified, h₁, chosen]
  change (if t.text ≠ zeroDate then Except.ok t.text else asString row 2) = _
  simp only [ne_eq, text_eq_zeroDate ht, h₂]
  split_ifs <;> simp_all

/-- The row gets a place in the sitemap, with the time that the database holds. -/
structure Listed (part : Part) (row : Row) (url : Url) (path : List Bytes) (t : Timestamp) : Prop where
  good : ∀ n, n ≠ 0 → RowGood n part row
  path : url.path = path
  lastmod : url.lastmod = w3c t

theorem year_text {t : Timestamp} (ht : t.Printable) : t.text.take 4 = setw 4 t.year := by
  rw [text_eq]
  exact List.take_left' (length_setw (by decide) ht.year)

theorem month_text {t : Timestamp} (ht : t.Printable) : (t.text.drop 5).take 2 = setw 2 t.month := by
  have hmonth : (setw 2 t.month).length = 2 := setw_short ht (by simp [Timestamp.members])
  rw [text_eq, drop_past (length_setw (by decide) ht.year)]
  exact List.take_left' hmonth

theorem listed_of_entry {part : Part} {url : Row → Url} {numPosts : Row → ℕ} (hlists : Lists part url numPosts) {row : Row}
    {entry : Entry} (hentry : part.entry row = .ok entry) {t : Timestamp} (ht : t.Printable)
    (hdate : entry.modifiedDt = t.text) : Listed part row (url row) (url row).path t where
  good n hn := ⟨entry, hentry, by rw [hdate, length_text ht]; decide, fun _ hzero => absurd hzero hn⟩
  path := rfl
  lastmod := lastmod_text ht ((hlists.entry row entry hentry).2.1.symm.trans hdate)

/-- The rows of WordPress' tables, of the types that its schema gives them. -/
structure StoredListed (hostname : Bytes) (fields : List MysqlField) (r : ClientRow) (row : Row) : Prop where
  page : ∀ name modified created, Selects fields r [.text name, .time modified, .time created] →
    Listed pages row (pageUrl row) [name] (chosen modified created)
  post : ∀ postType name modified created, Selects fields r [.text name, .time modified, .time created] →
    Listed (posts hostname postType) row (postUrl hostname row)
      (if hostname ≠ nginxguts then [ascii "wedding-cakes", name] else [setw 4 created.year, setw 2 created.month, name])
      (chosen modified created)
  category : ∀ taxonomy name modified numPosts, Selects fields r [.text name, .time modified, .bigint numPosts] →
    Listed (categories taxonomy) row (categoryUrl taxonomy row) [location taxonomy, name] modified ∧
      (0 ≤ numPosts → count row 2 = (min numPosts (2 ^ 31 - 1)).toNat)
  author : ∀ name modified, Selects fields r [.text name, .time modified] →
    Listed authors row (authorUrl row) [ascii "author", name] modified
  frontPage : ∀ modified numPosts, Selects fields r [.time modified, .bigint numPosts] →
    Listed (frontPage hostname) row (frontPageUrl row) [] modified ∧
      (0 ≤ numPosts → count row 1 = (min numPosts (2 ^ 31 - 1)).toNat)

theorem count_stored {row : Row} {colno : ℕ} {n : ℤ} (h : asString row colno = .ok (writeInt n)) (hn : 0 ≤ n) :
    count row colno = (min n (2 ^ 31 - 1)).toNat := by
  rw [count, column_eq h, readInt_writeInt, Option.getD_some]
  have hint : (Int32.ofInt (max (-2 ^ 31) (min (2 ^ 31 - 1) n))).toInt = max (-2 ^ 31) (min (2 ^ 31 - 1) n) := by
    apply Int32.toInt_ofInt_of_le <;> omega
  have hpos : 0 ≤ Int32.ofInt (max (-2 ^ 31) (min (2 ^ 31 - 1) n)) := by
    rw [Int32.le_iff_toInt_le, hint, Int32.toInt_zero]
    omega
  rw [Int32.toNat_toUInt32_of_le hpos, Int32.toNatClampNeg, hint]
  omega

section

variable {floats : FloatText} {fields : List MysqlField} {r : ClientRow} {columns : List ColumnMemory} {row : Row}

theorem printable_of_selects {stored : List Stored} (hselects : Selects fields r stored) {i : ℕ} {t : Timestamp}
    (h : stored[i]? = some (.time t)) : t.Printable := by
  obtain ⟨hi, hget⟩ := List.getElem?_eq_some_iff.mp h
  obtain ⟨field, -, hin⟩ := hselects i hi
  rw [hget] at hin
  exact hin.2.1

theorem storedListed_of_row (hostname : Bytes) (h : RowFetched fields r columns) (hrow : rowOf floats columns = some row) :
    StoredListed hostname fields r row where
  page name modified created hselects := by
    have hname : asString row 0 = .ok name := asString_selected h hselects hrow (show 0 < 3 by decide)
    have hmodified : asString row 1 = .ok modified.text := asString_selected h hselects hrow (show 1 < 3 by decide)
    have hcreated : asString row 2 = .ok created.text := asString_selected h hselects hrow (show 2 < 3 by decide)
    have hp := printable_of_selects hselects (i := 1) rfl
    have hp' := printable_of_selects hselects (i := 2) rfl
    have hentry : pages.entry row = .ok ⟨slash ++ name ++ slash, (chosen modified created).text, 0⟩ := by
      change pageEntry row = _
      rw [pageEntry, lastModified_stored hmodified hcreated hp, hname]
      rfl
    have hlisted := listed_of_entry lists_pages hentry (printable_chosen hp hp') rfl
    rw [pageUrl, column_eq hname] at hlisted ⊢
    exact hlisted
  post postType name modified created hselects := by
    have hname : asString row 0 = .ok name := asString_selected h hselects hrow (show 0 < 3 by decide)
    have hmodified : asString row 1 = .ok modified.text := asString_selected h hselects hrow (show 1 < 3 by decide)
    have hcreated : asString row 2 = .ok created.text := asString_selected h hselects hrow (show 2 < 3 by decide)
    have hp := printable_of_selects hselects (i := 1) rfl
    have hp' := printable_of_selects hselects (i := 2) rfl
    obtain ⟨entry, hentry, hdate⟩ : ∃ entry, (posts hostname postType).entry row = .ok entry ∧
        entry.modifiedDt = (chosen modified created).text := by
      change ∃ entry, postEntry hostname row = .ok entry ∧ _
      have hlen := length_text hp'
      have hyear : substr created.text 0 4 = .ok _ := if_pos (Nat.zero_le _)
      have hmonth : substr created.text 5 2 = .ok _ := if_pos (by omega)
      rw [postEntry, hcreated, lastModified_stored hmodified hcreated hp, hname]
      dsimp only [bind, Except.bind]
      rw [hyear, hmonth]
      by_cases hhost : hostname = nginxguts
      · rw [hhost]
        exact ⟨⟨_, (chosen modified created).text, 0⟩, rfl, rfl⟩
      · rw [if_pos hhost]
        exact ⟨⟨_, (chosen modified created).text, 0⟩, rfl, rfl⟩
    have hlisted := listed_of_entry (lists_posts hostname postType) hentry (printable_chosen hp hp') hdate
    refine ⟨hlisted.good, ?_, hlisted.lastmod⟩
    rw [postUrl, column_eq hname, column_eq hcreated]
    split_ifs
    · rfl
    · rw [year_text hp', month_text hp']
  category taxonomy name modified numPosts hselects := by
    have hname : asString row 0 = .ok name := asString_selected h hselects hrow (show 0 < 3 by decide)
    have hmodified : asString row 1 = .ok modified.text := asString_selected h hselects hrow (show 1 < 3 by decide)
    have hposts : asString row 2 = .ok (writeInt numPosts) := asString_selected h hselects hrow (show 2 < 3 by decide)
    obtain ⟨entry, hentry, hdate⟩ : ∃ entry, (categories taxonomy).entry row = .ok entry ∧
        entry.modifiedDt = modified.text := by
      change ∃ entry, categoryEntry taxonomy row = .ok entry ∧ _
      rw [categoryEntry, hmodified, asInt_of_text hposts, readInt_writeInt, hname]
      exact ⟨_, rfl, rfl⟩
    have hlisted := listed_of_entry (lists_categories taxonomy) hentry (printable_of_selects hselects (i := 1) rfl) hdate
    rw [categoryUrl, column_eq hname] at hlisted ⊢
    exact ⟨hlisted, count_stored hposts⟩
  author name modified hselects := by
    have hname : asString row 0 = .ok name := asString_selected h hselects hrow (show 0 < 2 by decide)
    have hmodified : asString row 1 = .ok modified.text := asString_selected h hselects hrow (show 1 < 2 by decide)
    obtain ⟨entry, hentry, hdate⟩ : ∃ entry, authors.entry row = .ok entry ∧ entry.modifiedDt = modified.text := by
      change ∃ entry, authorEntry row = .ok entry ∧ _
      rw [authorEntry, hmodified, hname]
      exact ⟨_, rfl, rfl⟩
    have hlisted := listed_of_entry lists_authors hentry (printable_of_selects hselects (i := 1) rfl) hdate
    rw [authorUrl, column_eq hname] at hlisted ⊢
    exact hlisted
  frontPage modified numPosts hselects := by
    have hmodified : asString row 0 = .ok modified.text := asString_selected h hselects hrow (show 0 < 2 by decide)
    have hposts : asString row 1 = .ok (writeInt numPosts) := asString_selected h hselects hrow (show 1 < 2 by decide)
    obtain ⟨entry, hentry, hdate⟩ : ∃ entry, (frontPage hostname).entry row = .ok entry ∧
        entry.modifiedDt = modified.text := by
      change ∃ entry, frontPageEntry row = .ok entry ∧ _
      rw [frontPageEntry, hmodified, asInt_of_text hposts, readInt_writeInt]
      exact ⟨_, rfl, rfl⟩
    have hlisted := listed_of_entry (lists_frontPage hostname) hentry (printable_of_selects hselects (i := 0) rfl) hdate
    exact ⟨hlisted, count_stored hposts⟩

theorem stored_listed (floats : FloatText) (hostname : Bytes) (h : RowFetched fields r columns) :
    (∀ stored, Selects fields r stored → stored.length = fields.length →
      rowOf floats columns = some (stored.map fun value => .ok value.shown)) ∧
    ∀ row, rowOf floats columns = some row → StoredListed hostname fields r row :=
  ⟨fun _ hselects hlength => rowOf_selected h hselects hlength, fun _ hrow => storedListed_of_row hostname h hrow⟩

end

def newsFields : List MysqlField := [⟨.varString, 200⟩, ⟨.datetime, 19⟩, countField]

def newsTime : Timestamp := ⟨2012, 5, 1, 10, 0, 0⟩

def newsRow : ClientRow where
  values i := [ascii "news", encodeTime newsTime [], encodeInt 8 300][i]?
  fetchesColumn _ := true
  fresh _ _ := 0

def newsColumns : List ColumnMemory := (fetchMemory (newStmtMemory emptyMemory newsFields) (.row newsRow)).1

theorem newsColumns_fetched : RowFetched newsFields newsRow newsColumns := rowFetched_of emptyMemory [] rfl

def newsStored : List Stored := [.text (ascii "news"), .time newsTime, .bigint 300]

theorem news_selects : Selects newsFields newsRow newsStored := by
  have hprintable : newsTime.Printable := ⟨by decide, by decide⟩
  intro i hi
  match i, hi with
  | 0, _ => exact ⟨_, rfl, Or.inr (Or.inl rfl), Or.inr (by decide), rfl⟩
  | 1, _ => exact ⟨_, rfl, Or.inl rfl, hprintable, [], rfl⟩
  | 2, _ => exact ⟨_, rfl, rfl, by decide, by decide, by decide, rfl⟩

theorem stored_listed_news : ∃ row, rowOf zeroFloats newsColumns = some row ∧ StoredListed nginxguts newsFields newsRow row := by
  obtain ⟨hwhole, hlisted⟩ := stored_listed zeroFloats nginxguts newsColumns_fetched
  exact ⟨_, hwhole newsStored news_selects rfl, hlisted _ (hwhole newsStored news_selects rfl)⟩

end Sitemap

end FcgiAppserver.Handlers
