import FcgiAppserver.SitemapHandler

namespace FcgiAppserver.Handlers.Sitemap

open ByteStrings ScopedEffects ScopedEffects.Act Xml

theorem toNat_remaining {numPosts : UInt32} {numPostsPerPage : UInt64} (h : numPosts.toUInt64 > numPostsPerPage) :
    (numPosts.toUInt64 - numPostsPerPage).toUInt32.toNat = numPosts.toNat - numPostsPerPage.toNat := by
  have hle : numPostsPerPage ≤ numPosts.toUInt64 := UInt64.le_of_lt h
  rw [UInt64.toNat_toUInt32, UInt64.toNat_sub_of_le _ _ hle, UInt32.toNat_toUInt64]
  have hlt := numPosts.toNat_lt
  omega

theorem eq_zero_of_not_gt {numPosts : UInt32} (h : ¬ numPosts.toUInt64 > 0) : numPosts = 0 := by
  have hle := UInt64.le_iff_toNat_le.mp (UInt64.not_lt.mp h)
  apply UInt32.toNat_inj.mp
  simpa using hle

theorem ne_zero_of_gt {numPosts : UInt32} {numPostsPerPage : UInt64} (h : numPosts.toUInt64 > numPostsPerPage) :
    numPosts ≠ 0 := by
  rintro rfl
  have hlt := UInt64.lt_iff_toNat_lt.mp h
  simp at hlt

theorem countdown_lt {numPostsPerPage : UInt64} (hpage : numPostsPerPage ≠ 0) {numPosts : UInt32}
    (hmore : countdown numPostsPerPage numPosts ≠ 0) :
    (countdown numPostsPerPage numPosts).toNat < numPosts.toNat := by
  have hpos : 0 < numPostsPerPage.toNat := Nat.pos_of_ne_zero (fun h => hpage (UInt64.toNat_inj.mp h))
  rw [countdown] at hmore ⊢
  split
  · rename_i hgt
    rw [toNat_remaining hgt]
    have hlt := UInt64.lt_iff_toNat_lt.mp hgt
    rw [UInt32.toNat_toUInt64] at hlt
    omega
  · rename_i hgt
    rw [if_neg hgt] at hmore
    exact absurd rfl hmore

theorem countdown_zero (numPosts : UInt32) : countdown 0 numPosts = numPosts := by
  rw [countdown]
  split
  · simp
  · rename_i hgt
    exact (eq_zero_of_not_gt hgt).symm

theorem categoryLoop_completes {numPostsPerPage : UInt64} (hpage : numPostsPerPage ≠ 0) {turns : ℕ}
    {numPosts page : UInt32} (hturns : numPosts.toNat ≤ turns) (hpos : 0 < turns) :
    (categoryLoop numPostsPerPage turns numPosts page).Completes := by
  induction turns generalizing numPosts page with
  | zero => omega
  | succ turns ih =>
    rw [categoryLoop]
    split_ifs with hmore
    · have hlt := countdown_lt hpage hmore
      have hne : (countdown numPostsPerPage numPosts).toNat ≠ 0 := fun h => hmore (UInt32.toNat_inj.mp h)
      have hrest : (categoryLoop numPostsPerPage turns (countdown numPostsPerPage numPosts) (page + 1)).Completes :=
        ih (by omega) (by omega)
      obtain ⟨pages, hpages⟩ := hrest
      exact completes_bind.mpr ⟨pages, hpages, completes_pure _⟩
    · exact completes_pure _

theorem categoryLoop_endless {numPosts : UInt32} (hposts : numPosts ≠ 0) (turns : ℕ) (page : UInt32) :
    ¬ (categoryLoop 0 turns numPosts page).Completes := by
  induction turns generalizing page with
  | zero => exact not_completes_die _
  | succ turns ih =>
    rw [categoryLoop, countdown_zero, if_pos hposts, completes_bind]
    rintro ⟨pages, hpages, -⟩
    exact ih (page + 1) ⟨pages, hpages⟩

theorem categoryLoop_not_throws (numPostsPerPage : UInt64) (turns : ℕ) (numPosts page : UInt32) :
    ¬ (categoryLoop numPostsPerPage turns numPosts page).Throws := by
  induction turns generalizing numPosts page with
  | zero => exact not_throws_die _
  | succ turns ih =>
    rw [categoryLoop]
    split_ifs with hmore
    · rw [throws_bind_of (fun _ => Iff.of_eq (eq_false (not_throws_pure _))), and_false, or_false]
      exact ih _ _
    · exact not_throws_pure _

theorem silent_categoryLoop (numPostsPerPage : UInt64) (turns : ℕ) (numPosts page : UInt32) :
    (categoryLoop numPostsPerPage turns numPosts page).Silent := by
  induction turns generalizing numPosts page with
  | zero => exact silent_die _
  | succ turns ih =>
    rw [categoryLoop]
    split_ifs with hmore
    · exact silent_bind (ih _ _) (fun _ => silent_pure _)
    · exact silent_pure _

/-- The loop's condition compares a remainder with its divisor. -/
theorem frontPageLoop_eq (numPostsPerPage : UInt64) (turns : ℕ) (numPosts page : UInt32) :
    frontPageLoop numPostsPerPage (turns + 1) numPosts page =
      if numPostsPerPage = 0 then die .undefined else pure [page + 1] := by
  rw [frontPageLoop]
  split_ifs with hzero hmod
  · rfl
  · have hpos : 0 < numPostsPerPage.toNat := Nat.pos_of_ne_zero (fun h => hzero (UInt64.toNat_inj.mp h))
    have hlt := Nat.mod_lt (numPosts.toUInt64 - numPostsPerPage).toUInt32.toUInt64.toNat hpos
    rw [← UInt64.toNat_mod, hmod] at hlt
    omega
  · rfl

theorem frontPage_pages (numPostsPerPage : UInt64) (numPosts : UInt32) :
    Pagination.frontPage.pages numPostsPerPage numPosts =
      if numPosts.toUInt64 > numPostsPerPage then
        if numPostsPerPage = 0 then die .undefined else pure [1 + 1]
      else pure [] := by
  rw [Pagination.pages]
  split
  · rename_i hgt
    obtain ⟨turns, hturns⟩ := Nat.exists_eq_succ_of_ne_zero (fun h => ne_zero_of_gt hgt (UInt32.toNat_inj.mp h))
    rw [hturns, frontPageLoop_eq]
  · rfl

theorem pages_not_throws (pagination : Pagination) (numPostsPerPage : UInt64) (numPosts : UInt32) :
    ¬ (pagination.pages numPostsPerPage numPosts).Throws := by
  cases pagination with
  | none => exact not_throws_pure _
  | category =>
    rw [Pagination.pages]
    split
    · exact categoryLoop_not_throws _ _ _ _
    · exact not_throws_pure _
  | frontPage =>
    rw [frontPage_pages]
    split_ifs
    · exact not_throws_die _
    · exact not_throws_pure _
    · exact not_throws_pure _

theorem silent_pages (pagination : Pagination) (numPostsPerPage : UInt64) (numPosts : UInt32) :
    (pagination.pages numPostsPerPage numPosts).Silent := by
  cases pagination with
  | none => exact silent_pure _
  | category =>
    rw [Pagination.pages]
    split
    · exact silent_categoryLoop _ _ _ _
    · exact silent_pure _
  | frontPage =>
    rw [frontPage_pages]
    split_ifs
    · exact silent_die _
    · exact silent_pure _
    · exact silent_pure _

theorem completes_pages {pagination : Pagination} {numPostsPerPage : UInt64} {numPosts : UInt32} :
    (pagination.pages numPostsPerPage numPosts).Completes ↔
      (pagination ≠ .none → numPostsPerPage = 0 → numPosts = 0) := by
  cases pagination with
  | none => simp [Pagination.pages]
  | category =>
    rw [Pagination.pages]
    split
    · rename_i hgt
      have hposts := ne_zero_of_gt hgt
      by_cases hpage : numPostsPerPage = 0
      · subst hpage
        refine iff_of_false ?_ (fun h => hposts (h nofun rfl))
        simpa using categoryLoop_endless hposts numPosts.toNat 1
      · refine iff_of_true (categoryLoop_completes hpage ?_ ?_) (fun _ h => absurd h hpage)
        · rw [toNat_remaining hgt]
          omega
        · exact Nat.pos_of_ne_zero (fun h => hposts (UInt32.toNat_inj.mp h))
    · rename_i hgt
      apply iff_of_true (completes_pure _)
      rintro - rfl
      exact eq_zero_of_not_gt hgt
  | frontPage =>
    rw [frontPage_pages]
    split_ifs with hgt hpage
    · exact iff_of_false (not_completes_die _) (fun h => ne_zero_of_gt hgt (h nofun hpage))
    · exact iff_of_true (completes_pure _) (fun _ h => absurd h hpage)
    · apply iff_of_true (completes_pure _)
      rintro - rfl
      exact eq_zero_of_not_gt hgt

section

variable {pool : Pool} {part : Part} {baseUrl : Bytes} {numPostsPerPage : UInt64}

/-- The row's columns can be read, its time has the place of the `T`, and its posts fit into pages. -/
def RowGood (numPostsPerPage : UInt64) (part : Part) (row : Row) : Prop :=
  ∃ entry, part.entry row = .ok entry ∧ 10 < entry.modifiedDt.length ∧
    (part.pagination ≠ .none → numPostsPerPage = 0 → entry.numPosts = 0)

/-- A blank text for a number throws nothing, and neither does a time that is too short. -/
def RowBad (part : Part) (row : Row) : Prop := ∃ e, part.entry row = .error (.inl e)

theorem markTime_completes {modifiedDt : Bytes} : (markTime modifiedDt).Completes ↔ 10 < modifiedDt.length := by
  rw [markTime]
  split_ifs with h <;> simp [h]

theorem markTime_not_throws (modifiedDt : Bytes) : ¬ (markTime modifiedDt).Throws := by
  rw [markTime]
  split_ifs <;> simp

theorem silent_markTime (modifiedDt : Bytes) : (markTime modifiedDt).Silent := by
  rw [markTime]
  split_ifs
  · exact silent_pure _
  · exact silent_die _

theorem silent_addRow (doc : XMLDoc) (row : Row) : (addRow baseUrl numPostsPerPage part doc row).Silent := by
  apply silent_bind (silent_ofExcept _)
  intro entry
  apply silent_bind (silent_markTime _)
  intro modifiedDt
  apply silent_bind (silent_pages _ _ _)
  intro pages
  exact silent_pure _

theorem completes_addRow (doc : XMLDoc) (row : Row) :
    (addRow baseUrl numPostsPerPage part doc row).Completes ↔ RowGood numPostsPerPage part row := by
  rw [addRow, RowGood]
  rcases hentry : part.entry row with (e | d) | entry
  · simp [ofExcept_bind_error]
  · simp [ofExcept_bind_dead]
  · rw [ofExcept_bind_ok, completes_bind_of (fun _ => completes_bind_of (fun _ => Iff.of_eq (eq_true (completes_pure _)))),
      markTime_completes, completes_pages]
    simp

theorem throws_addRow (doc : XMLDoc) (row : Row) :
    (addRow baseUrl numPostsPerPage part doc row).Throws ↔ RowBad part row := by
  rw [addRow, RowBad]
  rcases hentry : part.entry row with (e | d) | entry
  · simp [ofExcept_bind_error]
  · simp [ofExcept_bind_dead]
  · rw [ofExcept_bind_ok, throws_bind_of (fun _ => throws_bind_of (fun _ => Iff.of_eq (eq_false (not_throws_pure _))))]
    simp [markTime_not_throws, pages_not_throws]

def PartGood (pool : Pool) (numPostsPerPage : UInt64) (part : Part) : Prop :=
  (pool.reply part.query).Completes ((pool.reply part.query).AllRows (RowGood numPostsPerPage part) ∧
    (pool.reply part.query).Released (RowGood numPostsPerPage part))

def PartBad (pool : Pool) (numPostsPerPage : UInt64) (part : Part) : Prop :=
  (pool.reply part.query).Throws
    ((pool.reply part.query).AllRows (RowGood numPostsPerPage part) ∧
      (pool.reply part.query).Released (RowGood numPostsPerPage part))
    ((pool.reply part.query).RowsFail (RowGood numPostsPerPage part) (RowBad part) ∧
      (pool.reply part.query).Released (RowGood numPostsPerPage part))

theorem silent_addPart (doc : XMLDoc) (part : Part) : (addPart pool baseUrl numPostsPerPage doc part).Silent := by
  apply silent_dbStmt
  exact silent_rows silent_addRow doc

theorem completes_addPart (doc : XMLDoc) (part : Part) :
    (addPart pool baseUrl numPostsPerPage doc part).Completes ↔ PartGood pool numPostsPerPage part :=
  completes_dbStmt (completes_whileFetch part.bound completes_addRow doc)

theorem throws_addPart (doc : XMLDoc) (part : Part) :
    (addPart pool baseUrl numPostsPerPage doc part).Throws ↔ PartBad pool numPostsPerPage part :=
  throws_dbStmt (completes_whileFetch part.bound completes_addRow doc)
    (throws_whileFetch part.bound completes_addRow throws_addRow doc)

end

section

variable {pool : Pool} {hostname : Bytes} {xml : Libxml} {request : Request} {sites : PoolContainer}

def OptionGood (pool : Pool) (q : Query) (Good : Row → Prop) : Prop :=
  (pool.reply q).Completes ((pool.reply q).FirstRow Good)

def OptionBad (pool : Pool) (q : Query) (Good : Row → Prop) : Prop :=
  (pool.reply q).Throws ((pool.reply q).FirstRow Good) ((pool.reply q).FirstFails (¬ Readable · 0))

section

variable {α : Type} {q : Query} {read : Option Row → Act α} {Good : Row → Prop}

theorem silent_option (h : ∀ row, (read row).Silent) :
    (dbStmt pool q fun stmt => do stmt.execute; let row ← stmt.fetch; read row).Silent := by
  apply silent_dbStmt
  rw [Counted.act_bind]
  apply silent_bind silent_execute
  intro _
  rw [Counted.act_bind]
  exact silent_bind silent_fetch h

theorem completes_option (hbound : none ∉ q.bound) (hnone : (read none).Completes)
    (hgood : ∀ row, (read (some row)).Completes ↔ Good row) :
    (dbStmt pool q fun stmt => do stmt.execute; let row ← stmt.fetch; read row).Completes ↔ OptionGood pool q Good := by
  apply completes_dbStmt
  rw [freeing_eq (count_first (fun _ => rfl))]
  exact completes_first hbound hnone hgood

theorem throws_option (hbound : none ∉ q.bound) (hnone : (read none).Completes ∧ ¬ (read none).Throws)
    (hgood : ∀ row, (read (some row)).Completes ↔ Good row) (hbad : ∀ row, (read (some row)).Throws ↔ ¬ Readable row 0) :
    (dbStmt pool q fun stmt => do stmt.execute; let row ← stmt.fetch; read row).Throws ↔ OptionBad pool q Good := by
  apply throws_dbStmt
  · rw [freeing_eq (count_first (fun _ => rfl))]
    exact completes_first hbound hnone.1 hgood
  · rw [freeing_eq (count_first (fun _ => rfl))]
    exact throws_first hbound hnone.2 hbad

end

theorem homeQuery_bound : none ∉ homeQuery.bound := query_bound (parameters_ofList rfl)

theorem postsPerPageQuery_bound : none ∉ postsPerPageQuery.bound := query_bound (parameters_ofList rfl)

theorem silent_getBaseUrl : (getBaseUrl pool).Silent := by
  apply silent_option
  rintro (- | row)
  · exact silent_pure _
  · exact silent_ofExcept _

theorem completes_getBaseUrl : (getBaseUrl pool).Completes ↔ OptionGood pool homeQuery (Readable · 0) :=
  completes_option homeQuery_bound (completes_pure _) (fun _ => completes_ofExcept)

theorem throws_getBaseUrl : (getBaseUrl pool).Throws ↔ OptionBad pool homeQuery (Readable · 0) :=
  throws_option homeQuery_bound ⟨completes_pure _, not_throws_pure _⟩ (fun _ => completes_ofExcept)
    (fun _ => throws_ofExcept.trans asString_error)

theorem map_toSize_ok {row : Row} : (∃ n, (asInt row 0).map toSize = .ok n) ↔ ReadsInt row 0 := by
  rw [← asInt_ok]
  cases asInt row 0 <;> simp [Except.map]

theorem map_toSize_error {row : Row} : (∃ e, (asInt row 0).map toSize = .error (.inl e)) ↔ ¬ Readable row 0 := by
  rw [← asInt_error]
  cases asInt row 0 <;> simp [Except.map]

theorem silent_getNumPostsPerPage : (getNumPostsPerPage pool).Silent := by
  apply silent_option
  rintro (- | row)
  · exact silent_pure _
  · exact silent_ofExcept _

theorem completes_getNumPostsPerPage :
    (getNumPostsPerPage pool).Completes ↔ OptionGood pool postsPerPageQuery (ReadsInt · 0) :=
  completes_option postsPerPageQuery_bound (completes_pure _) (fun _ => completes_ofExcept.trans map_toSize_ok)

theorem throws_getNumPostsPerPage :
    (getNumPostsPerPage pool).Throws ↔ OptionBad pool postsPerPageQuery (ReadsInt · 0) :=
  throws_option postsPerPageQuery_bound ⟨completes_pure _, not_throws_pure _⟩
    (fun _ => completes_ofExcept.trans map_toSize_ok) (fun _ => throws_ofExcept.trans map_toSize_error)

/-- The page size of a database whose option can be read. -/
def numPostsPerPage (pool : Pool) : UInt64 :=
  match (pool.reply postsPerPageQuery).rows with
  | row :: _ => ((asInt row 0).map toSize).toOption.getD 10
  | [] => 10

theorem getNumPostsPerPage_done {n : UInt64} (h : (getNumPostsPerPage pool).ending = .done n) :
    n = numPostsPerPage pool := by
  have hblock := dbStmt_done h
  rw [act_first postsPerPageQuery_bound, stmt_toReply] at hblock
  rw [numPostsPerPage]
  cases hrows : (pool.reply postsPerPageQuery).rows with
  | nil =>
    rw [hrows] at hblock
    obtain ⟨-, -, hfetch⟩ := bind_ending_done.mp hblock
    obtain ⟨-, -, hnone⟩ := bind_ending_done.mp hfetch
    cases hnone
    rfl
  | cons row rows =>
    rw [hrows] at hblock
    obtain ⟨-, -, hvalue⟩ := bind_ending_done.mp hblock
    dsimp only
    rw [ofExcept_done hvalue]
    rfl

def UrlsetCompletes (pool : Pool) (hostname : Bytes) : Prop :=
  pool.connectFails = none ∧ OptionGood pool homeQuery (Readable · 0) ∧
    OptionGood pool postsPerPageQuery (ReadsInt · 0) ∧
    ∀ part ∈ parts hostname, PartGood pool (numPostsPerPage pool) part

/-- Of the steps of the `try` block in their order, the first that does not complete throws. -/
def UrlsetThrows (pool : Pool) (hostname : Bytes) : Prop :=
  pool.connectFails ≠ none ∨ OptionBad pool homeQuery (Readable · 0) ∨
    (OptionGood pool homeQuery (Readable · 0) ∧
      (OptionBad pool postsPerPageQuery (ReadsInt · 0) ∨ (OptionGood pool postsPerPageQuery (ReadsInt · 0) ∧
      StopsAt (PartGood pool (numPostsPerPage pool)) (PartBad pool (numPostsPerPage pool)) (parts hostname))))

theorem silent_urlset : (urlset pool hostname).Silent := by
  apply silent_bind (silent_failing _)
  intro _
  apply silent_bind silent_getBaseUrl
  intro baseUrl
  apply silent_bind silent_getNumPostsPerPage
  intro n
  exact silent_foldlM silent_addPart _ _

theorem completes_urlset : (urlset pool hostname).Completes ↔ UrlsetCompletes pool hostname := by
  have hparts : ∀ baseUrl n, (getNumPostsPerPage pool).ending = .done n →
      (((parts hostname).foldlM (addPart pool baseUrl n) (emptyDoc hostname)).Completes ↔
        ∀ part ∈ parts hostname, PartGood pool (numPostsPerPage pool) part) := by
    intro baseUrl n hn
    rw [completes_foldlM completes_addPart, getNumPostsPerPage_done hn]
  rw [urlset, completes_bind_of (fun _ => completes_bind_of (fun baseUrl => completes_bind_when (hparts baseUrl))),
    dbConnHolder, completes_failing, completes_getBaseUrl, completes_getNumPostsPerPage, Option.map_eq_none_iff,
    UrlsetCompletes]

theorem throws_urlset : (urlset pool hostname).Throws ↔ UrlsetThrows pool hostname := by
  have hparts : ∀ baseUrl n, (getNumPostsPerPage pool).ending = .done n →
      (((parts hostname).foldlM (addPart pool baseUrl n) (emptyDoc hostname)).Throws ↔
        StopsAt (PartGood pool (numPostsPerPage pool)) (PartBad pool (numPostsPerPage pool)) (parts hostname)) := by
    intro baseUrl n hn
    rw [throws_foldlM completes_addPart throws_addPart, getNumPostsPerPage_done hn]
  rw [urlset, throws_bind_of (fun _ => throws_bind_of (fun baseUrl => throws_bind_when (hparts baseUrl))),
    dbConnHolder, throws_failing, completes_failing, throws_getBaseUrl, completes_getBaseUrl,
    throws_getNumPostsPerPage, completes_getNumPostsPerPage, ne_eq, Option.map_eq_none_iff, UrlsetThrows]
  tauto

def HandleAnswers (sites : PoolContainer) (xml : Libxml) (hostname : Bytes) : Prop :=
  ∀ pool, sites[hostname]? = some pool →
    UrlsetThrows pool hostname ∨ (UrlsetCompletes pool hostname ∧ xml.fails = false)

theorem handle_answers : Answers ((handle sites xml request).catching onException) ↔
    HandleAnswers sites xml (request.getFcgiParam serverName) := by
  rw [handle, HandleAnswers]
  cases sites[request.getFcgiParam serverName]? with
  | none =>
    apply iff_of_true (answers_returnError _ 200)
    intro pool hpool
    cases hpool
  | some pool =>
    simp only [Option.some.injEq, forall_eq']
    rw [answers_onDbException (send_silent_or_begun silent_urlset), answerable_send silent_urlset, throws_urlset,
      completes_urlset]

end

end FcgiAppserver.Handlers.Sitemap
