import FcgiAppserver.SitemapPages
import FcgiAppserver.WorkerTurn

namespace FcgiAppserver.Handlers.Sitemap

open ByteStrings Dispatch Json ScopedEffects ScopedEffects.Act Xml

def column (row : Row) (colno : ℕ) : Bytes := (asString row colno).toOption.getD []

def count (row : Row) (colno : ℕ) : ℕ := ((readInt (column row colno)).getD 0).toUInt32.toNat

/-- A page of the site: its path below the home, cut at the slashes, and when it was last modified. -/
structure Url where
  path : List Bytes
  modified : Bytes
  changefreq : Bytes

def Url.loc (baseUrl : Bytes) (url : Url) : Bytes := baseUrl ++ url.path.flatMap (slash ++ ·) ++ slash

def Url.lastmod (url : Url) : Bytes := url.modified.take 10 ++ ascii "T" ++ url.modified.drop 11 ++ ascii "+00:00"

def Url.node (baseUrl : Bytes) (url : Url) : XMLNode :=
  .element (ascii "url") [] [element (ascii "loc") (url.loc baseUrl), element (ascii "lastmod") url.lastmod,
    element (ascii "changefreq") url.changefreq, element (ascii "priority") (ascii "1")]

def Url.page (url : Url) (number : ℕ) : Url := { url with path := url.path ++ [ascii "page", writeNat number] }

def modified (row : Row) : Bytes := if column row 1 ≠ zeroDate then column row 1 else column row 2

def pageUrl (row : Row) : Url := ⟨[column row 0], modified row, ascii "weekly"⟩

def postUrl (hostname : Bytes) (row : Row) : Url :=
  if hostname ≠ nginxguts then ⟨[ascii "wedding-cakes", column row 0], modified row, ascii "weekly"⟩
  else ⟨[(column row 2).take 4, ((column row 2).drop 5).take 2, column row 0], modified row, ascii "monthly"⟩

def location (taxonomy : Bytes) : Bytes := if taxonomy = ascii "placecategory" then ascii "weddingcakes" else taxonomy

def categoryUrl (taxonomy : Bytes) (row : Row) : Url :=
  ⟨[location taxonomy, column row 0], column row 1, ascii "daily"⟩

def authorUrl (row : Row) : Url := ⟨[ascii "author", column row 0], column row 1, ascii "daily"⟩

def frontPageUrl (row : Row) : Url := ⟨[], column row 0, ascii "daily"⟩

/-- The pages after the first, as many as the posts need; the front page's list ends at its second page. -/
def Pagination.numbers (pagination : Pagination) (numPostsPerPage numPosts : ℕ) : List ℕ :=
  match pagination with
  | .none => []
  | .category => List.range' 2 (pageCount numPosts numPostsPerPage - 1)
  | .frontPage => if numPostsPerPage < numPosts then [2] else []

def Url.paged (url : Url) (numbers : List ℕ) : List Url := url :: numbers.map url.page

section

variable (pool : Pool) (hostname : Bytes)

def rows (part : Part) : List Row := (pool.reply part.query).rows

def home : Bytes :=
  match (pool.reply homeQuery).rows with
  | row :: _ => column row 0
  | [] => []

def pageUrls : List Url := (rows pool pages).map pageUrl

def postUrls : List Url :=
  (postTypes hostname).flatMap fun postType => (rows pool (posts hostname postType)).map (postUrl hostname)

def categoryUrls : List Url :=
  (taxonomyTypes hostname).flatMap fun taxonomy => (rows pool (categories taxonomy)).flatMap fun row =>
    (categoryUrl taxonomy row).paged (Pagination.category.numbers (numPostsPerPage pool).toNat (count row 2))

def authorUrls : List Url := if hostname = nginxguts then (rows pool authors).map authorUrl else []

def frontPageUrls : List Url :=
  (rows pool (frontPage hostname)).flatMap fun row =>
    (frontPageUrl row).paged ((frontPage hostname).pagination.numbers (numPostsPerPage pool).toNat (count row 1))

def urls : List Url :=
  pageUrls pool ++ postUrls pool hostname ++ categoryUrls pool hostname ++ authorUrls pool hostname ++
    frontPageUrls pool hostname

def document : XMLDoc :=
  { emptyDoc hostname with root := .element (ascii "urlset") [] ((urls pool hostname).map (Url.node (home pool))) }

end

theorem column_eq {row : Row} {colno : ℕ} {s : Bytes} (h : asString row colno = .ok s) : column row colno = s := by
  rw [column, h]
  rfl

theorem count_eq {row : Row} {colno : ℕ} {i : Int32} (h : asInt row colno = .ok i) :
    count row colno = i.toUInt32.toNat := by
  obtain ⟨s, n, hs, hn⟩ := asInt_ok.mp ⟨i, h⟩
  rw [asInt_of_text hs, hn] at h
  rw [count, column_eq hs, hn, Option.getD_some, Except.ok.inj h]

theorem lastModified_ok {row : Row} {dt : Bytes} (h : lastModified row = .ok dt) : dt = modified row := by
  obtain ⟨first, hfirst, hrest⟩ := bind_ok h
  rw [modified, column_eq hfirst]
  split_ifs at hrest ⊢ with hzero
  · exact Except.ok.inj (hrest.symm.trans hfirst)
  · exact (column_eq hrest).symm

theorem substr_ok {s t : Bytes} {pos n : ℕ} (h : (substr s pos n).mapError outOfRange = .ok t) :
    t = (s.drop pos).take n := by
  rw [substr] at h
  split_ifs at h
  · exact (Except.ok.inj h).symm
  · cases h

/-- What a block's columns are read as. -/
structure Lists (part : Part) (url : Row → Url) (numPosts : Row → ℕ) : Prop where
  entry : ∀ row e, part.entry row = .ok e → e.path = (url row).path.flatMap (slash ++ ·) ++ slash ∧
    e.modifiedDt = (url row).modified ∧ (part.pagination ≠ .none → e.numPosts.toNat = numPosts row)
  changefreq : ∀ row, (url row).changefreq = part.changefreq

theorem lists_pages : Lists pages pageUrl (fun _ => 0) where
  entry row e h := by
    obtain ⟨dt, hdt, hrest⟩ := bind_ok h
    obtain ⟨name, hname, hentry⟩ := bind_ok hrest
    cases hentry
    rw [pageUrl, column_eq hname, ← lastModified_ok hdt]
    exact ⟨by simp, rfl, fun hpaged => absurd rfl hpaged⟩
  changefreq _ := rfl

theorem lists_posts (hostname postType : Bytes) : Lists (posts hostname postType) (postUrl hostname) (fun _ => 0) where
  entry row e h := by
    obtain ⟨dt, hdt, hrest⟩ := bind_ok h
    obtain ⟨modifiedDt, hmodified, hentry⟩ := bind_ok hrest
    rw [postUrl, column_eq hdt, ← lastModified_ok hmodified]
    split_ifs at hentry ⊢
    · obtain ⟨name, hname, hreturn⟩ := bind_ok hentry
      cases hreturn
      have hcakes : ascii "/wedding-cakes/" = slash ++ ascii "wedding-cakes" ++ slash := rfl
      rw [column_eq hname, hcakes]
      exact ⟨by simp, rfl, fun hpaged => absurd rfl hpaged⟩
    · obtain ⟨year, hyear, hafter⟩ := bind_ok hentry
      obtain ⟨month, hmonth, hlast⟩ := bind_ok hafter
      obtain ⟨name, hname, hreturn⟩ := bind_ok hlast
      cases hreturn
      rw [column_eq hname, substr_ok hyear, substr_ok hmonth]
      exact ⟨by simp, rfl, fun hpaged => absurd rfl hpaged⟩
  changefreq row := by
    rw [postUrl, posts]
    split_ifs <;> rfl

theorem lists_categories (taxonomy : Bytes) : Lists (categories taxonomy) (categoryUrl taxonomy) (count · 2) where
  entry row e h := by
    obtain ⟨modifiedDt, hmodified, hrest⟩ := bind_ok h
    obtain ⟨numPosts, hposts, hafter⟩ := bind_ok hrest
    obtain ⟨name, hname, hreturn⟩ := bind_ok hafter
    cases hreturn
    rw [categoryUrl, column_eq hname, column_eq hmodified, count_eq hposts, location]
    exact ⟨by simp, rfl, fun _ => rfl⟩
  changefreq _ := rfl

theorem lists_authors : Lists authors authorUrl (fun _ => 0) where
  entry row e h := by
    obtain ⟨modifiedDt, hmodified, hrest⟩ := bind_ok h
    obtain ⟨name, hname, hreturn⟩ := bind_ok hrest
    cases hreturn
    have hauthor : ascii "/author/" = slash ++ ascii "author" ++ slash := rfl
    rw [authorUrl, column_eq hname, column_eq hmodified, hauthor]
    exact ⟨by simp, rfl, fun hpaged => absurd rfl hpaged⟩
  changefreq _ := rfl

theorem lists_frontPage (hostname : Bytes) : Lists (frontPage hostname) frontPageUrl (count · 1) where
  entry row e h := by
    obtain ⟨modifiedDt, hmodified, hrest⟩ := bind_ok h
    obtain ⟨numPosts, hposts, hreturn⟩ := bind_ok hrest
    cases hreturn
    rw [frontPageUrl, column_eq hmodified, count_eq hposts]
    exact ⟨by simp, rfl, fun _ => rfl⟩
  changefreq _ := rfl

theorem pages_done {pagination : Pagination} {numPostsPerPage : UInt64} {numPosts : UInt32} {numbers : List UInt32}
    (h : (pagination.pages numPostsPerPage numPosts).ending = .done numbers) :
    numbers.map UInt32.toNat = pagination.numbers numPostsPerPage.toNat numPosts.toNat := by
  have hcompletes := completes_pages.mp ⟨numbers, h⟩
  cases pagination with
  | none =>
    cases h
    rfl
  | category =>
    by_cases hpage : numPostsPerPage = 0
    · rw [hcompletes nofun hpage, hpage] at h ⊢
      cases h
      rfl
    · have hone : 1 ≤ numPostsPerPage := by
        rw [UInt64.le_iff_toNat_le, UInt64.toNat_one]
        exact Nat.pos_of_ne_zero (fun hzero => hpage (UInt64.toNat_inj.mp hzero))
      rw [category_pages hone] at h
      cases h
      exact pageNumbers_toNat hone numPosts
  | frontPage =>
    rw [frontPage_pages] at h
    split_ifs at h with hmore hpage
    · cases h
    · cases h
      exact (if_pos (gt_iff.mp hmore)).symm
    · cases h
      exact (if_neg (fun hlt => hmore (gt_iff.mpr hlt))).symm

def addUrls (baseUrl : Bytes) (doc : XMLDoc) (urls : List Url) : XMLDoc :=
  urls.foldl (fun doc url => doc.add (url.node baseUrl)) doc

theorem addUrls_root {baseUrl : Bytes} {doc : XMLDoc} {name : Bytes} {attrs : List (Bytes × Bytes)}
    {children : List XMLNode} (hroot : doc.root = .element name attrs children) (urls : List Url) :
    addUrls baseUrl doc urls =
      { doc with root := .element name attrs (children ++ urls.map (Url.node baseUrl)) } := by
  induction urls generalizing doc children with
  | nil =>
    cases doc
    rw [List.map_nil, List.append_nil, ← hroot]
    rfl
  | cons url urls ih =>
    have hadd : (doc.add (url.node baseUrl)).root = .element name attrs (children ++ [url.node baseUrl]) := by
      rw [XMLDoc.add, hroot]
      rfl
    rw [List.map_cons, List.append_cons]
    exact ih hadd

theorem markTime_done {modifiedDt marked : Bytes} (h : (markTime modifiedDt).ending = .done marked) :
    marked = modifiedDt.take 10 ++ ascii "T" ++ modifiedDt.drop 11 := by
  rw [markTime] at h
  split_ifs at h with hlong
  · cases h
    rw [List.set_eq_take_append_cons_drop, if_pos hlong]
    simp [ascii]
  · cases h

theorem addUrl_eq (doc : XMLDoc) (baseUrl : Bytes) (url : Url) :
    addUrl doc (url.loc baseUrl) url.lastmod url.changefreq = doc.add (url.node baseUrl) := rfl

theorem page_loc (baseUrl : Bytes) (url : Url) (number : ℕ) :
    (url.page number).loc baseUrl = url.loc baseUrl ++ ascii "page/" ++ writeNat number ++ slash := by
  have hpage : ascii "page/" = ascii "page" ++ slash := rfl
  rw [Url.loc, Url.loc, Url.page, hpage]
  simp

section

variable {pool : Pool} {baseUrl : Bytes} {n : UInt64} {part : Part} {url : Row → Url} {numPosts : Row → ℕ}

theorem addRow_done (hlists : Lists part url numPosts) (doc : XMLDoc) (row : Row) (doc' : XMLDoc)
    (h : (addRow baseUrl n part doc row).ending = .done doc') :
    doc' = addUrls baseUrl doc ((url row).paged (part.pagination.numbers n.toNat (numPosts row))) := by
  obtain ⟨entry, hentry, hrest⟩ := bind_ending_done.mp h
  obtain ⟨marked, hmarked, hafter⟩ := bind_ending_done.mp hrest
  obtain ⟨numbers, hnumbers, hreturn⟩ := bind_ending_done.mp hafter
  obtain ⟨hpath, hdate, hposts⟩ := hlists.entry row entry (ofExcept_done hentry)
  have hloc : (url row).loc baseUrl = baseUrl ++ entry.path := by rw [Url.loc, hpath, List.append_assoc]
  have hlastmod : (url row).lastmod = marked ++ ascii "+00:00" := by rw [Url.lastmod, markTime_done hmarked, hdate]
  have hnumber : numbers.map UInt32.toNat = part.pagination.numbers n.toNat (numPosts row) := by
    rw [pages_done hnumbers]
    cases hpagination : part.pagination with
    | none => rfl
    | category => rw [hposts (hpagination ▸ nofun)]
    | frontPage => rw [hposts (hpagination ▸ nofun)]
  have hfirst : ∀ doc, addUrl doc (baseUrl ++ entry.path) (marked ++ ascii "+00:00") part.changefreq =
      doc.add ((url row).node baseUrl) := by
    intro doc
    rw [← hloc, ← hlastmod, ← hlists.changefreq row, addUrl_eq]
  have hpage : ∀ doc number, addUrl doc (baseUrl ++ entry.path ++ ascii "page/" ++ writeNat number ++ slash)
      (marked ++ ascii "+00:00") part.changefreq = doc.add (((url row).page number).node baseUrl) := by
    intro doc number
    rw [← hloc, ← hlastmod, ← hlists.changefreq row, ← page_loc, ← addUrl_eq]
    rfl
  cases hreturn
  simp only [hfirst, hpage]
  rw [addUrls, Url.paged, List.foldl_cons, ← hnumber, List.foldl_map, List.foldl_map]

theorem addPart_done (hlists : Lists part url numPosts) {doc doc' : XMLDoc}
    (h : (addPart pool baseUrl n doc part).ending = .done doc') :
    doc' = addUrls baseUrl doc ((rows pool part).flatMap fun row =>
      (url row).paged (part.pagination.numbers n.toNat (numPosts row))) := by
  rw [addUrls, List.foldl_flatMap]
  exact whileFetch_done (addRow_done hlists) (dbStmt_done h)

/-- The blocks add their URLs to the document. -/
def Adds (pool : Pool) (baseUrl : Bytes) (n : UInt64) (parts : List Part) (urls : List Url) : Prop :=
  ∀ doc doc', (parts.foldlM (addPart pool baseUrl n) doc).ending = .done doc' → doc' = addUrls baseUrl doc urls

theorem adds_nil : Adds pool baseUrl n [] [] := by
  intro doc doc' h
  cases h
  rfl

theorem adds_append {parts₁ parts₂ : List Part} {urls₁ urls₂ : List Url} (h₁ : Adds pool baseUrl n parts₁ urls₁)
    (h₂ : Adds pool baseUrl n parts₂ urls₂) : Adds pool baseUrl n (parts₁ ++ parts₂) (urls₁ ++ urls₂) := by
  intro doc doc' h
  rw [List.foldlM_append] at h
  obtain ⟨doc₁, hfirst, hsecond⟩ := bind_ending_done.mp h
  rw [addUrls, List.foldl_append, ← addUrls, ← addUrls, ← h₁ doc doc₁ hfirst]
  exact h₂ doc₁ doc' hsecond

theorem adds_part (hlists : Lists part url numPosts) :
    Adds pool baseUrl n [part] ((rows pool part).flatMap fun row =>
      (url row).paged (part.pagination.numbers n.toNat (numPosts row))) := by
  intro doc doc' h
  rw [List.foldlM_cons] at h
  obtain ⟨doc₁, hpart, hnil⟩ := bind_ending_done.mp h
  cases hnil
  exact addPart_done hlists hpart

theorem adds_unpaged (hlists : Lists part url numPosts) (hpagination : part.pagination = .none) :
    Adds pool baseUrl n [part] ((rows pool part).map url) := by
  have hadds : Adds pool baseUrl n [part] _ := adds_part hlists
  rw [hpagination] at hadds
  rw [List.map_eq_flatMap]
  exact hadds

theorem adds_map {ι : Type} {f : ι → Part} {urls : ι → List Url} (h : ∀ i, Adds pool baseUrl n [f i] (urls i))
    (is : List ι) : Adds pool baseUrl n (is.map f) (is.flatMap urls) := by
  induction is with
  | nil => exact adds_nil
  | cons i is ih => exact adds_append (h i) ih

theorem adds_parts (pool : Pool) (baseUrl : Bytes) (hostname : Bytes) :
    Adds pool baseUrl (numPostsPerPage pool) (parts hostname) (urls pool hostname) := by
  rw [parts, urls, ← List.singleton_append]
  apply adds_append
  · apply adds_append
    · apply adds_append
      · apply adds_append
        · exact adds_unpaged lists_pages rfl
        · exact adds_map (fun postType => adds_unpaged (lists_posts hostname postType) rfl) _
      · exact adds_map (fun taxonomy => adds_part (lists_categories taxonomy)) _
    · rw [authorUrls]
      split_ifs
      · exact adds_unpaged lists_authors rfl
      · exact adds_nil
  · exact adds_part (lists_frontPage hostname)

theorem getBaseUrl_done {baseUrl : Bytes} (h : (getBaseUrl pool).ending = .done baseUrl) : baseUrl = home pool := by
  have hblock := dbStmt_done h
  rw [act_first homeQuery_bound, stmt_toReply] at hblock
  rw [home]
  cases hrows : (pool.reply homeQuery).rows with
  | nil =>
    rw [hrows] at hblock
    obtain ⟨-, -, hfetch⟩ := bind_ending_done.mp hblock
    obtain ⟨-, -, hnone⟩ := bind_ending_done.mp hfetch
    cases hnone
    rfl
  | cons row rows =>
    rw [hrows] at hblock
    obtain ⟨-, -, hvalue⟩ := bind_ending_done.mp hblock
    exact (column_eq (ofExcept_done hvalue)).symm

theorem urlset_done {hostname : Bytes} {doc : XMLDoc} (h : (urlset pool hostname).ending = .done doc) :
    doc = document pool hostname := by
  obtain ⟨-, -, hhome⟩ := bind_ending_done.mp h
  obtain ⟨baseUrl, hbase, hpage⟩ := bind_ending_done.mp hhome
  obtain ⟨n, hn, hparts⟩ := bind_ending_done.mp hpage
  rw [getNumPostsPerPage_done hn, getBaseUrl_done hbase] at hparts
  have hroot : (emptyDoc hostname).root = .element (ascii "urlset") [] [] := by
    rw [emptyDoc]
    split_ifs <;> rfl
  rw [adds_parts pool (home pool) hostname _ _ hparts, addUrls_root hroot, document, List.nil_append]

end

def sitemapXml : List (Bytes × Bytes) := [(contentTypeName, ascii "application/xml")]

theorem handle_done {sites : PoolContainer} {pool : Pool} {request : Request}
    (hsite : sites[request.getFcgiParam serverName]? = some pool) (xml : Libxml) :
    handle sites xml request = (do
      let doc ← urlset pool (request.getFcgiParam serverName)
      sendDoc xml (ascii "application/xml") doc : Act Unit).catching onDbException := by
  rw [handle]
  simp only [hsite]

/-- The turn sends the sitemap and comes to its end, or it does not send the sitemap whole. -/
theorem sitemap_sent (server : FcgiServer Handler) (xml : Libxml) (request : Request) (sites : PoolContainer)
    (pool : Pool) (hname : (fcgxGetParam scriptName request.envp).isSome)
    (hhandler : handlerFor server request.getScriptName = some (.sitemap sites))
    (hsite : sites[request.getFcgiParam serverName]? = some pool) :
    workerTurn server xml request =
        ⟨response 200 sitemapXml [xml.text (document pool (request.getFcgiParam serverName))], .done ()⟩ ↔
      UrlsetCompletes pool (request.getFcgiParam serverName) ∧ xml.fails = false := by
  obtain ⟨name, hscript⟩ := Option.isSome_iff_exists.mp hname
  have hsilent : (urlset pool (request.getFcgiParam serverName)).out = [] := silent_urlset
  have hcompletes : (urlset pool (request.getFcgiParam serverName)).Completes ↔ _ := completes_urlset
  rw [← hcompletes, workerTurn, tryInvoke, hscript]
  dsimp only
  rw [Handlers.invokeHandler_eq, hhandler]
  dsimp only
  rw [Handler.handle, handle_done hsite]
  cases hend : (urlset pool (request.getFcgiParam serverName)).ending with
  | dead d =>
    rw [bind_dead hend, hsilent]
    refine iff_of_false ?_ (fun h => by simp [Completes, hend] at h)
    intro hturn
    cases congrArg ScopedEffects.Act.ending hturn
  | thrown e =>
    rw [bind_thrown hend, hsilent]
    refine iff_of_false ?_ (fun h => by simp [Completes, hend] at h)
    intro hturn
    have hout := congrArg ScopedEffects.Act.out hturn
    cases e with
    | db e =>
      have hheader : some (Write.header contentTypeName (ascii "text/html")) =
          some (Write.header contentTypeName (ascii "application/xml")) := congrArg (·[1]?) hout
      exact absurd hheader (by decide)
    | fcgi e =>
      have hheader : some (Write.header contentTypeName plainText) =
          some (Write.header contentTypeName (ascii "application/xml")) := congrArg (·[1]?) hout
      exact absurd hheader (by decide)
    | std what =>
      have hheader := congrArg (·[0]?) hout
      cases hheader
  | done doc =>
    rw [bind_done hend, hsilent, List.nil_append]
    cases hfails : xml.fails with
    | true =>
      rw [sendDoc_fails hfails]
      refine iff_of_false ?_ (fun h => absurd h.2 (by decide))
      intro hturn
      have hlength := congrArg (fun turn => turn.out[3]?) hturn
      cases hlength
    | false =>
      rw [sendDoc_eq hfails]
      refine iff_of_true ?_ ⟨⟨doc, hend⟩, rfl⟩
      rw [urlset_done hend]
      rfl

/-- A row that fits all the statements. -/
def datedRow : Row := [.ok (ascii "2012 things to do"), .ok (ascii "2012-05-01 10:00:00"), .ok (ascii "2012-04-30 09:00:00")]

def datedPool : Pool := ⟨none, fun _ => { noRows with rows := [datedRow] }⟩

def datedSites : PoolContainer := (∅ : PoolContainer).insert nginxguts datedPool

def sitemapServer : FcgiServer Handler := addHandlerMappings [(ascii "/sitemap.xml", some (.sitemap datedSites))]

def sitemapRequest : Request where
  envp name :=
    if name = scriptName then some (ascii "/sitemap.xml") else if name = serverName then some nginxguts else none
  params := ∅

theorem datedPool_completes : UrlsetCompletes datedPool nginxguts := by
  have hsize : numPostsPerPage datedPool = 2012 := by decide +kernel
  refine ⟨rfl, ⟨rfl, rfl, rfl, nofun, ?_⟩, ⟨rfl, rfl, rfl, nofun, ?_⟩, ?_⟩
  · rintro row ⟨⟩
    exact ⟨_, rfl⟩
  · rintro row ⟨⟩
    exact ⟨_, 2012, rfl, by decide +kernel⟩
  · intro part hpart
    refine ⟨rfl, rfl, ⟨rfl, ?_, rfl⟩, fun _ _ _ => rfl⟩
    intro row hrow
    rw [List.mem_singleton.mp hrow, hsize]
    have hgood : ∀ part ∈ parts nginxguts, ∃ entry, part.entry datedRow = .ok entry ∧ 10 < entry.modifiedDt.length := by
      have hentries : parts nginxguts = [pages, posts nginxguts (ascii "post"), categories (ascii "category"), authors,
          frontPage nginxguts] := rfl
      rw [hentries]
      simp only [List.forall_mem_cons]
      exact ⟨⟨_, rfl, by decide⟩, ⟨_, rfl, by decide⟩, ⟨_, rfl, by decide⟩, ⟨_, rfl, by decide⟩, ⟨_, rfl, by decide⟩,
        List.forall_mem_nil _⟩
    obtain ⟨entry, hentry, hlong⟩ := hgood part hpart
    exact ⟨entry, hentry, hlong, nofun⟩

theorem sitemap_sent_dated : workerTurn sitemapServer (libxml false) sitemapRequest =
    ⟨response 200 sitemapXml [(libxml false).text (document datedPool nginxguts)], .done ()⟩ :=
  (sitemap_sent sitemapServer (libxml false) sitemapRequest datedSites datedPool rfl rfl
    (Std.ExtTreeMap.getElem?_insert_self)).mpr ⟨datedPool_completes, rfl⟩

end FcgiAppserver.Handlers.Sitemap
