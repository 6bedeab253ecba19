import FcgiAppserver.JsonWriter
import FcgiAppserver.PoolReplies

namespace FcgiAppserver.Handlers.Sitemap

open ByteStrings Json ScopedEffects ScopedEffects.Act Xml

def nginxguts : Bytes := ascii "www.nginxguts.com"

def homeQuery : Query := query "select option_value from wp_options where option_name='home'"

def postsPerPageQuery : Query := query "select option_value from wp_options where option_name='posts_per_page'"

def readBaseUrl : Option Row → Act Bytes
  | some row => ofExcept (asString row 0)
  | none => return []

def getBaseUrl (pool : Pool) : Act Bytes :=
  dbStmt pool homeQuery fun stmt => do
    stmt.execute
    let row ← stmt.fetch
    readBaseUrl row

def toSize (i : Int32) : UInt64 := i.toInt64.toUInt64

def readNumPostsPerPage : Option Row → Act UInt64
  | some row => ofExcept ((asInt row 0).map toSize)
  | none => return 10

def getNumPostsPerPage (pool : Pool) : Act UInt64 :=
  dbStmt pool postsPerPageQuery fun stmt => do
    stmt.execute
    let row ← stmt.fetch
    readNumPostsPerPage row

def element (name content : Bytes) : XMLNode := (XMLNode.new name).addText content

/-- All calls give the priority 1.0. -/
def addUrl (doc : XMLDoc) (loc lastmod changefreq : Bytes) : XMLDoc :=
  let url := (XMLNode.new (ascii "url")).add (element (ascii "loc") loc)
  let url := url.add (element (ascii "lastmod") lastmod)
  let url := url.add (element (ascii "changefreq") changefreq)
  doc.add (url.add (element (ascii "priority") (ascii "1")))

def postTypes (hostname : Bytes) : List Bytes :=
  if hostname ≠ nginxguts then [ascii "post", ascii "place", ascii "event"] else [ascii "post"]

def taxonomyTypes (hostname : Bytes) : List Bytes :=
  if hostname ≠ nginxguts then [ascii "category", ascii "placecategory"] else [ascii "category"]

def emptyDoc (hostname : Bytes) : XMLDoc :=
  let doc := XMLDoc.new (ascii "urlset") (some (ascii "http://www.sitemaps.org/schemas/sitemap/0.9"))
  if hostname = nginxguts then
    doc.addPi (ascii "xml-stylesheet")
      (ascii "type=\"text/xsl\" href=\"wp-content/plugins/google-sitemap-plugin/sitemap.xsl\"")
  else doc.addPi (ascii "xml-stylesheet") (ascii "type=\"text/xsl\" href=\"wp-content/uploads/sitemap.xsl\"")

/-- What `handle` reads of a row before it adds the row's URLs. -/
structure Entry where
  path : Bytes
  modifiedDt : Bytes
  numPosts : UInt32

def zeroDate : Bytes := ascii "0000-00-00 00:00:00"

def slash : Bytes := ascii "/"

def lastModified (row : Row) : Reading Bytes := do
  let modified ← asString row 1
  if modified ≠ zeroDate then asString row 1 else asString row 2

def pageEntry (row : Row) : Reading Entry := do
  let modifiedDt ← lastModified row
  let name ← asString row 0
  return ⟨slash ++ name ++ slash, modifiedDt, 0⟩

def outOfRange (_ : OutOfRange) : Exception ⊕ Death := .inl (.std (ascii "basic_string::substr"))

def postEntry (hostname : Bytes) (row : Row) : Reading Entry := do
  let dt ← asString row 2
  let modifiedDt ← lastModified row
  if hostname ≠ nginxguts then
    let name ← asString row 0
    return ⟨ascii "/wedding-cakes/" ++ name ++ slash, modifiedDt, 0⟩
  else
    let year ← (substr dt 0 4).mapError outOfRange
    let month ← (substr dt 5 2).mapError outOfRange
    let name ← asString row 0
    return ⟨slash ++ year ++ slash ++ month ++ slash ++ name ++ slash, modifiedDt, 0⟩

def categoryEntry (taxonomy : Bytes) (row : Row) : Reading Entry := do
  let modifiedDt ← asString row 1
  let numPosts ← asInt row 2
  let name ← asString row 0
  let location := if taxonomy = ascii "placecategory" then ascii "weddingcakes" else taxonomy
  return ⟨slash ++ location ++ slash ++ name ++ slash, modifiedDt, numPosts.toUInt32⟩

def authorEntry (row : Row) : Reading Entry := do
  let modifiedDt ← asString row 1
  let name ← asString row 0
  return ⟨ascii "/author/" ++ name ++ slash, modifiedDt, 0⟩

def frontPageEntry (row : Row) : Reading Entry := do
  let modifiedDt ← asString row 0
  let numPosts ← asInt row 1
  return ⟨slash, modifiedDt, numPosts.toUInt32⟩

def countdown (numPostsPerPage : UInt64) (numPosts : UInt32) : UInt32 :=
  if numPosts.toUInt64 > numPostsPerPage then (numPosts.toUInt64 - numPostsPerPage).toUInt32 else 0

/-- The `do` loop of a category, which ends within `num_posts` turns if it ends. -/
def categoryLoop (numPostsPerPage : UInt64) : ℕ → UInt32 → UInt32 → Act (List UInt32)
  | 0, _, _ => die .endless
  | turns + 1, numPosts, page => do
    if countdown numPostsPerPage numPosts ≠ 0 then
      let pages ← categoryLoop numPostsPerPage turns (countdown numPostsPerPage numPosts) (page + 1)
      return (page + 1) :: pages
    else return [page + 1]

/-- The `do` loop of the front page. -/
def frontPageLoop (numPostsPerPage : UInt64) : ℕ → UInt32 → UInt32 → Act (List UInt32)
  | 0, _, _ => die .endless
  | turns + 1, numPosts, page => do
    let remaining := (numPosts.toUInt64 - numPostsPerPage).toUInt32
    -- a remainder by zero
    if numPostsPerPage = 0 then die .undefined
    else if remaining.toUInt64 % numPostsPerPage = numPostsPerPage then
      let pages ← frontPageLoop numPostsPerPage turns remaining (page + 1)
      return (page + 1) :: pages
    else return [page + 1]

inductive Pagination
  | none
  | category
  | frontPage
deriving DecidableEq

/-- The numbers of the pages that follow the first one. -/
def Pagination.pages (pagination : Pagination) (numPostsPerPage : UInt64) (numPosts : UInt32) : Act (List UInt32) :=
  match pagination with
  | .none => return []
  | .category =>
    if numPosts.toUInt64 > numPostsPerPage then
      categoryLoop numPostsPerPage numPosts.toNat (numPosts.toUInt64 - numPostsPerPage).toUInt32 1
    else return []
  | .frontPage =>
    if numPosts.toUInt64 > numPostsPerPage then
      frontPageLoop numPostsPerPage numPosts.toNat (numPosts.toUInt64 - numPostsPerPage).toUInt32 1
    else return []

/-- One block of `handle` that adds the URLs of a statement's rows. -/
structure Part where
  query : Query
  entry : Row → Reading Entry
  changefreq : Bytes
  pagination : Pagination
  bound : none ∉ query.bound

def pages : Part where
  query := query ("select post_name, post_modified_gmt, post_date_gmt from wp_posts where post_status='publish' " ++
    " and post_type='page' order by post_date_gmt")
  entry := pageEntry
  changefreq := ascii "weekly"
  pagination := .none
  bound := query_bound (parameters_append (m := 0) (n := 0) (parameters_ofList rfl) (parameters_ofList rfl))

def posts (hostname postType : Bytes) : Part where
  query := (query ("select post_name, post_modified_gmt, post_date_gmt from wp_posts where post_status='publish' " ++
    " and post_type=? order by post_date_gmt")).bindString 0 postType
  entry := postEntry hostname
  changefreq := if hostname ≠ nginxguts then ascii "weekly" else ascii "monthly"
  pagination := .none
  bound := bindString_bound (parameters_append (m := 0) (n := 1) (parameters_ofList rfl) (parameters_ofList rfl)) _

def categories (taxonomy : Bytes) : Part where
  query := (query ("select slug, max(p.post_modified_gmt), count(distinct p.ID) from wp_terms ts, " ++
    "wp_term_taxonomy tt, wp_term_relationships tr, wp_posts p" ++
    " where tt.taxonomy=? and tt.term_id=ts.term_id and tt.parent=0 and tt.count!=0 and " ++
    " tt.term_taxonomy_id = tr.term_taxonomy_id and tr.object_id=p.ID and p.post_status='publish' group by slug")
    ).bindString 0 taxonomy
  entry := categoryEntry taxonomy
  changefreq := ascii "daily"
  pagination := .category
  bound := bindString_bound (parameters_append (m := 1) (n := 0) (parameters_append (m := 0) (n := 1)
    (parameters_append (m := 0) (n := 0) (parameters_ofList rfl) (parameters_ofList rfl)) (parameters_ofList rfl))
    (parameters_ofList rfl)) _

def authors : Part where
  query := query ("select user_login, max(p.post_modified_gmt) from wp_posts p, wp_users u where p.post_author=u.ID " ++
    " and p.post_status='publish' and p.post_type='post' group by user_login")
  entry := authorEntry
  changefreq := ascii "daily"
  pagination := .none
  bound := query_bound (parameters_append (m := 0) (n := 0) (parameters_ofList rfl) (parameters_ofList rfl))

def frontPage (hostname : Bytes) : Part where
  query := query ("select max(post_modified_gmt), count(distinct ID) from wp_posts" ++
    " where post_status='publish' and post_type='post'")
  entry := frontPageEntry
  changefreq := ascii "daily"
  pagination := if hostname = nginxguts then .frontPage else .none
  bound := query_bound (parameters_append (m := 0) (n := 0) (parameters_ofList rfl) (parameters_ofList rfl))

def parts (hostname : Bytes) : List Part :=
  pages :: (postTypes hostname).map (posts hostname) ++ (taxonomyTypes hostname).map categories ++
    (if hostname = nginxguts then [authors] else []) ++ [frontPage hostname]

def markTime (modifiedDt : Bytes) : Act Bytes :=
  if 10 < modifiedDt.length then return modifiedDt.set 10 84 else die .undefined

def addRow (baseUrl : Bytes) (numPostsPerPage : UInt64) (part : Part) (doc : XMLDoc) (row : Row) : Act XMLDoc := do
  let entry ← ofExcept (part.entry row)
  let modifiedDt ← markTime entry.modifiedDt
  let url := baseUrl ++ entry.path
  let lastmod := modifiedDt ++ ascii "+00:00"
  let doc := addUrl doc url lastmod part.changefreq
  let pages ← part.pagination.pages numPostsPerPage entry.numPosts
  return pages.foldl (fun doc page =>
    addUrl doc (url ++ ascii "page/" ++ writeNat page.toNat ++ slash) lastmod part.changefreq) doc

def addPart (pool : Pool) (baseUrl : Bytes) (numPostsPerPage : UInt64) (doc : XMLDoc) (part : Part) : Act XMLDoc :=
  dbStmt pool part.query fun stmt => do
    stmt.execute
    stmt.whileFetch (addRow baseUrl numPostsPerPage part) doc

/-- The `try` block of `handle` up to the response. -/
def urlset (pool : Pool) (hostname : Bytes) : Act XMLDoc := do
  dbConnHolder pool
  let baseUrl ← getBaseUrl pool
  let numPostsPerPage ← getNumPostsPerPage pool
  (parts hostname).foldlM (addPart pool baseUrl numPostsPerPage) (emptyDoc hostname)

abbrev PoolContainer := Std.ExtTreeMap Bytes Pool

def handle (sites : PoolContainer) (xml : Libxml) (request : Request) : Act Unit :=
  let hostname := request.getFcgiParam serverName
  match sites[hostname]? with
  | none => returnError (ascii "site not found: " ++ hostname) 200
  | some pool => (do
      let doc ← urlset pool hostname
      sendDoc xml (ascii "application/xml") doc).catching onDbException

end FcgiAppserver.Handlers.Sitemap
