import FcgiAppserver.JsonRoundtrip
import FcgiAppserver.SitemapDocument

namespace FcgiAppserver.Handlers.Sitemap

open ByteStrings Json

/-- What stands between the slashes below the home; the pieces of a date may hold slashes themselves. -/
def Url.segments (url : Url) : List Bytes := url.path.flatMap (List.splitOn 47)

def names (pool : Pool) (part : Part) : List Bytes := (rows pool part).map (column · 0)

/-- The names in a site's database tell its pages apart. -/
structure Slugs (pool : Pool) (hostname : Bytes) : Prop where
  pages : (names pool pages).Nodup
  posts : ((postTypes hostname).flatMap fun postType => names pool (posts hostname postType)).Nodup
  categories : ∀ taxonomy ∈ taxonomyTypes hostname, (names pool (categories taxonomy)).Nodup
  authors : (names pool authors).Nodup
  -- its statement has aggregates only
  frontPage : (rows pool (frontPage hostname)).length ≤ 1
  plainPages : ∀ name ∈ names pool Sitemap.pages, 47 ∉ name
  plainPosts : ∀ postType ∈ postTypes hostname, ∀ name ∈ names pool (Sitemap.posts hostname postType), 47 ∉ name
  plainCategories : ∀ taxonomy ∈ taxonomyTypes hostname, ∀ name ∈ names pool (Sitemap.categories taxonomy), 47 ∉ name
  plainAuthors : ∀ name ∈ names pool Sitemap.authors, 47 ∉ name

theorem slash_turned (p : List Bytes) : p.flatMap (slash ++ ·) ++ slash = 47 :: p.flatMap (· ++ slash) := by
  induction p with
  | nil => rfl
  | cons s p ih =>
    rw [List.flatMap_cons, List.flatMap_cons, List.append_assoc, ih]
    simp [slash, ascii]

theorem splitOn_path (p : List Bytes) : (p.flatMap (· ++ slash)).splitOn 47 = p.flatMap (List.splitOn 47) ++ [[]] := by
  induction p with
  | nil => rfl
  | cons s p ih =>
    have hcons : (s :: p).flatMap (· ++ slash) = s ++ 47 :: p.flatMap (· ++ slash) := by simp [slash, ascii]
    rw [hcons, List.splitOn_append_cons_self, ih, List.flatMap_cons, List.append_assoc]

theorem loc_inj {baseUrl : Bytes} {url₁ url₂ : Url} (h : url₁.loc baseUrl = url₂.loc baseUrl) :
    url₁.segments = url₂.segments := by
  rw [Url.loc, Url.loc, List.append_assoc, List.append_assoc, List.append_cancel_left_eq, slash_turned, slash_turned,
    List.cons.injEq] at h
  have hsplit := congrArg (List.splitOn 47) h.2
  rw [splitOn_path, splitOn_path] at hsplit
  exact List.append_cancel_right hsplit

theorem segments_plain {url : Url} (h : ∀ s ∈ url.path, 47 ∉ s) : url.segments = url.path := by
  rw [Url.segments]
  generalize url.path = path at h
  induction path with
  | nil => rfl
  | cons s p ih =>
    rw [List.forall_mem_cons] at h
    rw [List.flatMap_cons, List.splitOn_eq_singleton h.1, ih h.2, List.singleton_append]

theorem splitOn_head (y : Bytes) : ∃ first rest, y.splitOn 47 = first :: rest ∧ first.length ≤ y.length := by
  induction y with
  | nil => exact ⟨[], [], List.splitOn_nil 47, Nat.le_refl _⟩
  | cons b y ih =>
    obtain ⟨first, rest, hsplit, hle⟩ := ih
    rw [List.splitOn_cons_eq_if_modifyHead, hsplit]
    split_ifs
    · exact ⟨[], first :: rest, rfl, Nat.zero_le _⟩
    · exact ⟨b :: first, rest, rfl, Nat.succ_le_succ hle⟩

theorem page_segments (url : Url) (number : ℕ) :
    (url.page number).segments = url.segments ++ [ascii "page", writeNat number] := by
  have hpage : (ascii "page").splitOn 47 = [ascii "page"] := by decide
  rw [Url.segments, Url.page, List.flatMap_append, List.flatMap_cons, List.flatMap_singleton, hpage,
    List.splitOn_eq_singleton (not_mem_writeNat rfl)]
  rfl

/-- The place of the block of `handle` that the segments can come from. -/
def block : List Bytes → ℕ
  | [] => 4
  | [_] => 0
  | head :: rest =>
    if head = ascii "wedding-cakes" then 1
    else if head = ascii "author" then 3
    else if head = ascii "category" ∨ head = ascii "weddingcakes" then 2
    else if rest.length = 1 then 4
    else 1

section

variable {pool : Pool} {hostname : Bytes}

theorem pageUrl_segments (hslugs : Slugs pool hostname) {row : Row} (hrow : row ∈ rows pool pages) :
    (pageUrl row).segments = [column row 0] := by
  apply segments_plain
  intro s hs
  rw [List.mem_singleton.mp hs]
  exact hslugs.plainPages _ (List.mem_map_of_mem hrow)

theorem postUrl_segments (hslugs : Slugs pool hostname) {postType : Bytes} (htype : postType ∈ postTypes hostname)
    {row : Row} (hrow : row ∈ rows pool (posts hostname postType)) :
    block (postUrl hostname row).segments = 1 ∧ (postUrl hostname row).segments.getLast? = some (column row 0) := by
  have hname : (column row 0).splitOn 47 = [column row 0] :=
    List.splitOn_eq_singleton (hslugs.plainPosts postType htype _ (List.mem_map_of_mem hrow))
  rw [postUrl]
  split_ifs
  · have hcakes : (ascii "wedding-cakes").splitOn 47 = [ascii "wedding-cakes"] := by decide
    rw [Url.segments, List.flatMap_cons, List.flatMap_singleton, hcakes, hname]
    exact ⟨rfl, rfl⟩
  · obtain ⟨year, years, hyear, hshort⟩ := splitOn_head ((column row 2).take 4)
    obtain ⟨month, months, hmonth, -⟩ := splitOn_head (((column row 2).drop 5).take 2)
    have hfour : year.length ≤ 4 := hshort.trans (List.length_take_le _ _)
    rw [Url.segments, List.flatMap_cons, List.flatMap_cons, List.flatMap_singleton, hyear, hmonth, hname]
    constructor
    · have hword : ∀ word : Bytes, 4 < word.length → year ≠ word := by
        rintro word hlong rfl
        omega
      have hlong : (years ++ (month :: months ++ [column row 0])).length ≠ 1 := by
        rw [List.length_append, List.length_append, List.length_cons, List.length_singleton]
        omega
      rw [List.cons_append]
      cases hrest : years ++ (month :: months ++ [column row 0]) with
      | nil =>
        rw [hrest] at hlong
        simp at hrest
      | cons second rest =>
        rw [hrest] at hlong
        rw [block, if_neg (hword _ (by decide)), if_neg (hword _ (by decide)),
          if_neg (not_or_intro (hword _ (by decide)) (hword _ (by decide))), if_neg hlong]
        exact List.cons_ne_nil second rest
    · rw [← List.append_assoc, List.getLast?_concat]

theorem location_mem {taxonomy : Bytes} (h : taxonomy ∈ taxonomyTypes hostname) :
    location taxonomy = ascii "category" ∨ location taxonomy = ascii "weddingcakes" := by
  rw [taxonomyTypes] at h
  split_ifs at h
  · rcases List.mem_cons.mp h with rfl | hlast
    · exact Or.inl rfl
    · rw [List.mem_singleton.mp hlast]
      exact Or.inr rfl
  · rw [List.mem_singleton.mp h]
    exact Or.inl rfl

theorem categoryUrl_segments (hslugs : Slugs pool hostname) {taxonomy : Bytes}
    (htaxonomy : taxonomy ∈ taxonomyTypes hostname) {row : Row} (hrow : row ∈ rows pool (categories taxonomy)) :
    (categoryUrl taxonomy row).segments = [location taxonomy, column row 0] := by
  apply segments_plain
  intro s hs
  rcases List.mem_cons.mp hs with rfl | hlast
  · rcases location_mem htaxonomy with h | h
    · rw [h]
      decide
    · rw [h]
      decide
  · rw [List.mem_singleton.mp hlast]
    exact hslugs.plainCategories taxonomy htaxonomy _ (List.mem_map_of_mem hrow)

theorem authorUrl_segments (hslugs : Slugs pool hostname) {row : Row} (hrow : row ∈ rows pool authors) :
    (authorUrl row).segments = [ascii "author", column row 0] := by
  apply segments_plain
  intro s hs
  rcases List.mem_cons.mp hs with rfl | hlast
  · decide
  · rw [List.mem_singleton.mp hlast]
    exact hslugs.plainAuthors _ (List.mem_map_of_mem hrow)

theorem mem_paged {url u : Url} {numbers : List ℕ} (h : u ∈ url.paged numbers) :
    u = url ∨ ∃ number ∈ numbers, u = url.page number := by
  rcases List.mem_cons.mp h with hfirst | hlater
  · exact Or.inl hfirst
  · obtain ⟨number, hnumber, rfl⟩ := List.mem_map.mp hlater
    exact Or.inr ⟨number, hnumber, rfl⟩

theorem page_inj {url : Url} {m n : ℕ} (h : (url.page m).segments = (url.page n).segments) : m = n := by
  have hlast : writeNat m = writeNat n := by
    rw [page_segments, page_segments, List.append_cancel_left_eq] at h
    exact (List.cons.inj (List.cons.inj h).2).1
  rw [← natOf_writeNat m, hlast, natOf_writeNat]

theorem nodup_paged (url : Url) {numbers : List ℕ} (h : numbers.Nodup) :
    ((url.paged numbers).map Url.segments).Nodup := by
  rw [Url.paged, List.map_cons, List.map_map, List.nodup_cons]
  constructor
  · intro hmem
    obtain ⟨number, -, hpath⟩ := List.mem_map.mp hmem
    have hlen := congrArg List.length hpath
    rw [Function.comp_apply, page_segments] at hlen
    simp at hlen
  · exact h.map (fun m n hpath => page_inj hpath)

theorem nodup_numbers (pagination : Pagination) (numPostsPerPage numPosts : ℕ) :
    (pagination.numbers numPostsPerPage numPosts).Nodup := by
  cases pagination with
  | none => exact List.nodup_nil
  | category => exact List.nodup_range'
  | frontPage =>
    rw [Pagination.numbers]
    split_ifs
    · exact List.nodup_singleton _
    · exact List.nodup_nil

/-- The URLs of one block are told apart, and so is the block from the others. -/
structure Apart (urls : List Url) (n : ℕ) : Prop where
  nodup : (urls.map Url.segments).Nodup
  block : ∀ url ∈ urls, block url.segments = n

theorem apart_pageUrls (hslugs : Slugs pool hostname) : Apart (pageUrls pool) 0 where
  nodup := by
    have hnames := hslugs.pages.map (f := fun name => [name]) (fun s t h => (List.cons.inj h).1)
    rw [names, List.map_map] at hnames
    have hsegments : (rows pool pages).map (Url.segments ∘ pageUrl) = (rows pool pages).map (fun row => [column row 0]) :=
      List.map_congr_left (fun row hrow => pageUrl_segments hslugs hrow)
    rw [pageUrls, List.map_map, hsegments]
    exact hnames
  block url hurl := by
    obtain ⟨row, hrow, rfl⟩ := List.mem_map.mp hurl
    rw [pageUrl_segments hslugs hrow]
    rfl

theorem apart_postUrls (hslugs : Slugs pool hostname) : Apart (postUrls pool hostname) 1 where
  nodup := by
    apply List.Nodup.of_map List.getLast?
    have hnames := hslugs.posts.map (f := some) (Option.some_injective _)
    rw [postUrls, List.map_map, List.map_flatMap]
    rw [List.map_flatMap] at hnames
    convert hnames using 1
    apply List.flatMap_congr
    intro postType htype
    rw [names, List.map_map, List.map_map]
    apply List.map_congr_left
    intro row hrow
    exact (postUrl_segments hslugs htype hrow).2
  block url hurl := by
    obtain ⟨postType, htype, hrows⟩ := List.mem_flatMap.mp hurl
    obtain ⟨row, hrow, rfl⟩ := List.mem_map.mp hrows
    exact (postUrl_segments hslugs htype hrow).1

theorem take_categoryUrl (hslugs : Slugs pool hostname) {taxonomy : Bytes} (htaxonomy : taxonomy ∈ taxonomyTypes hostname)
    {row : Row} (hrow : row ∈ rows pool (categories taxonomy)) {numbers : List ℕ} {segments : List Bytes}
    (h : segments ∈ ((categoryUrl taxonomy row).paged numbers).map Url.segments) :
    segments.take 2 = [location taxonomy, column row 0] := by
  have hfirst := categoryUrl_segments hslugs htaxonomy hrow
  obtain ⟨url, hurl, rfl⟩ := List.mem_map.mp h
  rcases mem_paged hurl with rfl | ⟨number, -, rfl⟩
  · rw [hfirst]
    rfl
  · rw [page_segments, hfirst]
    rfl

theorem locations_differ (hostname : Bytes) :
    (taxonomyTypes hostname).Pairwise fun taxonomy₁ taxonomy₂ => location taxonomy₁ ≠ location taxonomy₂ := by
  rw [taxonomyTypes]
  split_ifs
  · decide
  · exact List.pairwise_singleton _ _

theorem nodup_categoryUrls (hslugs : Slugs pool hostname) : ((categoryUrls pool hostname).map Url.segments).Nodup := by
  rw [categoryUrls, List.map_flatMap]
  simp only [List.map_flatMap]
  apply List.nodup_flatMap.mpr
  constructor
  · intro taxonomy htaxonomy
    apply List.nodup_flatMap.mpr
    constructor
    · intro row _
      exact nodup_paged _ (nodup_numbers .category _ _)
    · apply (List.pairwise_map.mp (hslugs.categories taxonomy htaxonomy)).imp_of_mem
      intro row₁ row₂ hrow₁ hrow₂ hne path h₁ h₂
      have htake := (take_categoryUrl hslugs htaxonomy hrow₁ h₁).symm.trans (take_categoryUrl hslugs htaxonomy hrow₂ h₂)
      exact hne (List.cons.inj (List.cons.inj htake).2).1
  · apply (locations_differ hostname).imp_of_mem
    intro taxonomy₁ taxonomy₂ htaxonomy₁ htaxonomy₂ hne path h₁ h₂
    obtain ⟨row₁, hrow₁, hpath₁⟩ := List.mem_flatMap.mp h₁
    obtain ⟨row₂, hrow₂, hpath₂⟩ := List.mem_flatMap.mp h₂
    have htake := (take_categoryUrl hslugs htaxonomy₁ hrow₁ hpath₁).symm.trans
      (take_categoryUrl hslugs htaxonomy₂ hrow₂ hpath₂)
    exact hne (List.cons.inj htake).1

theorem apart_categoryUrls (hslugs : Slugs pool hostname) : Apart (categoryUrls pool hostname) 2 where
  nodup := nodup_categoryUrls hslugs
  block url hurl := by
    obtain ⟨taxonomy, htaxonomy, hrows⟩ := List.mem_flatMap.mp hurl
    obtain ⟨row, hrow, hpaged⟩ := List.mem_flatMap.mp hrows
    have hfirst := categoryUrl_segments hslugs htaxonomy hrow
    rcases mem_paged hpaged with rfl | ⟨number, -, rfl⟩
    · rw [hfirst]
      rcases location_mem htaxonomy with h | h
      · rw [h]
        rfl
      · rw [h]
        rfl
    · rw [page_segments, hfirst]
      rcases location_mem htaxonomy with h | h
      · rw [h]
        rfl
      · rw [h]
        rfl

theorem apart_authorUrls (hslugs : Slugs pool hostname) : Apart (authorUrls pool hostname) 3 := by
  rw [authorUrls]
  split_ifs
  · have hnames := hslugs.authors.map (f := fun name => [ascii "author", name])
      (fun s t h => (List.cons.inj (List.cons.inj h).2).1)
    rw [names, List.map_map] at hnames
    have hsegments : (rows pool authors).map (Url.segments ∘ authorUrl) =
        (rows pool authors).map (fun row => [ascii "author", column row 0]) :=
      List.map_congr_left (fun row hrow => authorUrl_segments hslugs hrow)
    constructor
    · rw [List.map_map, hsegments]
      exact hnames
    · intro url hurl
      obtain ⟨row, hrow, rfl⟩ := List.mem_map.mp hurl
      rw [authorUrl_segments hslugs hrow]
      rfl
  · exact ⟨List.nodup_nil, List.forall_mem_nil _⟩

theorem apart_frontPageUrls (hslugs : Slugs pool hostname) : Apart (frontPageUrls pool hostname) 4 where
  nodup := by
    have hone := hslugs.frontPage
    rw [frontPageUrls]
    match hrows : rows pool (frontPage hostname), hone with
    | [], _ => exact List.nodup_nil
    | [row], _ =>
      rw [List.flatMap_singleton]
      exact nodup_paged _ (nodup_numbers _ _ _)
  block url hurl := by
    obtain ⟨row, -, hpaged⟩ := List.mem_flatMap.mp hurl
    rcases mem_paged hpaged with rfl | ⟨number, -, rfl⟩
    · rfl
    · rw [page_segments]
      rfl

structure Before (urls : List Url) (n : ℕ) : Prop where
  nodup : (urls.map Url.segments).Nodup
  block : ∀ url ∈ urls, block url.segments < n

theorem before_append {urls₁ urls₂ : List Url} {n : ℕ} (h₁ : Before urls₁ n) (h₂ : Apart urls₂ n) :
    Before (urls₁ ++ urls₂) (n + 1) where
  nodup := by
    rw [List.map_append]
    apply List.nodup_append.mpr
    refine ⟨h₁.nodup, h₂.nodup, ?_⟩
    intro segments₁ hmem₁ segments₂ hmem₂ hsame
    obtain ⟨url₁, hurl₁, rfl⟩ := List.mem_map.mp hmem₁
    obtain ⟨url₂, hurl₂, rfl⟩ := List.mem_map.mp hmem₂
    have hlt := h₁.block url₁ hurl₁
    rw [hsame, h₂.block url₂ hurl₂] at hlt
    exact absurd hlt (Nat.lt_irrefl n)
  block url hurl := by
    rcases List.mem_append.mp hurl with h | h
    · exact Nat.lt_succ_of_lt (h₁.block url h)
    · exact h₂.block url h ▸ Nat.lt_succ_self _

/-- Each block's URLs are told apart by its names, the blocks' by the words between the slashes. -/
theorem before_urls (hslugs : Slugs pool hostname) : Before (urls pool hostname) 5 := by
  have hpages := apart_pageUrls hslugs
  have hfirst : Before (pageUrls pool) 1 :=
    ⟨hpages.nodup, fun url hurl => hpages.block url hurl ▸ Nat.zero_lt_one⟩
  have hposts := before_append hfirst (apart_postUrls hslugs)
  have hcategories := before_append hposts (apart_categoryUrls hslugs)
  have hauthors := before_append hcategories (apart_authorUrls hslugs)
  exact before_append hauthors (apart_frontPageUrls hslugs)

end

theorem urls_nodup (pool : Pool) (hostname baseUrl : Bytes) (hslugs : Slugs pool hostname) :
    ((urls pool hostname).map (Url.loc baseUrl)).Nodup := by
  have hsegments := List.pairwise_map.mp (before_urls hslugs).nodup
  apply List.pairwise_map.mpr
  apply hsegments.imp
  intro url₁ url₂ hne hloc
  exact hne (loc_inj hloc)

def selected (q : Query) : Option Char := q.sql.toList[7]?

theorem selected_ofList {s : List Char} {c : Char} (h : s[7]? = some c) : (String.ofList s).toList[7]? = some c := by
  rw [String.toList_ofList, h]

theorem selected_append {a b : String} {c : Char} (h : a.toList[7]? = some c) : (a ++ b).toList[7]? = some c := by
  rw [String.toList_append, List.getElem?_append_left (List.getElem?_eq_some_iff.mp h).1, h]

/-- Ten posts a page, forty posts in all, and two names in every list. -/
def listedRows : Option Char → List Row
  | some 'o' => [[.ok (ascii "10")]]
  | some 'm' => [[.ok (ascii "2012-05-02 10:00:00"), .ok (ascii "40")]]
  | _ =>
    [[.ok (ascii "news"), .ok (ascii "2012-05-01 10:00:00"), .ok (ascii "25")],
      [.ok (ascii "cakes"), .ok (ascii "2012-05-02 10:00:00"), .ok (ascii "15")]]

def listedPool : Pool where
  connectFails := none
  reply q := { noRows with rows := listedRows (selected q) }

theorem rows_listed {part : Part} {c : Char} (h : selected part.query = some c) :
    rows listedPool part = listedRows (some c) :=
  congrArg listedRows h

theorem rows_pages : rows listedPool pages = listedRows (some 'p') :=
  rows_listed (selected_append (selected_ofList rfl))

theorem rows_posts (postType : Bytes) : rows listedPool (posts nginxguts postType) = listedRows (some 'p') := by
  apply rows_listed
  rw [selected, posts, bindString_sql]
  exact selected_append (selected_ofList rfl)

theorem rows_categories (taxonomy : Bytes) : rows listedPool (categories taxonomy) = listedRows (some 's') := by
  apply rows_listed
  rw [selected, categories, bindString_sql]
  exact selected_append (selected_append (selected_append (selected_ofList rfl)))

theorem rows_authors : rows listedPool authors = listedRows (some 'u') :=
  rows_listed (selected_append (selected_ofList rfl))

theorem rows_frontPage : rows listedPool (frontPage nginxguts) = listedRows (some 'm') :=
  rows_listed (selected_append (selected_ofList rfl))

theorem listed_pages : numPostsPerPage listedPool = 10 := by
  have hselected : selected postsPerPageQuery = some 'o' := selected_ofList rfl
  have hrows : (listedPool.reply postsPerPageQuery).rows = listedRows (some 'o') := congrArg listedRows hselected
  rw [numPostsPerPage, hrows]
  decide +kernel

theorem listedPool_slugs : Slugs listedPool nginxguts where
  pages := by
    rw [names, rows_pages]
    decide
  posts := by
    simp only [names, rows_posts]
    decide
  categories taxonomy _ := by
    rw [names, rows_categories]
    decide
  authors := by
    rw [names, rows_authors]
    decide
  frontPage := by
    rw [rows_frontPage]
    decide
  plainPages := by
    rw [names, rows_pages]
    decide
  plainPosts postType _ := by
    rw [names, rows_posts]
    decide
  plainCategories taxonomy _ := by
    rw [names, rows_categories]
    decide
  plainAuthors := by
    rw [names, rows_authors]
    decide

theorem listed_length : (urls listedPool nginxguts).length = 13 := by
  simp only [urls, pageUrls, postUrls, categoryUrls, authorUrls, frontPageUrls, rows_pages, rows_posts, rows_categories,
    rows_authors, rows_frontPage, listed_pages]
  decide +kernel

/-- The categories have three pages and two, and the front page has two. -/
theorem urls_nodup_listed : (urls listedPool nginxguts).length = 13 ∧
    ((urls listedPool nginxguts).map (Url.loc (home listedPool))).Nodup :=
  ⟨listed_length, urls_nodup listedPool nginxguts (home listedPool) listedPool_slugs⟩

end FcgiAppserver.Handlers.Sitemap
