import FcgiAppserver.SitemapAnswers

namespace FcgiAppserver.Handlers.Sitemap

open ByteStrings Json ScopedEffects ScopedEffects.Act Xml

def pageCount (numPosts numPostsPerPage : ℕ) : ℕ := (numPosts + numPostsPerPage - 1) / numPostsPerPage

def pageNumbers (count : ℕ) : List UInt32 := (List.range' 2 (count - 1)).map UInt32.ofNat

def pageSuffix (page : ℕ) : Bytes := ascii "page/" ++ writeNat page ++ slash

def suffixes (pagination : Pagination) (numPostsPerPage : UInt64) (numPosts : UInt32) : Act (List Bytes) := do
  let pages ← pagination.pages numPostsPerPage numPosts
  return pages.map (fun page => pageSuffix page.toNat)

def termUrls (url : Bytes) (count : ℕ) : List Bytes :=
  url :: (List.range' 2 (count - 1)).map (fun page => url ++ ascii "page/" ++ writeNat page ++ slash)

def urlNode (lastmod changefreq loc : Bytes) : XMLNode :=
  .element (ascii "url") [] [.element (ascii "loc") [] [.text loc], .element (ascii "lastmod") [] [.text lastmod],
    .element (ascii "changefreq") [] [.text changefreq], .element (ascii "priority") [] [.text (ascii "1")]]

/-- The operands of the subtractions that the `do` loop of a category carries out. -/
def categorySubtractions (numPostsPerPage : UInt64) : ℕ → UInt32 → List (UInt64 × UInt64)
  | 0, _ => []
  | turns + 1, numPosts =>
    (if numPosts.toUInt64 > numPostsPerPage then [(numPosts.toUInt64, numPostsPerPage)] else []) ++
      if countdown numPostsPerPage numPosts ≠ 0 then
        categorySubtractions numPostsPerPage turns (countdown numPostsPerPage numPosts)
      else []

def subtractions (numPostsPerPage : UInt64) (numPosts : UInt32) : List (UInt64 × UInt64) :=
  if numPosts.toUInt64 > numPostsPerPage then
    (numPosts.toUInt64, numPostsPerPage) ::
      categorySubtractions numPostsPerPage numPosts.toNat (numPosts.toUInt64 - numPostsPerPage).toUInt32
  else []

/-- Neither the difference nor its 32 bits wrap. -/
def Exact (x : UInt64 × UInt64) : Prop := x.2 ≤ x.1 ∧ (x.1 - x.2).toUInt32.toNat = x.1.toNat - x.2.toNat

theorem pageCount_few {m p : ℕ} (hm : 0 < m) (h : m ≤ p) : pageCount m p = 1 := by
  rw [pageCount, Nat.div_eq_iff (by omega)]
  omega

theorem pageCount_more {m p : ℕ} (hp : 0 < p) (h : p < m) : pageCount m p = pageCount (m - p) p + 1 := by
  have hsplit : m + p - 1 = (m - p + p - 1) + p := by omega
  rw [pageCount, pageCount, hsplit, Nat.add_div_right _ hp]

theorem pageCount_pos {m p : ℕ} (hp : 0 < p) (hm : 0 < m) : 0 < pageCount m p := Nat.div_pos (by omega) hp

theorem pageCount_le {m p : ℕ} (hp : 0 < p) : pageCount m p ≤ m := by
  rw [pageCount, Nat.div_le_iff_le_mul_add_pred hp]
  have hmul : m ≤ p * m := Nat.le_mul_of_pos_left m hp
  omega

theorem pageCount_le_one {m p : ℕ} (h : m ≤ p) : pageCount m p - 1 = 0 := by
  rcases Nat.eq_zero_or_pos m with rfl | hm
  · rcases Nat.eq_zero_or_pos p with rfl | hp
    · rfl
    · have hle := pageCount_le (m := 0) hp
      omega
  · rw [pageCount_few hm h]

section

variable {numPostsPerPage : UInt64} {numPosts : UInt32}

theorem toNat_pos (h : 1 ≤ numPostsPerPage) : 0 < numPostsPerPage.toNat := by
  have hle := UInt64.le_iff_toNat_le.mp h
  rwa [UInt64.toNat_one] at hle

theorem gt_iff : numPosts.toUInt64 > numPostsPerPage ↔ numPostsPerPage.toNat < numPosts.toNat := by
  rw [gt_iff_lt, UInt64.lt_iff_toNat_lt, UInt32.toNat_toUInt64]

theorem exact_of_gt (h : numPosts.toUInt64 > numPostsPerPage) : Exact (numPosts.toUInt64, numPostsPerPage) := by
  refine ⟨UInt64.le_of_lt h, ?_⟩
  rw [toNat_remaining h, UInt32.toNat_toUInt64]

theorem toNat_countdown (numPostsPerPage : UInt64) (numPosts : UInt32) :
    (countdown numPostsPerPage numPosts).toNat = numPosts.toNat - numPostsPerPage.toNat := by
  rw [countdown]
  split
  · rename_i h
    exact toNat_remaining h
  · rename_i h
    have hle := Nat.le_of_not_lt (fun hlt => h (gt_iff.mpr hlt))
    rw [Nat.sub_eq_zero_of_le hle]
    rfl

theorem countdown_ne_zero : countdown numPostsPerPage numPosts ≠ 0 ↔ numPostsPerPage.toNat < numPosts.toNat := by
  rw [ne_eq, ← UInt32.toNat_inj, toNat_countdown, UInt32.toNat_zero]
  omega

/-- Each turn adds one page, for the posts that are left. -/
theorem categoryLoop_pages (hpage : 0 < numPostsPerPage.toNat) {turns : ℕ} {page : UInt32} (hpos : 0 < numPosts.toNat)
    (hturns : numPosts.toNat ≤ turns) (hfits : page.toNat + numPosts.toNat < 2 ^ 32) :
    categoryLoop numPostsPerPage turns numPosts page =
      pure ((List.range' (page.toNat + 1) (pageCount numPosts.toNat numPostsPerPage.toNat)).map UInt32.ofNat) := by
  induction turns generalizing numPosts page with
  | zero => omega
  | succ turns ih =>
    have hnext : (page + 1).toNat = page.toNat + 1 := by
      rw [UInt32.toNat_add, UInt32.toNat_one, Nat.mod_eq_of_lt (by omega)]
    have hof : UInt32.ofNat (page.toNat + 1) = page + 1 := by rw [← hnext, UInt32.ofNat_toNat]
    rw [categoryLoop]
    split_ifs with hmore
    · have hlt := countdown_ne_zero.mp hmore
      have hleft := toNat_countdown numPostsPerPage numPosts
      have hrest : categoryLoop numPostsPerPage turns (countdown numPostsPerPage numPosts) (page + 1) = _ :=
        ih (by omega) (by omega) (by omega)
      rw [hrest, hleft, hnext, pageCount_more hpage hlt, List.range'_succ, List.map_cons, hof]
      rfl
    · have hle := Nat.le_of_not_lt (fun h => hmore (countdown_ne_zero.mpr h))
      rw [pageCount_few hpos hle, List.range'_one, List.map_singleton, hof]

theorem categorySubtractions_exact (turns : ℕ) : ∀ x ∈ categorySubtractions numPostsPerPage turns numPosts, Exact x := by
  induction turns generalizing numPosts with
  | zero => exact List.forall_mem_nil _
  | succ turns ih =>
    intro x hx
    rcases List.mem_append.mp hx with hx | hx
    · split at hx
      · rename_i h
        rw [List.mem_singleton.mp hx]
        exact exact_of_gt h
      · cases hx
    · split at hx
      · exact ih x hx
      · cases hx

theorem category_pages (hpage : 1 ≤ numPostsPerPage) (numPosts : UInt32) :
    Pagination.category.pages numPostsPerPage numPosts =
      pure (pageNumbers (pageCount numPosts.toNat numPostsPerPage.toNat)) := by
  have hpos := toNat_pos hpage
  have hlt := numPosts.toNat_lt
  rw [Pagination.pages, pageNumbers]
  split
  · rename_i h
    have hmore := gt_iff.mp h
    have hleft := toNat_remaining h
    rw [categoryLoop_pages hpos (by omega) (by omega) (by rw [UInt32.toNat_one]; omega), hleft,
      pageCount_more hpos hmore]
    rfl
  · rename_i h
    have hfew := Nat.le_of_not_lt (fun hlt => h (gt_iff.mpr hlt))
    rw [pageCount_le_one hfew]
    rfl

theorem pageNumbers_toNat (hpage : 1 ≤ numPostsPerPage) (numPosts : UInt32) :
    (pageNumbers (pageCount numPosts.toNat numPostsPerPage.toNat)).map UInt32.toNat =
      List.range' 2 (pageCount numPosts.toNat numPostsPerPage.toNat - 1) := by
  have hlt := numPosts.toNat_lt
  have hle := pageCount_le (m := numPosts.toNat) (toNat_pos hpage)
  rw [pageNumbers, List.map_map]
  conv_rhs => rw [← List.map_id (List.range' 2 _)]
  apply List.map_congr_left
  intro k hk
  have hrange := List.mem_range'_1.mp hk
  rw [Function.comp_apply, UInt32.toNat_ofNat', Nat.mod_eq_of_lt (by omega), id]

end

section

variable {doc : XMLDoc} {name : Bytes} {attrs : List (Bytes × Bytes)} {children : List XMLNode}

theorem addUrl_root (hroot : doc.root = .element name attrs children) (loc lastmod changefreq : Bytes) :
    addUrl doc loc lastmod changefreq =
      { doc with root := .element name attrs (children ++ [urlNode lastmod changefreq loc]) } := by
  rw [addUrl, XMLDoc.add, hroot]
  rfl

theorem foldl_addUrl (hroot : doc.root = .element name attrs children) (lastmod changefreq : Bytes) (locs : List Bytes) :
    locs.foldl (fun doc loc => addUrl doc loc lastmod changefreq) doc =
      { doc with root := .element name attrs (children ++ locs.map (urlNode lastmod changefreq)) } := by
  induction locs generalizing doc children with
  | nil =>
    cases doc
    rw [List.map_nil, List.append_nil, ← hroot]
    rfl
  | cons loc locs ih =>
    rw [List.foldl_cons, addUrl_root hroot, ih rfl, List.map_cons, List.append_assoc]
    rfl

end

structure CategoryListed (numPostsPerPage : UInt64) (numPosts : UInt32) : Prop where
  pages : Pagination.category.pages numPostsPerPage numPosts =
    pure (pageNumbers (pageCount numPosts.toNat numPostsPerPage.toNat))
  numbers : (pageNumbers (pageCount numPosts.toNat numPostsPerPage.toNat)).map UInt32.toNat =
    List.range' 2 (pageCount numPosts.toNat numPostsPerPage.toNat - 1)
  few : numPosts.toNat ≤ numPostsPerPage.toNat → pageNumbers (pageCount numPosts.toNat numPostsPerPage.toNat) = []
  urls : ∀ baseUrl taxonomy doc row entry name attrs children, categoryEntry taxonomy row = .ok entry →
    entry.numPosts = numPosts → 10 < entry.modifiedDt.length → doc.root = .element name attrs children →
    addRow baseUrl numPostsPerPage (categories taxonomy) doc row =
      pure { doc with root := .element name attrs (children ++
        (termUrls (baseUrl ++ entry.path) (pageCount numPosts.toNat numPostsPerPage.toNat)).map
          (urlNode (entry.modifiedDt.set 10 84 ++ ascii "+00:00") (ascii "daily"))) }
  exact : ∀ x ∈ subtractions numPostsPerPage numPosts, Exact x

theorem category_listed (numPostsPerPage : UInt64) (hpage : 1 ≤ numPostsPerPage) (numPosts : UInt32) :
    CategoryListed numPostsPerPage numPosts where
  pages := category_pages hpage numPosts
  numbers := pageNumbers_toNat hpage numPosts
  few h := by rw [pageNumbers, pageCount_le_one h]; rfl
  urls baseUrl taxonomy doc row entry name attrs children hentry hposts hlong hroot := by
    have hrow : (categories taxonomy).entry row = .ok entry := hentry
    have hpages : (categories taxonomy).pagination.pages numPostsPerPage entry.numPosts =
        pure (pageNumbers (pageCount numPosts.toNat numPostsPerPage.toNat)) := by
      rw [hposts]
      exact category_pages hpage numPosts
    have hmarked : markTime entry.modifiedDt = pure (entry.modifiedDt.set 10 84) := if_pos hlong
    rw [addRow, hrow, ofExcept_bind_ok, hmarked, act_pure_bind, hpages, act_pure_bind, ← foldl_addUrl hroot, termUrls,
      List.foldl_cons, List.foldl_map, ← pageNumbers_toNat hpage, List.foldl_map]
    rfl
  exact := by
    intro x hx
    rw [subtractions] at hx
    split at hx
    · rename_i h
      rcases List.mem_cons.mp hx with rfl | hx
      · exact exact_of_gt h
      · exact categorySubtractions_exact _ x hx
    · cases hx

theorem category_listed_sample : CategoryListed 10 21 := category_listed 10 (by decide) 21

theorem suffixes_category {numPostsPerPage : UInt64} (hpage : 1 ≤ numPostsPerPage) (numPosts : UInt32) :
    suffixes .category numPostsPerPage numPosts =
      pure ((List.range' 2 (pageCount numPosts.toNat numPostsPerPage.toNat - 1)).map pageSuffix) := by
  rw [suffixes, category_pages hpage, act_pure_bind, ← pageNumbers_toNat hpage, List.map_map]
  rfl

theorem suffixes_frontPage {numPostsPerPage : UInt64} (hpage : 1 ≤ numPostsPerPage) (numPosts : UInt32) :
    suffixes .frontPage numPostsPerPage numPosts =
      pure (if numPostsPerPage.toNat < numPosts.toNat then [pageSuffix 2] else []) := by
  have hne : numPostsPerPage ≠ 0 := by
    rintro rfl
    exact absurd (toNat_pos hpage) (by decide)
  rw [suffixes, frontPage_pages]
  simp only [gt_iff, if_neg hne]
  split_ifs
  · rfl
  · rfl

theorem front_page_pages_iff (taxonomy : Bytes) (numPostsPerPage : UInt64) (hpage : 1 ≤ numPostsPerPage)
    (numPosts : UInt32) :
    (suffixes (frontPage nginxguts).pagination numPostsPerPage numPosts =
        suffixes (categories taxonomy).pagination numPostsPerPage numPosts ∧
      suffixes (categories taxonomy).pagination numPostsPerPage numPosts =
        pure ((List.range' 2 (pageCount numPosts.toNat numPostsPerPage.toNat - 1)).map pageSuffix)) ↔
      numPosts.toNat ≤ 2 * numPostsPerPage.toNat := by
  have hpos := toNat_pos hpage
  have hfront : (frontPage nginxguts).pagination = .frontPage := rfl
  have hcategory : (categories taxonomy).pagination = .category := rfl
  rw [hfront, hcategory, suffixes_frontPage hpage, suffixes_category hpage, and_iff_left rfl]
  by_cases hmore : numPostsPerPage.toNat < numPosts.toNat
  · rw [if_pos hmore, pageCount_more hpos hmore, Nat.add_sub_cancel]
    by_cases htwo : numPosts.toNat - numPostsPerPage.toNat ≤ numPostsPerPage.toNat
    · rw [pageCount_few (by omega) htwo]
      exact iff_of_true rfl (by omega)
    · rw [pageCount_more hpos (Nat.lt_of_not_le htwo)]
      refine iff_of_false ?_ (by omega)
      intro h
      have hlen := congrArg List.length (Ending.done.inj (congrArg Act.ending h))
      rw [List.length_map, List.length_range', List.length_singleton] at hlen
      have hthird := pageCount_pos hpos (m := numPosts.toNat - numPostsPerPage.toNat - numPostsPerPage.toNat) (by omega)
      omega
  · rw [if_neg hmore, pageCount_le_one (Nat.le_of_not_lt hmore)]
    exact iff_of_true rfl (by omega)

theorem front_page_pages_two :
    (suffixes (frontPage nginxguts).pagination 10 20 = suffixes (categories (ascii "category")).pagination 10 20 ∧
      suffixes (categories (ascii "category")).pagination 10 20 =
        pure ((List.range' 2 (pageCount (20 : UInt32).toNat (10 : UInt64).toNat - 1)).map pageSuffix)) ↔
      (20 : UInt32).toNat ≤ 2 * (10 : UInt64).toNat :=
  front_page_pages_iff (ascii "category") 10 (by decide) 20

theorem front_page_stops_at_two :
    suffixes (frontPage nginxguts).pagination 10 21 = pure [pageSuffix 2] ∧
      suffixes (categories (ascii "category")).pagination 10 21 = pure [pageSuffix 2, pageSuffix 3] ∧
      suffixes (frontPage nginxguts).pagination 10 21 ≠ suffixes (categories (ascii "category")).pagination 10 21 := by
  have hfront : suffixes (frontPage nginxguts).pagination 10 21 = pure [pageSuffix 2] :=
    suffixes_frontPage (by decide) 21
  have hcategory : suffixes (categories (ascii "category")).pagination 10 21 = pure [pageSuffix 2, pageSuffix 3] :=
    suffixes_category (by decide) 21
  refine ⟨hfront, hcategory, ?_⟩
  rw [hfront, hcategory]
  intro h
  cases h

structure Paginates (numPostsPerPage : UInt64) (numPosts : UInt32) : Prop where
  category : numPosts.toUInt64 > numPostsPerPage → ∃ turns,
    (categoryLoop numPostsPerPage turns (numPosts.toUInt64 - numPostsPerPage).toUInt32 1).Completes
  frontPage : numPosts.toUInt64 > numPostsPerPage → ∃ turns,
    (frontPageLoop numPostsPerPage turns (numPosts.toUInt64 - numPostsPerPage).toUInt32 1).Completes

theorem toSize_eq_zero {i : Int32} : toSize i = 0 ↔ i = 0 := by
  constructor
  · intro h
    have hsize : i.toInt64 = 0 := congrArg Int64.ofUInt64 h
    have hint := congrArg Int64.toInt hsize
    rw [Int32.toInt_toInt64] at hint
    exact Int32.toInt_inj.mp hint
  · rintro rfl
    rfl

theorem paginates_size (numPostsPerPage : UInt64) (numPosts : UInt32) :
    Paginates numPostsPerPage numPosts ↔ numPostsPerPage ≠ 0 ∨ numPosts = 0 := by
  constructor
  · intro h
    by_contra hnot
    rw [not_or, not_not] at hnot
    obtain ⟨rfl, hposts⟩ := hnot
    have hmore : numPosts.toUInt64 > 0 := by
      by_contra hno
      exact hposts (eq_zero_of_not_gt hno)
    obtain ⟨turns, hcompletes⟩ := h.category hmore
    have hall : (numPosts.toUInt64 - 0).toUInt32 = numPosts := by simp
    rw [hall] at hcompletes
    exact categoryLoop_endless hposts turns 1 hcompletes
  · intro h
    have hpage : numPosts.toUInt64 > numPostsPerPage → numPostsPerPage ≠ 0 :=
      fun hmore => h.resolve_right (ne_zero_of_gt hmore)
    constructor
    · intro hmore
      have hposts : numPosts.toNat ≠ 0 := fun hz => ne_zero_of_gt hmore (UInt32.toNat_inj.mp hz)
      refine ⟨numPosts.toNat, categoryLoop_completes (hpage hmore) ?_ (Nat.pos_of_ne_zero hposts)⟩
      rw [toNat_remaining hmore]
      exact Nat.sub_le _ _
    · intro hmore
      refine ⟨1, ?_⟩
      rw [frontPageLoop_eq, if_neg (hpage hmore)]
      exact completes_pure _

/-- The page size is the number in the option's row, and only 0 is none. -/
theorem paginates_iff (row : Row) (i : Int32) (hread : asInt row 0 = .ok i) (numPosts : UInt32) :
    readNumPostsPerPage (some row) = pure (toSize i) ∧ (Paginates (toSize i) numPosts ↔ i ≠ 0 ∨ numPosts = 0) := by
  constructor
  · rw [readNumPostsPerPage, hread]
    rfl
  · rw [paginates_size, ne_eq, ne_eq, toSize_eq_zero]

theorem paginates_iff_ten : readNumPostsPerPage (some [.ok (ascii "10")]) = pure (toSize 10) ∧
    (Paginates (toSize 10) 21 ↔ (10 : Int32) ≠ 0 ∨ (21 : UInt32) = 0) :=
  paginates_iff [.ok (ascii "10")] 10 (by decide +kernel) 21

theorem zero_posts_per_page :
    readNumPostsPerPage (some [.ok (ascii "0")]) = pure 0 ∧
      (∀ turns, ¬ (categoryLoop 0 turns 1 1).Completes) ∧
      (∀ turns, (frontPageLoop 0 (turns + 1) 1 1).ending = .dead .undefined) ∧
      ¬ Paginates 0 1 := by
  have hendless : ∀ turns, ¬ (categoryLoop 0 turns 1 1).Completes :=
    fun turns => categoryLoop_endless (by decide) turns 1
  refine ⟨by decide +kernel, hendless, ?_, ?_⟩
  · intro turns
    exact congrArg ScopedEffects.Act.ending ((frontPageLoop_eq 0 turns 1 1).trans (if_pos rfl))
  · intro h
    obtain ⟨turns, hcompletes⟩ := h.category (by decide)
    exact hendless turns hcompletes

end FcgiAppserver.Handlers.Sitemap
