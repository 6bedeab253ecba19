import FcgiAppserver.HeaderLines
import FcgiAppserver.RestartMatcher

namespace FcgiAppserver.Formdata

open ByteStrings QueryArgs

def isLetter (b : Byte) : Bool := (65 ≤ b && b ≤ 90) || (97 ≤ b && b ≤ 122)

def nameKey : Bytes := ascii "name"

/-- A parameter `key="value"` of a `Content-Disposition`. -/
structure DispositionParam where
  key : Bytes
  value : Bytes
  key_ne_nil : key ≠ []
  key_letters : ∀ b ∈ key, isLetter b = true
  value_plain : ∀ b ∈ value, b ≠ quote ∧ b ≠ cr ∧ b ≠ lf ∧ b ≠ 0

namespace DispositionParam

def opening (p : DispositionParam) : Bytes := semicolon :: space :: (p.key ++ [equals])

def text (p : DispositionParam) : Bytes := p.opening ++ quote :: (p.value ++ [quote])

/-- A `name="` ends in one of the parameter's quotes. -/
def Distracts (p : DispositionParam) : Prop := nameKey <:+ p.key ∨ nameKey ++ [equals] <:+ p.value

instance (p : DispositionParam) : Decidable p.Distracts :=
  inferInstanceAs (Decidable (nameKey <:+ p.key ∨ nameKey ++ [equals] <:+ p.value))

end DispositionParam

def dispositionTail (params : List DispositionParam) : Bytes := formDataString ++ params.flatMap DispositionParam.text

def dispositionOf (params : List DispositionParam) : Bytes :=
  contentDispositionString ++ space :: dispositionTail params

theorem fieldnameString_eq : fieldnameString = nameKey ++ [equals] ++ [quote] := by decide

theorem quote_not_mem_pattern : quote ∉ nameKey ++ [equals] := by decide +kernel

theorem suffix_opening (head : Bytes) (p : DispositionParam) :
    nameKey ++ [equals] <:+ head ++ p.opening ↔ nameKey <:+ p.key := by
  have hopening : head ++ p.opening = (head ++ [semicolon] ++ space :: p.key) ++ [equals] := by
    simp [DispositionParam.opening]
  rw [hopening, RestartMatcher.suffix_concat]
  exact (and_iff_right rfl).trans (suffix_after _ (by decide +kernel))

theorem quote_not_mem_opening (p : DispositionParam) : quote ∉ p.opening := by
  intro h
  simp only [DispositionParam.opening, List.mem_cons, List.mem_append, List.not_mem_nil, or_false] at h
  rcases h with h | h | h | h
  · exact absurd h (by decide)
  · exact absurd h (by decide)
  · exact absurd (p.key_letters quote h) (by decide)
  · exact absurd h (by decide)

theorem quote_not_mem_value (p : DispositionParam) : quote ∉ p.value := fun h => (p.value_plain quote h).1 rfl

theorem quote_not_mem_formData : quote ∉ formDataString := by decide +kernel

/-- What follows the first `name="` of a text. -/
def afterName (text : Bytes) : Option Bytes :=
  (indexOf? fieldnameString text).map (fun i => text.drop (i + fieldnameString.length))

theorem afterName_skip {s : Bytes} (t : Bytes) (hs : quote ∉ s) (hend : ¬ nameKey ++ [equals] <:+ s) :
    afterName (s ++ quote :: t) = afterName t := by
  rw [afterName, afterName, fieldnameString_eq, indexOf?_skip t quote_not_mem_pattern hs hend, Option.map_map]
  congr 1
  funext i
  have hlen : s ++ quote :: t = (s ++ [quote]) ++ t := by simp
  have hdrop : i + (s.length + 1) + (nameKey ++ [equals] ++ [quote]).length =
      (s ++ [quote]).length + (i + (nameKey ++ [equals] ++ [quote]).length) := by
    simp only [List.length_append, List.length_singleton]
    omega
  rw [Function.comp_apply, hlen, hdrop, List.drop_length_add_append]

theorem afterName_hit {s : Bytes} (t : Bytes) (hs : quote ∉ s) (hend : nameKey ++ [equals] <:+ s) :
    afterName (s ++ quote :: t) = some t := by
  obtain ⟨u, rfl⟩ := hend
  have hu : quote ∉ u := fun h => hs (List.mem_append_left _ h)
  have hindex := indexOf?_hit t quote_not_mem_pattern hu
  rw [← List.append_assoc u] at hindex
  have hsplit : u ++ (nameKey ++ [equals]) ++ quote :: t = (u ++ (nameKey ++ [equals] ++ [quote])) ++ t := by simp
  rw [afterName, fieldnameString_eq, hindex, Option.map_some, hsplit, ← List.length_append, List.drop_left]

theorem afterName_param {head : Bytes} (hhead : quote ∉ head) (p : DispositionParam) (t : Bytes) :
    afterName (head ++ (p.text ++ t)) =
      if nameKey <:+ p.key then some (p.value ++ quote :: t)
      else if nameKey ++ [equals] <:+ p.value then some t
      else afterName t := by
  have hsplit : head ++ (p.text ++ t) = (head ++ p.opening) ++ quote :: (p.value ++ quote :: t) := by
    simp [DispositionParam.text]
  have hopening : quote ∉ head ++ p.opening := by
    rw [List.mem_append]
    exact fun h => h.elim hhead (quote_not_mem_opening p)
  rw [hsplit]
  split_ifs with hkey hvalue
  · exact afterName_hit _ hopening ((suffix_opening head p).mpr hkey)
  · rw [afterName_skip _ hopening (fun h => hkey ((suffix_opening head p).mp h))]
    exact afterName_hit t (quote_not_mem_value p) hvalue
  · rw [afterName_skip _ hopening (fun h => hkey ((suffix_opening head p).mp h))]
    exact afterName_skip t (quote_not_mem_value p) hvalue

theorem afterName_clean {head : Bytes} (hhead : quote ∉ head) {clean : List DispositionParam}
    (hclean : ∀ p ∈ clean, ¬ p.Distracts) (q : DispositionParam) (t : Bytes) :
    afterName (head ++ (clean.flatMap DispositionParam.text ++ (q.text ++ t))) =
      if nameKey <:+ q.key then some (q.value ++ quote :: t)
      else if nameKey ++ [equals] <:+ q.value then some t
      else afterName t := by
  induction clean generalizing head with
  | nil => exact afterName_param hhead q t
  | cons p clean ih =>
    obtain ⟨hp, hclean⟩ := List.forall_mem_cons.mp hclean
    have hrest := ih (List.not_mem_nil (a := quote)) hclean
    rw [DispositionParam.Distracts, not_or] at hp
    rw [List.flatMap_cons, List.append_assoc, afterName_param hhead, if_neg hp.1, if_neg hp.2]
    exact hrest

theorem parse_disposition (s : FormdataParser) {tail v t : Bytes} (hz : ∀ b ∈ tail, b ≠ 0)
    (hform : formDataString <+: tail) (hname : afterName tail = some (v ++ quote :: t)) (hq : quote ∉ v) :
    uploadParsePartHeader s (contentDispositionString ++ space :: tail) = ({ s with fieldName := v }, none) := by
  obtain ⟨i, hindex, hafter⟩ := Option.map_eq_some_iff.mp hname
  obtain ⟨rest, rfl⟩ := hform
  have hcase : strncasecmp contentDispositionString (contentDispositionString ++ space :: (formDataString ++ rest))
      contentDispositionString.length = 0 := strncasecmp_prefix contentDispositionString _
  have hspan : strspn (space :: (formDataString ++ rest)) [space] = 1 := rfl
  have hdata : strncasecmp formDataString (formDataString ++ rest) formDataString.length = 0 :=
    strncasecmp_prefix formDataString rest
  have hstrstr : strstr (formDataString ++ rest) fieldnameString = some i := by
    rw [strstr, cString_of_ne_zero hz]
    exact hindex
  have hend : strcspn (v ++ quote :: t) [quote] = v.length := by
    apply strcspn_append
    · intro b hb
      rw [← hafter] at hb
      exact hz b (List.mem_of_mem_drop hb)
    · intro b hb
      rw [List.mem_singleton]
      rintro rfl
      exact hq hb
    · simp
  unfold uploadParsePartHeader
  simp only [hcase, List.drop_left, hspan, List.drop_succ_cons, List.drop_zero, hdata, hstrstr, hafter, hend]
  simp

def OnLine (b : Byte) : Prop := b ≠ 0 ∧ b ≠ cr ∧ b ≠ lf

instance (b : Byte) : Decidable (OnLine b) := inferInstanceAs (Decidable (b ≠ 0 ∧ b ≠ cr ∧ b ≠ lf))

theorem onLine_letter {b : Byte} (h : isLetter b = true) : OnLine b := by
  refine ⟨?_, ?_, ?_⟩ <;>
  · rintro rfl
    exact absurd h (by decide)

theorem text_onLine (p : DispositionParam) : ∀ b ∈ p.text, OnLine b := by
  intro b hb
  simp only [DispositionParam.text, DispositionParam.opening, List.mem_append, List.mem_cons, List.not_mem_nil, or_false] at hb
  rcases hb with (rfl | rfl | hb | rfl) | rfl | hb | rfl
  · decide
  · decide
  · exact onLine_letter (p.key_letters b hb)
  · decide
  · decide
  · have hvalue := p.value_plain b hb
    exact ⟨hvalue.2.2.2, hvalue.2.1, hvalue.2.2.1⟩
  · decide

theorem dispositionTail_onLine (params : List DispositionParam) : ∀ b ∈ dispositionTail params, OnLine b := by
  intro b hb
  rcases List.mem_append.mp hb with hb | hb
  · exact (by decide +kernel : ∀ b ∈ formDataString, OnLine b) b hb
  · obtain ⟨p, -, hp⟩ := List.mem_flatMap.mp hb
    exact text_onLine p b hp

theorem dispositionOf_onLine (params : List DispositionParam) : ∀ b ∈ dispositionOf params, OnLine b := by
  intro b hb
  rcases List.mem_append.mp hb with hb | hb
  · exact (by decide +kernel : ∀ b ∈ contentDispositionString, OnLine b) b hb
  · rcases List.mem_cons.mp hb with rfl | hb
    · decide
    · exact dispositionTail_onLine params b hb

theorem dispositionTail_ne_zero (params : List DispositionParam) : ∀ b ∈ dispositionTail params, b ≠ 0 :=
  fun b hb => (dispositionTail_onLine params b hb).1

/-- The first key that ends in `name` decides, unless a value before it ends in `name=`. -/
theorem parse_first_name (s : FormdataParser) {clean : List DispositionParam} (hclean : ∀ p ∈ clean, ¬ p.Distracts)
    (q : DispositionParam) (hq : nameKey <:+ q.key) (rest : List DispositionParam) :
    uploadParsePartHeader s (dispositionOf (clean ++ q :: rest)) = ({ s with fieldName := q.value }, none) := by
  apply parse_disposition s (dispositionTail_ne_zero _) (List.prefix_append _ _) (t := rest.flatMap DispositionParam.text)
  · rw [dispositionTail, List.flatMap_append, List.flatMap_cons, afterName_clean quote_not_mem_formData hclean, if_pos hq]
  · exact quote_not_mem_value q

theorem parse_value_name (s : FormdataParser) {clean : List DispositionParam} (hclean : ∀ p ∈ clean, ¬ p.Distracts)
    (q : DispositionParam) (hkey : ¬ nameKey <:+ q.key) (hvalue : nameKey ++ [equals] <:+ q.value)
    (next : DispositionParam) (rest : List DispositionParam) :
    uploadParsePartHeader s (dispositionOf (clean ++ q :: next :: rest)) = ({ s with fieldName := next.opening }, none) := by
  apply parse_disposition s (dispositionTail_ne_zero _) (List.prefix_append _ _)
    (t := next.value ++ quote :: rest.flatMap DispositionParam.text)
  · rw [dispositionTail, List.flatMap_append, List.flatMap_cons, afterName_clean quote_not_mem_formData hclean,
      if_neg hkey, if_pos hvalue]
    simp [DispositionParam.text]
  · exact quote_not_mem_opening next

theorem kept_dispositionOf (params : List DispositionParam) : kept (dispositionOf params ++ [cr]) = dispositionOf params := by
  have hline := kept_of_no_cr (fun b hb => (dispositionOf_onLine params b hb).2.1)
  rw [kept_append, hline]
  exact List.append_nil _

/-- If one of the parameters before `named` distracts, what the first of these is followed by happens to be
the value of `named`. -/
def Undistracted (before : List DispositionParam) (named : DispositionParam) : Prop :=
  ∀ clean q rest, before = clean ++ q :: rest → (∀ p ∈ clean, ¬ p.Distracts) → q.Distracts →
    (if nameKey <:+ q.key then q.value else (rest.head?.getD named).opening) = named.value

theorem parse_distracted (s : FormdataParser) {clean : List DispositionParam} (hclean : ∀ p ∈ clean, ¬ p.Distracts)
    {q : DispositionParam} (hq : q.Distracts) (rest after : List DispositionParam) (named : DispositionParam) :
    uploadParsePartHeader s (dispositionOf (clean ++ q :: rest ++ named :: after)) =
      ({ s with fieldName := if nameKey <:+ q.key then q.value else (rest.head?.getD named).opening }, none) := by
  rw [List.append_assoc, List.cons_append]
  split_ifs with hkey
  · exact parse_first_name s hclean q hkey _
  · have hvalue := hq.resolve_left hkey
    cases rest with
    | nil => exact parse_value_name s hclean q hkey hvalue named after
    | cons next rest => exact parse_value_name s hclean q hkey hvalue next (rest ++ named :: after)

theorem parse_undistracted (s : FormdataParser) {before : List DispositionParam} (hclean : ∀ p ∈ before, ¬ p.Distracts)
    {named : DispositionParam} (hnamed : named.key = nameKey) (after : List DispositionParam) :
    uploadParsePartHeader s (dispositionOf (before ++ named :: after)) = ({ s with fieldName := named.value }, none) := by
  apply parse_first_name s hclean
  rw [hnamed]

theorem parse_names (before : List DispositionParam) {named : DispositionParam} (hnamed : named.key = nameKey)
    (after : List DispositionParam) :
    ∃ v, (∀ s, uploadParsePartHeader s (dispositionOf (before ++ named :: after)) = ({ s with fieldName := v }, none)) ∧
      (v = named.value ↔ Undistracted before named) := by
  cases hfirst : before.find? (fun p => decide p.Distracts) with
  | none =>
    have hclean : ∀ p ∈ before, ¬ p.Distracts := by simpa using List.find?_eq_none.mp hfirst
    refine ⟨named.value, fun s => parse_undistracted s hclean hnamed after, iff_of_true rfl ?_⟩
    rintro clean q rest rfl - hq
    exact absurd hq (hclean q (List.mem_append_right _ List.mem_cons_self))
  | some q =>
    obtain ⟨hq, clean, rest, rfl, hclean⟩ := List.find?_eq_some_iff_append.mp hfirst
    have hparse := fun s => parse_distracted s (by simpa using hclean) (by simpa using hq) rest after named
    refine ⟨_, hparse, ?_⟩
    constructor
    · intro hv clean' q' rest' hsplit hclean' hq'
      -- any other way to name the first one gives the same field name
      have hparse' := parse_distracted atFirstHeader hclean' hq' rest' after named
      rw [← hsplit, hparse] at hparse'
      rw [← hv]
      exact (congrArg (fun r => r.1.fieldName) hparse').symm
    · intro h
      exact h clean q rest rfl (by simpa using hclean) (by simpa using hq)

theorem disposition_processed {s : FormdataParser} (hs : LineStart s) {params : List DispositionParam} {v : Bytes}
    (hfits : (dispositionOf params).length ≤ s.headerAccumulatorSize - 1)
    (hparse : ∀ s, uploadParsePartHeader s (dispositionOf params) = ({ s with fieldName := v }, none)) :
    uploadProcessLoop s (wire [dispositionOf params ++ [cr]]) = ({ s with fieldName := v }, none) := by
  have hkept := kept_dispositionOf params
  have hone : lf ∉ dispositionOf params ++ [cr] := by
    rw [List.mem_append]
    rintro (h | h)
    · exact (dispositionOf_onLine params lf h).2.2 rfl
    · exact absurd h (by decide)
  have hne : kept (dispositionOf params ++ [cr]) ≠ [] := by
    rw [hkept, dispositionOf]
    simp
  have hloop := hs.line_parsed hone hne (by rwa [hkept]) (by rw [hkept]; exact hparse _) []
  rw [wire_cons, show wire [] = [] from rfl, hloop, loop_nil, ← hs.empty]

theorem fieldName_set_iff (s : FormdataParser) (hs : LineStart s) (before : List DispositionParam)
    (named : DispositionParam) (hnamed : named.key = nameKey) (after : List DispositionParam)
    (hfits : (dispositionOf (before ++ named :: after)).length ≤ s.headerAccumulatorSize - 1) :
    ((uploadProcessLoop s (wire [dispositionOf (before ++ named :: after) ++ [cr]])).2 = none ∧
        (uploadProcessLoop s (wire [dispositionOf (before ++ named :: after) ++ [cr]])).1.fieldName = named.value) ↔
      Undistracted before named := by
  obtain ⟨v, hparse, hv⟩ := parse_names before hnamed after
  rw [disposition_processed hs hfits hparse]
  exact (and_iff_right rfl).trans hv

def nameParam : DispositionParam := ⟨nameKey, ascii "f", by decide, by decide +kernel, by decide +kernel⟩

def fileParam : DispositionParam := ⟨ascii "filename", ascii "x", by decide, by decide +kernel, by decide +kernel⟩

theorem fieldName_set_first :
    ((uploadProcessLoop atFirstHeader (wire [dispositionOf ([] ++ nameParam :: [fileParam]) ++ [cr]])).2 = none ∧
        (uploadProcessLoop atFirstHeader (wire [dispositionOf ([] ++ nameParam :: [fileParam]) ++ [cr]])).1.fieldName =
          nameParam.value) ↔ Undistracted [] nameParam :=
  fieldName_set_iff atFirstHeader ⟨rfl, rfl⟩ [] nameParam rfl [fileParam] (by decide +kernel)

theorem filename_taken_for_name :
    (uploadProcessLoop atFirstHeader (wire [dispositionOf ([fileParam] ++ nameParam :: []) ++ [cr]])).1.fieldName =
      fileParam.value ∧ fileParam.value ≠ nameParam.value := by
  have hloop : uploadProcessLoop atFirstHeader (wire [dispositionOf [fileParam, nameParam] ++ [cr]]) =
      ({ atFirstHeader with fieldName := fileParam.value }, none) := by
    apply disposition_processed ⟨rfl, rfl⟩ (by decide +kernel)
    intro s
    exact parse_first_name s (List.forall_mem_nil _) fileParam (by decide) [nameParam]
  exact ⟨congrArg (fun r => r.1.fieldName) hloop, by decide⟩

end FcgiAppserver.Formdata
