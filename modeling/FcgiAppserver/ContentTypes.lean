import FcgiAppserver.FormdataParser

namespace FcgiAppserver.Formdata

open ByteStrings

def Separator (b : Byte) : Prop := b ∈ [space, semicolon, lf, cr]

instance (b : Byte) : Decidable (Separator b) := inferInstanceAs (Decidable (b ∈ [space, semicolon, lf, cr]))

/-- `run` follows the first `boundary=` after the first `;` and ends before a separator or with the text. -/
structure Announced (s mime before run rest : Bytes) : Prop where
  text : s = mime ++ semicolon :: (before ++ (boundaryString ++ (run ++ rest)))
  first_semicolon : semicolon ∉ mime
  first_boundary : ∀ j < before.length, ¬ boundaryString <+: (before ++ (boundaryString ++ (run ++ rest))).drop j
  plain : ∀ b ∈ run, ¬ Separator b
  ends : ∀ b, rest.head? = some b → Separator b

def Announces (s run : Bytes) : Prop := ∃ mime before rest, Announced s mime before run rest

def Multipart (s : Bytes) : Prop := strncasecmp s multipartFormDataString multipartFormDataString.length = 0

instance (s : Bytes) : Decidable (Multipart s) :=
  inferInstanceAs (Decidable (strncasecmp s multipartFormDataString multipartFormDataString.length = 0))

def BadRequest {α : Type} (result : Except FcgiException α) : Prop :=
  ∃ e, result = .error e ∧ e.status = httpBadRequest

structure ContentTypeMet (s : Bytes) : Prop where
  sets : ∀ boundary, uploadParseContentType s = .ok boundary →
    ∃ run, run ≠ [] ∧ Announces s run ∧ boundary = cr :: lf :: dash :: dash :: run
  no_semicolon : semicolon ∉ s → BadRequest (uploadParseContentType s)
  no_boundary : semicolon ∈ s → Multipart s → (¬ ∃ run, Announces s run) → BadRequest (uploadParseContentType s)
  empty_run : Multipart s → Announces s [] → BadRequest (uploadParseContentType s)

theorem strchr_eq {s : Bytes} (hz : ∀ b ∈ s, b ≠ 0) (c : Byte) : strchr s c = s.idxOf? c := by
  rw [strchr, cString_of_ne_zero hz]

theorem parse_no_semicolon {s : Bytes} (hz : ∀ b ∈ s, b ≠ 0) (h : semicolon ∉ s) :
    BadRequest (uploadParseContentType s) := by
  refine ⟨fcgiException "no boundary found in Content-Type" httpBadRequest, ?_, rfl⟩
  rw [uploadParseContentType, strchr_eq hz, List.idxOf?_eq_none_iff.mpr h]

theorem parse_not_multipart {s : Bytes} (hz : ∀ b ∈ s, b ≠ 0) (h : semicolon ∈ s) (htype : ¬ Multipart s) :
    uploadParseContentType s =
      .error (fcgiException "Content-Type is not multipart/form-data" httpUnsupportedMediaType) := by
  obtain ⟨mime, after, rfl, hmime⟩ := List.eq_append_cons_of_mem h
  rw [uploadParseContentType, strchr_eq hz, idxOf?_append after hmime]
  exact if_pos htype

/-- The end of `upload_parse_content_type`, from the place on where the boundary is taken to start. -/
def boundaryFrom (boundaryStart : Bytes) : Except FcgiException Bytes :=
  if strcspn boundaryStart [space, semicolon, lf, cr] = 0 then
    .error (fcgiException "boundary is empty" httpBadRequest)
  else
    .ok (cr :: lf :: dash :: dash :: boundaryStart.take (strcspn boundaryStart [space, semicolon, lf, cr]))

theorem parse_multipart {mime after : Bytes} (hz : ∀ b ∈ mime ++ semicolon :: after, b ≠ 0) (hmime : semicolon ∉ mime)
    (htype : Multipart (mime ++ semicolon :: after)) :
    uploadParseContentType (mime ++ semicolon :: after) = boundaryFrom ((mime ++ semicolon :: after).drop
      (sizeAdd (find (mime ++ semicolon :: after) boundaryString mime.length) boundaryString.length)) := by
  rw [uploadParseContentType, strchr_eq hz, idxOf?_append after hmime]
  exact if_neg (not_not.mpr htype)

theorem boundaryString_semicolon (t : Bytes) : ¬ boundaryString <+: semicolon :: t := by
  rintro ⟨u, hu⟩
  have hcons : boundaryString = 98 :: boundaryString.tail := by decide +kernel
  rw [hcons] at hu
  exact absurd (List.cons.inj hu).1 (by decide)

theorem find_after_semicolon (mime after : Bytes) :
    find (mime ++ semicolon :: after) boundaryString mime.length =
      match indexOf? boundaryString after with
      | some i => mime.length + (i + 1)
      | none => npos := by
  have hskip : indexOf? boundaryString (semicolon :: after) = (indexOf? boundaryString after).map (· + 1) := by
    have hpre : boundaryString.isPrefixOf (semicolon :: after) = false := by
      rw [Bool.eq_false_iff, ne_eq, List.isPrefixOf_iff_prefix]
      exact boundaryString_semicolon after
    rw [indexOf?, hpre]
    rfl
  rw [find, if_pos (by simp), List.drop_left, hskip]
  cases indexOf? boundaryString after <;> rfl

theorem run_length {run rest : Bytes} (hz : ∀ b ∈ run ++ rest, b ≠ 0) (hrun : ∀ b ∈ run, ¬ Separator b)
    (hrest : ∀ b, rest.head? = some b → Separator b) :
    strcspn (run ++ rest) [space, semicolon, lf, cr] = run.length := by
  cases rest with
  | nil =>
    rw [List.append_nil] at hz ⊢
    exact strcspn_self hz hrun
  | cons b rest => exact strcspn_append rest hz hrun (hrest b rfl)

theorem boundaryFrom_run {run rest : Bytes} (hz : ∀ b ∈ run ++ rest, b ≠ 0) (hrun : ∀ b ∈ run, ¬ Separator b)
    (hrest : ∀ b, rest.head? = some b → Separator b) :
    boundaryFrom (run ++ rest) = if run = [] then .error (fcgiException "boundary is empty" httpBadRequest)
      else .ok (cr :: lf :: dash :: dash :: run) := by
  rw [boundaryFrom, run_length hz hrun hrest, List.take_left]
  simp only [List.length_eq_zero_iff]

theorem parse_announced {s : StdString} (hz : ∀ b ∈ s.bytes, b ≠ 0) (htype : Multipart s.bytes)
    {mime before run rest : Bytes} (h : Announced s.bytes mime before run rest) :
    uploadParseContentType s.bytes = if run = [] then .error (fcgiException "boundary is empty" httpBadRequest)
      else .ok (cr :: lf :: dash :: dash :: run) := by
  obtain ⟨hs, hmime, hfirst, hrun, hrest⟩ := h
  have hlen := s.length_lt
  rw [hs] at hz htype hlen ⊢
  have hindex : indexOf? boundaryString (before ++ (boundaryString ++ (run ++ rest))) = some before.length := by
    rw [indexOf?_drop (by simp) hfirst, List.drop_left, indexOf?_of_prefix (List.prefix_append _ _), Option.map_some,
      Nat.zero_add]
  have hstart : sizeAdd (mime.length + (before.length + 1)) boundaryString.length =
      (mime ++ semicolon :: before ++ boundaryString).length := by
    simp only [List.length_append, List.length_cons, npos] at hlen ⊢
    rw [sizeAdd, Nat.mod_eq_of_lt (by omega)]
  have hsplit : mime ++ semicolon :: (before ++ (boundaryString ++ (run ++ rest))) =
      (mime ++ semicolon :: before ++ boundaryString) ++ (run ++ rest) := by simp
  rw [parse_multipart hz hmime htype, find_after_semicolon, hindex]
  dsimp only
  rw [hstart, hsplit, List.drop_left]
  apply boundaryFrom_run _ hrun hrest
  intro b hb
  rw [hsplit] at hz
  exact hz b (List.mem_append_right _ hb)

theorem strncasecmp_comm (s t : Bytes) (n : ℕ) : strncasecmp s t n = 0 ↔ strncasecmp t s n = 0 := by
  induction n generalizing s t with
  | zero => exact Iff.rfl
  | succ n ih =>
    by_cases heq : toLower (s.headD 0) = toLower (t.headD 0)
    · simp only [strncasecmp, heq, ne_eq, not_true_eq_false, if_false]
      split
      · exact Iff.rfl
      · exact ih s.tail t.tail
    · have hne : ∀ a b : Byte, a ≠ b → (a.toNat : ℤ) - b.toNat ≠ 0 := by
        intro a b hab h
        exact hab (UInt8.toNat_inj.mp (Int.ofNat_inj.mp (sub_eq_zero.mp h)))
      simp only [strncasecmp, ne_eq, heq, Ne.symm heq, not_false_eq_true, if_true]
      exact iff_of_false (hne _ _ heq) (hne _ _ (Ne.symm heq))

theorem strncasecmp_at {s t : Bytes} (hs : ∀ b ∈ s, b ≠ 0) (h : strncasecmp s t s.length = 0) {i : ℕ} {a b : Byte}
    (ha : s[i]? = some a) (hb : t[i]? = some b) : toLower a = toLower b := by
  induction s generalizing t i with
  | nil => cases ha
  | cons c s ih =>
    obtain ⟨heq, hrest⟩ := strncasecmp_cons (hs c List.mem_cons_self) h
    cases t with
    | nil => cases hb
    | cons d t =>
      cases i with
      | zero =>
        cases ha
        cases hb
        exact heq
      | succ i => exact ih (fun b hb => hs b (List.mem_cons_of_mem _ hb)) hrest ha hb

theorem toLower_separator {b : Byte} (h : Separator b) : toLower b = b := by
  simp only [Separator, List.mem_cons, List.not_mem_nil, or_false] at h
  rcases h with rfl | rfl | rfl | rfl <;> decide

theorem ninth_byte {s : Bytes} (htype : Multipart s) : ∃ b, s[8]? = some b ∧ ¬ Separator b := by
  have hcase := (strncasecmp_comm _ _ _).mp htype
  have hshort : multipartFormDataString.length ≤ s.length := strncasecmp_le (by decide +kernel) hcase
  have hlt : 8 < s.length := lt_of_lt_of_le (by decide +kernel) hshort
  refine ⟨_, List.getElem?_eq_getElem hlt, ?_⟩
  intro h
  -- the type's `t`, in either case
  have hlower := strncasecmp_at (s := multipartFormDataString) (by decide +kernel) hcase (i := 8) (a := 116)
    (by decide +kernel) (List.getElem?_eq_getElem hlt)
  rw [toLower_separator h] at hlower
  rw [← hlower] at h
  exact absurd h (by decide)

/-- The sum of `npos` and the pattern's length is 8: the boundary is what stands there, `t/form-data`. -/
theorem parse_not_found {s : Bytes} (hz : ∀ b ∈ s, b ≠ 0) (hsemi : semicolon ∈ s) (htype : Multipart s)
    (hnone : ¬ boundaryString <:+: s.dropWhile (· != semicolon)) :
    ∃ boundary, uploadParseContentType s = .ok boundary := by
  obtain ⟨b, hb, hplain⟩ := ninth_byte htype
  obtain ⟨mime, after, rfl, hmime⟩ := List.eq_append_cons_of_mem hsemi
  rw [dropWhile_ne_append after hmime] at hnone
  have hindex : indexOf? boundaryString after = none :=
    indexOf?_absent (fun h => hnone (h.trans (List.suffix_cons semicolon after).isInfix))
  rw [parse_multipart hz hmime htype, find_after_semicolon, hindex]
  have hwrap : sizeAdd npos boundaryString.length = 8 := by decide +kernel
  dsimp only
  rw [hwrap, boundaryFrom, if_neg]
  · exact ⟨_, rfl⟩
  · obtain ⟨hlt, hget⟩ := List.getElem?_eq_some_iff.mp hb
    have hnz : b ≠ 0 := hz b (hget ▸ List.getElem_mem hlt)
    rw [List.drop_eq_getElem_cons hlt, hget, strcspn, cString, List.takeWhile_cons_of_pos (by simpa using hnz),
      List.takeWhile_cons_of_pos (by simpa [Separator] using hplain), List.length_cons]
    exact Nat.succ_ne_zero _

theorem announces_of_found {s : Bytes} (h : boundaryString <:+: s.dropWhile (· != semicolon)) :
    ∃ run, Announces s run := by
  have hsemi : semicolon ∈ s := by
    by_contra hnot
    have hall : s.dropWhile (· != semicolon) = [] := by
      rw [List.dropWhile_eq_nil_iff]
      exact ne_of_not_mem hnot
    rw [hall] at h
    exact absurd (List.infix_nil.mp h) (by decide +kernel)
  obtain ⟨mime, after, rfl, hmime⟩ := List.eq_append_cons_of_mem hsemi
  rw [dropWhile_ne_append after hmime] at h
  have hafter : boundaryString <:+: after := by
    rcases List.infix_cons_iff.mp h with hpre | hin
    · exact absurd hpre (boundaryString_semicolon after)
    · exact hin
  obtain ⟨before, t, rfl, hfirst⟩ := first_occurrence hafter
  refine ⟨t.takeWhile (fun b => decide (¬ Separator b)), mime, before, t.dropWhile (fun b => decide (¬ Separator b)), ?_⟩
  refine ⟨by rw [List.takeWhile_append_dropWhile], hmime, ?_, ?_, ?_⟩
  · rw [List.takeWhile_append_dropWhile]
    exact hfirst
  · intro b hb
    have hplain := List.mem_takeWhile_imp hb
    exact of_decide_eq_true hplain
  · intro b hb
    have hhead := List.head?_dropWhile_not (fun b => decide (¬ Separator b)) t
    rw [hb] at hhead
    simpa using hhead

theorem found_of_announces {s run : Bytes} (h : Announces s run) : boundaryString <:+: s.dropWhile (· != semicolon) := by
  obtain ⟨mime, before, rest, hs, hmime, -⟩ := h
  rw [hs, dropWhile_ne_append _ hmime]
  exact ⟨semicolon :: before, run ++ rest, by simp⟩

theorem content_type_met_iff (s : StdString) (hz : ∀ b ∈ s.bytes, b ≠ 0) :
    ContentTypeMet s.bytes ↔
      (semicolon ∈ s.bytes → Multipart s.bytes → boundaryString <:+: s.bytes.dropWhile (· != semicolon)) := by
  constructor
  · intro hmet hsemi htype
    by_contra hnone
    obtain ⟨boundary, hok⟩ := parse_not_found hz hsemi htype hnone
    obtain ⟨run, -, hrun, -⟩ := hmet.sets boundary hok
    exact hnone (found_of_announces hrun)
  · intro hfound
    constructor
    · intro boundary hok
      by_cases hsemi : semicolon ∈ s.bytes
      · by_cases htype : Multipart s.bytes
        · obtain ⟨run, mime, before, rest, h⟩ := announces_of_found (hfound hsemi htype)
          rw [parse_announced hz htype h] at hok
          split at hok
          · cases hok
          · rename_i hne
            cases hok
            exact ⟨run, hne, ⟨mime, before, rest, h⟩, rfl⟩
        · rw [parse_not_multipart hz hsemi htype] at hok
          cases hok
      · obtain ⟨e, he, -⟩ := parse_no_semicolon hz hsemi
        rw [he] at hok
        cases hok
    · exact parse_no_semicolon hz
    · intro hsemi htype hnot
      exact absurd (announces_of_found (hfound hsemi htype)) hnot
    · rintro htype ⟨mime, before, rest, h⟩
      rw [parse_announced hz htype h, if_pos rfl]
      exact ⟨_, rfl, rfl⟩

def boundaryThenCharset : StdString := ⟨ascii "multipart/form-data; boundary=x; charset=utf-8", by decide +kernel⟩

theorem content_type_met_sample :
    ContentTypeMet boundaryThenCharset.bytes ↔
      (semicolon ∈ boundaryThenCharset.bytes → Multipart boundaryThenCharset.bytes →
        boundaryString <:+: boundaryThenCharset.bytes.dropWhile (· != semicolon)) :=
  content_type_met_iff boundaryThenCharset (by decide +kernel)

def charsetOnly : Bytes := ascii "multipart/form-data; charset=utf-8"

theorem boundary_from_mime_type :
    uploadParseContentType charsetOnly = .ok (ascii "\r\n--t/form-data") ∧ ¬ ContentTypeMet charsetOnly := by
  have hok : uploadParseContentType charsetOnly = .ok (ascii "\r\n--t/form-data") := by decide +kernel
  refine ⟨hok, ?_⟩
  intro hmet
  obtain ⟨run, -, hrun, -⟩ := hmet.sets _ hok
  exact absurd (found_of_announces hrun) (by decide +kernel)

end FcgiAppserver.Formdata
