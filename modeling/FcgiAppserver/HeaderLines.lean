import FcgiAppserver.ParserIterations

namespace FcgiAppserver.Formdata

open ByteStrings

/-- A parser of `parse_form_data` after its first delimiter. -/
def atFirstHeader : FormdataParser :=
  ⟨∅, [cr, lf, dash, dash, 120], [], [], [], .headers, 0, 0, [], 512, [], 128 * 1024, false⟩

/-- The exception that a part header is rejected with, whatever the parser. -/
def headerThrows (header : Bytes) : Option FcgiException := (uploadParsePartHeader atFirstHeader header).2

def headerName (name header : Bytes) : Bytes :=
  (uploadParsePartHeader { atFirstHeader with fieldName := name } header).1.fieldName

theorem parsePartHeader_eq (s : FormdataParser) (header : Bytes) :
    ∃ contentType, uploadParsePartHeader s header =
      ({ s with fieldName := headerName s.fieldName header, contentType }, headerThrows header) := by
  obtain ⟨name, type, e, h⟩ := parsePartHeader_uniform header
  have hname : headerName s.fieldName header = name.getD s.fieldName := by rw [headerName, h]
  have hthrows : headerThrows header = e := by rw [headerThrows, h]
  exact ⟨_, by rw [h s, hname, hthrows]⟩

def BeginsWith (word s : Bytes) : Prop := word.map toLower <+: s.map toLower

def fieldBody (word header : Bytes) : Bytes := (header.drop word.length).dropWhile (· == space)

/-- The part headers that are no `form-data` and no `attachment`, have a field name without an end, or an empty type. -/
inductive Rejected (header : Bytes) : Prop
  | disposition (hfield : BeginsWith contentDispositionString header)
      (hformData : ¬ BeginsWith formDataString (fieldBody contentDispositionString header))
      (hattachment : ¬ BeginsWith attachmentString (fieldBody contentDispositionString header))
  | name (before after : Bytes) (hfield : BeginsWith contentDispositionString header)
      (hvalue : cString (fieldBody contentDispositionString header) = before ++ (fieldnameString ++ after))
      (hfirst : ∀ k < before.length, ¬ fieldnameString <+: (cString (fieldBody contentDispositionString header)).drop k)
      (hend : quote ∉ after)
  | type (hfield : BeginsWith contentTypeString header) (hempty : fieldBody contentTypeString header = [])

theorem strncasecmp_iff (word s : Bytes) (hword : ∀ b ∈ word, b ≠ 0) :
    strncasecmp word s word.length = 0 ↔ BeginsWith word s := by
  induction word generalizing s with
  | nil => exact iff_of_true rfl List.nil_prefix
  | cons b word ih =>
    obtain ⟨hb, hrest⟩ := List.forall_mem_cons.mp hword
    rw [BeginsWith, List.map_cons]
    constructor
    · intro h
      obtain ⟨heq, htail⟩ := strncasecmp_cons hb h
      cases s with
      | nil => exact absurd heq (toLower_ne_zero hb)
      | cons c s =>
        rw [List.map_cons, List.cons_prefix_cons]
        exact ⟨heq, (ih s hrest).mp htail⟩
    · intro h
      cases s with
      | nil => exact absurd (List.prefix_nil.mp h) (List.cons_ne_nil _ _)
      | cons c s =>
        rw [List.map_cons, List.cons_prefix_cons] at h
        have hlower : toLower b ≠ 0 := toLower_ne_zero hb
        change (if toLower b ≠ toLower c then ((toLower b).toNat : ℤ) - (toLower c).toNat
          else if toLower b = 0 then 0 else strncasecmp word s word.length) = 0
        rw [if_neg (not_not.mpr h.1), if_neg hlower]
        exact (ih s hrest).mpr h.2

theorem drop_spaces (p : Bytes) : p.drop (strspn p [space]) = p.dropWhile (· == space) := by
  rw [strspn, cString]
  induction p with
  | nil => rfl
  | cons b p ih =>
    by_cases hb : b = space
    · subst hb
      rw [List.takeWhile_cons_of_pos (by decide), List.takeWhile_cons_of_pos (by decide), List.length_cons,
        List.drop_succ_cons, ih, List.dropWhile_cons_of_pos (by decide)]
    · rw [List.dropWhile_cons_of_neg (by simpa using hb)]
      by_cases hz : b = 0
      · rw [List.takeWhile_cons_of_neg (by simpa using hz)]
        rfl
      · rw [List.takeWhile_cons_of_pos (by simpa using hz), List.takeWhile_cons_of_neg (by simpa using hb)]
        rfl

theorem cString_drop {s u t : Bytes} (h : cString s = u ++ t) : cString (s.drop u.length) = t := by
  induction u generalizing s with
  | nil => exact h
  | cons b u ih =>
    cases s with
    | nil => cases h
    | cons c s =>
      by_cases hc : c = 0
      · rw [cString, List.takeWhile_cons_of_neg (by simpa using hc)] at h
        cases h
      · rw [cString, List.takeWhile_cons_of_pos (by simpa using hc), List.cons_append, List.cons.injEq] at h
        exact ih h.2

/-- The quote that `strcspn` looks for is there if it comes before the NUL. -/
theorem strcspn_quote (s : Bytes) : s[strcspn s [quote]]? = some quote ↔ quote ∈ cString s := by
  rw [strcspn, cString]
  induction s with
  | nil => simp
  | cons b s ih =>
    by_cases hz : b = 0
    · rw [List.takeWhile_cons_of_neg (by simpa using hz), hz]
      simp [quote]
    · rw [List.takeWhile_cons_of_pos (by simpa using hz)]
      by_cases hb : b = quote
      · rw [List.takeWhile_cons_of_neg (by simp [hb]), hb]
        simp
      · rw [List.takeWhile_cons_of_pos (by simpa using hb), List.length_cons, List.getElem?_cons_succ, ih, List.mem_cons]
        exact (or_iff_right (Ne.symm hb)).symm

theorem fieldBody_eq (word header : Bytes) :
    (header.drop word.length).drop (strspn (header.drop word.length) [space]) = fieldBody word header := drop_spaces _

theorem disposition_ne_type {s : Bytes} (h : BeginsWith contentDispositionString s) : ¬ BeginsWith contentTypeString s := by
  intro h'
  have hcompare := List.prefix_of_prefix_length_le h' h (by decide +kernel)
  exact absurd hcompare (by decide +kernel)

/-- The name that is looked for has no end. -/
theorem name_unterminated {v : Bytes} {i : ℕ} (hfound : strstr v fieldnameString = some i) :
    (v.drop (i + fieldnameString.length))[strcspn (v.drop (i + fieldnameString.length)) [quote]]? ≠ some quote ↔
      ∃ before after, cString v = before ++ (fieldnameString ++ after) ∧
        (∀ k < before.length, ¬ fieldnameString <+: (cString v).drop k) ∧ quote ∉ after := by
  obtain ⟨⟨u, t, hv, hu⟩, hfirst⟩ := indexOf?_some hfound
  have hrest : cString (v.drop (i + fieldnameString.length)) = t := by
    rw [← hu, ← List.length_append]
    apply cString_drop
    rw [hv, List.append_assoc]
  rw [ne_eq, strcspn_quote, hrest]
  constructor
  · exact fun hend => ⟨u, t, hv, hu ▸ hfirst, hend⟩
  · rintro ⟨before, after, hv', hfirst', hend⟩
    have hsame : before.length = u.length := by
      rcases Nat.lt_trichotomy before.length u.length with hlt | heq | hlt
      · refine absurd ?_ (hfirst before.length (hu ▸ hlt))
        rw [hv', List.drop_left]
        exact List.prefix_append _ _
      · exact heq
      · refine absurd ?_ (hfirst' u.length hlt)
        rw [hv, List.drop_left]
        exact List.prefix_append _ _
    obtain ⟨rfl, htail⟩ := List.append_inj (hv'.symm.trans hv) hsame
    rwa [← List.append_cancel_left htail]

theorem rejected_disposition {header : Bytes} (hfield : BeginsWith contentDispositionString header)
    (hknown : ¬ (¬ BeginsWith formDataString (fieldBody contentDispositionString header) ∧
      ¬ BeginsWith attachmentString (fieldBody contentDispositionString header))) :
    Rejected header ↔ ∃ before after,
      cString (fieldBody contentDispositionString header) = before ++ (fieldnameString ++ after) ∧
      (∀ k < before.length, ¬ fieldnameString <+: (cString (fieldBody contentDispositionString header)).drop k) ∧
      quote ∉ after := by
  constructor
  · rintro (⟨-, h, h'⟩ | ⟨before, after, -, hvalue, hfirst, hend⟩ | ⟨h, -⟩)
    · exact absurd ⟨h, h'⟩ hknown
    · exact ⟨before, after, hvalue, hfirst, hend⟩
    · exact absurd h (disposition_ne_type hfield)
  · rintro ⟨before, after, hvalue, hfirst, hend⟩
    exact .name before after hfield hvalue hfirst hend

theorem rejected_other {header : Bytes} (hfield : ¬ BeginsWith contentDispositionString header) :
    Rejected header ↔ BeginsWith contentTypeString header ∧ fieldBody contentTypeString header = [] := by
  constructor
  · rintro (⟨h, -, -⟩ | ⟨-, -, h, -, -, -⟩ | ⟨h, hempty⟩)
    · exact absurd h hfield
    · exact absurd h hfield
    · exact ⟨h, hempty⟩
  · rintro ⟨h, hempty⟩
    exact .type h hempty

theorem headerThrows_iff (header : Bytes) : headerThrows header ≠ none ↔ Rejected header := by
  have hdisposition := strncasecmp_iff contentDispositionString header (by decide +kernel)
  have htype := strncasecmp_iff contentTypeString header (by decide +kernel)
  have hformData := strncasecmp_iff formDataString (fieldBody contentDispositionString header) (by decide +kernel)
  have hattachment := strncasecmp_iff attachmentString (fieldBody contentDispositionString header) (by decide +kernel)
  rw [headerThrows, uploadParsePartHeader]
  simp only [fieldBody_eq]
  by_cases hfield : strncasecmp contentDispositionString header contentDispositionString.length = 0
  · rw [if_pos hfield]
    by_cases hkind : strncasecmp formDataString (fieldBody contentDispositionString header) formDataString.length ≠ 0 ∧
        strncasecmp attachmentString (fieldBody contentDispositionString header) attachmentString.length ≠ 0
    · rw [if_pos hkind]
      refine iff_of_true (Option.some_ne_none _) ?_
      exact .disposition (hdisposition.mp hfield) (fun h => hkind.1 (hformData.mpr h)) (fun h => hkind.2 (hattachment.mpr h))
    · rw [if_neg hkind, rejected_disposition (hdisposition.mp hfield) (by rwa [← hformData, ← hattachment])]
      cases hfound : strstr (fieldBody contentDispositionString header) fieldnameString with
      | none =>
        refine iff_of_false (fun h => h rfl) ?_
        rintro ⟨before, after, hvalue, -, -⟩
        apply indexOf?_none hfound before.length
        rw [hvalue, List.drop_left]
        exact List.prefix_append _ _
      | some i =>
        rw [← name_unterminated hfound]
        dsimp only
        split_ifs with hend
        · exact iff_of_true (Option.some_ne_none _) hend
        · exact iff_of_false (fun h => h rfl) hend
  · rw [if_neg hfield, rejected_other (fun h => hfield (hdisposition.mpr h)), ← htype, ← List.isEmpty_iff]
    split_ifs with hword hempty
    · exact iff_of_true (Option.some_ne_none _) ⟨hword, hempty⟩
    · exact iff_of_false (fun h => h rfl) (fun h => hempty h.2)
    · exact iff_of_false (fun h => h rfl) (fun h => hword h.1)

/-- What the headers state keeps of a line: all but its CRs. -/
def kept (line : Bytes) : Bytes := line.filter (· != cr)

def wire (lines : List Bytes) : Bytes := lines.flatMap (· ++ [lf])

def headerTooLong : FcgiException := fcgiException "header is too long" httpBadRequest

/-- The memory from `header` on, with the NUL at `header_end`, if an iteration calls
`upload_parse_part_header`. -/
def partHeaderCall (s : FormdataParser) (c : Byte) : Option Bytes :=
  if s.state = .headers ∧ c = lf ∧ s.headerAccumulator ≠ [] then some (s.headerAccumulator ++ [0]) else none

def partHeaderCalls (s : FormdataParser) (p : ℕ) (buf : Bytes) : List Bytes :=
  (uploadIterations s p buf).filterMap (fun it => partHeaderCall it.parser it.byte)

def collected (s : FormdataParser) (line : Bytes) : FormdataParser :=
  { s with headerAccumulator := s.headerAccumulator ++ line }

theorem turn_headers {s : FormdataParser} (hs : s.state = .headers) (c : Byte) :
    uploadTurn s c = uploadHeaders s c := by
  unfold uploadTurn
  rw [hs]

theorem headers_turn_cr {s : FormdataParser} (hs : s.state = .headers) : uploadTurn s cr = .next s := by
  simp [uploadTurn, hs, uploadHeaders, cr, lf]

theorem headers_turn_keep {s : FormdataParser} (hs : s.state = .headers) {c : Byte} (hlf : c ≠ lf) (hcr : c ≠ cr)
    (hfits : s.headerAccumulator.length < s.headerAccumulatorSize - 1) :
    uploadTurn s c = .next (collected s [c]) := by
  simp [uploadTurn, hs, uploadHeaders, hlf, hcr, hfits, collected]

theorem headers_turn_full {s : FormdataParser} (hs : s.state = .headers) {c : Byte} (hlf : c ≠ lf) (hcr : c ≠ cr)
    (hfull : s.headerAccumulatorSize - 1 ≤ s.headerAccumulator.length) :
    uploadTurn s c = .fail { s with state := .finish } headerTooLong := by
  simp [uploadTurn, hs, uploadHeaders, hlf, hcr, Nat.not_lt.mpr hfull, headerTooLong]

theorem partHeaderCall_inside (s : FormdataParser) {c : Byte} (hlf : c ≠ lf) : partHeaderCall s c = none := by
  simp [partHeaderCall, hlf]

theorem calls_next {s s' : FormdataParser} {c : Byte} (hlf : c ≠ lf) (h : uploadTurn s c = .next s') (p : ℕ) (rest : Bytes) :
    partHeaderCalls s p (c :: rest) = partHeaderCalls s' (p + 1) rest := by
  simp only [partHeaderCalls, iterations_next p rest h, List.filterMap_cons, partHeaderCall_inside s hlf]

theorem kept_cons_cr (line : Bytes) : kept (cr :: line) = kept line := by simp [kept]

theorem kept_cons {c : Byte} (hc : c ≠ cr) (line : Bytes) : kept (c :: line) = c :: kept line := by simp [kept, hc]

theorem kept_append (a b : Bytes) : kept (a ++ b) = kept a ++ kept b := List.filter_append _ _

theorem kept_of_no_cr {line : Bytes} (h : ∀ b ∈ line, b ≠ cr) : kept line = line := by
  rw [kept, List.filter_eq_self]
  simpa using h

theorem collect_line {s : FormdataParser} (hs : s.state = .headers) {line : Bytes} (hline : lf ∉ line)
    (hfits : s.headerAccumulator.length + (kept line).length ≤ s.headerAccumulatorSize - 1) (rest : Bytes) (p : ℕ) :
    uploadProcessLoop s (line ++ rest) = uploadProcessLoop (collected s (kept line)) rest ∧
      partHeaderCalls s p (line ++ rest) = partHeaderCalls (collected s (kept line)) (p + line.length) rest := by
  induction line generalizing s p with
  | nil => simp [collected, kept]
  | cons c line ih =>
    simp only [List.mem_cons, not_or] at hline
    have hlf : c ≠ lf := Ne.symm hline.1
    by_cases hcr : c = cr
    · subst hcr
      have hturn := headers_turn_cr hs
      rw [kept_cons_cr] at hfits ⊢
      obtain ⟨hloop, hcalls⟩ := ih hs hline.2 hfits (p + 1)
      rw [List.cons_append, loop_next _ hturn, calls_next hlf hturn, hloop, hcalls, List.length_cons]
      exact ⟨rfl, by rw [Nat.add_assoc, Nat.add_comm 1]⟩
    · rw [kept_cons hcr, List.length_cons] at hfits
      have hturn := headers_turn_keep hs hlf hcr (by omega)
      have hrest : (collected s [c]).headerAccumulator.length + (kept line).length ≤ s.headerAccumulatorSize - 1 := by
        simp only [collected, List.length_append, List.length_singleton]
        omega
      obtain ⟨hloop, hcalls⟩ := ih (s := collected s [c]) hs hline.2 hrest (p + 1)
      have hjoin : collected (collected s [c]) (kept line) = collected s (kept (c :: line)) := by
        rw [kept_cons hcr]
        simp [collected]
      rw [List.cons_append, loop_next _ hturn, calls_next hlf hturn, hloop, hcalls, hjoin, List.length_cons]
      exact ⟨rfl, by rw [Nat.add_assoc, Nat.add_comm 1]⟩

theorem collect_too_long {s : FormdataParser} (hs : s.state = .headers) {line : Bytes} (hline : lf ∉ line)
    (hroom : s.headerAccumulator.length ≤ s.headerAccumulatorSize - 1)
    (hlong : s.headerAccumulatorSize - 1 < s.headerAccumulator.length + (kept line).length) (rest : Bytes) :
    ∃ s', uploadProcessLoop s (line ++ rest) = (s', some headerTooLong) := by
  induction line generalizing s with
  | nil =>
    simp only [kept, List.filter_nil, List.length_nil] at hlong
    omega
  | cons c line ih =>
    simp only [List.mem_cons, not_or] at hline
    have hlf : c ≠ lf := Ne.symm hline.1
    by_cases hcr : c = cr
    · subst hcr
      rw [kept_cons_cr] at hlong
      rw [List.cons_append, loop_next _ (headers_turn_cr hs)]
      exact ih hs hline.2 hroom hlong
    · by_cases hfits : s.headerAccumulator.length < s.headerAccumulatorSize - 1
      · rw [kept_cons hcr, List.length_cons] at hlong
        rw [List.cons_append, loop_next _ (headers_turn_keep hs hlf hcr hfits)]
        apply ih (s := collected s [c]) hs hline.2
        · simp only [collected, List.length_append, List.length_singleton]
          omega
        · simp only [collected, List.length_append, List.length_singleton]
          omega
      · rw [List.cons_append, loop_fail _ (headers_turn_full hs hlf hcr (Nat.not_lt.mp hfits))]
        exact ⟨_, rfl⟩

theorem headers_turn_parsed {s s' : FormdataParser} (hs : s.state = .headers) (hacc : s.headerAccumulator ≠ [])
    (hparse : uploadParsePartHeader s s.headerAccumulator = (s', none)) :
    uploadTurn s lf = .next { s' with headerAccumulator := [] } := by
  rw [turn_headers hs, uploadHeaders]
  simp only [if_true, hacc, if_false, hparse]

theorem headers_turn_rejected {s s' : FormdataParser} {e : FcgiException} (hs : s.state = .headers)
    (hacc : s.headerAccumulator ≠ []) (hparse : uploadParsePartHeader s s.headerAccumulator = (s', some e)) :
    uploadTurn s lf = .fail { s' with state := .finish } e := by
  rw [turn_headers hs, uploadHeaders]
  simp only [if_true, hacc, if_false, hparse]

theorem headers_turn_blank {s : FormdataParser} (hs : s.state = .headers) (hacc : s.headerAccumulator = []) :
    uploadTurn s lf = .next { s with state := .data, outputBuffer := [] } := by
  rw [turn_headers hs, uploadHeaders]
  simp only [if_true, hacc]

theorem calls_line_end {s : FormdataParser} (hs : s.state = .headers) (hacc : s.headerAccumulator ≠ []) (p : ℕ) :
    partHeaderCalls s p [lf] = [s.headerAccumulator ++ [0]] := by
  have hcall : partHeaderCall s lf = some (s.headerAccumulator ++ [0]) := by simp [partHeaderCall, hs, hacc]
  have hiterations : uploadIterations s p [lf] = [⟨s, lf, p⟩] := by
    rcases hparse : uploadParsePartHeader s s.headerAccumulator with ⟨s', - | e⟩
    · rw [iterations_next p [] (headers_turn_parsed hs hacc hparse), iterations_nil]
    · exact iterations_fail p [] (headers_turn_rejected hs hacc hparse)
  simp [partHeaderCalls, hiterations, hcall]

structure LineStart (s : FormdataParser) : Prop where
  state_eq : s.state = .headers
  empty : s.headerAccumulator = []

section

variable {s s' : FormdataParser} {line : Bytes}

theorem LineStart.collect (hs : LineStart s) (hline : lf ∉ line) (hfits : (kept line).length ≤ s.headerAccumulatorSize - 1)
    (rest : Bytes) (p : ℕ) :
    uploadProcessLoop s (line ++ rest) = uploadProcessLoop { s with headerAccumulator := kept line } rest ∧
      partHeaderCalls s p (line ++ rest) =
        partHeaderCalls { s with headerAccumulator := kept line } (p + line.length) rest := by
  have hcollect := collect_line hs.state_eq hline (by simpa [hs.empty] using hfits) rest p
  rwa [collected, hs.empty, List.nil_append] at hcollect

theorem LineStart.line_parsed (hs : LineStart s) (hline : lf ∉ line) (hne : kept line ≠ [])
    (hfits : (kept line).length ≤ s.headerAccumulatorSize - 1)
    (hparse : uploadParsePartHeader { s with headerAccumulator := kept line } (kept line) = (s', none)) (rest : Bytes) :
    uploadProcessLoop s (line ++ lf :: rest) = uploadProcessLoop { s' with headerAccumulator := [] } rest := by
  rw [(hs.collect hline hfits (lf :: rest) 0).1]
  exact loop_next _ (headers_turn_parsed (s := { s with headerAccumulator := kept line }) hs.state_eq hne hparse)

theorem LineStart.line_rejected {e : FcgiException} (hs : LineStart s) (hline : lf ∉ line) (hne : kept line ≠ [])
    (hfits : (kept line).length ≤ s.headerAccumulatorSize - 1)
    (hparse : uploadParsePartHeader { s with headerAccumulator := kept line } (kept line) = (s', some e)) (rest : Bytes) :
    uploadProcessLoop s (line ++ lf :: rest) = ({ s' with state := .finish }, some e) := by
  rw [(hs.collect hline hfits (lf :: rest) 0).1]
  exact loop_fail _ (headers_turn_rejected (s := { s with headerAccumulator := kept line }) hs.state_eq hne hparse)

theorem LineStart.blank_line (hs : LineStart s) (hline : lf ∉ line) (hblank : kept line = []) (rest : Bytes) :
    uploadProcessLoop s (line ++ lf :: rest) = uploadProcessLoop { s with state := .data, outputBuffer := [] } rest := by
  rw [(hs.collect hline (by simp [hblank]) (lf :: rest) 0).1, hblank]
  have hsame : { s with headerAccumulator := [] } = s := by
    rw [← hs.empty]
  rw [hsame]
  exact loop_next _ (headers_turn_blank hs.state_eq hs.empty)

theorem LineStart.line_too_long (hs : LineStart s) (hline : lf ∉ line)
    (hlong : s.headerAccumulatorSize - 1 < (kept line).length) (rest : Bytes) :
    ∃ s', uploadProcessLoop s (line ++ rest) = (s', some headerTooLong) :=
  collect_too_long hs.state_eq hline (by simp [hs.empty]) (by simpa [hs.empty] using hlong) rest

theorem LineStart.line_called (hs : LineStart s) (hline : lf ∉ line) (hne : kept line ≠ [])
    (hfits : (kept line).length ≤ s.headerAccumulatorSize - 1) :
    partHeaderCalls s 0 (line ++ [lf]) = [kept line ++ [0]] := by
  rw [(hs.collect hline hfits [lf] 0).2]
  exact calls_line_end (s := { s with headerAccumulator := kept line }) hs.state_eq hne _

theorem partHeader_thrown {P : Option FcgiException → Prop} (s : FormdataParser) (header : Bytes) (hnone : P none)
    (hdisposition : P (some (fcgiException "Content-Disposition is not form-data or attachment" httpBadRequest)))
    (hfieldname : P (some (fcgiException "malformed fieldname in part header" httpBadRequest)))
    (htype : P (some (fcgiException "empty Content-Type in part header" httpBadRequest))) :
    P (uploadParsePartHeader s header).2 := by
  unfold uploadParsePartHeader
  dsimp only
  split
  · split
    · exact hdisposition
    · split
      · split
        · exact hfieldname
        · exact hnone
      · exact hnone
  · split
    · split
      · exact htype
      · exact hnone
    · exact hnone

theorem partHeader_not_too_long (s : FormdataParser) (header : Bytes) :
    (uploadParsePartHeader s header).2 ≠ some headerTooLong := by
  apply partHeader_thrown (P := fun e => e ≠ some headerTooLong)
  · exact (Option.some_ne_none _).symm
  · decide +kernel
  · decide +kernel
  · decide +kernel

theorem LineStart.parsed (hs : LineStart s) {e : Option FcgiException}
    (hparse : uploadParsePartHeader { s with headerAccumulator := line } line = (s', e)) :
    ∃ fieldName contentType, { s' with headerAccumulator := [] } = { s with fieldName, contentType } := by
  obtain ⟨fieldName, contentType, hframe⟩ := parsePartHeader_frame { s with headerAccumulator := line } line
  rw [hparse] at hframe
  change s' = _ at hframe
  refine ⟨fieldName, contentType, ?_⟩
  rw [hframe, ← hs.empty]

theorem wire_cons (line : Bytes) (lines : List Bytes) : wire (line :: lines) = line ++ lf :: wire lines := by
  simp [wire]

theorem LineStart.lines_run (hs : LineStart s) {lines : List Bytes} (hlines : ∀ line ∈ lines, lf ∉ line ∧ kept line ≠ [])
    (haccepted : (uploadProcessLoop s (wire lines)).2 = none) :
    LineStart (uploadProcessLoop s (wire lines)).1 ∧
      (uploadProcessLoop s (wire lines)).1.headerAccumulatorSize = s.headerAccumulatorSize := by
  induction lines generalizing s with
  | nil => exact ⟨by simpa [wire] using hs, by simp [wire]⟩
  | cons line lines ih =>
    obtain ⟨⟨hline, hne⟩, hlines⟩ := List.forall_mem_cons.mp hlines
    rw [wire_cons] at haccepted ⊢
    by_cases hfits : (kept line).length ≤ s.headerAccumulatorSize - 1
    · rcases hparse : uploadParsePartHeader { s with headerAccumulator := kept line } (kept line) with ⟨s', - | e⟩
      · rw [hs.line_parsed hline hne hfits hparse] at haccepted ⊢
        obtain ⟨fieldName, contentType, hs'⟩ := hs.parsed hparse
        rw [hs'] at haccepted ⊢
        exact ih (s := { s with fieldName, contentType }) ⟨hs.state_eq, hs.empty⟩ hlines haccepted
      · rw [hs.line_rejected hline hne hfits hparse] at haccepted
        cases haccepted
    · obtain ⟨s', hlong⟩ := hs.line_too_long hline (Nat.lt_of_not_le hfits) (lf :: wire lines)
      rw [hlong] at haccepted
      cases haccepted

/-- A line that the headers state passes on and `upload_parse_part_header` takes. -/
structure Accepted (maxHeaderLen : ℕ) (line : Bytes) : Prop where
  one_line : lf ∉ line
  ne_nil : kept line ≠ []
  fits : (kept line).length ≤ maxHeaderLen - 1
  taken : headerThrows (kept line) = none

theorem LineStart.accepted_run (hs : LineStart s) {lines : List Bytes}
    (hlines : ∀ line ∈ lines, Accepted s.headerAccumulatorSize line) (rest : Bytes) :
    ∃ contentType, uploadProcessLoop s (wire lines ++ rest) = uploadProcessLoop
      { s with fieldName := (lines.map kept).foldl headerName s.fieldName, contentType } rest := by
  induction lines generalizing s with
  | nil => exact ⟨s.contentType, rfl⟩
  | cons line lines ih =>
    obtain ⟨hline, hlines⟩ := List.forall_mem_cons.mp hlines
    obtain ⟨type, hparse⟩ := parsePartHeader_eq { s with headerAccumulator := kept line } (kept line)
    rw [hline.taken] at hparse
    have hfirst := hs.line_parsed hline.one_line hline.ne_nil hline.fits hparse (wire lines ++ rest)
    obtain ⟨contentType, hrest⟩ :=
      ih (s := { s with fieldName := headerName s.fieldName (kept line), contentType := type })
        ⟨hs.state_eq, hs.empty⟩ hlines
    refine ⟨contentType, ?_⟩
    rw [wire_cons, List.append_assoc, List.cons_append, hfirst, ← hs.empty]
    exact hrest

theorem LineStart.block_run (hs : LineStart s) {lines : List Bytes}
    (hlines : ∀ line ∈ lines, Accepted s.headerAccumulatorSize line) {blank : Bytes} (hone : lf ∉ blank)
    (hblank : kept blank = []) (rest : Bytes) :
    ∃ contentType, uploadProcessLoop s (wire lines ++ (blank ++ lf :: rest)) = uploadProcessLoop
      { s with fieldName := (lines.map kept).foldl headerName s.fieldName, contentType,
               state := .data, outputBuffer := [] } rest := by
  obtain ⟨contentType, hlines⟩ := hs.accepted_run hlines (blank ++ lf :: rest)
  refine ⟨contentType, ?_⟩
  rw [hlines]
  exact LineStart.blank_line
    (s := { s with fieldName := (lines.map kept).foldl headerName s.fieldName, contentType })
    ⟨hs.state_eq, hs.empty⟩ hone hblank rest

/-- What the accumulator's size promises for a line. -/
structure LimitMet (s : FormdataParser) (line : Bytes) : Prop where
  rejected_iff : (uploadProcessLoop s (line ++ [lf])).2 = some headerTooLong ↔
    s.headerAccumulatorSize < (kept line).length
  called : (kept line).length ≤ s.headerAccumulatorSize →
    partHeaderCalls s 0 (line ++ [lf]) = [kept line ++ [0]]

theorem LineStart.rejected_iff (hs : LineStart s) (hline : lf ∉ line) (hne : kept line ≠ []) :
    (uploadProcessLoop s (line ++ [lf])).2 = some headerTooLong ↔ s.headerAccumulatorSize - 1 < (kept line).length := by
  by_cases hfits : (kept line).length ≤ s.headerAccumulatorSize - 1
  · refine iff_of_false ?_ (Nat.not_lt.mpr hfits)
    have hother := partHeader_not_too_long { s with headerAccumulator := kept line } (kept line)
    rcases hparse : uploadParsePartHeader { s with headerAccumulator := kept line } (kept line) with ⟨s', - | e⟩
    · rw [hs.line_parsed hline hne hfits hparse, loop_nil]
      exact (Option.some_ne_none _).symm
    · rw [hs.line_rejected hline hne hfits hparse]
      rwa [hparse] at hother
  · obtain ⟨s', hlong⟩ := hs.line_too_long hline (Nat.lt_of_not_le hfits) [lf]
    rw [hlong]
    exact iff_of_true rfl (Nat.lt_of_not_le hfits)

theorem LineStart.limit_met_iff (hs : LineStart s) (hsize : 1 ≤ s.headerAccumulatorSize) (hline : lf ∉ line)
    (hne : kept line ≠ []) : LimitMet s line ↔ (kept line).length ≠ s.headerAccumulatorSize := by
  have hrejected := hs.rejected_iff hline hne
  constructor
  · intro h heq
    have hlong := h.rejected_iff.mp (hrejected.mpr (by omega))
    omega
  · intro hlen
    refine ⟨hrejected.trans ?_, ?_⟩
    · omega
    · intro hle
      exact hs.line_called hline hne (by omega)

end

theorem header_limit_met_iff (maxHeaderLen : ℕ) (hmax : 1 ≤ maxHeaderLen) (s : FormdataParser) (hs : LineStart s)
    (hsize : s.headerAccumulatorSize = maxHeaderLen) (before : List Bytes)
    (hbefore : ∀ line ∈ before, lf ∉ line ∧ kept line ≠ [])
    (haccepted : (uploadProcessLoop s (wire before)).2 = none) (line : Bytes) (hline : lf ∉ line) (hne : kept line ≠ []) :
    LimitMet (uploadProcessLoop s (wire before)).1 line ↔ (kept line).length ≠ maxHeaderLen := by
  obtain ⟨hstart, hkeeps⟩ := hs.lines_run hbefore haccepted
  rw [← hsize, ← hkeeps]
  exact hstart.limit_met_iff (by omega) hline hne

theorem header_limit_met_short :
    LimitMet (uploadProcessLoop atFirstHeader (wire [])).1 (ascii "X-A: b\r") ↔ (kept (ascii "X-A: b\r")).length ≠ 512 :=
  header_limit_met_iff 512 (by decide) atFirstHeader ⟨rfl, rfl⟩ rfl [] (by simp) (by simp [wire])
    (ascii "X-A: b\r") (by decide +kernel) (by decide +kernel)

def fullLine : Bytes := List.replicate 512 97

theorem full_line_rejected : LineStart atFirstHeader ∧ lf ∉ fullLine ∧ (kept fullLine).length = 512 ∧
    (uploadProcessLoop atFirstHeader (fullLine ++ [lf])).2 = some headerTooLong ∧ ¬ LimitMet atFirstHeader fullLine := by
  have hs : LineStart atFirstHeader := ⟨rfl, rfl⟩
  have hline : lf ∉ fullLine := fun h => absurd (List.eq_of_mem_replicate h) (by decide)
  have hkept : kept fullLine = fullLine := by
    apply kept_of_no_cr
    intro b hb
    rw [List.eq_of_mem_replicate hb]
    decide
  have hlen : (kept fullLine).length = 512 := by rw [hkept, fullLine, List.length_replicate]
  have hne : kept fullLine ≠ [] := List.ne_nil_of_length_pos (by omega)
  refine ⟨hs, hline, hlen, ?_, ?_⟩
  · rw [hs.rejected_iff hline hne, hlen]
    decide
  · rw [hs.limit_met_iff (by decide) hline hne, hlen]
    exact fun h => h rfl

end FcgiAppserver.Formdata
