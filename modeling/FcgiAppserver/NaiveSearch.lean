import FcgiAppserver.ParserCursors
import FcgiAppserver.SwallowedErrors

namespace FcgiAppserver.Formdata

open ByteStrings QueryArgs

def delimiterOf (token : Bytes) : Bytes := lf :: dash :: dash :: token

def lessCr (value : Bytes) : Bytes := if value.getLast? = some cr then value.dropLast else value

structure AtValue (token : Bytes) (s : FormdataParser) : Prop where
  boundary_eq : s.boundary = cr :: delimiterOf token
  state_eq : s.state = .data
  start_eq : s.boundaryStart = 0
  pos_eq : s.boundaryPos = 0
  no_value : s.fieldValue = []
  no_output : s.outputBuffer = []
  keep : s.discardData = false

/-- The parser leaves the data state where a search finds the delimiter, and records what stands before it. -/
structure MatchesNaively (s : FormdataParser) (token data : Bytes) : Prop where
  stays : ∀ read, read <+: data →
    (∀ i, indexOf? (delimiterOf token) data = some i → read.length < i + (delimiterOf token).length) →
    ∃ s', uploadProcessLoop s read = (s', none) ∧ s'.state = .data
  leaves : ∀ i, indexOf? (delimiterOf token) data = some i →
    ∃ s', uploadProcessLoop s (data.take (i + (delimiterOf token).length)) = (s', none) ∧ s'.state = .afterBoundary ∧
      s'.formdataParams = s.formdataParams.insertIfNew s.fieldName (lessCr (data.take i))

/-- An occurrence within a beginning of the data is not before the first one. -/
theorem first_found {pat data read : Bytes} (hread : read <+: data) (h : pat <:+: read) :
    ∃ i, indexOf? pat data = some i ∧ i + pat.length ≤ read.length := by
  obtain ⟨before, after, rfl⟩ := h
  obtain ⟨unread, rfl⟩ := hread
  have hstands : pat <+: (before ++ pat ++ after ++ unread).drop before.length := by
    rw [List.append_assoc, List.append_assoc, List.drop_left]
    exact List.prefix_append _ _
  cases hfound : indexOf? pat (before ++ pat ++ after ++ unread) with
  | none => exact absurd hstands (indexOf?_none hfound before.length)
  | some i =>
    refine ⟨i, rfl, ?_⟩
    have hle : i ≤ before.length := by
      by_contra hlt
      exact (indexOf?_some hfound).2 before.length (not_le.mp hlt) hstands
    simp only [List.length_append]
    omega

theorem flush_frame (s : FormdataParser) :
    ∃ fieldValue outputBuffer, uploadFlushOutputBuffer s = { s with fieldValue, outputBuffer } := by
  unfold uploadFlushOutputBuffer
  split_ifs <;> exact ⟨_, _, rfl⟩

/-- Nothing is discarded, and outside the data of a part nothing is held of a value or of a match. -/
structure PartsApart (boundary : Bytes) (s : FormdataParser) : Prop where
  boundary_eq : s.boundary = boundary
  keep : s.discardData = false
  no_value : s.state ≠ .data → s.fieldValue = []
  no_match : s.state ≠ .data → s.state ≠ .boundarySeek → s.boundaryPos = s.boundaryStart

section

variable {boundary : Bytes} {s : FormdataParser}

theorem partsApart_data (hboundary : s.boundary = boundary) (hkeep : s.discardData = false) (hdata : s.state = .data) :
    PartsApart boundary s :=
  ⟨hboundary, hkeep, fun hne => absurd hdata hne, fun hne => absurd hdata hne⟩

theorem PartsApart.between (h : PartsApart boundary s) {state : FormdataParserState} (hstate : s.state = state)
    (hdata : state ≠ .data) (hseek : state ≠ .boundarySeek) : s.fieldValue = [] ∧ s.boundaryPos = s.boundaryStart := by
  rw [← hstate] at hdata hseek
  exact ⟨h.no_value hdata, h.no_match hdata hseek⟩

theorem PartsApart.endOfPart (h : PartsApart boundary s) : PartsApart boundary (uploadEndOfPart s) := by
  unfold uploadEndOfPart
  split_ifs
  · obtain ⟨fieldValue, outputBuffer, hflush⟩ :=
      flush_frame { s with state := .afterBoundary, boundaryPos := s.boundaryStart }
    dsimp only
    rw [hflush]
    split_ifs
    · exact ⟨h.boundary_eq, rfl, fun _ => rfl, fun _ _ => rfl⟩
    · exact ⟨h.boundary_eq, rfl, fun _ => rfl, fun _ _ => rfl⟩
  · exact h

theorem PartsApart.boundarySeek (h : PartsApart boundary s) (hseek : s.state = .boundarySeek) (c : Byte) :
    PartsApart boundary (uploadBoundarySeek s c) := by
  have hvalue : s.fieldValue = [] := h.no_value (by rw [hseek]; exact FormdataParserState.noConfusion)
  unfold uploadBoundarySeek
  by_cases hend : (if atBoundary s c then s.boundaryPos + 1 else s.boundaryStart) = s.boundary.length
  · rw [if_pos hend]
    exact ⟨h.boundary_eq, h.keep, fun _ => hvalue, fun _ _ => rfl⟩
  · rw [if_neg hend]
    exact ⟨h.boundary_eq, h.keep, fun _ => hvalue, fun _ hne => absurd hseek hne⟩

theorem PartsApart.afterBoundary (h : PartsApart boundary s) (hafter : s.state = .afterBoundary) (c : Byte) :
    PartsApart boundary (uploadAfterBoundary s c) := by
  obtain ⟨hvalue, hmatch⟩ := h.between hafter FormdataParserState.noConfusion FormdataParserState.noConfusion
  unfold uploadAfterBoundary
  split_ifs
  · exact ⟨h.boundary_eq, h.keep, fun _ => hvalue, fun _ _ => hmatch⟩
  · exact h
  · exact ⟨h.boundary_eq, h.keep, fun _ => hvalue, fun _ _ => hmatch⟩
  · exact h

theorem PartsApart.headers (h : PartsApart boundary s) (hheaders : s.state = .headers) (c : Byte) :
    PartsApart boundary (uploadHeaders s c).parser := by
  obtain ⟨hvalue, hmatch⟩ := h.between hheaders FormdataParserState.noConfusion FormdataParserState.noConfusion
  unfold uploadHeaders
  split_ifs
  · exact partsApart_data h.boundary_eq h.keep rfl
  · obtain ⟨fieldName, contentType, hparsed⟩ := parsePartHeader_frame s s.headerAccumulator
    split
    · rename_i s' hs'
      obtain rfl : s' = _ := (congrArg Prod.fst hs').symm.trans hparsed
      exact ⟨h.boundary_eq, h.keep, fun _ => hvalue, fun _ _ => hmatch⟩
    · rename_i s' e hs'
      obtain rfl : s' = _ := (congrArg Prod.fst hs').symm.trans hparsed
      exact ⟨h.boundary_eq, h.keep, fun _ => hvalue, fun _ _ => hmatch⟩
  · exact h
  · exact ⟨h.boundary_eq, h.keep, fun _ => hvalue, fun _ _ => hmatch⟩
  · exact ⟨h.boundary_eq, h.keep, fun _ => hvalue, fun _ _ => hmatch⟩

theorem PartsApart.data (h : PartsApart boundary s) (hdata : s.state = .data) (c : Byte) :
    PartsApart boundary (uploadData s c).parser := by
  unfold uploadData
  split_ifs
  · exact PartsApart.endOfPart (partsApart_data h.boundary_eq h.keep hdata)
  · exact PartsApart.endOfPart (partsApart_data h.boundary_eq h.keep hdata)
  · obtain ⟨fieldValue, outputBuffer, hput⟩ := putc_frame s c
    rw [hput]
    exact PartsApart.endOfPart (partsApart_data h.boundary_eq h.keep hdata)
  · obtain ⟨fieldValue, outputBuffer, hlump⟩ :=
      lump_frame s ((s.boundary.take s.boundaryPos).drop s.boundaryStart)
    dsimp only
    rw [hlump]
    exact PartsApart.endOfPart (partsApart_data h.boundary_eq h.keep hdata)

theorem PartsApart.turn (h : PartsApart boundary s) (c : Byte) : PartsApart boundary (uploadTurn s c).parser := by
  unfold uploadTurn
  cases hstate : s.state with
  | boundarySeek => exact h.boundarySeek hstate c
  | afterBoundary => exact h.afterBoundary hstate c
  | headers => exact h.headers hstate c
  | data => exact h.data hstate c
  | finish => exact h

end

section

variable {contentType boundary : Bytes} {maxHeaderLen bufferSize : ℕ} {params : Params} {s s' : FormdataParser}

theorem partsApart_new (haccepted : uploadParseContentType contentType = .ok boundary)
    (h : formdataParser contentType maxHeaderLen bufferSize params = .ok s) : PartsApart boundary s := by
  obtain ⟨boundary', hboundary, rfl⟩ := formdataParser_accepted h
  obtain rfl := Except.ok.inj (haccepted.symm.trans hboundary)
  exact ⟨rfl, rfl, fun _ => rfl, fun _ hne => absurd rfl hne⟩

theorem partsApart_reachable (haccepted : uploadParseContentType contentType = .ok boundary)
    (hs : Reachable contentType maxHeaderLen bufferSize params s) : PartsApart boundary s := by
  apply hs.keeps
  · intro s h
    exact partsApart_new haccepted h
  · intro s c h
    exact h.turn c

/-- A parser that comes to the value of a part, not after a bare LF, is at its beginning. -/
theorem atValue_entered {token : Bytes} (haccepted : uploadParseContentType contentType = .ok (cr :: delimiterOf token))
    (hs : Reachable contentType maxHeaderLen bufferSize params s) (hheaders : s.state = .headers) {c : Byte}
    (hturn : uploadTurn s c = .next s') (hdata : s'.state = .data) (hstart : s'.boundaryStart = 0) :
    AtValue token s' := by
  have hparts := partsApart_reachable haccepted hs
  obtain ⟨hvalue, hmatch⟩ := hparts.between hheaders FormdataParserState.noConfusion FormdataParserState.noConfusion
  rw [uploadTurn, hheaders] at hturn
  dsimp only [uploadHeaders] at hturn
  split_ifs at hturn with hlf hblank hcr hfits
  · obtain rfl := Turn.next.inj hturn
    exact ⟨hparts.boundary_eq, rfl, hstart, hmatch.trans hstart, hvalue, rfl, hparts.keep⟩
  · obtain ⟨fieldName, contentType', hparsed⟩ := parsePartHeader_frame s s.headerAccumulator
    split at hturn
    · rename_i s₁ hs₁
      obtain rfl : s₁ = _ := (congrArg Prod.fst hs₁).symm.trans hparsed
      obtain rfl := Turn.next.inj hturn
      rw [hheaders] at hdata
      cases hdata
    · cases hturn
  · obtain rfl := Turn.next.inj hturn
    rw [hheaders] at hdata
    cases hdata
  · obtain rfl := Turn.next.inj hturn
    rw [hheaders] at hdata
    cases hdata

end

variable {B : BoundaryToken} {s : FormdataParser}

theorem dataStart_atValue (h : AtValue B.bytes s) (hroom : 0 < s.outputBufferSize) : DataStart B s :=
  ⟨h.boundary_eq, h.state_eq, h.keep, hroom⟩

theorem stays_in_data (h : AtValue B.bytes s) {data read : Bytes} (hread : read <+: data)
    (hbefore : ∀ i, indexOf? B.delimiter data = some i → read.length < i + B.delimiter.length) :
    ∃ s', uploadProcessLoop s read = (s', none) ∧ s'.state = .data := by
  apply data_unfinished h.boundary_eq h.state_eq false h.start_eq h.pos_eq
  intro hinfix
  obtain ⟨i, hi, hle⟩ := first_found hread hinfix
  exact absurd (hbefore i hi) (not_lt.mpr hle)

theorem value_recorded (h : AtValue B.bytes s) {value : Bytes} (hroom : value.length < s.outputBufferSize)
    (hfree : ¬ B.delimiter <:+: value) :
    ∃ s', uploadProcessLoop s (value ++ B.delimiter) = (s', none) ∧ s'.state = .afterBoundary ∧
      s'.formdataParams = s.formdataParams.insertIfNew s.fieldName (lessCr value) := by
  have hs := dataStart_atValue h (Nat.zero_lt_of_lt hroom)
  have hdone {v : Bytes} (ending : LineEnd) (hle : v.length ≤ value.length) (hv : ¬ B.delimiter <:+: v)
      (hend : ending = .lf → v.getLast? ≠ some cr) :
      ∃ s', uploadProcessLoop s (v ++ (ending.bytes ++ B.delimiter)) = (s', none) ∧ s'.state = .afterBoundary ∧
        s'.formdataParams = s.formdataParams.insertIfNew s.fieldName v := by
    have hpart := part_value hs h.no_value h.no_output false h.start_eq h.pos_eq ending hv hend []
    have hplain : v ++ strayCr false v ending = v := List.append_nil v
    rw [List.append_nil, hplain, List.take_of_length_le (hle.trans (Nat.le_of_lt hroom)), loop_nil] at hpart
    exact ⟨_, hpart, rfl, rfl⟩
  by_cases hcr : value.getLast? = some cr
  · have hvalue : value = value.dropLast ++ [cr] := (List.dropLast_append_getLast? cr hcr).symm
    rw [lessCr, if_pos hcr]
    have hfree' : ¬ B.delimiter <:+: value.dropLast := fun hin => hfree (hin.trans (List.dropLast_prefix value).isInfix)
    have hcrlf := hdone .crlf (List.dropLast_prefix value).length_le hfree' (fun hend => by cases hend)
    rwa [← List.append_assoc, show LineEnd.crlf.bytes = [cr] from rfl, ← hvalue] at hcrlf
  · rw [lessCr, if_neg hcr]
    exact hdone .lf (le_refl _) hfree (fun _ => hcr)

theorem matches_naively (h : AtValue B.bytes s) {data : Bytes} (hroom : data.length < s.outputBufferSize) :
    MatchesNaively s B.bytes data where
  stays read hread hbefore := stays_in_data h hread hbefore
  leaves i hi := by
    obtain ⟨⟨value, rest, rfl, rfl⟩, hfirst⟩ := indexOf?_some hi
    have hfree : ¬ B.delimiter <:+: value := by
      intro hin
      obtain ⟨j, hj, hle⟩ := first_found (List.prefix_append value (delimiterOf B.bytes ++ rest)) hin
      obtain rfl := Option.some_inj.mp (hi.symm.trans hj)
      have hpos := List.length_pos_iff.mpr (delimiter_ne_nil (B := B))
      omega
    have hshort : value.length < s.outputBufferSize := by
      rw [List.length_append] at hroom
      omega
    rw [← List.append_assoc, ← List.length_append, List.take_left]
    rw [List.append_assoc, List.take_left]
    exact value_recorded h hshort hfree

/-- The matcher is a search for LF, two dashes and the token, on every accepted boundary it can match. -/
theorem data_matched (contentType : Bytes) {token : Bytes} {s : FormdataParser}
    (haccepted : uploadParseContentType contentType = .ok (cr :: delimiterOf token)) (hlow : ∀ b ∈ token, b < 0x80)
    (hs : AtValue token s) {data : Bytes} (hroom : data.length < s.outputBufferSize) : MatchesNaively s token data := by
  obtain ⟨run, hrun, hne, hplain⟩ := parseContentType_plain haccepted
  obtain rfl : token = run := (List.cons.inj (List.cons.inj (List.cons.inj (List.cons.inj hrun).2).2).2).2
  exact matches_naively (B := ⟨token, hne, hlow, hplain⟩) hs hroom

def atSampleValue : FormdataParser where
  formdataParams := ∅
  boundary := ascii "\r\n--x"
  fieldName := ascii "f"
  fieldValue := []
  contentType := []
  state := .data
  boundaryStart := 0
  boundaryPos := 0
  headerAccumulator := []
  headerAccumulatorSize := 512
  outputBuffer := []
  outputBufferSize := 131072
  discardData := false

theorem data_matched_sample : MatchesNaively atSampleValue (ascii "x") (ascii "a\r\n-\r\n--x--") :=
  data_matched (ascii "multipart/form-data; boundary=x") (by decide +kernel) (by decide)
    ⟨rfl, rfl, rfl, rfl, rfl, rfl, rfl⟩ (by decide)

end FcgiAppserver.Formdata
