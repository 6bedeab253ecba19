import FcgiAppserver.QueryArgs

namespace FcgiAppserver.Formdata

open ByteStrings QueryArgs

structure FcgiException where
  what : Bytes
  status : ℕ
deriving DecidableEq, Repr

def httpBadRequest : ℕ := 400
def httpNotFound : ℕ := 404
def httpUnsupportedMediaType : ℕ := 415
def httpInternalServerError : ℕ := 503

def fcgiException (what : String) (status : ℕ) : FcgiException := ⟨ascii what, status⟩

def multipartFormDataString : Bytes := ascii "multipart/form-data"
def boundaryString : Bytes := ascii "boundary="
def contentDispositionString : Bytes := ascii "Content-Disposition:"
def contentTypeString : Bytes := ascii "Content-Type:"
def formDataString : Bytes := ascii "form-data"
def attachmentString : Bytes := ascii "attachment"
def fieldnameString : Bytes := ascii "name=\""

def space : Byte := 32
def quote : Byte := 34
def dash : Byte := 45
def semicolon : Byte := 59
def cr : Byte := 13
def lf : Byte := 10

inductive FormdataParserState
  | boundarySeek
  | afterBoundary
  | headers
  | data
  | finish
deriving DecidableEq, Repr

/-- The iterators into `boundary` are offsets from `boundary.begin()`. An accumulator or buffer is the
bytes written up to its `_pos` pointer, its size the distance of its `_end` pointer. -/
structure FormdataParser where
  formdataParams : Params
  boundary : Bytes
  fieldName : Bytes
  fieldValue : Bytes
  contentType : Bytes
  state : FormdataParserState
  boundaryStart : ℕ
  boundaryPos : ℕ
  headerAccumulator : Bytes
  headerAccumulatorSize : ℕ
  outputBuffer : Bytes
  outputBufferSize : ℕ
  discardData : Bool

def uploadParsePartHeader (s : FormdataParser) (header : Bytes) :
    FormdataParser × Option FcgiException :=
  if strncasecmp contentDispositionString header contentDispositionString.length = 0 then
    let p := header.drop contentDispositionString.length
    let p := p.drop (strspn p [space])
    if strncasecmp formDataString p formDataString.length ≠ 0 ∧
        strncasecmp attachmentString p attachmentString.length ≠ 0 then
      (s, some (fcgiException "Content-Disposition is not form-data or attachment" httpBadRequest))
    else
      match strstr p fieldnameString with
      | some i =>
        let fieldnameStart := p.drop (i + fieldnameString.length)
        let n := strcspn fieldnameStart [quote]
        if fieldnameStart[n]? ≠ some quote then
          (s, some (fcgiException "malformed fieldname in part header" httpBadRequest))
        else
          ({ s with fieldName := fieldnameStart.take n }, none)
      | none => (s, none)
  else if strncasecmp contentTypeString header contentTypeString.length = 0 then
    let contentTypeStr := header.drop contentTypeString.length
    let contentTypeStr := contentTypeStr.drop (strspn contentTypeStr [space])
    let s := { s with contentType := contentTypeStr }
    if contentTypeStr.isEmpty then
      (s, some (fcgiException "empty Content-Type in part header" httpBadRequest))
    else
      (s, none)
  else
    (s, none)

def uploadDiscardPartAttributes (s : FormdataParser) : FormdataParser :=
  { s with fieldName := [], fieldValue := [], contentType := [] }

def uploadFinishPart (s : FormdataParser) : FormdataParser :=
  let s := { s with formdataParams := s.formdataParams.insertIfNew s.fieldName s.fieldValue }
  { uploadDiscardPartAttributes s with discardData := false }

def uploadAbortPart (s : FormdataParser) : FormdataParser :=
  { uploadDiscardPartAttributes s with discardData := false }

def uploadFlushOutputBuffer (s : FormdataParser) : FormdataParser :=
  if s.outputBuffer ≠ [] then
    { s with
      fieldValue := if s.fieldValue.isEmpty then s.outputBuffer else s.fieldValue
      outputBuffer := [] }
  else s

def uploadParseContentType (contentType : Bytes) : Except FcgiException Bytes :=
  match strchr contentType semicolon with
  | none => .error (fcgiException "no boundary found in Content-Type" httpBadRequest)
  | some mimeTypeEnd =>
    if strncasecmp contentType multipartFormDataString multipartFormDataString.length ≠ 0 then
      .error (fcgiException "Content-Type is not multipart/form-data" httpUnsupportedMediaType)
    else
      -- no check catches npos: c_str() + npos is not a null pointer
      let boundaryStart := contentType.drop
        (sizeAdd (find contentType boundaryString mimeTypeEnd) boundaryString.length)
      let n := strcspn boundaryStart [space, semicolon, lf, cr]
      if n = 0 then
        .error (fcgiException "boundary is empty" httpBadRequest)
      else
        .ok (cr :: lf :: dash :: dash :: boundaryStart.take n)

/-- The constructor, on allocations that succeed. -/
def formdataParser (contentType : Bytes) (maxHeaderLen bufferSize : ℕ) (formdataParams : Params) :
    Except FcgiException FormdataParser := do
  let boundary ← uploadParseContentType contentType
  return {
    formdataParams, boundary
    fieldName := [], fieldValue := [], contentType := []
    state := .boundarySeek
    boundaryStart := 2, boundaryPos := 2
    headerAccumulator := [], headerAccumulatorSize := maxHeaderLen
    outputBuffer := [], outputBufferSize := bufferSize
    discardData := false }

def uploadPutc (s : FormdataParser) (c : Byte) : FormdataParser :=
  if !s.discardData then
    let s := { s with outputBuffer := s.outputBuffer ++ [c] }
    if s.outputBuffer.length = s.outputBufferSize then uploadFlushOutputBuffer s else s
  else s

def atBoundary (s : FormdataParser) (c : Byte) : Bool :=
  match s.boundary[s.boundaryPos]? with
  -- an unsigned byte compared with a signed one
  | some b => c == b && b < 0x80
  | none => false

/-- One turn of the `for` loop over a buffer: go on to the next byte, read the same byte again (`p--`),
or leave the buffer by an exception. -/
inductive Turn
  | next (s : FormdataParser)
  | again (s : FormdataParser)
  | fail (s : FormdataParser) (e : FcgiException)

def uploadBoundarySeek (s : FormdataParser) (c : Byte) : FormdataParser :=
  let s := { s with boundaryPos := if atBoundary s c then s.boundaryPos + 1 else s.boundaryStart }
  if s.boundaryPos = s.boundary.length then
    { s with state := .afterBoundary, boundaryStart := 0, boundaryPos := 0 }
  else s

def uploadAfterBoundary (s : FormdataParser) (c : Byte) : FormdataParser :=
  if c = lf then { s with state := .headers, headerAccumulator := [] }
  else if c = cr then s
  else if c = dash then { s with state := .finish }
  else s

def uploadHeaders (s : FormdataParser) (c : Byte) : Turn :=
  if c = lf then
    if s.headerAccumulator = [] then .next { s with state := .data, outputBuffer := [] }
    else
      match uploadParsePartHeader s s.headerAccumulator with
      | (s, none) => .next { s with headerAccumulator := [] }
      | (s, some e) => .fail { s with state := .finish } e
  else if c = cr then .next s
  else if s.headerAccumulator.length < s.headerAccumulatorSize - 1 then
    .next { s with headerAccumulator := s.headerAccumulator ++ [c] }
  else
    .fail { s with state := .finish } (fcgiException "header is too long" httpBadRequest)

def uploadEndOfPart (s : FormdataParser) : FormdataParser :=
  if s.boundaryPos = s.boundary.length then
    let s := { s with state := .afterBoundary, boundaryPos := s.boundaryStart }
    let s := uploadFlushOutputBuffer s
    if !s.discardData then uploadFinishPart s else uploadAbortPart s
  else s

def uploadData (s : FormdataParser) (c : Byte) : Turn :=
  if atBoundary s c then .next (uploadEndOfPart { s with boundaryPos := s.boundaryPos + 1 })
  else if s.boundaryPos = s.boundaryStart then
    if c = lf then .next (uploadEndOfPart { s with boundaryPos := 2, boundaryStart := 1 })
    else .next (uploadEndOfPart (uploadPutc s c))
  else
    let lump := (s.boundary.take s.boundaryPos).drop s.boundaryStart
    .again (uploadEndOfPart { lump.foldl uploadPutc s with boundaryStart := 0, boundaryPos := 0 })

def uploadTurn (s : FormdataParser) (c : Byte) : Turn :=
  match s.state with
  | .boundarySeek => .next (uploadBoundarySeek s c)
  | .afterBoundary => .next (uploadAfterBoundary s c)
  | .headers => uploadHeaders s c
  | .data => uploadData s c
  | .finish => .next s

theorem parseContentType_plain {contentType boundary : Bytes} (h : uploadParseContentType contentType = .ok boundary) :
    ∃ run, boundary = cr :: lf :: dash :: dash :: run ∧ run ≠ [] ∧
      ∀ b ∈ run, b ≠ 0 ∧ b ≠ space ∧ b ≠ semicolon ∧ b ≠ cr ∧ b ≠ lf := by
  unfold uploadParseContentType at h
  split at h
  · cases h
  · rename_i mimeTypeEnd _
    dsimp only at h
    split_ifs at h with hmime hempty
    cases h
    generalize contentType.drop (sizeAdd (find contentType boundaryString mimeTypeEnd) boundaryString.length) =
      boundaryStart at hempty ⊢
    refine ⟨_, rfl, ?_, ?_⟩
    · have hle := strcspn_le boundaryStart [space, semicolon, lf, cr]
      apply List.ne_nil_of_length_pos
      rw [List.length_take]
      omega
    · intro b hb
      obtain ⟨hzero, hplain⟩ := mem_take_strcspn hb
      simp only [List.mem_cons, List.not_mem_nil, or_false, not_or] at hplain
      exact ⟨hzero, hplain.1, hplain.2.1, hplain.2.2.2, hplain.2.2.1⟩

theorem formdataParser_accepted {contentType : Bytes} {maxHeaderLen bufferSize : ℕ} {params : Params} {s : FormdataParser}
    (h : formdataParser contentType maxHeaderLen bufferSize params = .ok s) :
    ∃ boundary, uploadParseContentType contentType = .ok boundary ∧ s = {
      formdataParams := params, boundary
      fieldName := [], fieldValue := [], contentType := []
      state := .boundarySeek
      boundaryStart := 2, boundaryPos := 2
      headerAccumulator := [], headerAccumulatorSize := maxHeaderLen
      outputBuffer := [], outputBufferSize := bufferSize
      discardData := false } := by
  unfold formdataParser at h
  cases hboundary : uploadParseContentType contentType with
  | error e =>
    rw [hboundary] at h
    cases h
  | ok boundary =>
    rw [hboundary] at h
    exact ⟨boundary, rfl, (Except.ok.inj h).symm⟩

/-- A part header sets a name or a type and nothing else, and the parser has no say in which. -/
theorem parsePartHeader_uniform (header : Bytes) :
    ∃ (name type : Option Bytes) (e : Option FcgiException), ∀ s : FormdataParser, uploadParsePartHeader s header =
      ({ s with fieldName := name.getD s.fieldName, contentType := type.getD s.contentType }, e) := by
  unfold uploadParsePartHeader
  dsimp only
  by_cases hdisposition : strncasecmp contentDispositionString header contentDispositionString.length = 0
  · simp only [if_pos hdisposition]
    generalize (header.drop contentDispositionString.length).drop
      (strspn (header.drop contentDispositionString.length) [space]) = p
    by_cases hform : strncasecmp formDataString p formDataString.length ≠ 0 ∧
        strncasecmp attachmentString p attachmentString.length ≠ 0
    · simp only [if_pos hform]
      exact ⟨none, none, _, fun s => rfl⟩
    · simp only [if_neg hform]
      cases strstr p fieldnameString with
      | none => exact ⟨none, none, none, fun s => rfl⟩
      | some i =>
        dsimp only
        generalize p.drop (i + fieldnameString.length) = fieldnameStart
        by_cases hend : fieldnameStart[strcspn fieldnameStart [quote]]? ≠ some quote
        · simp only [if_pos hend]
          exact ⟨none, none, _, fun s => rfl⟩
        · simp only [if_neg hend]
          exact ⟨some _, none, none, fun s => rfl⟩
  · simp only [if_neg hdisposition]
    by_cases htype : strncasecmp contentTypeString header contentTypeString.length = 0
    · simp only [if_pos htype]
      generalize (header.drop contentTypeString.length).drop
        (strspn (header.drop contentTypeString.length) [space]) = contentTypeStr
      by_cases hempty : contentTypeStr.isEmpty
      · simp only [if_pos hempty]
        exact ⟨none, some _, _, fun s => rfl⟩
      · simp only [if_neg hempty]
        exact ⟨none, some _, none, fun s => rfl⟩
    · simp only [if_neg htype]
      exact ⟨none, none, none, fun s => rfl⟩

theorem parsePartHeader_frame (s : FormdataParser) (header : Bytes) :
    ∃ fieldName contentType, (uploadParsePartHeader s header).1 = { s with fieldName, contentType } := by
  obtain ⟨name, type, e, h⟩ := parsePartHeader_uniform header
  exact ⟨_, _, congrArg Prod.fst (h s)⟩

@[simp] theorem uploadFlushOutputBuffer_cursors (s : FormdataParser) :
    (uploadFlushOutputBuffer s).boundaryStart = s.boundaryStart ∧
      (uploadFlushOutputBuffer s).boundaryPos = s.boundaryPos := by
  unfold uploadFlushOutputBuffer
  split <;> simp

theorem uploadEndOfPart_cursors (s : FormdataParser) (h : s.boundaryPos = s.boundaryStart) :
    (uploadEndOfPart s).boundaryPos = (uploadEndOfPart s).boundaryStart := by
  unfold uploadEndOfPart
  dsimp only
  split
  · split <;> simp [uploadFinishPart, uploadAbortPart, uploadDiscardPartAttributes]
  · exact h

/-- All that a turn can come to: a byte is read again only where a partial match was given up, and an
exception leaves the parser finished. -/
inductive Turned (s : FormdataParser) : Turn → Prop
  | next (s' : FormdataParser) : Turned s (.next s')
  | again (s' : FormdataParser) (hheld : s.boundaryPos ≠ s.boundaryStart)
      (hreset : s'.boundaryPos = s'.boundaryStart) : Turned s (.again s')
  | fail (s' : FormdataParser) (e : FcgiException) (hfinish : s'.state = .finish) : Turned s (.fail s' e)

theorem uploadHeaders_turned (s : FormdataParser) (c : Byte) : Turned s (uploadHeaders s c) := by
  unfold uploadHeaders
  split
  · split
    · exact .next _
    · split
      · exact .next _
      · exact .fail _ _ rfl
  · split
    · exact .next _
    · split
      · exact .next _
      · exact .fail _ _ rfl

theorem uploadData_turned (s : FormdataParser) (c : Byte) : Turned s (uploadData s c) := by
  unfold uploadData
  split
  · exact .next _
  · split
    · split
      · exact .next _
      · exact .next _
    · rename_i hheld
      exact .again _ hheld (uploadEndOfPart_cursors _ rfl)

theorem uploadTurn_turned (s : FormdataParser) (c : Byte) : Turned s (uploadTurn s c) := by
  unfold uploadTurn
  split
  · exact .next _
  · exact .next _
  · exact uploadHeaders_turned s c
  · exact uploadData_turned s c
  · exact .next _

theorem uploadTurn_again {s s' : FormdataParser} {c : Byte} (h : uploadTurn s c = .again s') :
    s.boundaryPos ≠ s.boundaryStart ∧ s'.boundaryPos = s'.boundaryStart := by
  have hturned := uploadTurn_turned s c
  rw [h] at hturned
  cases hturned with
  | again _ hheld hreset => exact ⟨hheld, hreset⟩

theorem uploadTurn_fail {s s' : FormdataParser} {c : Byte} {e : FcgiException}
    (h : uploadTurn s c = .fail s' e) : s'.state = .finish := by
  have hturned := uploadTurn_turned s c
  rw [h] at hturned
  cases hturned with
  | fail _ _ hfinish => exact hfinish

def uploadProcessLoop (s : FormdataParser) : Bytes → FormdataParser × Option FcgiException
  | [] => (s, none)
  | c :: rest =>
    match _h : uploadTurn s c with
    | .next s' => uploadProcessLoop s' rest
    | .again s' => uploadProcessLoop s' (c :: rest)
    | .fail s' e => (s', some e)
termination_by buf => 2 * buf.length + if s.boundaryPos = s.boundaryStart then 0 else 1
decreasing_by
  · simp only [List.length_cons]
    split <;> split <;> omega
  · have hc := uploadTurn_again _h
    simp only [hc.1, hc.2, if_true, if_false]
    omega

def uploadProcessBuf (s : FormdataParser) (buf : Bytes) : FormdataParser × Option FcgiException :=
  if buf = [] then
    if s.state ≠ .finish then (s, some (fcgiException "malformed body" httpBadRequest)) else (s, none)
  else uploadProcessLoop s buf

end FcgiAppserver.Formdata
