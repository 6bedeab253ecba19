import FcgiAppserver.FormDataStream
import FcgiAppserver.ParserIterations

namespace FcgiAppserver.Formdata

open ByteStrings QueryArgs

/-- Offsets from `boundary.begin()` at which an iteration reads the boundary. -/
def boundaryReads (s : FormdataParser) (c : Byte) : List ℕ :=
  match s.state with
  | .boundarySeek => [s.boundaryPos]
  | .data =>
    s.boundaryPos ::
      if atBoundary s c ∨ s.boundaryPos = s.boundaryStart then []
      else List.range' s.boundaryStart (s.boundaryPos - s.boundaryStart)
  | _ => []

/-- Offsets into the allocation of the header accumulator at which an iteration writes, the NUL included. -/
def headerWrites (s : FormdataParser) (c : Byte) : List ℕ :=
  if s.state = .headers then
    if c = lf then if s.headerAccumulator = [] then [] else [s.headerAccumulator.length]
    else if c = cr then []
    else if s.headerAccumulator.length < s.headerAccumulatorSize - 1 then [s.headerAccumulator.length]
    else []
  else []

def putcWrites (s : FormdataParser) : Bytes → List ℕ
  | [] => []
  | c :: cs => (if !s.discardData then [s.outputBuffer.length] else []) ++ putcWrites (uploadPutc s c) cs

/-- Offsets into the output buffer at which an iteration writes. -/
def outputWrites (s : FormdataParser) (c : Byte) : List ℕ :=
  if s.state = .data then
    if atBoundary s c then []
    else if s.boundaryPos = s.boundaryStart then if c = lf then [] else putcWrites s [c]
    else putcWrites s ((s.boundary.take s.boundaryPos).drop s.boundaryStart)
  else []

/-- `upload_parse_part_header` on offsets from `header`, with every pointer it computes. The byte at
`header_end` is the NUL. -/
def scanPartHeader (s : FormdataParser) (header : Bytes) :
    List ℕ × FormdataParser × Option FcgiException :=
  if strncasecmp contentDispositionString header contentDispositionString.length = 0 then
    let start := contentDispositionString.length
    let p := start + strspn (header.drop start) [space]
    if strncasecmp formDataString (header.drop p) formDataString.length ≠ 0 ∧
        strncasecmp attachmentString (header.drop p) attachmentString.length ≠ 0 then
      ([start, p], s,
        some (fcgiException "Content-Disposition is not form-data or attachment" httpBadRequest))
    else
      match strstr (header.drop p) fieldnameString with
      | some i =>
        let fieldnameStart := p + i + fieldnameString.length
        let fieldnameEnd := fieldnameStart + strcspn (header.drop fieldnameStart) [quote]
        let pointers := [start, p, p + i, fieldnameStart, fieldnameEnd]
        if header[fieldnameEnd]? ≠ some quote then
          (pointers, s, some (fcgiException "malformed fieldname in part header" httpBadRequest))
        else (pointers, { s with fieldName := (header.take fieldnameEnd).drop fieldnameStart }, none)
      | none => ([start, p], s, none)
  else if strncasecmp contentTypeString header contentTypeString.length = 0 then
    let start := contentTypeString.length
    let contentTypeStr := start + strspn (header.drop start) [space]
    let s := { s with contentType := header.drop contentTypeStr }
    if (header.drop contentTypeStr).isEmpty then
      ([start, contentTypeStr], s, some (fcgiException "empty Content-Type in part header" httpBadRequest))
    else ([start, contentTypeStr], s, none)
  else ([], s, none)

theorem scanPartHeader_parses (s : FormdataParser) (header : Bytes) :
    (scanPartHeader s header).2 = uploadParsePartHeader s header := by
  unfold scanPartHeader uploadParsePartHeader
  dsimp only
  simp only [List.drop_drop]
  split
  · split
    · rfl
    · generalize contentDispositionString.length + strspn (header.drop contentDispositionString.length) [space] = p
      cases strstr (header.drop p) fieldnameString with
      | none => rfl
      | some i =>
        simp only [← Nat.add_assoc, List.getElem?_drop]
        split
        · rfl
        · rw [List.drop_take, Nat.add_sub_cancel_left]
  · split
    · split
      · rfl
      · rfl
    · rfl

/-- An accumulator of `max_header_len + 1` bytes, a buffer of `buffer_size` and a boundary hold what the
positions in them point at. -/
structure Fits (maxHeaderLen bufferSize : ℕ) (s : FormdataParser) : Prop where
  boundary_length : 4 < s.boundary.length
  start_le : s.boundaryStart ≤ 2
  start_pos : s.boundaryStart ≤ s.boundaryPos
  pos_le : s.boundaryPos ≤ s.boundary.length
  header_size : s.headerAccumulatorSize = maxHeaderLen
  header_fits : s.headerAccumulator.length ≤ maxHeaderLen - 1
  buffer_size : s.outputBufferSize = bufferSize
  buffer_fits : s.outputBuffer.length < bufferSize

structure Inside (maxHeaderLen bufferSize : ℕ) (s : FormdataParser) : Prop extends Fits maxHeaderLen bufferSize s where
  pos_lt : s.boundaryPos < s.boundary.length

section

variable {maxHeaderLen bufferSize : ℕ} {s : FormdataParser}

theorem Inside.flush (h : Inside maxHeaderLen bufferSize s) : Inside maxHeaderLen bufferSize (uploadFlushOutputBuffer s) := by
  unfold uploadFlushOutputBuffer
  split
  · exact { h with buffer_fits := Nat.zero_lt_of_lt h.buffer_fits }
  · exact h

theorem Fits.putc (h : Fits maxHeaderLen bufferSize s) (c : Byte) : Fits maxHeaderLen bufferSize (uploadPutc s c) := by
  have hlt := h.buffer_fits
  unfold uploadPutc
  split
  · dsimp only
    split
    · -- the write that fills the buffer is followed by its flush
      rw [uploadFlushOutputBuffer, if_pos (by simp)]
      exact { h with buffer_fits := Nat.zero_lt_of_lt hlt }
    · rename_i hfull
      rw [h.buffer_size, List.length_append, List.length_singleton] at hfull
      refine { h with buffer_fits := ?_ }
      rw [List.length_append, List.length_singleton]
      omega
  · exact h

theorem Fits.putc_lump (h : Fits maxHeaderLen bufferSize s) (lump : Bytes) :
    Fits maxHeaderLen bufferSize (lump.foldl uploadPutc s) := by
  induction lump generalizing s with
  | nil => exact h
  | cons c lump ih => exact ih (h.putc c)

theorem Fits.putcWrites_lt (h : Fits maxHeaderLen bufferSize s) (lump : Bytes) :
    ∀ i ∈ putcWrites s lump, i < bufferSize := by
  induction lump generalizing s with
  | nil => simp [putcWrites]
  | cons c lump ih =>
    intro i hi
    rcases List.mem_append.mp hi with hi | hi
    · split at hi
      · rw [List.mem_singleton.mp hi]
        exact h.buffer_fits
      · cases hi
    · exact ih (h.putc c) i hi

theorem Fits.endOfPart (h : Fits maxHeaderLen bufferSize s) : Inside maxHeaderLen bufferSize (uploadEndOfPart s) := by
  have hlen := h.boundary_length
  have hstart := h.start_le
  unfold uploadEndOfPart
  split
  · have hreset : Inside maxHeaderLen bufferSize { s with state := .afterBoundary, boundaryPos := s.boundaryStart } :=
      { h with start_pos := le_refl _, pos_le := by dsimp only; omega, pos_lt := by dsimp only; omega }
    have hflush := hreset.flush
    dsimp only
    split
    · exact { hflush with }
    · exact { hflush with }
  · rename_i hne
    exact { h with pos_lt := Nat.lt_of_le_of_ne h.pos_le hne }

theorem Inside.boundarySeek (h : Inside maxHeaderLen bufferSize s) (c : Byte) :
    Inside maxHeaderLen bufferSize (uploadBoundarySeek s c) := by
  have hlen := h.boundary_length
  have hstart := h.start_le
  have hpos := h.start_pos
  have hlt := h.pos_lt
  have hmoved : Fits maxHeaderLen bufferSize
      { s with boundaryPos := if atBoundary s c then s.boundaryPos + 1 else s.boundaryStart } := by
    refine { h with start_pos := ?_, pos_le := ?_ }
    · dsimp only
      split <;> omega
    · dsimp only
      split <;> omega
  rw [uploadBoundarySeek]
  by_cases hend : (if atBoundary s c then s.boundaryPos + 1 else s.boundaryStart) = s.boundary.length
  · rw [if_pos hend]
    exact { h with
      start_le := by simp, start_pos := le_refl _, pos_le := Nat.zero_le _, pos_lt := Nat.zero_lt_of_lt hlen }
  · rw [if_neg hend]
    exact { hmoved with pos_lt := Nat.lt_of_le_of_ne hmoved.pos_le hend }

theorem Inside.afterBoundary (h : Inside maxHeaderLen bufferSize s) (c : Byte) :
    Inside maxHeaderLen bufferSize (uploadAfterBoundary s c) := by
  unfold uploadAfterBoundary
  split_ifs
  · exact { h with header_fits := Nat.zero_le _ }
  · exact h
  · exact { h with }
  · exact h

theorem Inside.parsePartHeader (h : Inside maxHeaderLen bufferSize s) (header : Bytes) :
    Inside maxHeaderLen bufferSize (uploadParsePartHeader s header).1 := by
  obtain ⟨fieldName, contentType, hs⟩ := parsePartHeader_frame s header
  rw [hs]
  exact { h with }

def Turn.parser : Turn → FormdataParser
  | .next s => s
  | .again s => s
  | .fail s _ => s

theorem Inside.headers (hroom : 1 ≤ bufferSize) (h : Inside maxHeaderLen bufferSize s) (c : Byte) :
    Inside maxHeaderLen bufferSize (uploadHeaders s c).parser := by
  have hsize := h.header_size
  unfold uploadHeaders
  split_ifs with hlf hblank hcr hfits
  · exact { h with buffer_fits := hroom }
  · have hparsed := h.parsePartHeader s.headerAccumulator
    split
    · rename_i s' heq
      rw [heq] at hparsed
      exact { hparsed with header_fits := Nat.zero_le _ }
    · rename_i s' e heq
      rw [heq] at hparsed
      exact { hparsed with }
  · exact h
  · refine { h with header_fits := ?_ }
    change (s.headerAccumulator ++ [c]).length ≤ maxHeaderLen - 1
    rw [List.length_append, List.length_singleton]
    omega
  · exact { h with }

theorem Inside.data (h : Inside maxHeaderLen bufferSize s) (c : Byte) :
    Inside maxHeaderLen bufferSize (uploadData s c).parser := by
  have hlen := h.boundary_length
  have hpos := h.start_pos
  have hlt := h.pos_lt
  unfold uploadData
  split_ifs with hat hstart hlf
  · exact Fits.endOfPart { h with start_pos := Nat.le_succ_of_le hpos, pos_le := hlt }
  · exact Fits.endOfPart { h with start_le := by simp, start_pos := by simp, pos_le := by dsimp only; omega }
  · exact Fits.endOfPart (h.toFits.putc c)
  · -- the bytes held back are put out before the match starts over
    have hput := h.toFits.putc_lump ((s.boundary.take s.boundaryPos).drop s.boundaryStart)
    exact Fits.endOfPart { hput with start_le := by simp, start_pos := le_refl _, pos_le := Nat.zero_le _ }

theorem Inside.turn (hroom : 1 ≤ bufferSize) (h : Inside maxHeaderLen bufferSize s) (c : Byte) :
    Inside maxHeaderLen bufferSize (uploadTurn s c).parser := by
  unfold uploadTurn
  split
  · exact h.boundarySeek c
  · exact h.afterBoundary c
  · exact h.headers hroom c
  · exact h.data c
  · exact h

theorem inside_new {contentType : Bytes} {params : Params} (hroom : 1 ≤ bufferSize)
    (h : formdataParser contentType maxHeaderLen bufferSize params = .ok s) : Inside maxHeaderLen bufferSize s := by
  obtain ⟨boundary, hboundary, rfl⟩ := formdataParser_accepted h
  obtain ⟨run, rfl, hne, -⟩ := parseContentType_plain hboundary
  have hpos := List.length_pos_iff.mpr hne
  have hlen : 4 < (cr :: lf :: dash :: dash :: run).length := by
    simp only [List.length_cons]
    omega
  exact { boundary_length := hlen, start_le := le_refl _, start_pos := le_refl _, pos_le := by dsimp only; omega,
          header_size := rfl, header_fits := Nat.zero_le _, buffer_size := rfl, buffer_fits := hroom,
          pos_lt := by dsimp only; omega }

/-- What a new parser has and every turn keeps, every parser reached has. -/
theorem Reachable.keeps {contentType : Bytes} {params : Params} {P : FormdataParser → Prop}
    (hnew : ∀ s, formdataParser contentType maxHeaderLen bufferSize params = .ok s → P s)
    (hturn : ∀ s c, P s → P (uploadTurn s c).parser) (hs : Reachable contentType maxHeaderLen bufferSize params s) :
    P s := by
  induction hs with
  | new h => exact hnew _ h
  | next c _ h ih =>
    have hnext := hturn _ c ih
    rwa [h] at hnext
  | again c _ h ih =>
    have hagain := hturn _ c ih
    rwa [h] at hagain
  | fail c _ h ih =>
    have hfail := hturn _ c ih
    rwa [h] at hfail

theorem reachable_inside {contentType : Bytes} {params : Params} (hroom : 1 ≤ bufferSize)
    (hs : Reachable contentType maxHeaderLen bufferSize params s) : Inside maxHeaderLen bufferSize s := by
  apply hs.keeps
  · intro s h
    exact inside_new hroom h
  · intro s c h
    exact h.turn hroom c

theorem boundaryReads_lt (h : Inside maxHeaderLen bufferSize s) (c : Byte) :
    ∀ i ∈ boundaryReads s c, i < s.boundary.length := by
  have hlt := h.pos_lt
  intro i hi
  unfold boundaryReads at hi
  split at hi
  · rw [List.mem_singleton.mp hi]
    exact hlt
  · rcases List.mem_cons.mp hi with rfl | hi
    · exact hlt
    · split_ifs at hi
      · cases hi
      · have hrange := List.mem_range'_1.mp hi
        omega
  · cases hi

theorem headerWrites_lt (h : Inside maxHeaderLen bufferSize s) (c : Byte) :
    ∀ i ∈ headerWrites s c, i < maxHeaderLen + 1 := by
  have hfits := h.header_fits
  intro i hi
  unfold headerWrites at hi
  split_ifs at hi
  · cases hi
  · rw [List.mem_singleton.mp hi]
    omega
  · cases hi
  · rw [List.mem_singleton.mp hi]
    omega
  · cases hi
  · cases hi

theorem outputWrites_lt (h : Inside maxHeaderLen bufferSize s) (c : Byte) :
    ∀ i ∈ outputWrites s c, i < bufferSize := by
  unfold outputWrites
  split_ifs
  · simp
  · simp
  · exact h.putcWrites_lt _
  · exact h.putcWrites_lt _
  · simp

end

theorem scanPartHeader_le (s : FormdataParser) (header : Bytes) : ∀ i ∈ (scanPartHeader s header).1, i ≤ header.length := by
  unfold scanPartHeader
  dsimp only
  split
  · rename_i hcase
    have hstart : contentDispositionString.length ≤ header.length := strncasecmp_le (by decide +kernel) hcase
    have hp := strspn_le (header.drop contentDispositionString.length) [space]
    rw [List.length_drop] at hp
    split
    · simp
      omega
    · split
      · rename_i i hi
        have hname := strstr_le hi
        have hend := strcspn_le (header.drop (contentDispositionString.length +
          strspn (header.drop contentDispositionString.length) [space] + i + fieldnameString.length)) [quote]
        rw [List.length_drop] at hname hend
        split
        · simp
          omega
        · simp
          omega
      · simp
        omega
  · split
    · rename_i hcase
      have hstart : contentTypeString.length ≤ header.length := strncasecmp_le (by decide +kernel) hcase
      have hp := strspn_le (header.drop contentTypeString.length) [space]
      rw [List.length_drop] at hp
      split
      · simp
        omega
      · simp
        omega
    · simp

theorem cursors_inside (contentType : Bytes) (maxHeaderLen bufferSize : ℕ) (hheader : 1 ≤ maxHeaderLen)
    (hbuffer : 1 ≤ bufferSize) (params : Params) (s : FormdataParser)
    (hs : Reachable contentType maxHeaderLen bufferSize params s) :
    (s.boundaryStart ≤ s.boundaryPos ∧ s.boundaryPos < s.boundary.length) ∧
      (s.headerAccumulator.length < maxHeaderLen + 1 ∧ s.outputBuffer.length < bufferSize) ∧
      (∀ c, (∀ i ∈ boundaryReads s c, i < s.boundary.length) ∧
        (∀ i ∈ headerWrites s c, i < maxHeaderLen + 1) ∧ ∀ i ∈ outputWrites s c, i < bufferSize) ∧
      (∀ header, (scanPartHeader s header).2 = uploadParsePartHeader s header ∧
        ∀ i ∈ (scanPartHeader s header).1, i ≤ header.length) ∧
      (∀ chunk, (∀ i, (uploadExamined s chunk).count i ≤ 2) ∧ ∀ i ∈ uploadExamined s chunk, i < chunk.length) ∧
      (∀ chunk, ∀ it ∈ uploadIterations s 0 chunk, Reachable contentType maxHeaderLen bufferSize params it.parser) ∧
      ∀ chunks, Reachable contentType maxHeaderLen bufferSize params (feed s chunks).1 := by
  have hinside := reachable_inside hbuffer hs
  have hfits := hinside.header_fits
  refine ⟨⟨hinside.start_pos, hinside.pos_lt⟩, ⟨by omega, hinside.buffer_fits⟩, ?_, ?_, ?_,
    iterations_reachable hs 0, feed_reachable hs⟩
  · intro c
    exact ⟨boundaryReads_lt hinside c, headerWrites_lt hinside c, outputWrites_lt hinside c⟩
  · intro header
    exact ⟨scanPartHeader_parses s header, scanPartHeader_le s header⟩
  · intro chunk
    refine ⟨(iterations_count s 0 chunk).1, ?_⟩
    intro i hi
    have hrange := iterations_range s 0 chunk i hi
    omega

def midHeader : FormdataParser := (feed sampleFormdataParser [ascii "--x\r", ascii "\nCont"]).1

theorem cursors_inside_midHeader :
    (midHeader.boundaryStart ≤ midHeader.boundaryPos ∧ midHeader.boundaryPos < midHeader.boundary.length) ∧
      (midHeader.headerAccumulator.length < 512 + 1 ∧ midHeader.outputBuffer.length < 4) ∧
      ∀ i, (uploadExamined midHeader [cr, lf, dash, cr]).count i ≤ 2 := by
  have hcursors := cursors_inside (ascii "multipart/form-data; boundary=x") 512 4 (by decide) (by decide) ∅ midHeader
    (feed_reachable (.new rfl) _)
  exact ⟨hcursors.1, hcursors.2.1, (hcursors.2.2.2.2.1 _).1⟩

end FcgiAppserver.Formdata
