import FcgiAppserver.MixedEndings

namespace FcgiAppserver.Formdata

open ByteStrings QueryArgs RestartMatcher

variable {B : BoundaryToken}

/-- What `upload_state_boundary_seek` reads to the end of the first boundary. The byte that breaks a match off
is not looked at again. -/
inductive Seeks (opening : Bytes) : Bytes → Prop
  | found : Seeks opening opening
  | missed {k : ℕ} {c : Byte} {w : Bytes} (hk : k < opening.length) (hc : opening[k]? ≠ some c)
    (hw : Seeks opening w) : Seeks opening (opening.take k ++ c :: w)

def Skipped (b : Byte) : Prop := b ≠ lf ∧ b ≠ dash

instance (b : Byte) : Decidable (Skipped b) := inferInstanceAs (Decidable (b ≠ lf ∧ b ≠ dash))

/-- From the end of a boundary through whole parts to a boundary that a dash closes. -/
inductive Closes (B : BoundaryToken) (maxHeaderLen : ℕ) : Bytes → Prop
  | closing {junk rest : Bytes} (hjunk : ∀ b ∈ junk, Skipped b) : Closes B maxHeaderLen (junk ++ dash :: rest)
  | part {junk blank value rest : Bytes} {lines : List Bytes} (hjunk : ∀ b ∈ junk, Skipped b)
    (hlines : ∀ line ∈ lines, Accepted maxHeaderLen line) (hone : lf ∉ blank) (hblank : kept blank = [])
    (hvalue : ¬ B.delimiter <:+: value) (hrest : Closes B maxHeaderLen rest) :
    Closes B maxHeaderLen (junk ++ lf :: (wire lines ++ (blank ++ lf :: (value ++ (B.delimiter ++ rest)))))

def CompleteBody (B : BoundaryToken) (maxHeaderLen : ℕ) (body : Bytes) : Prop :=
  ∃ preamble rest, body = preamble ++ rest ∧ Seeks B.opening preamble ∧ Closes B maxHeaderLen rest

section

variable {s s' : FormdataParser}

theorem after_boundary_skipped (hs : s.state = .afterBoundary) {junk : Bytes} (hjunk : ∀ b ∈ junk, Skipped b)
    (rest : Bytes) : uploadProcessLoop s (junk ++ rest) = uploadProcessLoop s rest := by
  induction junk with
  | nil => rfl
  | cons c junk ih =>
    obtain ⟨hc, hjunk⟩ := List.forall_mem_cons.mp hjunk
    have hturn : uploadTurn s c = .next s := by simp [uploadTurn, hs, uploadAfterBoundary, hc.1, hc.2]
    rw [List.cons_append, loop_next _ hturn, ih hjunk]

theorem after_boundary_line (hs : s.state = .afterBoundary) (rest : Bytes) :
    uploadProcessLoop s (lf :: rest) =
      uploadProcessLoop { s with state := .headers, headerAccumulator := [] } rest := by
  have hturn : uploadTurn s lf = .next { s with state := .headers, headerAccumulator := [] } := by
    simp [uploadTurn, hs, uploadAfterBoundary]
  exact loop_next rest hturn

theorem after_boundary_split (w : Bytes) :
    (∀ b ∈ w, Skipped b) ∨ ∃ junk c rest, w = junk ++ c :: rest ∧ (∀ b ∈ junk, Skipped b) ∧ (c = lf ∨ c = dash) := by
  cases hfirst : w.find? (fun b => decide (¬ Skipped b)) with
  | none =>
    left
    simpa using List.find?_eq_none.mp hfirst
  | some c =>
    right
    obtain ⟨hc, junk, rest, rfl, hjunk⟩ := List.find?_eq_some_iff_append.mp hfirst
    refine ⟨junk, c, rest, rfl, by simpa using hjunk, ?_⟩
    have hnot := of_decide_eq_true hc
    rw [Skipped, not_and_or, not_not, not_not] at hnot
    exact hnot

theorem delimiter_ne_nil : B.delimiter ≠ [] := List.cons_ne_nil _ _

/-- The CR before a delimiter belongs to the line end, so every text without a delimiter is a value and its end. -/
theorem data_run (hs : DataStart B s) (hvalue : s.fieldValue = []) (hbuffer : s.outputBuffer = []) (stuck : Bool)
    (hstart : s.boundaryStart = stuckStart stuck) (hpos : s.boundaryPos = stuckStart stuck) {v : Bytes}
    (hfree : ¬ B.delimiter <:+: v) (rest : Bytes) :
    ∃ recorded stuck', uploadProcessLoop s (v ++ (B.delimiter ++ rest)) =
      uploadProcessLoop (partFinished s recorded (stuckStart stuck')) rest := by
  by_cases hcr : v.getLast? = some cr
  · obtain ⟨u, rfl⟩ := List.getLast?_eq_some_iff.mp hcr
    have hu : ¬ B.delimiter <:+: u := fun h => hfree (h.trans (List.prefix_append u [cr]).isInfix)
    have hrun := part_value hs hvalue hbuffer stuck hstart hpos .crlf hu (by simp) rest
    rw [List.append_assoc]
    exact ⟨_, _, hrun⟩
  · exact ⟨_, _, part_value hs hvalue hbuffer stuck hstart hpos .lf hfree (fun _ => hcr) rest⟩

theorem part_read {stuck : Bool} (hs : AfterDelimiter B stuck s) {junk blank v : Bytes} {lines : List Bytes}
    (hjunk : ∀ b ∈ junk, Skipped b) (hlines : ∀ line ∈ lines, Accepted s.headerAccumulatorSize line)
    (hone : lf ∉ blank) (hblank : kept blank = []) (hfree : ¬ B.delimiter <:+: v) :
    ∃ stuck' s', uploadProcessLoop s (junk ++ lf :: (wire lines ++ (blank ++ lf :: (v ++ B.delimiter)))) = (s', none) ∧
      AfterDelimiter B stuck' s' ∧ s'.headerAccumulatorSize = s.headerAccumulatorSize := by
  have hstart : LineStart { s with state := .headers, headerAccumulator := [] } := ⟨rfl, rfl⟩
  obtain ⟨contentType, hblock⟩ := hstart.block_run hlines hone hblank (v ++ B.delimiter)
  let data : FormdataParser :=
    { s with headerAccumulator := [], fieldName := (lines.map kept).foldl headerName s.fieldName, contentType,
             state := .data, outputBuffer := [] }
  have hdata : DataStart B data := ⟨hs.boundary_eq, rfl, hs.keep, hs.room⟩
  obtain ⟨recorded, stuck', hvalue⟩ := data_run hdata hs.value_eq rfl stuck hs.start_eq hs.pos_eq hfree []
  rw [List.append_nil, loop_nil] at hvalue
  refine ⟨stuck', partFinished data recorded (stuckStart stuck'), ?_, ?_, rfl⟩
  · rw [after_boundary_skipped hs.state_eq hjunk, after_boundary_line hs.state_eq, hblock]
    exact hvalue
  · exact ⟨hs.boundary_eq, rfl, rfl, rfl, rfl, rfl, rfl, hs.room⟩

/-- The dash that closes the body is read in `upload_state_after_boundary`. -/
theorem closes_run {maxHeaderLen : ℕ} {w : Bytes} (hw : Closes B maxHeaderLen w) {stuck : Bool}
    (hs : AfterDelimiter B stuck s) (hsize : s.headerAccumulatorSize = maxHeaderLen) :
    ∃ before after s', w = before ++ dash :: after ∧ uploadProcessLoop s before = (s', none) ∧
      s'.state = .afterBoundary := by
  induction hw generalizing s stuck with
  | @closing junk rest hjunk =>
    have hskipped := after_boundary_skipped hs.state_eq hjunk []
    rw [List.append_nil, loop_nil] at hskipped
    exact ⟨junk, rest, s, rfl, hskipped, hs.state_eq⟩
  | @part junk blank value rest lines hjunk hlines hone hblank hvalue hrest ih =>
    rw [← hsize] at hlines
    obtain ⟨stuck', s1, hrun, hs1, hsize1⟩ := part_read hs hjunk hlines hone hblank hvalue
    obtain ⟨before, after, s2, hw, hrun', hs2⟩ := ih hs1 (hsize1.trans hsize)
    refine ⟨junk ++ lf :: (wire lines ++ (blank ++ lf :: (value ++ B.delimiter))) ++ before, after, s2, ?_, ?_, hs2⟩
    · rw [hw]
      simp
    · rw [loop_then hrun, hrun']

theorem LineStart.line_taken (hs : LineStart s) {line : Bytes} (hline : lf ∉ line) (hne : kept line ≠ []) {w : Bytes}
    (h : uploadProcessLoop s (line ++ lf :: w) = (s', none)) :
    Accepted s.headerAccumulatorSize line ∧
      ∃ fieldName contentType, uploadProcessLoop { s with fieldName, contentType } w = (s', none) := by
  by_cases hfits : (kept line).length ≤ s.headerAccumulatorSize - 1
  · rcases hparse : uploadParsePartHeader { s with headerAccumulator := kept line } (kept line) with ⟨s1, - | e⟩
    · rw [hs.line_parsed hline hne hfits hparse] at h
      obtain ⟨fieldName, contentType, hs1⟩ := hs.parsed hparse
      rw [hs1] at h
      have htaken : headerThrows (kept line) = none := by
        obtain ⟨_, heq⟩ := parsePartHeader_eq { s with headerAccumulator := kept line } (kept line)
        rw [hparse] at heq
        exact (congrArg Prod.snd heq).symm
      exact ⟨⟨hline, hne, hfits, htaken⟩, fieldName, contentType, h⟩
    · rw [hs.line_rejected hline hne hfits hparse] at h
      cases h
  · obtain ⟨s1, hlong⟩ := hs.line_too_long hline (Nat.lt_of_not_le hfits) (lf :: w)
    rw [hlong] at h
    cases h

theorem LineStart.line_open (hs : LineStart s) {w : Bytes} (hlf : lf ∉ w) (h : uploadProcessLoop s w = (s', none)) :
    s'.state = .headers := by
  by_cases hfits : (kept w).length ≤ s.headerAccumulatorSize - 1
  · have hcollect := (hs.collect hlf hfits [] 0).1
    rw [List.append_nil, h, loop_nil] at hcollect
    cases hcollect
    exact hs.state_eq
  · obtain ⟨s1, hlong⟩ := hs.line_too_long hlf (Nat.lt_of_not_le hfits) []
    rw [List.append_nil, h] at hlong
    cases hlong

theorem LineStart.read (hs : LineStart s) {w : Bytes} (h : uploadProcessLoop s w = (s', none)) :
    s'.state = .headers ∨ ∃ lines blank rest, w = wire lines ++ (blank ++ lf :: rest) ∧
      (∀ line ∈ lines, Accepted s.headerAccumulatorSize line) ∧ lf ∉ blank ∧ kept blank = [] := by
  induction hn : w.length using Nat.strong_induction_on generalizing w s with
  | _ n ih =>
    by_cases hlf : lf ∈ w
    · obtain ⟨line, w, rfl, hline⟩ := List.eq_append_cons_of_mem hlf
      by_cases hblank : kept line = []
      · exact Or.inr ⟨[], line, w, rfl, List.forall_mem_nil _, hline, hblank⟩
      · obtain ⟨haccepted, fieldName, contentType, hloop⟩ := hs.line_taken hline hblank h
        have hshort : w.length < n := by
          rw [← hn, List.length_append, List.length_cons]
          omega
        have hrest := ih w.length hshort (s := { s with fieldName, contentType }) ⟨hs.state_eq, hs.empty⟩ hloop rfl
        rcases hrest with hheaders | ⟨lines, blank, rest, rfl, hlines, hone, hblank'⟩
        · exact Or.inl hheaders
        · refine Or.inr ⟨line :: lines, blank, rest, ?_, ?_, hone, hblank'⟩
          · rw [wire_cons, List.append_assoc, List.cons_append]
          · exact List.forall_mem_cons.mpr ⟨haccepted, hlines⟩
    · exact Or.inl (hs.line_open hlf h)

theorem putc_frame (s : FormdataParser) (c : Byte) :
    ∃ fieldValue outputBuffer, uploadPutc s c = { s with fieldValue, outputBuffer } := by
  unfold uploadPutc uploadFlushOutputBuffer
  dsimp only
  split_ifs <;> exact ⟨_, _, rfl⟩

theorem lump_frame (s : FormdataParser) (lump : Bytes) :
    ∃ fieldValue outputBuffer, lump.foldl uploadPutc s = { s with fieldValue, outputBuffer } := by
  induction lump generalizing s with
  | nil => exact ⟨_, _, rfl⟩
  | cons c lump ih =>
    obtain ⟨fieldValue, outputBuffer, hput⟩ := putc_frame s c
    obtain ⟨fieldValue', outputBuffer', hlump⟩ := ih { s with fieldValue, outputBuffer }
    exact ⟨fieldValue', outputBuffer', by rw [List.foldl_cons, hput, hlump]⟩

/-- In a part's data, what is held of the boundary is what the text read since ends with. -/
structure HeldBack (B : BoundaryToken) (s : FormdataParser) (text : Bytes) : Prop where
  boundary_eq : s.boundary = B.boundary
  state_eq : s.state = .data
  start_le : s.boundaryStart ≤ 1
  start_pos : s.boundaryStart ≤ s.boundaryPos
  pos_lt : s.boundaryPos < B.boundary.length
  held : (B.boundary.take s.boundaryPos).drop s.boundaryStart <:+ text

theorem HeldBack.endOfPart {text : Bytes} (h : HeldBack B s text) : uploadEndOfPart s = s := by
  apply endOfPart_inside
  rw [h.boundary_eq]
  exact Nat.ne_of_lt h.pos_lt

theorem HeldBack.matched {text : Bytes} {c : Byte} (h : HeldBack B s text) (hat : atBoundary s c = true)
    (hno : ¬ B.delimiter <:+ text ++ [c]) : ∃ s', uploadData s c = .next s' ∧ HeldBack B s' (text ++ [c]) := by
  have hc := (atBoundary_iff h.boundary_eq c).mp hat
  have hheld : (B.boundary.take (s.boundaryPos + 1)).drop s.boundaryStart <:+ text ++ [c] := by
    rw [held_take hc h.start_pos]
    exact suffix_concat.mpr ⟨rfl, h.held⟩
  have hlt : s.boundaryPos + 1 < B.boundary.length := by
    have hpos := h.pos_lt
    have hstart := h.start_le
    by_contra hge
    rw [List.take_of_length_le (by omega)] at hheld
    refine hno (List.IsSuffix.trans ?_ hheld)
    have hone : s.boundaryStart = LineEnd.crlf.start ∨ s.boundaryStart = LineEnd.lf.start := by
      change s.boundaryStart = 0 ∨ s.boundaryStart = 1
      omega
    rcases hone with hone | hone
    · rw [hone, drop_start]
      exact List.suffix_append _ _
    · rw [hone, drop_start]
      exact List.suffix_append _ _
  have hnext : HeldBack B { s with boundaryPos := s.boundaryPos + 1 } (text ++ [c]) :=
    ⟨h.boundary_eq, h.state_eq, h.start_le, Nat.le_succ_of_le h.start_pos, hlt, hheld⟩
  rw [uploadData_match hat, hnext.endOfPart]
  exact ⟨_, rfl, hnext⟩

theorem HeldBack.started {text : Bytes} {c : Byte} (h : HeldBack B s text) (hat : atBoundary s c = false)
    (hpos : s.boundaryPos = s.boundaryStart) : ∃ s', uploadData s c = .next s' ∧ HeldBack B s' (text ++ [c]) := by
  have hlen := boundary_length B
  rw [uploadData_start hat hpos]
  by_cases hlf : c = lf
  · have hnext : HeldBack B { s with boundaryPos := 2, boundaryStart := 1 } (text ++ [c]) :=
      ⟨h.boundary_eq, h.state_eq, le_refl _, by simp, by dsimp only; omega, by rw [hlf]; exact List.suffix_append _ _⟩
    rw [if_pos hlf, hnext.endOfPart]
    exact ⟨_, rfl, hnext⟩
  · obtain ⟨fieldValue, outputBuffer, hput⟩ := putc_frame s c
    have hnext : HeldBack B { s with fieldValue, outputBuffer } (text ++ [c]) := by
      refine ⟨h.boundary_eq, h.state_eq, h.start_le, h.start_pos, h.pos_lt, ?_⟩
      rw [hpos, List.drop_eq_nil_of_le (List.length_take_le _ _)]
      exact List.nil_suffix
    rw [if_neg hlf, hput, hnext.endOfPart]
    exact ⟨_, rfl, hnext⟩

theorem HeldBack.given_up {text : Bytes} {c : Byte} (h : HeldBack B s text) (hat : atBoundary s c = false)
    (hpos : s.boundaryPos ≠ s.boundaryStart) : ∃ s', uploadData s c = .again s' ∧ HeldBack B s' text := by
  have hlen := boundary_length B
  obtain ⟨fieldValue, outputBuffer, hlump⟩ := lump_frame s ((s.boundary.take s.boundaryPos).drop s.boundaryStart)
  have hnext : HeldBack B { s with fieldValue, outputBuffer, boundaryStart := 0, boundaryPos := 0 } text :=
    ⟨h.boundary_eq, h.state_eq, Nat.zero_le _, le_refl _, by dsimp only; omega, by simp⟩
  rw [uploadData_give_up hat hpos, hlump, hnext.endOfPart]
  exact ⟨_, rfl, hnext⟩

theorem HeldBack.turn {text : Bytes} {c : Byte} (h : HeldBack B s text) (hno : ¬ B.delimiter <:+ text ++ [c]) :
    (∃ s', uploadTurn s c = .next s' ∧ HeldBack B s' (text ++ [c])) ∨
      ∃ s', uploadTurn s c = .again s' ∧ HeldBack B s' text := by
  have hturn : uploadTurn s c = uploadData s c := by simp only [uploadTurn, h.state_eq]
  rw [hturn]
  cases hat : atBoundary s c with
  | true => exact Or.inl (h.matched hat hno)
  | false =>
    by_cases hpos : s.boundaryPos = s.boundaryStart
    · exact Or.inl (h.started hat hpos)
    · exact Or.inr (h.given_up hat hpos)

theorem data_stays {text w : Bytes} (h : HeldBack B s text) (hno : ∀ p, p <+: w → ¬ B.delimiter <:+ text ++ p) :
    ∃ s', uploadProcessLoop s w = (s', none) ∧ s'.state = .data := by
  induction s, w using uploadProcessLoop.induct generalizing text with
  | case1 s => exact ⟨s, loop_nil s, h.state_eq⟩
  | case2 s c rest s1 ht ih =>
    rcases h.turn (hno [c] ⟨rest, rfl⟩) with ⟨s2, hs2, hheld⟩ | ⟨s2, hs2, -⟩
    · cases ht.symm.trans hs2
      rw [loop_next rest ht]
      apply ih hheld
      intro p hp
      have hlater := hno (c :: p) (List.cons_prefix_cons.mpr ⟨rfl, hp⟩)
      simpa using hlater
    · cases ht.symm.trans hs2
  | case3 s c rest s1 ht ih =>
    rcases h.turn (hno [c] ⟨rest, rfl⟩) with ⟨s2, hs2, -⟩ | ⟨s2, hs2, hheld⟩
    · cases ht.symm.trans hs2
    · cases ht.symm.trans hs2
      rw [loop_again rest ht]
      exact ih hheld hno
  | case4 s c rest s1 e ht =>
    rcases h.turn (hno [c] ⟨rest, rfl⟩) with ⟨s2, hs2, -⟩ | ⟨s2, hs2, -⟩
    · cases ht.symm.trans hs2
    · cases ht.symm.trans hs2

theorem first_delimiter {w : Bytes} (h : B.delimiter <:+: w) :
    ∃ value rest, w = value ++ (B.delimiter ++ rest) ∧ ¬ B.delimiter <:+: value := by
  obtain ⟨value, rest, rfl, hfirst⟩ := first_occurrence h
  refine ⟨value, rest, rfl, ?_⟩
  rintro ⟨u, t, rfl⟩
  have hlen := List.length_pos_iff.mpr (delimiter_ne_nil (B := B))
  refine hfirst u.length (by simp only [List.length_append]; omega) ?_
  rw [List.append_assoc, List.append_assoc, List.drop_left]
  exact List.prefix_append _ _

theorem data_unfinished (hs : s.boundary = B.boundary) (hstate : s.state = .data) (stuck : Bool)
    (hstart : s.boundaryStart = stuckStart stuck) (hpos : s.boundaryPos = stuckStart stuck) {w : Bytes}
    (hfree : ¬ B.delimiter <:+: w) : ∃ s', uploadProcessLoop s w = (s', none) ∧ s'.state = .data := by
  have hlen := boundary_length B
  have hle : stuckStart stuck ≤ 1 := by cases stuck <;> decide
  have hheld : HeldBack B s [] := by
    refine ⟨hs, hstate, by omega, by omega, by omega, ?_⟩
    rw [hstart, hpos, List.drop_eq_nil_of_le (List.length_take_le _ _)]
  apply data_stays hheld
  intro p hp hdelimiter
  rw [List.nil_append] at hdelimiter
  exact hfree (hdelimiter.isInfix.trans hp.isInfix)

theorem closes_of_finish {stuck : Bool} (hs : AfterDelimiter B stuck s) {w : Bytes}
    (h : uploadProcessLoop s w = (s', none)) (hfinish : s'.state = .finish) : Closes B s.headerAccumulatorSize w := by
  induction hn : w.length using Nat.strong_induction_on generalizing w s stuck with
  | _ n ih =>
    rcases after_boundary_split w with hjunk | ⟨junk, c, w, rfl, hjunk, hc⟩
    · have hskipped := after_boundary_skipped hs.state_eq hjunk []
      rw [List.append_nil, h, loop_nil] at hskipped
      cases hskipped
      rw [hs.state_eq] at hfinish
      cases hfinish
    · rcases hc with rfl | rfl
      · have hstart : LineStart { s with state := .headers, headerAccumulator := [] } := ⟨rfl, rfl⟩
        have hline := h
        rw [after_boundary_skipped hs.state_eq hjunk, after_boundary_line hs.state_eq] at hline
        rcases hstart.read hline with hheaders | ⟨lines, blank, w, rfl, hlines, hone, hblank⟩
        · rw [hheaders] at hfinish
          cases hfinish
        · by_cases hdelimiter : B.delimiter <:+: w
          · obtain ⟨value, rest, rfl, hvalue⟩ := first_delimiter hdelimiter
            obtain ⟨stuck', s1, hrun, hs1, hsize⟩ := part_read hs hjunk hlines hone hblank hvalue
            have hsplit : junk ++ lf :: (wire lines ++ (blank ++ lf :: (value ++ (B.delimiter ++ rest)))) =
                (junk ++ lf :: (wire lines ++ (blank ++ lf :: (value ++ B.delimiter)))) ++ rest := by simp
            rw [hsplit, loop_then hrun] at h
            have hshort : rest.length < n := by
              rw [← hn, hsplit, List.length_append, List.length_append, List.length_cons]
              omega
            have hrest := ih rest.length hshort hs1 h rfl
            rw [hsize] at hrest
            exact .part hjunk hlines hone hblank hvalue hrest
          · obtain ⟨contentType, hblock⟩ := hstart.block_run hlines hone hblank w
            rw [hblock] at hline
            have hdata := data_unfinished (s := { s with
              headerAccumulator := [], fieldName := (lines.map kept).foldl headerName s.fieldName, contentType,
              state := .data, outputBuffer := [] }) hs.boundary_eq rfl stuck hs.start_eq hs.pos_eq hdelimiter
            obtain ⟨s1, hloop, hstate⟩ := hdata
            cases hline.symm.trans hloop
            rw [hstate] at hfinish
            cases hfinish
      · exact .closing hjunk

theorem seek_begun (hs : SeekStart B s) {k : ℕ} (hk : k < B.opening.length) (rest : Bytes) :
    uploadProcessLoop (seeking s 0) (B.opening.take k ++ rest) = uploadProcessLoop (seeking s k) rest := by
  induction k generalizing rest with
  | zero => rfl
  | succ k ih =>
    have hlt : k < B.opening.length := Nat.lt_of_succ_lt hk
    rw [List.take_succ_eq_append_getElem hlt, List.append_assoc, ih hlt, List.singleton_append]
    exact loop_next rest (seek_match hs (List.getElem?_eq_getElem hlt) hk)

theorem seek_missed (hs : SeekStart B s) {k : ℕ} {c : Byte} (hk : k < B.opening.length)
    (hc : B.opening[k]? ≠ some c) (rest : Bytes) :
    uploadProcessLoop (seeking s 0) (B.opening.take k ++ c :: rest) = uploadProcessLoop (seeking s 0) rest := by
  rw [seek_begun hs hk, loop_next rest (seek_mismatch hs hc)]

theorem seeks_run (hs : SeekStart B s) {preamble : Bytes} (h : Seeks B.opening preamble) (rest : Bytes) :
    uploadProcessLoop (seeking s 0) (preamble ++ rest) = uploadProcessLoop (sought s) rest := by
  induction h with
  | found => exact seek_opening hs rest List.drop_zero (opening_pos B)
  | missed hk hc hw ih => rw [List.append_assoc, List.cons_append, seek_missed hs hk hc, ih]

theorem seeks_of_left (hs : SeekStart B s) (w : Bytes) :
    (∃ preamble rest, w = preamble ++ rest ∧ Seeks B.opening preamble) ∨
      ∃ k, uploadProcessLoop (seeking s 0) w = (seeking s k, none) := by
  induction hn : w.length using Nat.strong_induction_on generalizing w with
  | _ n ih =>
    by_cases hfound : B.opening <+: w
    · obtain ⟨rest, rfl⟩ := hfound
      exact Or.inl ⟨B.opening, rest, rfl, .found⟩
    · rcases first_mismatch hfound with hpre | ⟨k, c, w, hk, rfl, hc⟩
      · have htake := List.prefix_iff_eq_take.mp hpre
        have hlt : w.length < B.opening.length := by
          by_contra hge
          rw [List.take_of_length_le (Nat.le_of_not_lt hge)] at htake
          exact hfound (htake ▸ List.prefix_refl _)
        have hbegun := seek_begun hs hlt []
        rw [List.append_nil, ← htake, loop_nil] at hbegun
        exact Or.inr ⟨w.length, hbegun⟩
      · have hshort : w.length < n := by
          rw [← hn, List.length_append, List.length_cons]
          omega
        rcases ih w.length hshort w rfl with ⟨preamble, rest, rfl, hseeks⟩ | ⟨j, hloop⟩
        · refine Or.inl ⟨B.opening.take k ++ c :: preamble, rest, ?_, .missed hk hc hseeks⟩
          rw [List.append_assoc, List.cons_append]
        · refine Or.inr ⟨j, ?_⟩
          rw [seek_missed hs hk hc, hloop]

end

/-- The parser was brought to `upload_state_finish` by a dash behind a boundary, and threw nothing on the way. -/
def ClosedBy (p : FormdataParser) (body : Bytes) : Prop :=
  ∃ before after s, body = before ++ dash :: after ∧ uploadProcessLoop p before = (s, none) ∧ s.state = .afterBoundary

theorem closedBy_finish {p : FormdataParser} {body : Bytes} (h : ClosedBy p body) :
    ∃ s, uploadProcessLoop p body = (s, none) ∧ s.state = .finish := by
  obtain ⟨before, after, s, rfl, hrun, hstate⟩ := h
  rw [loop_then hrun, after_boundary_end hstate]
  exact ⟨_, rfl, rfl⟩

theorem complete_of_finish {maxHeaderLen bufferSize : ℕ} (hroom : 1 ≤ bufferSize) (params : Params) {body : Bytes}
    {s : FormdataParser} (h : uploadProcessLoop (newParser B maxHeaderLen bufferSize params) body = (s, none))
    (hfinish : s.state = .finish) : CompleteBody B maxHeaderLen body := by
  have hseek : SeekStart B (newParser B maxHeaderLen bufferSize params) := ⟨rfl, rfl, rfl⟩
  rcases seeks_of_left hseek body with ⟨preamble, rest, rfl, hpreamble⟩ | ⟨k, hloop⟩
  · have hrun := seeks_run hseek hpreamble rest
    have hafter : AfterDelimiter B false (sought (newParser B maxHeaderLen bufferSize params)) :=
      ⟨rfl, rfl, rfl, rfl, rfl, rfl, rfl, hroom⟩
    exact ⟨preamble, rest, rfl, hpreamble, closes_of_finish hafter (hrun.symm.trans h) hfinish⟩
  · cases h.symm.trans hloop
    cases hfinish

theorem closedBy_of_complete {maxHeaderLen bufferSize : ℕ} (hroom : 1 ≤ bufferSize) (params : Params) {body : Bytes}
    (h : CompleteBody B maxHeaderLen body) : ClosedBy (newParser B maxHeaderLen bufferSize params) body := by
  obtain ⟨preamble, rest, rfl, hpreamble, hrest⟩ := h
  have hseek : SeekStart B (newParser B maxHeaderLen bufferSize params) := ⟨rfl, rfl, rfl⟩
  have hafter : AfterDelimiter B false (sought (newParser B maxHeaderLen bufferSize params)) :=
    ⟨rfl, rfl, rfl, rfl, rfl, rfl, rfl, hroom⟩
  obtain ⟨before, after, s, rfl, hrun, hstate⟩ := closes_run hrest hafter rfl
  refine ⟨preamble ++ before, after, s, by rw [List.append_assoc], ?_, hstate⟩
  exact (seeks_run hseek hpreamble before).trans hrun

end FcgiAppserver.Formdata
