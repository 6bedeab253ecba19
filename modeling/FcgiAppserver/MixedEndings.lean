import FcgiAppserver.FormdataRoundtrip

namespace FcgiAppserver.Formdata

open ByteStrings QueryArgs

variable {B : BoundaryToken}

/-- A part with any header lines, of any length, and how the line before its closing delimiter ends. -/
structure MixedPart (B : BoundaryToken) where
  lines : List Bytes
  value : Bytes
  ending : LineEnd
  value_free : ¬ B.delimiter <:+: value
  value_end : value.getLast? ≠ some cr

namespace MixedPart

def name (part : MixedPart B) : Bytes := (part.lines.map kept).foldl headerName []

def body (part : MixedPart B) : Bytes :=
  cr :: lf :: (wire part.lines ++ cr :: lf :: (part.value ++ (part.ending.bytes ++ B.delimiter)))

def withCrlf (part : MixedPart B) : MixedPart B := { part with ending := .crlf }

end MixedPart

def encodeMixed (preamble : Preamble B) (parts : List (MixedPart B)) (epilogue : Bytes) : Bytes :=
  preamble.bytes ++ (B.opening ++ (parts.flatMap MixedPart.body ++ dash :: dash :: epilogue))

structure AfterDelimiter (B : BoundaryToken) (stuck : Bool) (s : FormdataParser) : Prop where
  boundary_eq : s.boundary = B.boundary
  state_eq : s.state = .afterBoundary
  start_eq : s.boundaryStart = stuckStart stuck
  pos_eq : s.boundaryPos = stuckStart stuck
  name_eq : s.fieldName = []
  value_eq : s.fieldValue = []
  keep : s.discardData = false
  room : 0 < s.outputBufferSize

/-- Each part with whether the workaround for a bare LF still holds on when its data begin. -/
def marked : Bool → List (MixedPart B) → List (Bool × MixedPart B)
  | _, [] => []
  | stuck, part :: parts => (stuck, part) :: marked (stuckAfter stuck part.value part.ending) parts

def sentValue (size : ℕ) (part : MixedPart B) : Bytes := part.value.take size

def recordedValue (size : ℕ) (stuck : Bool) (part : MixedPart B) : Bytes :=
  (part.value ++ strayCr stuck part.value part.ending).take size

theorem mixed_part_run {s : FormdataParser} {stuck : Bool} (hs : AfterDelimiter B stuck s) (part : MixedPart B)
    (hlines : ∀ line ∈ part.lines, Accepted s.headerAccumulatorSize line) (rest : Bytes) :
    ∃ s', uploadProcessLoop s (part.body ++ rest) = uploadProcessLoop s' rest ∧
      AfterDelimiter B (stuckAfter stuck part.value part.ending) s' ∧
      s'.formdataParams = s.formdataParams.insertIfNew part.name (recordedValue s.outputBufferSize stuck part) ∧
      s'.headerAccumulatorSize = s.headerAccumulatorSize ∧ s'.outputBufferSize = s.outputBufferSize := by
  have hstart : LineStart { s with state := .headers, headerAccumulator := [] } := ⟨rfl, rfl⟩
  obtain ⟨contentType, hblock⟩ := hstart.block_run hlines (by decide : lf ∉ [cr]) rfl
    (part.value ++ (part.ending.bytes ++ (B.delimiter ++ rest)))
  have hname : (part.lines.map kept).foldl headerName s.fieldName = part.name := by rw [hs.name_eq]; rfl
  let data : FormdataParser :=
    { s with headerAccumulator := [], fieldName := part.name, contentType, state := .data, outputBuffer := [] }
  have hdata : DataStart B data := ⟨hs.boundary_eq, rfl, hs.keep, hs.room⟩
  have hvalue := part_value hdata hs.value_eq rfl stuck hs.start_eq hs.pos_eq part.ending part.value_free
    (fun _ => part.value_end) rest
  refine ⟨partFinished data (recordedValue s.outputBufferSize stuck part)
    (stuckStart (stuckAfter stuck part.value part.ending)), ?_, ?_, rfl, rfl, rfl⟩
  · have hbody : part.body ++ rest = cr :: lf :: (wire part.lines ++ ([cr] ++ lf ::
        (part.value ++ (part.ending.bytes ++ (B.delimiter ++ rest))))) := by simp [MixedPart.body]
    rw [hbody, after_boundary_line_end hs.state_eq, hblock]
    simp only [hname]
    exact hvalue
  · exact ⟨hs.boundary_eq, rfl, rfl, rfl, rfl, rfl, rfl, hs.room⟩

theorem mixed_parts_run {s : FormdataParser} {stuck : Bool} (hs : AfterDelimiter B stuck s) (parts : List (MixedPart B))
    (hlines : ∀ part ∈ parts, ∀ line ∈ part.lines, Accepted s.headerAccumulatorSize line) (rest : Bytes) :
    ∃ s', uploadProcessLoop s (parts.flatMap MixedPart.body ++ rest) = uploadProcessLoop s' rest ∧
      s'.state = .afterBoundary ∧ s'.formdataParams = FirstWins.insertAll s.formdataParams
        ((marked stuck parts).map (fun x => (x.2.name, recordedValue s.outputBufferSize x.1 x.2))) := by
  induction parts generalizing s stuck with
  | nil => exact ⟨s, rfl, hs.state_eq, rfl⟩
  | cons part parts ih =>
    obtain ⟨hfirst, hlater⟩ := List.forall_mem_cons.mp hlines
    obtain ⟨s1, hloop1, hs1, hparams1, hheader1, hbuffer1⟩ :=
      mixed_part_run hs part hfirst (parts.flatMap MixedPart.body ++ rest)
    rw [← hheader1] at hlater
    obtain ⟨s2, hloop2, hstate2, hparams2⟩ := ih hs1 hlater
    refine ⟨s2, ?_, hstate2, ?_⟩
    · rw [List.flatMap_cons, List.append_assoc, hloop1, hloop2]
    · rw [hparams2, hparams1, hbuffer1]
      rfl

theorem decode_mixed {s : FormdataParser} (hs : SeekStart B s) (hpos : s.boundaryPos = 2) (hname : s.fieldName = [])
    (hvalue : s.fieldValue = []) (hkeep : s.discardData = false) (hroom : 0 < s.outputBufferSize)
    (preamble : Preamble B) (parts : List (MixedPart B)) (epilogue : Bytes)
    (hlines : ∀ part ∈ parts, ∀ line ∈ part.lines, Accepted s.headerAccumulatorSize line) :
    (uploadProcessLoop s (encodeMixed preamble parts epilogue)).1.formdataParams = FirstWins.insertAll s.formdataParams
      ((marked false parts).map (fun x => (x.2.name, recordedValue s.outputBufferSize x.1 x.2))) := by
  have hseeking : seeking s 0 = s := by
    rw [seeking, Nat.add_zero, ← hpos]
  have hafter : AfterDelimiter B false (sought s) := ⟨hs.boundary_eq, rfl, rfl, rfl, hname, hvalue, hkeep, hroom⟩
  obtain ⟨s1, hloop1, hstate1, hparams1⟩ := mixed_parts_run hafter parts hlines (dash :: dash :: epilogue)
  rw [encodeMixed, ← hseeking, seek_preamble hs, hloop1, after_boundary_end hstate1]
  exact hparams1

/-- After a bare LF the workaround holds on as long as no value has an LF. -/
def heldOn (stuck : Bool) (before : List (MixedPart B)) : Bool :=
  before.foldl (fun stuck part => stuckAfter stuck part.value part.ending) stuck

theorem marked_append (stuck : Bool) (before after : List (MixedPart B)) :
    marked stuck (before ++ after) = marked stuck before ++ marked (heldOn stuck before) after := by
  induction before generalizing stuck with
  | nil => rfl
  | cons part before ih =>
    rw [List.cons_append, marked, ih]
    rfl

theorem marked_parts (stuck : Bool) (parts : List (MixedPart B)) : (marked stuck parts).map Prod.snd = parts := by
  induction parts generalizing stuck with
  | nil => rfl
  | cons part parts ih => rw [marked, List.map_cons, ih]

/-- The places in the list of marked parts are those in the list of parts. -/
theorem marked_split {stuck : Bool} {parts : List (MixedPart B)} {a b : List (Bool × MixedPart B)}
    {x : Bool × MixedPart B} (h : marked stuck parts = a ++ x :: b) :
    parts = a.map Prod.snd ++ x.2 :: b.map Prod.snd ∧ x.1 = heldOn stuck (a.map Prod.snd) := by
  have hparts : parts = a.map Prod.snd ++ x.2 :: b.map Prod.snd := by
    have hmap := congrArg (List.map Prod.snd) h
    rwa [marked_parts, List.map_append, List.map_cons] at hmap
  refine ⟨hparts, ?_⟩
  rw [hparts, marked_append] at h
  have hlen : (marked stuck (a.map Prod.snd)).length = a.length := by
    rw [← List.length_map (f := Prod.snd), marked_parts, List.length_map]
  have htail := (List.append_inj h hlen).2
  rw [marked] at htail
  exact (congrArg Prod.fst (List.cons.inj htail).1).symm

theorem heldOn_iff (before : List (MixedPart B)) :
    heldOn false before = true ↔ ∃ first part mid, before = first ++ part :: mid ∧ part.ending = .lf ∧
      ∀ m ∈ mid, lf ∉ m.value := by
  induction before using List.reverseRecOn with
  | nil => simp [heldOn]
  | append_singleton before last ih =>
    have hstep : heldOn false (before ++ [last]) = stuckAfter (heldOn false before) last.value last.ending := by
      rw [heldOn, List.foldl_append]
      rfl
    rw [hstep, stuckAfter, Bool.or_eq_true, Bool.and_eq_true, ih]
    simp only [decide_eq_true_eq, Bool.not_eq_true', List.contains_eq_mem, decide_eq_false_iff_not]
    constructor
    · rintro (hlf | ⟨⟨first, part, mid, rfl, hlf, hmid⟩, hlast⟩)
      · exact ⟨before, last, [], rfl, hlf, List.forall_mem_nil _⟩
      · refine ⟨first, part, mid ++ [last], by simp, hlf, ?_⟩
        exact List.forall_mem_append.mpr ⟨hmid, List.forall_mem_singleton.mpr hlast⟩
    · rintro ⟨first, part, mid, hsplit, hlf, hmid⟩
      rcases List.eq_nil_or_concat' mid with rfl | ⟨mid, m, rfl⟩
      · obtain ⟨-, hlast⟩ := List.append_inj' hsplit rfl
        cases hlast
        exact Or.inl hlf
      · rw [← List.cons_append, ← List.append_assoc] at hsplit
        obtain ⟨rfl, hlast⟩ := List.append_inj' hsplit rfl
        cases hlast
        obtain ⟨hmid, hm⟩ := List.forall_mem_append.mp hmid
        exact Or.inr ⟨⟨first, part, mid, rfl, hlf, hmid⟩, hm last List.mem_cons_self⟩

theorem recorded_eq_iff (size : ℕ) (stuck : Bool) (part : MixedPart B) :
    recordedValue size stuck part = sentValue size part ↔
      (stuck = true → part.ending = .crlf → lf ∉ part.value → size ≤ part.value.length) := by
  rw [recordedValue, sentValue, strayCr]
  cases stuck with
  | false => simp
  | true =>
    by_cases hv : lf ∈ part.value
    · simp [hv]
    · cases part.ending with
      | crlf => simp [hv, LineEnd.bytes]
      | lf => simp [LineEnd.bytes]

/-- No part that is the first of its name, ends with CRLF, has no LF in it and does not fill the buffer comes
after one that ends with a bare LF and, between the two, only values without an LF. -/
def EndingsHarmless (size : ℕ) (parts : List (MixedPart B)) : Prop :=
  ∀ first part mid last after, parts = first ++ part :: mid ++ last :: after → part.ending = .lf →
    (∀ m ∈ mid, lf ∉ m.value) → last.ending = .crlf → lf ∉ last.value → last.value.length < size →
    ∃ earlier ∈ first ++ part :: mid, earlier.name = last.name

theorem harmless_iff (size : ℕ) (parts : List (MixedPart B)) :
    (FirstWins.firstWins ((marked false parts).map (fun x => (x.2.name, recordedValue size x.1 x.2))) : Params) =
        FirstWins.firstWins (parts.map (fun part => (part.name, sentValue size part))) ↔
      EndingsHarmless size parts := by
  have hsent : parts.map (fun part => (part.name, sentValue size part)) =
      (marked false parts).map (fun x => (x.2.name, sentValue size x.2)) := by
    conv_lhs => rw [← marked_parts false parts, List.map_map]
    rfl
  rw [hsent, FirstWins.firstWins_map_eq_iff]
  constructor
  · intro h first part mid last after hparts hlf hmid hcrlf hno hshort
    by_contra hnone
    have hnot : ∀ earlier ∈ first ++ part :: mid, earlier.name ≠ last.name := fun e he hname => hnone ⟨e, he, hname⟩
    have hheld := (heldOn_iff (first ++ part :: mid)).mpr ⟨first, part, mid, rfl, hlf, hmid⟩
    have hsplit := marked_append false (first ++ part :: mid) (last :: after)
    rw [← hparts, hheld, marked] at hsplit
    have heq := h _ _ _ hsplit (by
      intro y hy
      have hin := List.mem_map_of_mem (f := Prod.snd) hy
      rw [marked_parts] at hin
      exact hnot y.2 hin)
    have hle := (recorded_eq_iff size true last).mp heq rfl hcrlf hno
    omega
  · rintro h a ⟨stuck, last⟩ b hsplit hfirst
    obtain ⟨hparts, hstuck⟩ := marked_split hsplit
    rw [recorded_eq_iff]
    intro htrue hcrlf hno
    by_contra hshort
    rw [htrue] at hstuck
    obtain ⟨first, part, mid, hbefore, hlf, hmid⟩ := (heldOn_iff _).mp hstuck.symm
    rw [hbefore] at hparts
    obtain ⟨earlier, hin, hname⟩ := h first part mid last _ hparts hlf hmid hcrlf hno (Nat.lt_of_not_le hshort)
    rw [← hbefore] at hin
    obtain ⟨y, hy, rfl⟩ := List.mem_map.mp hin
    exact hfirst y hy hname

theorem formdataParser_eq {contentType : Bytes} {maxHeaderLen bufferSize : ℕ} {params : Params} {p : FormdataParser}
    (h : formdataParser contentType maxHeaderLen bufferSize params = .ok p) (hB : p.boundary = B.boundary) :
    p = newParser B maxHeaderLen bufferSize params := by
  obtain ⟨boundary, -, rfl⟩ := formdataParser_accepted h
  change boundary = B.boundary at hB
  rw [hB]
  rfl

theorem mixed_recorded (maxHeaderLen bufferSize : ℕ) (hroom : 1 ≤ bufferSize) (preamble : Preamble B)
    (parts : List (MixedPart B)) (hlines : ∀ part ∈ parts, ∀ line ∈ part.lines, Accepted maxHeaderLen line)
    (epilogue : Bytes) {chunks : List Bytes} (hne : ∀ buf ∈ chunks, buf ≠ [])
    (hsplit : chunks.flatten = encodeMixed preamble parts epilogue) :
    (feed (newParser B maxHeaderLen bufferSize ∅) chunks).1.formdataParams =
      FirstWins.firstWins ((marked false parts).map (fun x => (x.2.name, recordedValue bufferSize x.1 x.2))) := by
  have hseek : SeekStart B (newParser B maxHeaderLen bufferSize ∅) := ⟨rfl, rfl, rfl⟩
  rw [feed_eq_loop _ chunks hne, hsplit]
  exact decode_mixed hseek rfl rfl rfl rfl hroom preamble parts epilogue hlines

theorem crlf_recorded (size : ℕ) (parts : List (MixedPart B)) :
    (marked false (parts.map MixedPart.withCrlf)).map (fun x => (x.2.name, recordedValue size x.1 x.2)) =
      parts.map (fun part => (part.name, sentValue size part)) := by
  induction parts with
  | nil => rfl
  | cons part parts ih =>
    rw [List.map_cons, marked, List.map_cons, List.map_cons]
    congr 1
    change (part.name, ((part.value ++ []).take size)) = _
    rw [List.append_nil]
    rfl

/-- Compared with the same parts all ended by CRLF, whose values are recorded as they were sent. -/
theorem endings_harmless_iff (contentType : Bytes) (maxHeaderLen bufferSize : ℕ) (hroom : 1 ≤ bufferSize)
    (p : FormdataParser) (hp : formdataParser contentType maxHeaderLen bufferSize ∅ = .ok p)
    (hB : p.boundary = B.boundary) (preamble : Preamble B) (parts : List (MixedPart B))
    (hlines : ∀ part ∈ parts, ∀ line ∈ part.lines, Accepted maxHeaderLen line) (epilogue : Bytes)
    (chunks crlfChunks : List Bytes) (hne : ∀ buf ∈ chunks, buf ≠ []) (hne' : ∀ buf ∈ crlfChunks, buf ≠ [])
    (hsplit : chunks.flatten = encodeMixed preamble parts epilogue)
    (hcrlf : crlfChunks.flatten = encodeMixed preamble (parts.map MixedPart.withCrlf) epilogue) :
    (feed p crlfChunks).1.formdataParams =
        FirstWins.firstWins (parts.map (fun part => (part.name, sentValue bufferSize part))) ∧
      ((feed p chunks).1.formdataParams = (feed p crlfChunks).1.formdataParams ↔ EndingsHarmless bufferSize parts) := by
  have hlines' : ∀ part ∈ parts.map MixedPart.withCrlf, ∀ line ∈ part.lines, Accepted maxHeaderLen line := by
    intro part hpart
    obtain ⟨part, hin, rfl⟩ := List.mem_map.mp hpart
    exact hlines part hin
  have hreference := mixed_recorded maxHeaderLen bufferSize hroom preamble _ hlines' epilogue hne' hcrlf
  rw [crlf_recorded] at hreference
  rw [formdataParser_eq hp hB]
  refine ⟨hreference, ?_⟩
  rw [hreference, mixed_recorded maxHeaderLen bufferSize hroom preamble parts hlines epilogue hne hsplit]
  exact harmless_iff bufferSize parts

def bareLfPart : MixedPart oneByteBoundary :=
  ⟨[headerOf (ascii "a") ++ [cr]], ascii "1", .lf, by decide +kernel, by decide +kernel⟩

def afterBareLf : MixedPart oneByteBoundary :=
  ⟨[headerOf (ascii "b") ++ [cr]], ascii "2", .crlf, by decide +kernel, by decide +kernel⟩

theorem sample_lines : ∀ part ∈ [bareLfPart, afterBareLf], ∀ line ∈ part.lines, Accepted 512 line := by
  have hfirst : Accepted 512 (headerOf (ascii "a") ++ [cr]) :=
    ⟨by decide +kernel, by decide +kernel, by decide +kernel, by decide +kernel⟩
  have hsecond : Accepted 512 (headerOf (ascii "b") ++ [cr]) :=
    ⟨by decide +kernel, by decide +kernel, by decide +kernel, by decide +kernel⟩
  simp [bareLfPart, afterBareLf, hfirst, hsecond]

theorem mixed_chunk_ne_nil (preamble : Preamble B) (parts : List (MixedPart B)) (epilogue : Bytes) :
    ∀ buf ∈ [encodeMixed preamble parts epilogue], buf ≠ [] := by
  simp [encodeMixed, BoundaryToken.opening]

theorem endings_harmless_sample :
    (feed (newParser oneByteBoundary 512 (128 * 1024) ∅)
          [encodeMixed (noPreamble oneByteBoundary) ([bareLfPart, afterBareLf].map MixedPart.withCrlf) []]).1.formdataParams =
        FirstWins.firstWins ([bareLfPart, afterBareLf].map (fun part => (part.name, sentValue (128 * 1024) part))) ∧
      ((feed (newParser oneByteBoundary 512 (128 * 1024) ∅)
            [encodeMixed (noPreamble oneByteBoundary) [bareLfPart, afterBareLf] []]).1.formdataParams =
          (feed (newParser oneByteBoundary 512 (128 * 1024) ∅)
            [encodeMixed (noPreamble oneByteBoundary) ([bareLfPart, afterBareLf].map MixedPart.withCrlf) []]).1.formdataParams ↔
        EndingsHarmless (128 * 1024) [bareLfPart, afterBareLf]) :=
  endings_harmless_iff (contentTypeOf oneByteBoundary) 512 (128 * 1024) (by norm_num) _
    (formdataParser_of oneByteBoundary 512 (128 * 1024) ∅) rfl (noPreamble oneByteBoundary) [bareLfPart, afterBareLf]
    sample_lines [] _ _ (mixed_chunk_ne_nil _ _ _) (mixed_chunk_ne_nil _ _ _) List.flatten_singleton
    List.flatten_singleton

theorem stray_cr_recorded :
    (feed (newParser oneByteBoundary 512 (128 * 1024) ∅)
        [encodeMixed (noPreamble oneByteBoundary) [bareLfPart, afterBareLf] []]).1.formdataParams[ascii "b"]? =
      some (ascii "2\r") ∧ ascii "2\r" ≠ afterBareLf.value := by
  have hrecorded := mixed_recorded 512 (128 * 1024) (by norm_num) (noPreamble oneByteBoundary) [bareLfPart, afterBareLf]
    sample_lines [] (mixed_chunk_ne_nil _ _ _) List.flatten_singleton
  refine ⟨?_, by decide⟩
  rw [hrecorded, FirstWins.getElem?_firstWins]
  decide +kernel

end FcgiAppserver.Formdata
