import FcgiAppserver.FormdataChunks
import FcgiAppserver.RestartMatcher

namespace FcgiAppserver.Formdata

open ByteStrings RestartMatcher

/-- What a `Content-Type` can announce as the boundary, on the bytes a signed comparison can match. -/
structure BoundaryToken where
  bytes : Bytes
  ne_nil : bytes ≠ []
  low : ∀ b ∈ bytes, b < 0x80
  plain : ∀ b ∈ bytes, b ≠ 0 ∧ b ≠ space ∧ b ≠ semicolon ∧ b ≠ cr ∧ b ≠ lf

variable (B : BoundaryToken)

def BoundaryToken.delimiter : Bytes := lf :: dash :: dash :: B.bytes

def BoundaryToken.boundary : Bytes := cr :: B.delimiter

theorem cr_not_mem_delimiter : cr ∉ B.delimiter := by
  intro h
  simp only [BoundaryToken.delimiter, List.mem_cons] at h
  rcases h with h | h | h | h
  · exact absurd h (by decide)
  · exact absurd h (by decide)
  · exact absurd h (by decide)
  · exact (B.plain cr h).2.2.2.1 rfl

theorem lf_not_mem_dashes : lf ∉ dash :: dash :: B.bytes := by
  intro h
  simp only [List.mem_cons] at h
  rcases h with h | h | h
  · exact absurd h (by decide)
  · exact absurd h (by decide)
  · exact (B.plain lf h).2.2.2.2 rfl

theorem boundary_low : ∀ b ∈ B.boundary, b < 0x80 := by
  intro b h
  simp only [BoundaryToken.boundary, BoundaryToken.delimiter, List.mem_cons] at h
  rcases h with rfl | rfl | rfl | rfl | h
  · decide
  · decide
  · decide
  · decide
  · exact B.low b h

theorem boundary_length : 4 < B.boundary.length := by
  have := List.length_pos_iff.mpr B.ne_nil
  simp only [BoundaryToken.boundary, BoundaryToken.delimiter, List.length_cons]
  omega

variable {B}

theorem atBoundary_iff {s : FormdataParser} (hs : s.boundary = B.boundary) (c : Byte) :
    atBoundary s c = true ↔ B.boundary[s.boundaryPos]? = some c := by
  unfold atBoundary
  rw [hs]
  cases hb : B.boundary[s.boundaryPos]? with
  | none => simp
  | some b =>
    have hlow := boundary_low B b (List.mem_of_getElem? hb)
    simp only [Bool.and_eq_true, beq_iff_eq, decide_eq_true_eq, Option.some.injEq]
    exact ⟨fun h => h.1.symm, fun h => ⟨h.symm, hlow⟩⟩

def inData (s : FormdataParser) (fieldValue outputBuffer : Bytes) (start pos : ℕ) : FormdataParser :=
  { s with fieldValue, outputBuffer, boundaryStart := start, boundaryPos := pos }

/-- Where the bytes `e` put so far are: all in the buffer, or flushed with only the first flush kept. -/
def Emitted (size : ℕ) (e fieldValue outputBuffer : Bytes) : Prop :=
  (e.length < size ∧ fieldValue = [] ∧ outputBuffer = e) ∨
    (size ≤ e.length ∧ fieldValue = e.take size ∧ outputBuffer.length < size)

theorem take_isEmpty {size : ℕ} {e : Bytes} (hsize : 0 < size) (hle : size ≤ e.length) :
    (e.take size).isEmpty = false := by
  rw [List.isEmpty_eq_false_iff, ← List.length_pos_iff, List.length_take]
  omega

theorem putc_emits {s : FormdataParser} {e fv ob : Bytes} (hd : s.discardData = false)
    (hsize : 0 < s.outputBufferSize) (h : Emitted s.outputBufferSize e fv ob) (start pos : ℕ) (c : Byte) :
    ∃ fv' ob', uploadPutc (inData s fv ob start pos) c = inData s fv' ob' start pos ∧
      Emitted s.outputBufferSize (e ++ [c]) fv' ob' := by
  by_cases hfull : ob.length + 1 = s.outputBufferSize
  · refine ⟨if fv.isEmpty then ob ++ [c] else fv, [], ?_, Or.inr ?_⟩
    · simp [uploadPutc, uploadFlushOutputBuffer, inData, hd, hfull]
    · rcases h with ⟨hlt, rfl, rfl⟩ | ⟨hle, rfl, -⟩
      · exact ⟨by simp; omega, by simp [List.take_of_length_le, hfull], hsize⟩
      · have hne := take_isEmpty hsize hle
        exact ⟨by simp; omega, by simp [hne, List.take_append_of_le_length hle], hsize⟩
  · refine ⟨fv, ob ++ [c], ?_, ?_⟩
    · simp [uploadPutc, inData, hd, hfull]
    · rcases h with ⟨hlt, rfl, rfl⟩ | ⟨hle, rfl, hb⟩
      · exact Or.inl ⟨by simp; omega, rfl, rfl⟩
      · exact Or.inr ⟨by simp; omega, (List.take_append_of_le_length hle).symm, by simp; omega⟩

theorem putc_emits_lump {s : FormdataParser} (hd : s.discardData = false)
    (hsize : 0 < s.outputBufferSize) (start pos : ℕ) (lump : Bytes) {e fv ob : Bytes}
    (h : Emitted s.outputBufferSize e fv ob) :
    ∃ fv' ob', lump.foldl uploadPutc (inData s fv ob start pos) = inData s fv' ob' start pos ∧
      Emitted s.outputBufferSize (e ++ lump) fv' ob' := by
  induction lump generalizing e fv ob with
  | nil => exact ⟨fv, ob, rfl, by simpa using h⟩
  | cons c lump ih =>
    obtain ⟨fv1, ob1, hput, h1⟩ := putc_emits hd hsize h start pos c
    obtain ⟨fv2, ob2, hlump, h2⟩ := ih h1
    exact ⟨fv2, ob2, by rw [List.foldl_cons, hput, hlump], by simpa using h2⟩

theorem flush_emitted {s : FormdataParser} {e fv ob : Bytes} (h : Emitted s.outputBufferSize e fv ob)
    (start pos : ℕ) :
    uploadFlushOutputBuffer (inData s fv ob start pos) =
      inData s (e.take s.outputBufferSize) [] start pos := by
  rcases h with ⟨hlt, rfl, rfl⟩ | ⟨hle, rfl, hb⟩
  · by_cases he : ob = []
    · simp [uploadFlushOutputBuffer, inData, he]
    · simp [uploadFlushOutputBuffer, inData, he, List.take_of_length_le (Nat.le_of_lt hlt)]
  · by_cases ho : ob = []
    · simp [uploadFlushOutputBuffer, inData, ho]
    · have hne := take_isEmpty (Nat.zero_lt_of_lt hb) hle
      simp [uploadFlushOutputBuffer, inData, ho, hne]

structure DataStart (B : BoundaryToken) (s : FormdataParser) : Prop where
  boundary_eq : s.boundary = B.boundary
  state_eq : s.state = .data
  keep : s.discardData = false
  room : 0 < s.outputBufferSize

theorem endOfPart_inside {s : FormdataParser} (h : s.boundaryPos ≠ s.boundary.length) :
    uploadEndOfPart s = s := if_neg h

theorem uploadData_match {s : FormdataParser} {c : Byte} (h : atBoundary s c = true) :
    uploadData s c = .next (uploadEndOfPart { s with boundaryPos := s.boundaryPos + 1 }) := if_pos h

theorem uploadData_start {s : FormdataParser} {c : Byte} (h : atBoundary s c = false)
    (hpos : s.boundaryPos = s.boundaryStart) :
    uploadData s c =
      if c = lf then .next (uploadEndOfPart { s with boundaryPos := 2, boundaryStart := 1 })
      else .next (uploadEndOfPart (uploadPutc s c)) := by
  rw [uploadData, if_neg (by simp [h]), if_pos hpos]

theorem uploadData_give_up {s : FormdataParser} {c : Byte} (h : atBoundary s c = false)
    (hpos : s.boundaryPos ≠ s.boundaryStart) :
    uploadData s c = .again (uploadEndOfPart
      { ((s.boundary.take s.boundaryPos).drop s.boundaryStart).foldl uploadPutc s with
        boundaryStart := 0, boundaryPos := 0 }) := by
  rw [uploadData, if_neg (by simp [h]), if_neg hpos]

theorem uploadTurn_inData {s : FormdataParser} (hs : DataStart B s) (fv ob : Bytes) (start pos : ℕ)
    (c : Byte) : uploadTurn (inData s fv ob start pos) c = uploadData (inData s fv ob start pos) c := by
  have hst : (inData s fv ob start pos).state = .data := hs.state_eq
  simp only [uploadTurn, hst]

theorem inData_boundary {s : FormdataParser} (hs : DataStart B s) (fv ob : Bytes) (start pos : ℕ) :
    (inData s fv ob start pos).boundary = B.boundary := hs.boundary_eq

theorem inData_inside {s : FormdataParser} (hs : DataStart B s) (fv ob : Bytes) {start pos : ℕ}
    (h : pos < B.boundary.length) :
    uploadEndOfPart (inData s fv ob start pos) = inData s fv ob start pos := by
  apply endOfPart_inside
  rw [inData_boundary hs]
  exact Nat.ne_of_lt h

theorem data_match {s : FormdataParser} (hs : DataStart B s) {fv ob : Bytes} {start pos : ℕ} {c : Byte}
    (h : B.boundary[pos]? = some c) :
    uploadTurn (inData s fv ob start pos) c = .next (uploadEndOfPart (inData s fv ob start (pos + 1))) := by
  have hb : atBoundary (inData s fv ob start pos) c = true :=
    (atBoundary_iff (inData_boundary hs fv ob start pos) c).mpr h
  rw [uploadTurn_inData hs, uploadData_match hb]
  rfl

theorem data_mismatch {s : FormdataParser} (hs : DataStart B s) {fv ob : Bytes} {start pos : ℕ} {c : Byte}
    (h : B.boundary[pos]? ≠ some c) : atBoundary (inData s fv ob start pos) c = false := by
  rw [Bool.eq_false_iff, ne_eq, atBoundary_iff (inData_boundary hs fv ob start pos)]
  exact h

theorem data_restart {s : FormdataParser} (hs : DataStart B s) {fv ob e : Bytes}
    (he : Emitted s.outputBufferSize e fv ob) (c : Byte) :
    ∃ fv' ob' e' start pos, uploadTurn (inData s fv ob 0 0) c = .next (inData s fv' ob' start pos) ∧
      Emitted s.outputBufferSize e' fv' ob' ∧
      ((c = cr ∧ e' = e ∧ start = 0 ∧ pos = 1) ∨ (c = lf ∧ e' = e ∧ start = 1 ∧ pos = 2) ∨
        (c ≠ cr ∧ c ≠ lf ∧ e' = e ++ [c] ∧ start = 0 ∧ pos = 0)) := by
  have hlen := boundary_length B
  by_cases hc : c = cr
  · refine ⟨fv, ob, e, 0, 1, ?_, he, Or.inl ⟨hc, rfl, rfl, rfl⟩⟩
    rw [data_match hs (by simp [hc, BoundaryToken.boundary]), inData_inside hs fv ob (by omega)]
  · have hat : atBoundary (inData s fv ob 0 0) c = false :=
      data_mismatch hs (by simpa [BoundaryToken.boundary] using Ne.symm hc)
    have hturn := uploadData_start hat (s := inData s fv ob 0 0) rfl
    rw [← uploadTurn_inData hs] at hturn
    by_cases hl : c = lf
    · refine ⟨fv, ob, e, 1, 2, ?_, he, Or.inr (Or.inl ⟨hl, rfl, rfl, rfl⟩)⟩
      rw [hturn, if_pos hl]
      exact congrArg Turn.next (inData_inside hs fv ob (by omega))
    · obtain ⟨fv', ob', hput, he'⟩ := putc_emits hs.keep hs.room he 0 0 c
      refine ⟨fv', ob', e ++ [c], 0, 0, ?_, he', Or.inr (Or.inr ⟨hc, hl, rfl, rfl, rfl⟩)⟩
      rw [hturn, if_neg hl, hput, inData_inside hs fv' ob' (by omega)]

theorem data_give_up {s : FormdataParser} (hs : DataStart B s) {fv ob e : Bytes} {start pos : ℕ} {c : Byte}
    (he : Emitted s.outputBufferSize e fv ob) (h : B.boundary[pos]? ≠ some c) (hne : pos ≠ start) :
    ∃ fv' ob', uploadTurn (inData s fv ob start pos) c = .again (inData s fv' ob' 0 0) ∧
      Emitted s.outputBufferSize (e ++ (B.boundary.take pos).drop start) fv' ob' := by
  have hlen := boundary_length B
  obtain ⟨fv', ob', hput, he'⟩ := putc_emits_lump hs.keep hs.room start pos ((B.boundary.take pos).drop start) he
  refine ⟨fv', ob', ?_, he'⟩
  have hcur : (inData s fv ob start pos).boundaryPos ≠ (inData s fv ob start pos).boundaryStart := hne
  rw [uploadTurn_inData hs, uploadData_give_up (data_mismatch hs h) hcur, inData_boundary hs]
  change Turn.again (uploadEndOfPart
    { ((B.boundary.take pos).drop start).foldl uploadPutc (inData s fv ob start pos) with
      boundaryStart := 0, boundaryPos := 0 }) = _
  rw [hput]
  exact congrArg Turn.again (inData_inside hs fv' ob' (by omega))

/-- What `text`, read since the part began, has left: `e` put out and the rest held in the match. -/
structure Held (B : BoundaryToken) (text e : Bytes) (start pos : ℕ) : Prop where
  split : text = e ++ (B.boundary.take pos).drop start
  start_le : start ≤ 1
  pos_lt : pos < B.boundary.length
  start_pos : start ≤ pos
  bare_lf : start = 1 → 2 ≤ pos
  matched : Matched B.delimiter text (pos - 1)
  no_cr : pos = 0 ∨ start = 1 → e.getLast? ≠ some cr

def Reading (B : BoundaryToken) (s : FormdataParser) (text : Bytes) (s' : FormdataParser) : Prop :=
  ∃ e fv ob start pos, s' = inData s fv ob start pos ∧ Emitted s.outputBufferSize e fv ob ∧
    Held B text e start pos

theorem restart_mismatch {pos : ℕ} {c : Byte} (h : B.boundary[pos]? ≠ some c) :
    restart B.delimiter (pos - 1) c = if c = lf then 1 else 0 := by
  have hhead : B.delimiter.head? = some c ↔ c = lf := by
    simpa [BoundaryToken.delimiter] using eq_comm
  unfold restart
  simp only [hhead]
  cases pos with
  | zero =>
    have hzero : B.delimiter[0]? = some c ↔ c = lf := by
      simpa [BoundaryToken.delimiter] using eq_comm
    by_cases hc : c = lf <;> simp [hzero, hc]
  | succ pos =>
    simp only [BoundaryToken.boundary, List.getElem?_cons_succ] at h
    simp [h]

theorem restart_match {pos : ℕ} {c : Byte} (h : B.boundary[pos]? = some c) :
    restart B.delimiter (pos - 1) c = pos := by
  cases pos with
  | zero =>
    have hc : cr = c := by simpa [BoundaryToken.boundary] using h
    simp [restart, BoundaryToken.delimiter, ← hc, show lf ≠ cr by decide]
  | succ pos =>
    simp only [BoundaryToken.boundary, List.getElem?_cons_succ] at h
    simp [restart, h]

theorem held_take {pos start : ℕ} {c : Byte} (h : B.boundary[pos]? = some c) (hstart : start ≤ pos) :
    (B.boundary.take (pos + 1)).drop start = (B.boundary.take pos).drop start ++ [c] := by
  obtain ⟨hlt, hc⟩ := List.getElem?_eq_some_iff.mp h
  rw [List.take_succ_eq_append_getElem hlt, hc, List.drop_append_of_le_length]
  simp only [List.length_take]
  omega

theorem Held.step_matched {text e : Bytes} {start pos : ℕ} (h : Held B text e start pos) (c : Byte) :
    Matched B.delimiter (text ++ [c]) (restart B.delimiter (pos - 1) c) :=
  h.matched.step (lf_not_mem_dashes B)

theorem Held.grow {text e : Bytes} {start pos : ℕ} {c : Byte} (h : Held B text e start pos)
    (hc : B.boundary[pos]? = some c) (hlt : pos + 1 < B.boundary.length) :
    Held B (text ++ [c]) e start (pos + 1) where
  split := by rw [held_take hc h.start_pos, ← List.append_assoc, ← h.split]
  start_le := h.start_le
  pos_lt := hlt
  start_pos := Nat.le_succ_of_le h.start_pos
  bare_lf hb := Nat.le_succ_of_le (h.bare_lf hb)
  matched := by
    have hm := h.step_matched c
    rwa [restart_match hc] at hm
  no_cr hn := h.no_cr (Or.inr (hn.resolve_left (by omega)))

theorem Held.nothing_held {text e : Bytes} {start pos : ℕ} (h : Held B text e start pos)
    (hz : pos = start) : pos = 0 ∧ e = text := by
  have hpos : pos = 0 := by
    by_contra hp
    have h1 := h.start_le
    have h2 := h.bare_lf (by omega)
    omega
  exact ⟨hpos, by simp [h.split, hpos]⟩

theorem Held.no_cr_before_lf {text e : Bytes} {start pos : ℕ} (h : Held B text e start pos)
    (hc : B.boundary[pos]? ≠ some lf) : text.getLast? ≠ some cr := by
  by_cases hz : pos = start
  · obtain ⟨hp, rfl⟩ := h.nothing_held hz
    exact h.no_cr (Or.inl hp)
  · have hpos := h.start_pos
    have hlt := h.pos_lt
    obtain ⟨pos, rfl⟩ : ∃ q, pos = q + 1 := ⟨pos - 1, by omega⟩
    have hq : pos ≠ 0 := by
      rintro rfl
      exact hc rfl
    have hget : B.boundary[pos]? = some B.boundary[pos] := List.getElem?_eq_getElem (by omega)
    rw [h.split, held_take hget (by omega), ← List.append_assoc, List.getLast?_concat]
    intro hcr
    obtain ⟨q, rfl⟩ : ∃ q, pos = q + 1 := ⟨pos - 1, by omega⟩
    rw [hcr, BoundaryToken.boundary, List.getElem?_cons_succ] at hget
    exact cr_not_mem_delimiter B (List.mem_of_getElem? hget)

theorem held_restarted {text e' : Bytes} {start pos : ℕ} {c : Byte}
    (hm : Matched B.delimiter (text ++ [c]) (if c = lf then 1 else 0))
    (hcr : c = lf → text.getLast? ≠ some cr)
    (h : (c = cr ∧ e' = text ∧ start = 0 ∧ pos = 1) ∨ (c = lf ∧ e' = text ∧ start = 1 ∧ pos = 2) ∨
      (c ≠ cr ∧ c ≠ lf ∧ e' = text ++ [c] ∧ start = 0 ∧ pos = 0)) :
    Held B (text ++ [c]) e' start pos := by
  have hlen := boundary_length B
  rcases h with ⟨rfl, rfl, rfl, rfl⟩ | ⟨rfl, rfl, rfl, rfl⟩ | ⟨hncr, hnlf, rfl, rfl, rfl⟩
  · exact ⟨rfl, by omega, by omega, by omega, by omega, hm, by simp⟩
  · exact ⟨rfl, by omega, by omega, by omega, by omega, hm, fun _ => hcr rfl⟩
  · refine ⟨by simp, by omega, by omega, by omega, by omega, ?_, ?_⟩
    · simpa [hnlf] using hm
    · simpa using hncr

theorem reading_step {s s' : FormdataParser} (hs : DataStart B s) {text : Bytes} {c : Byte}
    (h : Reading B s text s') (hno : ¬ B.delimiter <:+ text ++ [c]) :
    ∃ s'', (∀ rest, uploadProcessLoop s' (c :: rest) = uploadProcessLoop s'' rest) ∧
      Reading B s (text ++ [c]) s'' := by
  obtain ⟨e, fv, ob, start, pos, rfl, he, hheld⟩ := h
  have hm := hheld.step_matched c
  by_cases hc : B.boundary[pos]? = some c
  · rw [restart_match hc] at hm
    have hne : pos ≠ B.delimiter.length := fun hp => hno (hm.length_iff.mp hp)
    have hlt := hheld.pos_lt
    have hlt' : pos + 1 < B.boundary.length := by
      simp only [BoundaryToken.boundary, List.length_cons] at hlt ⊢
      omega
    refine ⟨inData s fv ob start (pos + 1), ?_, e, fv, ob, start, pos + 1, rfl, he, hheld.grow hc hlt'⟩
    intro rest
    apply loop_next
    rw [data_match hs hc, inData_inside hs fv ob hlt']
  · rw [restart_mismatch hc] at hm
    have hcr : c = lf → text.getLast? ≠ some cr := by
      rintro rfl
      exact hheld.no_cr_before_lf hc
    by_cases hz : pos = start
    · obtain ⟨rfl, rfl⟩ := hheld.nothing_held hz
      subst hz
      obtain ⟨fv', ob', e', start, pos, hturn, he', hcases⟩ := data_restart hs he c
      exact ⟨_, fun rest => loop_next rest hturn, e', fv', ob', start, pos, rfl, he',
        held_restarted hm hcr hcases⟩
    · obtain ⟨fv1, ob1, hagain, he1⟩ := data_give_up hs he hc hz
      rw [← hheld.split] at he1
      obtain ⟨fv', ob', e', start, pos, hturn, he', hcases⟩ := data_restart hs he1 c
      refine ⟨_, ?_, e', fv', ob', start, pos, rfl, he', held_restarted hm hcr hcases⟩
      intro rest
      rw [loop_again rest hagain, loop_next rest hturn]

theorem reading_run {s s' : FormdataParser} (hs : DataStart B s) {text : Bytes} (w : Bytes)
    (h : Reading B s text s') (hno : ∀ p, p <+: w → ¬ B.delimiter <:+ text ++ p) :
    ∃ s'', (∀ rest, uploadProcessLoop s' (w ++ rest) = uploadProcessLoop s'' rest) ∧
      Reading B s (text ++ w) s'' := by
  induction w generalizing text s' with
  | nil => exact ⟨s', fun rest => rfl, by simpa using h⟩
  | cons c w ih =>
    obtain ⟨s1, hloop1, h1⟩ := reading_step hs h (hno [c] (by simp))
    obtain ⟨s2, hloop2, h2⟩ := ih h1 (by
      intro p hp
      have := hno (c :: p) (by simpa using hp)
      simpa using this)
    refine ⟨s2, ?_, by simpa using h2⟩
    intro rest
    rw [List.cons_append, hloop1, hloop2]

def partFinished (s : FormdataParser) (value : Bytes) (start : ℕ) : FormdataParser :=
  { s with
    formdataParams := s.formdataParams.insertIfNew s.fieldName value
    fieldName := [], fieldValue := [], contentType := []
    outputBuffer := [], state := .afterBoundary, boundaryStart := start, boundaryPos := start
    discardData := false }

theorem endOfPart_done {s : FormdataParser} (hs : DataStart B s) {fv ob e : Bytes} {start pos : ℕ}
    (he : Emitted s.outputBufferSize e fv ob) (hend : pos = B.boundary.length) :
    uploadEndOfPart (inData s fv ob start pos) = partFinished s (e.take s.outputBufferSize) start := by
  have hpos : (inData s fv ob start pos).boundaryPos = (inData s fv ob start pos).boundary.length := by
    rw [inData_boundary hs]
    exact hend
  have hflush := flush_emitted (s := { s with state := .afterBoundary }) he start start
  have hkeep : (inData { s with state := .afterBoundary } (e.take s.outputBufferSize) [] start start).discardData
      = false := hs.keep
  unfold uploadEndOfPart
  rw [if_pos hpos]
  change (if !(uploadFlushOutputBuffer (inData { s with state := .afterBoundary } fv ob start start)).discardData
    then uploadFinishPart (uploadFlushOutputBuffer (inData { s with state := .afterBoundary } fv ob start start))
    else uploadAbortPart (uploadFlushOutputBuffer (inData { s with state := .afterBoundary } fv ob start start)))
      = _
  rw [hflush, if_pos (by rw [hkeep]; rfl)]
  rfl

theorem reading_done {s s' : FormdataParser} (hs : DataStart B s) {text : Bytes} {c : Byte}
    (h : Reading B s text s') (hdone : B.delimiter <:+ text ++ [c]) :
    ∃ value start, (∀ rest, uploadProcessLoop s' (c :: rest) =
        uploadProcessLoop (partFinished s (value.take s.outputBufferSize) start) rest) ∧
      text ++ [c] = value ++ B.boundary.drop start ∧ start ≤ 1 ∧
      (start = 1 → value.getLast? ≠ some cr) := by
  obtain ⟨e, fv, ob, start, pos, rfl, he, hheld⟩ := h
  have hm := hheld.step_matched c
  have hfull := hm.length_iff.mpr hdone
  by_cases hc : B.boundary[pos]? = some c
  · rw [restart_match hc] at hfull
    have hlen : pos + 1 = B.boundary.length := by simp [BoundaryToken.boundary, hfull]
    refine ⟨e, start, ?_, ?_, hheld.start_le, fun hst => hheld.no_cr (Or.inr hst)⟩
    · intro rest
      apply loop_next
      rw [data_match hs hc, endOfPart_done hs he hlen]
    · rw [hheld.split, List.append_assoc, ← held_take hc hheld.start_pos, hlen, List.take_length]
  · rw [restart_mismatch hc] at hfull
    have hlen := boundary_length B
    simp only [BoundaryToken.boundary, List.length_cons] at hlen
    split at hfull <;> omega

end FcgiAppserver.Formdata
