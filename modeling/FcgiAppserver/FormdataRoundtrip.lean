import FcgiAppserver.FieldNames
import FcgiAppserver.FirstWins
import FcgiAppserver.PartValues

namespace FcgiAppserver.Formdata

open ByteStrings QueryArgs RestartMatcher

variable (B : BoundaryToken)

def contentTypeOf : Bytes := multipartFormDataString ++ semicolon :: space :: (boundaryString ++ B.bytes)

theorem parseContentType_of : uploadParseContentType (contentTypeOf B) = .ok B.boundary := by
  have hz : ∀ b ∈ contentTypeOf B, b ≠ 0 := by
    intro b hb
    simp only [contentTypeOf, List.mem_append, List.mem_cons] at hb
    rcases hb with hb | rfl | rfl | hb | hb
    · exact (by decide +kernel : ∀ b ∈ multipartFormDataString, b ≠ 0) b hb
    · decide
    · decide
    · exact (by decide +kernel : ∀ b ∈ boundaryString, b ≠ 0) b hb
    · exact (B.plain b hb).1
  have hmime : strchr (contentTypeOf B) semicolon = some multipartFormDataString.length := by
    rw [strchr, cString_of_ne_zero hz]
    exact idxOf?_append _ (by decide)
  have hfind : find (contentTypeOf B) boundaryString multipartFormDataString.length =
      multipartFormDataString.length + 2 := by
    have hle : multipartFormDataString.length ≤ (contentTypeOf B).length := by simp [contentTypeOf]
    have hindex : indexOf? boundaryString (semicolon :: space :: (boundaryString ++ B.bytes)) = some 2 :=
      indexOf?_append (x := 98) (u := [semicolon, space]) B.bytes (by decide) (by decide)
    rw [find, if_pos hle, contentTypeOf, List.drop_left, hindex]
  have hdrop : (contentTypeOf B).drop (sizeAdd (multipartFormDataString.length + 2) boundaryString.length) =
      B.bytes := by
    have hpos : sizeAdd (multipartFormDataString.length + 2) boundaryString.length =
        (multipartFormDataString ++ semicolon :: space :: boundaryString).length := by decide
    rw [hpos, contentTypeOf, show multipartFormDataString ++ semicolon :: space :: (boundaryString ++ B.bytes) =
      (multipartFormDataString ++ semicolon :: space :: boundaryString) ++ B.bytes by simp, List.drop_left]
  have hspan : strcspn B.bytes [space, semicolon, lf, cr] = B.bytes.length := by
    apply strcspn_self
    · exact fun b hb => (B.plain b hb).1
    · intro b hb
      have hp := B.plain b hb
      simp [hp.2.1, hp.2.2.1, hp.2.2.2.1, hp.2.2.2.2]
  have hcase : strncasecmp (contentTypeOf B) multipartFormDataString multipartFormDataString.length = 0 :=
    strncasecmp_of_prefix multipartFormDataString _
  have hlen : B.bytes.length ≠ 0 := by simpa using B.ne_nil
  simp only [uploadParseContentType, hmime, hcase, hfind, hdrop, hspan]
  simp [hlen, BoundaryToken.boundary, BoundaryToken.delimiter]

def headerOf (name : Bytes) : Bytes :=
  contentDispositionString ++ space :: (formDataString ++ semicolon :: space :: (fieldnameString ++ (name ++ [quote])))

/-- A part of any length. -/
structure PlainPart where
  name : Bytes
  value : Bytes
  name_plain : ∀ b ∈ name, b ≠ quote ∧ b ≠ cr ∧ b ≠ lf ∧ b ≠ 0
  value_free : ¬ B.delimiter <:+: value

structure FormPart where
  name : Bytes
  value : Bytes
  name_plain : ∀ b ∈ name, b ≠ quote ∧ b ≠ cr ∧ b ≠ lf ∧ b ≠ 0
  header_length_le : (headerOf name).length ≤ 511
  value_length_le : value.length ≤ 128 * 1024
  value_free : ¬ B.delimiter <:+: value

variable {B}

def FormPart.plain (part : FormPart B) : PlainPart B := ⟨part.name, part.value, part.name_plain, part.value_free⟩

theorem mem_headerOf {name : Bytes} {b : Byte} : b ∈ headerOf name ↔ b ∈ headerOf [] ∨ b ∈ name := by
  simp only [headerOf, List.mem_append, List.mem_cons, List.not_mem_nil, or_false, false_or]
  -- the fixed texts as variables, for `tauto` compares all pairs of atoms
  generalize (b ∈ contentDispositionString) = inDisposition, (b ∈ formDataString) = inFormData,
    (b ∈ fieldnameString) = inFieldname
  tauto

theorem headerOf_forall {P : Byte → Prop} {name : Bytes} (hfixed : ∀ b ∈ headerOf [], P b)
    (hname : ∀ b ∈ name, P b) : ∀ b ∈ headerOf name, P b := by
  intro b hb
  rcases mem_headerOf.mp hb with hb | hb
  · exact hfixed b hb
  · exact hname b hb

theorem headerOf_ne_zero {name : Bytes} (h : ∀ b ∈ name, b ≠ 0) : ∀ b ∈ headerOf name, b ≠ 0 := by
  apply headerOf_forall ?_ h
  decide +kernel

theorem headerOf_one_line {name : Bytes} (h : ∀ b ∈ name, b ≠ cr ∧ b ≠ lf) :
    ∀ b ∈ headerOf name, b ≠ cr ∧ b ≠ lf := by
  apply headerOf_forall ?_ h
  decide +kernel

theorem parsePartHeader_of (s : FormdataParser) {name : Bytes} (hq : ∀ b ∈ name, b ≠ quote)
    (hz : ∀ b ∈ name, b ≠ 0) :
    uploadParsePartHeader s (headerOf name) = ({ s with fieldName := name }, none) := by
  have hquote : quote ∉ name := fun h => hq quote h rfl
  apply parse_disposition s (t := [])
  · intro b hb
    exact headerOf_ne_zero hz b (List.mem_append_right _ (List.mem_cons_of_mem _ hb))
  · exact List.prefix_append _ _
  · have hbefore : quote ∉ formDataString ++ semicolon :: space :: (nameKey ++ [equals]) := by decide +kernel
    have hname : nameKey ++ [equals] <:+ formDataString ++ semicolon :: space :: (nameKey ++ [equals]) := by decide +kernel
    have hafter := afterName_hit (name ++ [quote]) hbefore hname
    rw [fieldnameString_eq]
    simpa using hafter
  · exact hquote

theorem after_boundary_line_end {s : FormdataParser} (hs : s.state = .afterBoundary) (rest : Bytes) :
    uploadProcessLoop s (cr :: lf :: rest) =
      uploadProcessLoop { s with state := .headers, headerAccumulator := [] } rest := by
  have hcr : uploadTurn s cr = .next s := by
    simp [uploadTurn, hs, uploadAfterBoundary, cr, lf]
  have hlf : uploadTurn s lf = .next { s with state := .headers, headerAccumulator := [] } := by
    simp [uploadTurn, hs, uploadAfterBoundary]
  rw [loop_next _ hcr, loop_next _ hlf]

theorem after_boundary_end {s : FormdataParser} (hs : s.state = .afterBoundary) (rest : Bytes) :
    uploadProcessLoop s (dash :: rest) = ({ s with state := .finish }, none) := by
  have hdash : uploadTurn s dash = .next { s with state := .finish } := by
    simp [uploadTurn, hs, uploadAfterBoundary, dash, cr, lf]
  rw [loop_next _ hdash, loop_finish _ _ rfl]

structure BetweenParts (B : BoundaryToken) (s : FormdataParser) : Prop where
  boundary_eq : s.boundary = B.boundary
  state_eq : s.state = .afterBoundary
  start_eq : s.boundaryStart = 0
  pos_eq : s.boundaryPos = 0
  value_eq : s.fieldValue = []
  keep : s.discardData = false
  room : 0 < s.outputBufferSize

def partBody (B : BoundaryToken) (part : PlainPart B) : Bytes :=
  cr :: lf :: (headerOf part.name ++ cr :: lf :: cr :: lf :: (part.value ++ B.boundary))

def valueStart (s : FormdataParser) (name : Bytes) : FormdataParser :=
  { s with fieldName := name, state := .data, headerAccumulator := [], outputBuffer := [] }

theorem part_headers {s : FormdataParser} (hs : s.state = .afterBoundary) {name : Bytes}
    (hplain : ∀ b ∈ name, b ≠ quote ∧ b ≠ cr ∧ b ≠ lf ∧ b ≠ 0)
    (hfit : (headerOf name).length ≤ s.headerAccumulatorSize - 1) (rest : Bytes) :
    uploadProcessLoop s (cr :: lf :: (headerOf name ++ cr :: lf :: cr :: lf :: rest)) =
      uploadProcessLoop (valueStart s name) rest := by
  have hline : ∀ b ∈ headerOf name, b ≠ cr ∧ b ≠ lf :=
    headerOf_one_line (fun b hb => ⟨(hplain b hb).2.1, (hplain b hb).2.2.1⟩)
  have hone : lf ∉ headerOf name ++ [cr] := by
    rw [List.mem_append]
    exact fun h => h.elim (fun h => (hline lf h).2 rfl) (by decide)
  have hkept : kept (headerOf name ++ [cr]) = headerOf name := by
    rw [kept_append, kept_of_no_cr (fun b hb => (hline b hb).1)]
    exact List.append_nil _
  have hne : kept (headerOf name ++ [cr]) ≠ [] := by
    rw [hkept, headerOf]
    simp
  have hstart : LineStart { s with state := .headers, headerAccumulator := [] } := ⟨rfl, rfl⟩
  have hparse := parsePartHeader_of { s with state := .headers, headerAccumulator := kept (headerOf name ++ [cr]) }
    (fun b hb => (hplain b hb).1) (fun b hb => (hplain b hb).2.2.2)
  nth_rewrite 2 [← hkept] at hparse
  have hheader := hstart.line_parsed hone hne (by rwa [hkept]) hparse (cr :: lf :: rest)
  have hblank : LineStart { s with state := .headers, fieldName := name, headerAccumulator := [] } := ⟨rfl, rfl⟩
  have hdata := hblank.blank_line (by decide : lf ∉ [cr]) rfl rest
  rw [after_boundary_line_end hs]
  simp only [List.append_assoc, List.singleton_append] at hheader hdata
  rw [hheader, hdata]
  rfl

theorem part_run {s : FormdataParser} (hs : BetweenParts B s) (part : PlainPart B)
    (hfit : (headerOf part.name).length ≤ s.headerAccumulatorSize - 1) (rest : Bytes) :
    ∃ s', uploadProcessLoop s (partBody B part ++ rest) = uploadProcessLoop s' rest ∧ BetweenParts B s' ∧
      s'.formdataParams = s.formdataParams.insertIfNew part.name (part.value.take s.outputBufferSize) ∧
      s'.headerAccumulatorSize = s.headerAccumulatorSize ∧ s'.outputBufferSize = s.outputBufferSize := by
  have hdata : DataStart B (valueStart s part.name) := ⟨hs.boundary_eq, rfl, hs.keep, hs.room⟩
  refine ⟨partFinished (valueStart s part.name) (part.value.take s.outputBufferSize) 0, ?_, ?_, rfl, rfl, rfl⟩
  · have hbody : partBody B part ++ rest = cr :: lf :: (headerOf part.name ++
        cr :: lf :: cr :: lf :: (part.value ++ (B.boundary ++ rest))) := by simp [partBody]
    rw [hbody, part_headers hs.state_eq part.name_plain hfit]
    have hend : LineEnd.crlf = .lf → part.value.getLast? ≠ some cr := by
      intro h
      cases h
    have hvalue := part_value hdata hs.value_eq rfl false hs.start_eq hs.pos_eq .crlf part.value_free hend rest
    have hplain : part.value ++ strayCr false part.value .crlf = part.value := List.append_nil _
    rw [hplain] at hvalue
    exact hvalue
  · exact ⟨hs.boundary_eq, rfl, rfl, rfl, rfl, rfl, hs.room⟩

theorem parts_run {s : FormdataParser} (hs : BetweenParts B s) (parts : List (PlainPart B))
    (hfit : ∀ part ∈ parts, (headerOf part.name).length ≤ s.headerAccumulatorSize - 1) (rest : Bytes) :
    ∃ s', uploadProcessLoop s (parts.flatMap (partBody B) ++ rest) = uploadProcessLoop s' rest ∧
      BetweenParts B s' ∧ s'.formdataParams = FirstWins.insertAll s.formdataParams
        (parts.map (fun part => (part.name, part.value.take s.outputBufferSize))) := by
  induction parts generalizing s with
  | nil => exact ⟨s, rfl, hs, rfl⟩
  | cons part parts ih =>
    obtain ⟨s1, hloop1, hs1, hparams1, hheader1, hbuffer1⟩ :=
      part_run hs part (hfit part List.mem_cons_self) (parts.flatMap (partBody B) ++ rest)
    have hfit1 : ∀ p ∈ parts, (headerOf p.name).length ≤ s1.headerAccumulatorSize - 1 := by
      intro p hp
      rw [hheader1]
      exact hfit p (List.mem_cons_of_mem _ hp)
    obtain ⟨s2, hloop2, hs2, hparams2⟩ := ih hs1 hfit1
    refine ⟨s2, ?_, hs2, ?_⟩
    · rw [List.flatMap_cons, List.append_assoc, hloop1, hloop2]
    · rw [hparams2, hparams1, hbuffer1]
      rfl

/-- The part of the boundary that precedes the first part, as no line end has to. -/
def BoundaryToken.opening (B : BoundaryToken) : Bytes := dash :: dash :: B.bytes

structure Preamble (B : BoundaryToken) where
  bytes : Bytes
  line_end : bytes = [] ∨ bytes.getLast? = some lf
  free : ¬ B.opening <:+: bytes

def noPreamble (B : BoundaryToken) : Preamble B := ⟨[], Or.inl rfl, by simp [BoundaryToken.opening]⟩

def seeking (s : FormdataParser) (k : ℕ) : FormdataParser := { s with boundaryPos := 2 + k }

structure SeekStart (B : BoundaryToken) (s : FormdataParser) : Prop where
  boundary_eq : s.boundary = B.boundary
  state_eq : s.state = .boundarySeek
  start_eq : s.boundaryStart = 2

theorem seeking_boundary {s : FormdataParser} (hs : SeekStart B s) (k : ℕ) :
    (seeking s k).boundary = B.boundary := hs.boundary_eq

theorem atBoundary_seeking {s : FormdataParser} (hs : SeekStart B s) (k : ℕ) (c : Byte) :
    atBoundary (seeking s k) c = true ↔ B.opening[k]? = some c := by
  have hget : B.boundary[2 + k]? = B.opening[k]? := by
    rw [Nat.add_comm]
    rfl
  rw [atBoundary_iff (seeking_boundary hs k), ← hget]
  rfl

theorem seek_turn {s : FormdataParser} (hs : SeekStart B s) {k : ℕ} {c : Byte} :
    uploadTurn (seeking s k) c = .next (uploadBoundarySeek (seeking s k) c) := by
  have hstate : (seeking s k).state = .boundarySeek := hs.state_eq
  simp only [uploadTurn, hstate]

theorem opening_length (B : BoundaryToken) : B.boundary.length = 2 + B.opening.length := by
  simp only [BoundaryToken.boundary, BoundaryToken.delimiter, BoundaryToken.opening, List.length_cons]
  omega

theorem opening_pos (B : BoundaryToken) : 0 < B.opening.length := by
  simp [BoundaryToken.opening]

theorem seek_inside {s : FormdataParser} (hs : SeekStart B s) {k : ℕ} (hk : k < B.opening.length) :
    (seeking s k).boundaryPos ≠ (seeking s k).boundary.length := by
  rw [seeking_boundary hs, opening_length]
  change 2 + k ≠ _
  omega

theorem seek_match {s : FormdataParser} (hs : SeekStart B s) {k : ℕ} {c : Byte}
    (hc : B.opening[k]? = some c) (hk : k + 1 < B.opening.length) :
    uploadTurn (seeking s k) c = .next (seeking s (k + 1)) := by
  have hat := (atBoundary_seeking hs k c).mpr hc
  have hin := seek_inside hs hk
  rw [seek_turn hs, uploadBoundarySeek]
  simp only [hat, if_true]
  exact congrArg Turn.next (if_neg hin)

theorem seek_mismatch {s : FormdataParser} (hs : SeekStart B s) {k : ℕ} {c : Byte}
    (hc : B.opening[k]? ≠ some c) : uploadTurn (seeking s k) c = .next (seeking s 0) := by
  have hat : atBoundary (seeking s k) c = false := by
    rw [Bool.eq_false_iff, ne_eq, atBoundary_seeking hs]
    exact hc
  have hrestart : { seeking s k with boundaryPos := (seeking s k).boundaryStart } = seeking s 0 := by
    simp [seeking, hs.start_eq]
  have hin : (seeking s k).boundaryStart ≠ (seeking s k).boundary.length := by
    have hstart : (seeking s k).boundaryStart = 2 := hs.start_eq
    rw [hstart]
    exact seek_inside hs (opening_pos B)
  rw [seek_turn hs, uploadBoundarySeek]
  simp only [hat, Bool.false_eq_true, if_false]
  exact congrArg Turn.next ((if_neg hin).trans hrestart)

def sought (s : FormdataParser) : FormdataParser :=
  { s with state := .afterBoundary, boundaryStart := 0, boundaryPos := 0 }

theorem seek_found {s : FormdataParser} (hs : SeekStart B s) {k : ℕ} {c : Byte}
    (hc : B.opening[k]? = some c) (hk : k + 1 = B.opening.length) :
    uploadTurn (seeking s k) c = .next (sought s) := by
  have hat := (atBoundary_seeking hs k c).mpr hc
  have hend : 2 + k + 1 = (seeking s k).boundary.length := by
    rw [seeking_boundary hs, opening_length]
    omega
  rw [seek_turn hs, uploadBoundarySeek]
  simp only [hat, if_true]
  exact congrArg Turn.next (if_pos hend)

theorem seek_opening {s : FormdataParser} (hs : SeekStart B s) (rest : Bytes) {w : Bytes} {k : ℕ}
    (hw : B.opening.drop k = w) (hk : k < B.opening.length) :
    uploadProcessLoop (seeking s k) (w ++ rest) = uploadProcessLoop (sought s) rest := by
  induction w generalizing k with
  | nil =>
    rw [List.drop_eq_nil_iff] at hw
    omega
  | cons c w ih =>
    have hcons := hw
    rw [List.drop_eq_getElem_cons hk, List.cons.injEq] at hcons
    have hc : B.opening[k]? = some c := by rw [List.getElem?_eq_getElem hk, hcons.1]
    rw [List.cons_append]
    by_cases hlast : k + 1 < B.opening.length
    · rw [loop_next _ (seek_match hs hc hlast), ih hcons.2 hlast]
    · have hnil : w = [] := by
        rw [← hcons.2, List.drop_eq_nil_iff]
        omega
      rw [loop_next _ (seek_found hs hc (by omega)), hnil, List.nil_append]

theorem seek_run {s : FormdataParser} (hs : SeekStart B s) {u : Bytes} (hfree : ¬ B.opening <:+: u) :
    ∃ k < B.opening.length, B.opening.take k <:+ u ∧
      ∀ rest, uploadProcessLoop (seeking s 0) (u ++ rest) = uploadProcessLoop (seeking s k) rest := by
  induction u using List.reverseRecOn with
  | nil => exact ⟨0, opening_pos B, by simp, fun rest => rfl⟩
  | append_singleton u c ih =>
    have hpre : u <:+: u ++ [c] := (List.prefix_append u [c]).isInfix
    obtain ⟨k, hk, hsuf, hloop⟩ := ih (fun h => hfree (h.trans hpre))
    by_cases hc : B.opening[k]? = some c
    · have hgrow : B.opening.take (k + 1) <:+ u ++ [c] := (take_succ_suffix hk).mpr ⟨hc, hsuf⟩
      have hlt : k + 1 < B.opening.length := by
        by_contra hge
        rw [List.take_of_length_le (by omega)] at hgrow
        exact hfree hgrow.isInfix
      refine ⟨k + 1, hlt, hgrow, ?_⟩
      intro rest
      rw [List.append_assoc, hloop, List.singleton_append, loop_next _ (seek_match hs hc hlt)]
    · refine ⟨0, opening_pos B, by simp, ?_⟩
      intro rest
      rw [List.append_assoc, hloop, List.singleton_append, loop_next _ (seek_mismatch hs hc)]

theorem seek_preamble {s : FormdataParser} (hs : SeekStart B s) (preamble : Preamble B) (rest : Bytes) :
    uploadProcessLoop (seeking s 0) (preamble.bytes ++ (B.opening ++ rest)) =
      uploadProcessLoop (sought s) rest := by
  have hopening := seek_opening hs rest (w := B.opening) (k := 0) (List.drop_zero) (opening_pos B)
  rcases preamble.line_end with hnil | hlast
  · rw [hnil, List.nil_append, hopening]
  · obtain ⟨u, hu⟩ := List.getLast?_eq_some_iff.mp hlast
    have hfree := preamble.free
    rw [hu] at hfree ⊢
    obtain ⟨k, -, -, hloop⟩ := seek_run hs
      (fun h => hfree (h.trans (List.prefix_append u [lf]).isInfix))
    have hlf : B.opening[k]? ≠ some lf := fun h => lf_not_mem_dashes B (List.mem_of_getElem? h)
    rw [List.append_assoc, hloop, List.singleton_append, loop_next _ (seek_mismatch hs hlf), hopening]

def encodePart (B : BoundaryToken) (part : FormPart B) : Bytes :=
  B.opening ++ cr :: lf :: (headerOf part.name ++ cr :: lf :: cr :: lf :: (part.value ++ [cr, lf]))

def encodeBody (preamble : Preamble B) (parts : List (FormPart B)) (epilogue : Bytes) : Bytes :=
  preamble.bytes ++ (parts.flatMap (encodePart B) ++ (B.opening ++ dash :: dash :: epilogue))

def encodePlainPart (B : BoundaryToken) (part : PlainPart B) : Bytes :=
  B.opening ++ cr :: lf :: (headerOf part.name ++ cr :: lf :: cr :: lf :: (part.value ++ [cr, lf]))

def encodePlainBody (preamble : Preamble B) (parts : List (PlainPart B)) (epilogue : Bytes) : Bytes :=
  preamble.bytes ++ (parts.flatMap (encodePlainPart B) ++ (B.opening ++ dash :: dash :: epilogue))

theorem encodeBody_eq (preamble : Preamble B) (parts : List (FormPart B)) (epilogue : Bytes) :
    encodeBody preamble parts epilogue = encodePlainBody preamble (parts.map FormPart.plain) epilogue := by
  rw [encodePlainBody, List.flatMap_map]
  rfl

theorem encodeParts_regroup (parts : List (PlainPart B)) (rest : Bytes) :
    parts.flatMap (encodePlainPart B) ++ (B.opening ++ rest) =
      B.opening ++ (parts.flatMap (partBody B) ++ rest) := by
  induction parts with
  | nil => rfl
  | cons part parts ih =>
    rw [List.flatMap_cons, List.append_assoc, ih]
    simp [encodePlainPart, partBody, BoundaryToken.opening, BoundaryToken.boundary, BoundaryToken.delimiter]

/-- Decoding from any parser about to seek its first delimiter, values cut to what its buffer holds. -/
theorem decode_plainBody {s : FormdataParser} (hs : SeekStart B s) (hpos : s.boundaryPos = 2)
    (hvalue : s.fieldValue = []) (hkeep : s.discardData = false) (hroom : 0 < s.outputBufferSize)
    (preamble : Preamble B) (parts : List (PlainPart B)) (epilogue : Bytes)
    (hfit : ∀ part ∈ parts, (headerOf part.name).length ≤ s.headerAccumulatorSize - 1) :
    ∃ s', uploadProcessLoop s (encodePlainBody preamble parts epilogue) = (s', none) ∧ s'.state = .finish ∧
      s'.formdataParams = FirstWins.insertAll s.formdataParams
        (parts.map (fun part => (part.name, part.value.take s.outputBufferSize))) := by
  have hseeking : seeking s 0 = s := by
    rw [seeking, Nat.add_zero, ← hpos]
  have hbetween : BetweenParts B (sought s) := ⟨hs.boundary_eq, rfl, rfl, rfl, hvalue, hkeep, hroom⟩
  obtain ⟨s1, hloop, hs1, hparams⟩ := parts_run hbetween parts hfit (dash :: dash :: epilogue)
  refine ⟨{ s1 with state := .finish }, ?_, rfl, hparams⟩
  rw [encodePlainBody, encodeParts_regroup, ← hseeking, seek_preamble hs, hloop, after_boundary_end hs1.state_eq]

theorem decode_encodeBody {s : FormdataParser} (hs : SeekStart B s) (hpos : s.boundaryPos = 2)
    (hvalue : s.fieldValue = []) (hkeep : s.discardData = false) (hroom : 0 < s.outputBufferSize)
    (preamble : Preamble B) (parts : List (FormPart B)) (epilogue : Bytes)
    (hfit : ∀ part ∈ parts, (headerOf part.name).length ≤ s.headerAccumulatorSize - 1) :
    ∃ s', uploadProcessLoop s (encodeBody preamble parts epilogue) = (s', none) ∧ s'.state = .finish ∧
      s'.formdataParams = FirstWins.insertAll s.formdataParams
        (parts.map (fun part => (part.name, part.value.take s.outputBufferSize))) := by
  have hplain : ∀ part ∈ parts.map FormPart.plain, (headerOf part.name).length ≤ s.headerAccumulatorSize - 1 := by
    intro part hpart
    obtain ⟨part, hin, rfl⟩ := List.mem_map.mp hpart
    exact hfit part hin
  have hdecoded := decode_plainBody hs hpos hvalue hkeep hroom preamble (parts.map FormPart.plain) epilogue hplain
  rw [List.map_map] at hdecoded
  rw [encodeBody_eq]
  exact hdecoded

def newParser (B : BoundaryToken) (maxHeaderLen bufferSize : ℕ) (params : Params) : FormdataParser where
  formdataParams := params
  boundary := B.boundary
  fieldName := []
  fieldValue := []
  contentType := []
  state := .boundarySeek
  boundaryStart := 2
  boundaryPos := 2
  headerAccumulator := []
  headerAccumulatorSize := maxHeaderLen
  outputBuffer := []
  outputBufferSize := bufferSize
  discardData := false

theorem formdataParser_of (B : BoundaryToken) (maxHeaderLen bufferSize : ℕ) (params : Params) :
    formdataParser (contentTypeOf B) maxHeaderLen bufferSize params =
      .ok (newParser B maxHeaderLen bufferSize params) := by
  rw [formdataParser, parseContentType_of]
  rfl

theorem formdata_roundtrip (preamble : Preamble B) (parts : List (FormPart B)) (epilogue : Bytes)
    (chunks : List Bytes) (hne : ∀ buf ∈ chunks, buf ≠ [])
    (hsplit : chunks.flatten = encodeBody preamble parts epilogue) :
    ∃ p s, formdataParser (contentTypeOf B) 512 (128 * 1024) ∅ = .ok p ∧ feed p chunks = (s, []) ∧
      s.state = .finish ∧
      s.formdataParams = FirstWins.firstWins (parts.map (fun part => (part.name, part.value))) := by
  let p := newParser B 512 (128 * 1024) ∅
  have hseek : SeekStart B p := ⟨rfl, rfl, rfl⟩
  have hroom : 0 < p.outputBufferSize := (by decide : 0 < 128 * 1024)
  obtain ⟨s, hloop, hstate, hdecoded⟩ := decode_encodeBody hseek rfl rfl rfl hroom preamble parts epilogue
    (fun part _ => part.header_length_le)
  rw [← hsplit] at hloop
  have hfed : feed p chunks = (s, []) := by
    apply Prod.ext
    · rw [feed_eq_loop p chunks hne, hloop]
    · exact feed_no_throw p chunks hne (by rw [hloop])
  have hwhole : ∀ part ∈ parts, (part.name, part.value.take p.outputBufferSize) = (part.name, part.value) := by
    intro part _
    have hle : part.value.length ≤ p.outputBufferSize := part.value_length_le
    rw [List.take_of_length_le hle]
  refine ⟨p, s, formdataParser_of B 512 (128 * 1024) ∅, hfed, hstate, ?_⟩
  rw [hdecoded, List.map_congr_left hwhole]
  rfl

def oneByteBoundary : BoundaryToken := ⟨[88], by decide, by decide +kernel, by decide +kernel⟩

def crlfPart : FormPart oneByteBoundary :=
  ⟨ascii "a", [cr, lf, dash, dash, cr], by decide +kernel, by decide +kernel, by decide, by decide⟩

theorem formdata_roundtrip_crlf :
    ∃ p s, formdataParser (contentTypeOf oneByteBoundary) 512 (128 * 1024) ∅ = .ok p ∧
      feed p [(encodeBody (noPreamble oneByteBoundary) [crlfPart] []).take 50,
        (encodeBody (noPreamble oneByteBoundary) [crlfPart] []).drop 50] = (s, []) ∧ s.state = .finish ∧
      s.formdataParams = FirstWins.firstWins [(ascii "a", [cr, lf, dash, dash, cr])] :=
  formdata_roundtrip (noPreamble oneByteBoundary) [crlfPart] [] _ (by decide +kernel) (by simp)

end FcgiAppserver.Formdata
