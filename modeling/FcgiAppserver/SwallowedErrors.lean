import FcgiAppserver.CompleteBodies
import FcgiAppserver.FormDataStream

namespace FcgiAppserver.Formdata

open ByteStrings QueryArgs

variable {B : BoundaryToken}

theorem seek_high {s : FormdataParser} {i : ℕ} {b : Byte} (hb : s.boundary[i]? = some b) (hhigh : ¬ b < 0x80)
    (hstate : s.state = .boundarySeek) (hstart : s.boundaryStart ≤ i) (hpos : s.boundaryPos ≤ i) (w : Bytes) :
    ∃ s', uploadProcessLoop s w = (s', none) ∧ s'.state = .boundarySeek := by
  induction w generalizing s with
  | nil => exact ⟨s, loop_nil s, hstate⟩
  | cons c w ih =>
    have hlt := (List.getElem?_eq_some_iff.mp hb).1
    have hmoved : (if atBoundary s c then s.boundaryPos + 1 else s.boundaryStart) ≤ i := by
      split
      · rename_i hat
        by_contra hover
        have heq : s.boundaryPos = i := by omega
        rw [atBoundary, heq, hb] at hat
        simp only [Bool.and_eq_true, decide_eq_true_eq] at hat
        exact hhigh hat.2
      · exact hstart
    have hturn : uploadTurn s c =
        .next { s with boundaryPos := if atBoundary s c then s.boundaryPos + 1 else s.boundaryStart } := by
      simp only [uploadTurn, hstate, uploadBoundarySeek]
      rw [if_neg]
      exact Nat.ne_of_lt (Nat.lt_of_le_of_lt hmoved hlt)
    rw [loop_next w hturn]
    exact ih hb hstate hstart hmoved

section

variable {contentType : Bytes} {maxHeaderLen bufferSize : ℕ} {params : Params} {p : FormdataParser}

theorem formdataParser_boundary (h : formdataParser contentType maxHeaderLen bufferSize params = .ok p) :
    uploadParseContentType contentType = .ok p.boundary ∧ p.state = .boundarySeek ∧ p.boundaryStart = 2 ∧
      p.boundaryPos = 2 := by
  obtain ⟨boundary, hboundary, rfl⟩ := formdataParser_accepted h
  exact ⟨hboundary, rfl, rfl, rfl⟩

theorem token_of_finish (hp : formdataParser contentType maxHeaderLen bufferSize params = .ok p) {body : Bytes}
    {s : FormdataParser} (h : uploadProcessLoop p body = (s, none)) (hfinish : s.state = .finish) :
    ∃ B : BoundaryToken, p.boundary = B.boundary := by
  obtain ⟨hboundary, hstate, hstart, hpos⟩ := formdataParser_boundary hp
  obtain ⟨run, hrun, hne, hplain⟩ := parseContentType_plain hboundary
  by_cases hlow : ∀ b ∈ run, b < 0x80
  · exact ⟨⟨run, hne, hlow, hplain⟩, hrun⟩
  · obtain ⟨b, hb, hhigh⟩ : ∃ b ∈ run, ¬ b < 0x80 := by
      by_contra hnone
      refine hlow fun b hb => ?_
      by_contra hhigh
      exact hnone ⟨b, hb, hhigh⟩
    obtain ⟨i, hi⟩ := List.getElem?_of_mem hb
    have hget : p.boundary[i + 4]? = some b := by
      rw [hrun]
      exact hi
    obtain ⟨s', hloop, hseek⟩ := seek_high hget hhigh hstate (by omega) (by omega) body
    cases h.symm.trans hloop
    rw [hfinish] at hseek
    cases hseek

theorem closedBy_iff (hroom : 1 ≤ bufferSize)
    (hp : formdataParser contentType maxHeaderLen bufferSize params = .ok p) (body : Bytes) :
    ClosedBy p body ↔
      ∃ B : BoundaryToken, uploadParseContentType contentType = .ok B.boundary ∧ CompleteBody B maxHeaderLen body := by
  constructor
  · intro h
    obtain ⟨s, hloop, hfinish⟩ := closedBy_finish h
    obtain ⟨B, hB⟩ := token_of_finish hp hloop hfinish
    refine ⟨B, hB ▸ (formdataParser_boundary hp).1, ?_⟩
    rw [formdataParser_eq hp hB] at hloop
    exact complete_of_finish hroom params hloop hfinish
  · rintro ⟨B, hB, hcomplete⟩
    have hboundary := (formdataParser_boundary hp).1
    rw [hB] at hboundary
    rw [formdataParser_eq hp (Except.ok.inj hboundary).symm]
    exact closedBy_of_complete hroom params hcomplete

end

def delivered (r : FcgiRequest) : Bytes := if r.fcgiIn.good then r.fcgiIn.data else []

/-- A request that is turned away before its body is read. -/
def Refused (r : FcgiRequest) : Prop :=
  getFcgiParam r (ascii "CONTENT_TYPE") = [] ∨ strtol (getFcgiParam r (ascii "CONTENT_LENGTH")) = 0 ∨
    ∃ e, uploadParseContentType (getFcgiParam r (ascii "CONTENT_TYPE")) = .error e

/-- A call that returns has brought the parser to its end by a closing boundary, and no chunk threw. -/
def Reported (r : FcgiRequest) : Prop :=
  (parseFormData r).thrown = none →
    ∃ p, formdataParser (getFcgiParam r (ascii "CONTENT_TYPE")) 512 (128 * 1024) r.formdataParams = .ok p ∧
      (feed p (chunksOf (parseFormData r).reads)).1.state = .finish ∧
      (feed p (chunksOf (parseFormData r).reads)).2 = [] ∧
      ClosedBy p (chunksOf (parseFormData r).reads).flatten

theorem formdataParser_error {contentType : Bytes} {e : FcgiException}
    (h : uploadParseContentType contentType = .error e) (maxHeaderLen bufferSize : ℕ) (params : Params) :
    formdataParser contentType maxHeaderLen bufferSize params = .error e := by
  rw [formdataParser, h]
  rfl

theorem refused_threw {r : FcgiRequest} (h : Refused r) : ∃ e, parseFormData r = .threw r e := by
  unfold parseFormData
  dsimp only
  rcases h with htype | hlength | ⟨e, he⟩
  · rw [htype]
    exact ⟨_, rfl⟩
  · split_ifs with hempty hpresent hz
    · exact ⟨_, rfl⟩
    · exact ⟨_, rfl⟩
    · rw [hlength] at hz
      exact absurd rfl hz
    · exact ⟨_, rfl⟩
  · rw [formdataParser_error he]
    split_ifs
    · exact ⟨_, rfl⟩
    · exact ⟨_, rfl⟩
    · exact ⟨_, rfl⟩
    · exact ⟨_, rfl⟩

theorem FormDataCall.Returned.delivered_eq {r : FcgiRequest} {p : FormdataParser} {call : FormDataCall}
    (h : call.Returned r p) : (chunksOf call.reads).flatten = delivered r := by
  rw [chunksOf_flatten, delivered]
  cases hg : r.fcgiIn.good with
  | true => exact h.bytes_eq hg
  | false =>
    rw [h.idle hg]
    rfl

theorem read_call {r : FcgiRequest} (h : ¬ Refused r) :
    ∃ p, formdataParser (getFcgiParam r (ascii "CONTENT_TYPE")) 512 (128 * 1024) r.formdataParams = .ok p ∧
      (parseFormData r).thrown = none ∧ (chunksOf (parseFormData r).reads).flatten = delivered r := by
  simp only [Refused, not_or] at h
  cases hboundary : uploadParseContentType (getFcgiParam r (ascii "CONTENT_TYPE")) with
  | error e => exact absurd ⟨e, hboundary⟩ h.2.2
  | ok boundary =>
    obtain ⟨p, hp⟩ : ∃ p, formdataParser (getFcgiParam r (ascii "CONTENT_TYPE")) 512 (128 * 1024) r.formdataParams =
        .ok p := by
      rw [formdataParser, hboundary]
      exact ⟨_, rfl⟩
    obtain ⟨clen, hc, hcall⟩ := parseFormData_accepted r p h.1 h.2.1 hp
    refine ⟨p, hp, ?_, ?_⟩
    · rw [hcall]
      rfl
    · rw [hcall]
      exact (readFormData_returned r p clen hc).delivered_eq

theorem reported_iff (r : FcgiRequest) :
    Reported r ↔ Refused r ∨ ∃ B : BoundaryToken,
      uploadParseContentType (getFcgiParam r (ascii "CONTENT_TYPE")) = .ok B.boundary ∧ CompleteBody B 512 (delivered r) := by
  by_cases hrefused : Refused r
  · obtain ⟨e, he⟩ := refused_threw hrefused
    refine iff_of_true ?_ (Or.inl hrefused)
    rw [Reported, he]
    intro hthrown
    cases hthrown
  · obtain ⟨p, hp, hthrown, hbody⟩ := read_call hrefused
    have hroom : 1 ≤ 128 * 1024 := by decide
    have hiff := closedBy_iff hroom hp (delivered r)
    constructor
    · intro h
      obtain ⟨p', hp', -, -, hclosed⟩ := h hthrown
      cases hp.symm.trans hp'
      rw [hbody] at hclosed
      exact Or.inr (hiff.mp hclosed)
    · intro h _
      have hclosed := hiff.mpr (h.resolve_left hrefused)
      obtain ⟨s, hloop, hfinish⟩ := closedBy_finish hclosed
      rw [← hbody] at hloop hclosed
      refine ⟨p, hp, ?_, ?_, hclosed⟩
      · rw [feed_eq_loop p _ (chunksOf_ne_nil _), hloop]
        exact hfinish
      · apply feed_no_throw p _ (chunksOf_ne_nil _)
        rw [hloop]

def letterX : BoundaryToken := ⟨[120], by decide, by decide +kernel, by decide +kernel⟩

/-- A body that ends with its first boundary. -/
theorem truncated_body_returns :
    (parseFormData (sampleRequest "3")).thrown = none ∧ delivered (sampleRequest "3") = ascii "--x" ∧
      ¬ Reported (sampleRequest "3") := by
  have hp : formdataParser (getFcgiParam (sampleRequest "3") (ascii "CONTENT_TYPE")) 512 (128 * 1024) ∅ =
      .ok (newParser letterX 512 (128 * 1024) ∅) := rfl
  have hrefused : ¬ Refused (sampleRequest "3") := by
    rintro (htype | hlength | ⟨e, he⟩)
    · exact absurd htype (by decide +kernel)
    · exact absurd hlength (by decide +kernel)
    · rw [formdataParser_error he] at hp
      cases hp
  obtain ⟨p, hp', hthrown, hbody⟩ := read_call hrefused
  have hdelivered : delivered (sampleRequest "3") = letterX.opening ++ [] := by decide +kernel
  have hseek : SeekStart letterX (newParser letterX 512 (128 * 1024) ∅) := ⟨rfl, rfl, rfl⟩
  refine ⟨hthrown, rfl, ?_⟩
  intro h
  obtain ⟨q, hq, -, -, hclosed⟩ := h hthrown
  cases hp.symm.trans hq
  obtain ⟨s, hloop, hfinish⟩ := closedBy_finish hclosed
  have hsought := seek_opening hseek [] List.drop_zero (opening_pos letterX)
  rw [hbody, hdelivered] at hloop
  cases hloop.symm.trans (hsought.trans (loop_nil _))
  cases hfinish

end FcgiAppserver.Formdata
