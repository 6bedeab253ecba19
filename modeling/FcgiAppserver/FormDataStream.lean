import FcgiAppserver.FormdataChunks
import FcgiAppserver.IStream

namespace FcgiAppserver.Formdata

open ByteStrings QueryArgs

/-- `envp` is asked through `FCGX_GetParam`, which answers with a C string or a null pointer. -/
structure FcgiRequest where
  envp : Bytes → Option Bytes
  fcgiIn : IStream
  params : Params
  formdataParams : Params

def getFcgiParam (r : FcgiRequest) (name : Bytes) : Bytes :=
  match r.envp name with
  | some cParam => cString cParam
  | none => []

inductive StdException
  | fcgiException (e : FcgiException)
  | logicError (what : Bytes)
  | runtimeError (what : Bytes)
deriving DecidableEq

def stdinMax : ℕ := 32768

structure ReadCall where
  count : ℕ
  bytes : Bytes

/-- The loop of `parse_form_data`. While the stream is good there is room to read into, so each turn
uses the stream up. -/
structure ReadLoop where
  parser : FormdataParser
  fcgiIn : IStream
  clen : ℕ
  reads : List ReadCall
  room : fcgiIn.good = true → 0 < clen

def ReadLoop.turn (l : ReadLoop) : ReadLoop where
  parser :=
    if 0 < (l.fcgiIn.read l.clen).2.gcount then (uploadProcessBuf l.parser (l.fcgiIn.read l.clen).1).1
    else l.parser
  fcgiIn := (l.fcgiIn.read l.clen).2
  clen := (l.fcgiIn.read l.clen).2.gcount
  reads := l.reads ++ [⟨l.clen, (l.fcgiIn.read l.clen).1⟩]
  room h := by
    obtain ⟨hg, -, hc, -⟩ := IStream.read_good h
    rw [hc]
    exact l.room hg

def ReadLoop.run (l : ReadLoop) : ReadLoop :=
  if l.fcgiIn.good then l.turn.run else l
termination_by if l.fcgiIn.good then l.fcgiIn.data.length + 1 else 0
decreasing_by
  rename_i hg
  simp only [hg, if_true]
  split
  · rename_i hn
    obtain ⟨-, hle, -, hd⟩ := IStream.read_good hn
    have hroom := l.room hg
    change (l.fcgiIn.read l.clen).2.data.length + 1 < _
    rw [hd, List.length_drop]
    omega
  · omega

def ignoreRest (s : IStream) : IStream :=
  if (s.ignore 1024).gcount = 1024 then ignoreRest (s.ignore 1024) else s.ignore 1024
termination_by s.data.length
decreasing_by
  rename_i h
  obtain ⟨hd, hle⟩ := IStream.ignore_gcount (by norm_num) h
  rw [hd, List.length_drop]
  omega

/-- A call of `parse_form_data`: the request it leaves, what it throws, and for the calls that get that
far the allocated buffer, the reads and the parser at the end. -/
structure FormDataCall where
  request : FcgiRequest
  thrown : Option StdException
  bufSize : ℕ
  reads : List ReadCall
  parser : Option FormdataParser

def cappedLen (clen : ℕ) : ℕ := if clen > stdinMax then stdinMax else clen

theorem cappedLen_pos {clen : ℕ} (h : clen ≠ 0) : 0 < cappedLen clen := by
  unfold cappedLen stdinMax
  split <;> omega

def FormDataCall.threw (r : FcgiRequest) (e : StdException) : FormDataCall := ⟨r, some e, 0, [], none⟩

def readFormData (r : FcgiRequest) (p : FormdataParser) (clen : ℕ) (h : 0 < clen) : FormDataCall :=
  let l := ReadLoop.run ⟨p, r.fcgiIn, clen, [], fun _ => h⟩
  ⟨{ r with formdataParams := l.parser.formdataParams, fcgiIn := ignoreRest l.fcgiIn }, none, clen,
    l.reads, some l.parser⟩

def parseFormData (r : FcgiRequest) : FormDataCall :=
  let contentType := getFcgiParam r (ascii "CONTENT_TYPE")
  let contentLength := getFcgiParam r (ascii "CONTENT_LENGTH")
  if contentType.isEmpty then
    .threw r (.logicError (ascii "HTTP server is not configured to pass CONTENT_TYPE variable"))
  else if !contentLength.isEmpty then
    let clen := (strtol contentLength % 2 ^ 64).toNat
    if h : clen = 0 then .threw r (.runtimeError (ascii "can't parse \"CONTENT_LENGTH\n"))
    else
      match formdataParser contentType 512 (128 * 1024) r.formdataParams with
      | .error e => .threw r (.fcgiException e)
      | .ok p => readFormData r p (cappedLen clen) (cappedLen_pos h)
  else
    .threw r (.logicError (ascii "HTTP server is not configured to pass CONTENT_LENGTH variable"))

def chunksOf (reads : List ReadCall) : List Bytes := (reads.map (·.bytes)).filter (· ≠ [])

theorem turn_feeds (l : ReadLoop) (h : l.fcgiIn.good = true) :
    l.turn.parser = (feed l.parser (chunksOf [⟨l.clen, (l.fcgiIn.read l.clen).1⟩])).1 := by
  have hlen := (IStream.read_bytes l.clen h).2.1
  by_cases hb : (l.fcgiIn.read l.clen).1 = []
  · simp [ReadLoop.turn, chunksOf, feed, hlen, hb]
  · have hpos : 0 < (l.fcgiIn.read l.clen).1.length := List.length_pos_iff.mpr hb
    simp [ReadLoop.turn, chunksOf, feed, hlen, hb, hpos]

theorem feed_append (s : FormdataParser) (a b : List Bytes) :
    (feed s (a ++ b)).1 = (feed (feed s a).1 b).1 := by
  induction a generalizing s with
  | nil => rfl
  | cons buf a ih => simp only [List.cons_append, feed]; exact ih _

theorem chunksOf_append (a b : List ReadCall) : chunksOf (a ++ b) = chunksOf a ++ chunksOf b := by
  simp [chunksOf]

theorem chunksOf_ne_nil (reads : List ReadCall) : ∀ buf ∈ chunksOf reads, buf ≠ [] := by
  intro buf hb
  simpa using List.of_mem_filter hb

theorem chunksOf_flatten (reads : List ReadCall) :
    (chunksOf reads).flatten = (reads.map (·.bytes)).flatten := by
  induction reads with
  | nil => rfl
  | cons call reads ih =>
    by_cases hb : call.bytes = [] <;> simp_all [chunksOf]

structure ReadLoop.Drains (l : ReadLoop) (reads : List ReadCall) : Prop where
  reads_eq : l.run.reads = l.reads ++ reads
  idle : l.fcgiIn.good = false → reads = []
  bytes_eq : l.fcgiIn.good = true → (reads.map (·.bytes)).flatten = l.fcgiIn.data
  bounded : ∀ call ∈ reads, call.bytes.length ≤ call.count ∧ call.count ≤ l.clen
  parser_eq : l.run.parser = (feed l.parser (chunksOf reads)).1

theorem ReadLoop.run_drains (l : ReadLoop) : ∃ reads, l.Drains reads := by
  fun_induction ReadLoop.run l with
  | case1 l hg ih =>
    obtain ⟨reads, ih⟩ := ih
    have hrun : l.run = l.turn.run := by rw [ReadLoop.run, if_pos hg]
    obtain ⟨hbytes, hcount, hle⟩ := IStream.read_bytes l.clen hg
    refine ⟨⟨l.clen, (l.fcgiIn.read l.clen).1⟩ :: reads, ?_, by simp [hg], ?_, ?_, ?_⟩
    · rw [hrun, ih.reads_eq]
      simp [ReadLoop.turn]
    · intro _
      have hrest : (reads.map (·.bytes)).flatten = (l.fcgiIn.read l.clen).2.data := by
        cases hn : (l.fcgiIn.read l.clen).2.good with
        | true => exact ih.bytes_eq hn
        | false => rw [ih.idle hn, IStream.read_short hg hn]; rfl
      rw [List.map_cons, List.flatten_cons, hrest]
      exact hbytes
    · intro call hc
      rcases List.mem_cons.mp hc with rfl | hc
      · exact ⟨hle, le_refl _⟩
      · have hb := ih.bounded call hc
        change _ ∧ call.count ≤ (l.fcgiIn.read l.clen).2.gcount at hb
        exact ⟨hb.1, by omega⟩
    · rw [hrun, ih.parser_eq, turn_feeds l hg, ← feed_append, ← chunksOf_append]
      rfl
  | case2 l hg =>
    have hrun : l.run = l := by rw [ReadLoop.run, if_neg hg]
    exact ⟨[], by simp [hrun], by simp, by simp [hg], by simp, by rw [hrun]; rfl⟩

theorem feed_split (p : FormdataParser) {chunks chunks' : List Bytes} (h : ∀ buf ∈ chunks, buf ≠ [])
    (h' : ∀ buf ∈ chunks', buf ≠ []) (hbody : chunks.flatten = chunks'.flatten) :
    (feed p chunks).1 = (feed p chunks').1 := by
  rw [feed_eq_loop p chunks h, feed_eq_loop p chunks' h', hbody]

structure FormDataCall.Returned (r : FcgiRequest) (p : FormdataParser) (call : FormDataCall) : Prop where
  idle : r.fcgiIn.good = false → call.reads = []
  bytes_eq : r.fcgiIn.good = true → (call.reads.map (·.bytes)).flatten = r.fcgiIn.data
  bounded : ∀ c ∈ call.reads, c.bytes.length ≤ c.count ∧ c.count ≤ call.bufSize
  parser_eq : call.parser = some (feed p (chunksOf call.reads)).1
  recorded : call.request.formdataParams = (feed p (chunksOf call.reads)).1.formdataParams

theorem readFormData_returned (r : FcgiRequest) (p : FormdataParser) (clen : ℕ) (h : 0 < clen) :
    (readFormData r p clen h).Returned r p := by
  obtain ⟨reads, hd⟩ := ReadLoop.run_drains ⟨p, r.fcgiIn, clen, [], fun _ => h⟩
  have hreads : (readFormData r p clen h).reads = reads := hd.reads_eq
  have hparser := hd.parser_eq
  refine ⟨?_, ?_, ?_, ?_, ?_⟩
  · rw [hreads]; exact hd.idle
  · rw [hreads]; exact hd.bytes_eq
  · rw [hreads]; exact hd.bounded
  · rw [hreads]; exact congrArg some hparser
  · rw [hreads]; exact congrArg FormdataParser.formdataParams hparser

theorem parseFormData_cases (r : FcgiRequest) :
    (∃ e, parseFormData r = .threw r e) ∨
      ∃ p clen h, formdataParser (getFcgiParam r (ascii "CONTENT_TYPE")) 512 (128 * 1024)
        r.formdataParams = .ok p ∧ parseFormData r = readFormData r p clen h := by
  unfold parseFormData
  dsimp only
  split
  · exact Or.inl ⟨_, rfl⟩
  · split
    · split
      · exact Or.inl ⟨_, rfl⟩
      · split
        · exact Or.inl ⟨_, rfl⟩
        · rename_i hz _ p hp
          exact Or.inr ⟨p, _, cappedLen_pos hz, hp, rfl⟩
    · exact Or.inl ⟨_, rfl⟩

theorem parseFormData_no_type (r : FcgiRequest) (h : getFcgiParam r (ascii "CONTENT_TYPE") = []) :
    (parseFormData r).request = r := by
  simp [parseFormData, h, FormDataCall.threw]

theorem parseFormData_rejected (r : FcgiRequest) (e : FcgiException)
    (h : formdataParser (getFcgiParam r (ascii "CONTENT_TYPE")) 512 (128 * 1024) r.formdataParams = .error e) :
    (parseFormData r).request = r := by
  rcases parseFormData_cases r with ⟨e', he⟩ | ⟨p, clen, hc, hp, -⟩
  · rw [he]; rfl
  · rw [h] at hp; simp at hp

theorem parseFormData_accepted (r : FcgiRequest) (p : FormdataParser)
    (hct : getFcgiParam r (ascii "CONTENT_TYPE") ≠ [])
    (hcl : strtol (getFcgiParam r (ascii "CONTENT_LENGTH")) ≠ 0)
    (hp : formdataParser (getFcgiParam r (ascii "CONTENT_TYPE")) 512 (128 * 1024) r.formdataParams = .ok p) :
    ∃ clen h, parseFormData r = readFormData r p clen h := by
  have hne : getFcgiParam r (ascii "CONTENT_LENGTH") ≠ [] := by
    intro hn
    rw [hn] at hcl
    exact hcl (by decide)
  have hb := strtol_bounds (getFcgiParam r (ascii "CONTENT_LENGTH"))
  have hz : ¬ (strtol (getFcgiParam r (ascii "CONTENT_LENGTH")) % 2 ^ 64).toNat = 0 := by omega
  refine ⟨_, cappedLen_pos hz, ?_⟩
  unfold parseFormData
  dsimp only
  rw [if_neg (by simpa using hct), if_pos (by simpa using hne), dif_neg hz, hp]

theorem FormDataCall.Returned.same_params {r r' : FcgiRequest} {p : FormdataParser}
    {call call' : FormDataCall} (h : call.Returned r p) (h' : call'.Returned r' p)
    (hin : r.fcgiIn = r'.fcgiIn) : call.request.formdataParams = call'.request.formdataParams := by
  rw [h.recorded, h'.recorded]
  congr 1
  apply feed_split p (chunksOf_ne_nil _) (chunksOf_ne_nil _)
  rw [chunksOf_flatten, chunksOf_flatten]
  cases hg : r.fcgiIn.good with
  | true => rw [h.bytes_eq hg, h'.bytes_eq (hin ▸ hg), hin]
  | false => rw [h.idle hg, h'.idle (hin ▸ hg)]

theorem parseFormData_length_irrelevant {r r' : FcgiRequest} (hin : r.fcgiIn = r'.fcgiIn)
    (hparams : r.formdataParams = r'.formdataParams)
    (hct : getFcgiParam r (ascii "CONTENT_TYPE") = getFcgiParam r' (ascii "CONTENT_TYPE"))
    (hcl : strtol (getFcgiParam r (ascii "CONTENT_LENGTH")) ≠ 0)
    (hcl' : strtol (getFcgiParam r' (ascii "CONTENT_LENGTH")) ≠ 0) :
    (parseFormData r).request.formdataParams = (parseFormData r').request.formdataParams := by
  by_cases hne : getFcgiParam r (ascii "CONTENT_TYPE") = []
  · rw [parseFormData_no_type r hne, parseFormData_no_type r' (hct ▸ hne), hparams]
  · cases hp : formdataParser (getFcgiParam r (ascii "CONTENT_TYPE")) 512 (128 * 1024) r.formdataParams with
    | error e =>
      rw [parseFormData_rejected r e hp, parseFormData_rejected r' e (hct ▸ hparams ▸ hp), hparams]
    | ok p =>
      obtain ⟨clen, hc, hr⟩ := parseFormData_accepted r p hne hcl hp
      obtain ⟨clen', hc', hr'⟩ := parseFormData_accepted r' p (hct ▸ hne) hcl' (hct ▸ hparams ▸ hp)
      rw [hr, hr']
      exact (readFormData_returned r p clen hc).same_params (readFormData_returned r' p clen' hc') hin

theorem formData_split_independent :
    (∀ contentType maxHeaderLen bufferSize params p,
      formdataParser contentType maxHeaderLen bufferSize params = .ok p →
      ∀ chunks chunks' : List Bytes, (∀ buf ∈ chunks, buf ≠ []) → (∀ buf ∈ chunks', buf ≠ []) →
        chunks.flatten = chunks'.flatten →
        (feed p chunks).1 = (feed p chunks').1) ∧
    (∀ r : FcgiRequest, r.fcgiIn.good = true → (parseFormData r).thrown = none →
      ∃ p, formdataParser (getFcgiParam r (ascii "CONTENT_TYPE")) 512 (128 * 1024) r.formdataParams = .ok p ∧
        (parseFormData r).parser = some (feed p (chunksOf (parseFormData r).reads)).1 ∧
        (chunksOf (parseFormData r).reads).flatten = r.fcgiIn.data ∧
        ∀ c ∈ (parseFormData r).reads, c.bytes.length ≤ c.count ∧ c.count ≤ (parseFormData r).bufSize) ∧
    (∀ r r' : FcgiRequest, r.fcgiIn = r'.fcgiIn → r.formdataParams = r'.formdataParams →
      getFcgiParam r (ascii "CONTENT_TYPE") = getFcgiParam r' (ascii "CONTENT_TYPE") →
      strtol (getFcgiParam r (ascii "CONTENT_LENGTH")) ≠ 0 →
      strtol (getFcgiParam r' (ascii "CONTENT_LENGTH")) ≠ 0 →
      (parseFormData r).request.formdataParams = (parseFormData r').request.formdataParams) := by
  refine ⟨?_, ?_, ?_⟩
  · intro _ _ _ _ p _ chunks chunks' h h' hbody
    exact feed_split p h h' hbody
  · intro r hg ht
    rcases parseFormData_cases r with ⟨e, he⟩ | ⟨p, clen, hc, hp, hr⟩
    · rw [he] at ht
      simp [FormDataCall.threw] at ht
    · have hret := readFormData_returned r p clen hc
      rw [hr]
      exact ⟨p, hp, hret.parser_eq, (chunksOf_flatten _).trans (hret.bytes_eq hg), hret.bounded⟩
  · intro r r' hin hparams hct hcl hcl'
    exact parseFormData_length_irrelevant hin hparams hct hcl hcl'

def sampleRequest (contentLength : String) : FcgiRequest where
  envp name :=
    if name = ascii "CONTENT_TYPE" then some (ascii "multipart/form-data; boundary=x")
    else if name = ascii "CONTENT_LENGTH" then some (ascii contentLength)
    else none
  fcgiIn := ⟨ascii "--x", false, false, 0⟩
  params := ∅
  formdataParams := ∅

def sampleFormdataParser : FormdataParser :=
  ⟨∅, [cr, lf, dash, dash, 120], [], [], [], .boundarySeek, 2, 2, [], 512, [], 4, false⟩

theorem formData_split_sample :
    (feed sampleFormdataParser [ascii "--", ascii "x-"]).1 =
        (feed sampleFormdataParser [ascii "-", ascii "-x-"]).1 ∧
      (∃ p, formdataParser (getFcgiParam (sampleRequest "2") (ascii "CONTENT_TYPE")) 512 (128 * 1024) ∅ = .ok p ∧
        (parseFormData (sampleRequest "2")).parser = some (feed p (chunksOf (parseFormData (sampleRequest "2")).reads)).1 ∧
        (chunksOf (parseFormData (sampleRequest "2")).reads).flatten = ascii "--x" ∧
        ∀ c ∈ (parseFormData (sampleRequest "2")).reads,
          c.bytes.length ≤ c.count ∧ c.count ≤ (parseFormData (sampleRequest "2")).bufSize) ∧
      (parseFormData (sampleRequest "2")).request.formdataParams =
        (parseFormData (sampleRequest "-1")).request.formdataParams :=
  ⟨formData_split_independent.1 (ascii "multipart/form-data; boundary=x") 512 4 ∅ sampleFormdataParser
      rfl [ascii "--", ascii "x-"] [ascii "-", ascii "-x-"] (by decide) (by decide) (by decide),
    formData_split_independent.2.1 (sampleRequest "2") rfl (by decide +kernel),
    formData_split_independent.2.2 (sampleRequest "2") (sampleRequest "-1") rfl rfl rfl (by decide) (by decide)⟩

end FcgiAppserver.Formdata
