import FcgiAppserver.JsonRoundtrip
import FcgiAppserver.TerminatedLines
import FcgiAppserver.TraceTriples
import FcgiAppserver.WorkerTurn

namespace FcgiAppserver.Handlers

open ByteStrings Dispatch Formdata Json JsonReader ScopedEffects ScopedEffects.Act TerminatedLines Xml

def Write.text : Write → Bytes
  | .status code => ascii "Status: " ++ writeNat code ++ [13, 10]
  | .header name value => name ++ ascii ": " ++ value ++ [13, 10]
  | .endHeaders => [13, 10]
  | .body text => text

def bytesOf (out : List Write) : Bytes := out.flatMap Write.text

def cutField (field : Bytes) : Bytes × Bytes := (field.takeWhile (· != 58), (field.dropWhile (· != 58)).drop 2)

def readResponse (s : Bytes) : Option (ℕ × List (Bytes × Bytes) × Bytes) := do
  let block ← readBlock 13 10 s.length s
  match block.1.map cutField with
  | (name, value) :: fields => if name = ascii "Status" then some (natOf value, fields, block.2) else none
  | [] => none

/-- A status and headers, and the empty line. -/
def headOf (head : ℕ × List (Bytes × Bytes)) : List Write := response head.1 head.2 []

def PlainField (field : Bytes × Bytes) : Prop := 58 ∉ field.1 ∧ 13 ∉ field.1 ∧ 13 ∉ field.2

theorem bytesOf_append (out out' : List Write) : bytesOf (out ++ out') = bytesOf out ++ bytesOf out' :=
  List.flatMap_append

def fieldLine (field : Bytes × Bytes) : Bytes := field.1 ++ ascii ": " ++ field.2

theorem bytesOf_headOf (status : ℕ) (headers : List (Bytes × Bytes)) : bytesOf (headOf (status, headers)) =
    (((ascii "Status", writeNat status) :: headers).map fieldLine).flatMap (line 13 10) ++ line 13 10 [] := by
  have hheaders : (headers.map fun h => Write.header h.1 h.2).flatMap Write.text =
      (headers.map fieldLine).flatMap (line 13 10) := by
    rw [List.flatMap_map, List.flatMap_map]
    rfl
  rw [headOf, response, bytesOf, List.cons_append, List.flatMap_cons, List.flatMap_append, hheaders, List.map_cons,
    List.flatMap_cons]
  simp [Write.text, line, fieldLine, ascii]

theorem cutField_fieldLine {field : Bytes × Bytes} (h : 58 ∉ field.1) : cutField (fieldLine field) = field := by
  have hline : fieldLine field = field.1 ++ 58 :: 32 :: field.2 := by simp [fieldLine, ascii]
  rw [cutField, hline, takeWhile_ne_append _ h, dropWhile_ne_append _ h]
  rfl

theorem not_mem_fieldLine {field : Bytes × Bytes} (h : PlainField field) : 13 ∉ fieldLine field ∧ fieldLine field ≠ [] := by
  have hline : fieldLine field = field.1 ++ 58 :: 32 :: field.2 := by simp [fieldLine, ascii]
  rw [hline]
  constructor
  · simp [h.2.1, h.2.2]
  · simp

/-- Whatever follows the empty line is not read as a header. -/
theorem readResponse_headOf {head : ℕ × List (Bytes × Bytes)} (hplain : ∀ field ∈ head.2, PlainField field)
    (body : Bytes) : readResponse (bytesOf (headOf head) ++ body) = some (head.1, head.2, body) := by
  obtain ⟨status, headers⟩ := head
  have hstatus : PlainField (ascii "Status", writeNat status) := by
    have hname : 58 ∉ ascii "Status" ∧ 13 ∉ ascii "Status" := by decide
    refine ⟨hname.1, hname.2, ?_⟩
    intro hcr
    exact absurd (writeNat_digits status 13 hcr) (by decide)
  have hall : ∀ field ∈ (ascii "Status", writeNat status) :: headers, PlainField field :=
    List.forall_mem_cons.mpr ⟨hstatus, hplain⟩
  have hlines : ∀ s ∈ ((ascii "Status", writeNat status) :: headers).map fieldLine, 13 ∉ s ∧ s ≠ [] := by
    intro s hs
    obtain ⟨field, hfield, rfl⟩ := List.mem_map.mp hs
    exact not_mem_fieldLine (hall field hfield)
  have hcut : (((ascii "Status", writeNat status) :: headers).map fieldLine).map cutField =
      (ascii "Status", writeNat status) :: headers := by
    rw [List.map_map]
    conv_rhs => rw [← List.map_id ((ascii "Status", writeNat status) :: headers)]
    apply List.map_congr_left
    intro field hfield
    exact cutField_fieldLine (hall field hfield).1
  rw [bytesOf_headOf, readResponse, readBlock_lines hlines]
  · simp only [Option.bind_eq_bind, Option.bind_some, hcut, natOf_writeNat, if_true]
  · have hlen := length_lines (c := 13) (l := 10) (((ascii "Status", writeNat status) :: headers).map fieldLine)
    rw [List.length_append, List.length_append, line, List.nil_append]
    simp only [List.length_cons, List.length_nil]
    omega

def fieldsHtml : List (Bytes × Bytes) := [(contentTypeName, ascii "text/html")]

def noCache : Bytes × Bytes := (ascii "Cache-Control", ascii "no-cache")

/-- All the heads that a turn can send, whatever it is asked and whatever is stored. -/
def heads : List (ℕ × List (Bytes × Bytes)) :=
  [(200, fieldsHtml), (404, fieldsHtml), (200, [(contentTypeName, ascii "text/xml")]),
    (200, [(contentTypeName, ascii "application/xml")]), (404, [(contentTypeName, plainText)]),
    (500, [(contentTypeName, plainText), noCache])]

/-- Nothing, or a head before anything else. -/
def HeadFirst (out : List Write) : Prop := out = [] ∨ ∃ head ∈ heads, headOf head <+: out

/-- The only `fcgi_exception` of a turn is that of `invoke_handler`. -/
structure Headed {α : Type} (x : Act α) : Prop where
  first : HeadFirst x.out
  thrown : ∀ e, x.ending = .thrown (.fcgi e) → e.status = 404

section

variable {α β ρ : Type} {x : Act α}

theorem headFirst_append {out out' : List Write} (h : HeadFirst out) (h' : HeadFirst out') : HeadFirst (out ++ out') := by
  rcases h with rfl | ⟨head, hhead, hstarts⟩
  · rw [List.nil_append]
    exact h'
  · exact Or.inr ⟨head, hhead, hstarts.trans (List.prefix_append out out')⟩

theorem headed_pure (a : α) : Headed (pure a : Act α) := ⟨Or.inl rfl, nofun⟩

theorem headed_die (d : Death) : Headed (die d : Act α) := ⟨Or.inl rfl, nofun⟩

theorem headed_raise {e : Exception} (he : ∀ e', e = .fcgi e' → e'.status = 404) : Headed (raise e : Act α) := by
  refine ⟨Or.inl rfl, ?_⟩
  intro e' hthrown
  exact he e' (Ending.thrown.inj hthrown)

def NoFcgi (r : Reading α) : Prop := ∀ e, r ≠ .error (.inl (.fcgi e))

theorem noFcgi_bind {r : Reading α} {f : α → Reading β} (hr : NoFcgi r) (hf : ∀ a, NoFcgi (f a)) :
    NoFcgi (r >>= f) := by
  cases r with
  | ok a => exact hf a
  | error e =>
    rintro e' ⟨⟩
    exact hr e' rfl

theorem noFcgi_ok (a : α) : NoFcgi (.ok a) := nofun

theorem noFcgi_asString (row : Row) (colno : ℕ) : NoFcgi (asString row colno) := by
  rw [asString]
  cases row[colno]? with
  | none => exact noFcgi_ok []
  | some column =>
    cases column with
    | ok s => exact noFcgi_ok s
    | error e =>
      intro e' h
      cases h

theorem noFcgi_asInt (row : Row) (colno : ℕ) : NoFcgi (asInt row colno) := by
  apply noFcgi_bind (noFcgi_asString row colno)
  intro s
  cases readInt s with
  | some i => exact noFcgi_ok i
  | none => exact nofun

theorem headed_ofExcept {r : Reading α} (hr : NoFcgi r) : Headed (ofExcept r) := by
  rcases r with (e | d) | a
  · apply headed_raise
    rintro e' rfl
    exact absurd rfl (hr e')
  · exact headed_die d
  · exact headed_pure a

theorem headed_failing (e : Option DbException) : Headed (failing (e.map .db)) := by
  cases e with
  | none => exact headed_pure ()
  | some e => exact headed_raise nofun

theorem headed_bind {f : α → Act β} (hx : Headed x) (hf : ∀ a, Headed (f a)) : Headed (x >>= f) := by
  cases hend : x.ending with
  | done a =>
    rw [bind_done hend]
    exact ⟨headFirst_append hx.first (hf a).first, (hf a).thrown⟩
  | thrown e =>
    rw [bind_thrown hend]
    refine ⟨hx.first, ?_⟩
    rintro e' ⟨⟩
    exact hx.thrown e' hend
  | dead d =>
    rw [bind_dead hend]
    exact ⟨hx.first, nofun⟩

theorem headed_catching {handler : Exception → Option (Act α)} (hx : Headed x)
    (hhandler : ∀ e y, x.ending = .thrown e → handler e = some y → Headed y) : Headed (x.catching handler) := by
  rcases catching_cases x handler with ⟨e, y, hend, hsome, hcaught⟩ | ⟨-, hcaught⟩
  · have hy := hhandler e y hend hsome
    rw [hcaught]
    exact ⟨headFirst_append hx.first hy.first, hy.thrown⟩
  · rw [hcaught]
    exact hx

theorem headed_inScope (e : Option DbException) (hx : Headed x) : Headed (inScope (e.map .db) .terminated x) := by
  constructor
  · rw [inScope_out]
    exact hx.first
  · intro e' hthrown
    cases e with
    | none =>
      rw [Option.map_none, inScope_none] at hthrown
      exact hx.thrown e' hthrown
    | some e =>
      unfold inScope at hthrown
      cases hend : x.ending <;> simp [hend] at hthrown

theorem headed_foldlM {step : β → ρ → Act β} {l : List ρ} (h : ∀ r ∈ l, ∀ b, Headed (step b r)) (b : β) :
    Headed (l.foldlM step b) := by
  induction l generalizing b with
  | nil => exact headed_pure b
  | cons r l ih =>
    rw [List.forall_mem_cons] at h
    rw [List.foldlM_cons]
    exact headed_bind (h.1 b) (ih h.2)

theorem headed_killed {kills : Bool} {d : Death} (hx : Headed x) : Headed (killed kills d x) := by
  cases kills with
  | false =>
    rw [killed_false]
    exact hx
  | true =>
    obtain ⟨d', hdead⟩ := killed_true_dead (x := x) (d := d)
    refine ⟨?_, ?_⟩
    · rw [killed_out]
      exact hx.first
    · rw [hdead]
      exact nofun

theorem headed_dbStmt {pool : Pool} {q : Query} {block : Stmt → StmtAct α} (h : ∀ stmt, Headed (block stmt).act) :
    Headed (dbStmt pool q block) := by
  apply headed_bind (headed_failing _)
  intro _
  exact headed_inScope _ (headed_killed (h _))

theorem headed_bindStmt {y : StmtAct α} {f : α → StmtAct β} (hy : Headed y.act) (hf : ∀ a, Headed (f a).act) :
    Headed (y >>= f).act := by
  rw [Counted.act_bind]
  exact headed_bind hy hf

theorem headed_execute (stmt : Stmt) : Headed stmt.execute := by
  rw [Stmt.execute]
  split_ifs
  · exact headed_die _
  · exact headed_failing _

theorem headed_fetch (stmt : Stmt) : Headed stmt.fetch.act := by
  rw [act_fetch]
  cases stmt.rows with
  | nil =>
    apply headed_bind (headed_failing _)
    intro _
    exact headed_pure none
  | cons row rows => exact headed_pure (some row)

theorem headed_whileFetch {stmt : Stmt} {step : β → Row → Act β} (h : ∀ b row, Headed (step b row)) (b : β) :
    Headed (stmt.whileFetch step b).act := by
  rw [act_whileFetch]
  apply headed_bind (headed_foldlM (fun row _ b => h b row) _)
  intro b'
  apply headed_bind (headed_failing _)
  intro _
  exact headed_pure b'

theorem headed_response {head : ℕ × List (Bytes × Bytes)} (hhead : head ∈ heads) {out : List Write} (hout : headOf head <+: out)
    {ending : Ending Exception Death α} (hending : ∀ e, ending ≠ .thrown (.fcgi e)) : Headed (⟨out, ending⟩ : Act α) :=
  ⟨Or.inr ⟨head, hhead, hout⟩, fun e he => absurd he (hending e)⟩

theorem headed_returnError (msg : Bytes) {status : ℕ} (hstatus : status = 200 ∨ status = 404) :
    Headed (returnError msg status) := by
  have hhead : (status, fieldsHtml) ∈ heads := by
    rcases hstatus with rfl | rfl <;> simp [heads]
  exact headed_response hhead ⟨_, rfl⟩ nofun

theorem headed_sendDoc (xml : Libxml) {contentType : Bytes} (doc : XMLDoc)
    (htype : contentType = ascii "text/xml" ∨ contentType = ascii "application/xml") :
    Headed (sendDoc xml contentType doc) := by
  have hhead : (200, [(contentTypeName, contentType)]) ∈ heads := by
    rcases htype with rfl | rfl <;> simp [heads]
  cases hfails : xml.fails with
  | true =>
    rw [sendDoc_fails hfails]
    exact headed_response hhead ⟨[], rfl⟩ nofun
  | false =>
    rw [sendDoc_eq hfails]
    exact headed_response hhead ⟨_, rfl⟩ nofun

theorem headed_onDbException {x : Act Unit} (hx : Headed x) : Headed (x.catching onDbException) := by
  apply headed_catching hx
  intro e y _ hsome
  cases e with
  | db e =>
    cases hsome
    exact headed_returnError _ (Or.inl rfl)
  | fcgi e => cases hsome
  | std what => cases hsome

end

section

variable {pool : Pool} (xml : Libxml) (request : Request)

theorem contentType_eq : Wp.contentType request = ascii "text/xml" ∨ Wp.contentType request = ascii "application/xml" := by
  rw [Wp.contentType]
  split_ifs
  · exact Or.inl rfl
  · exact Or.inr rfl

theorem noFcgi_postElement (row : Row) : NoFcgi (Wp.postElement row) := by
  apply noFcgi_bind (noFcgi_asInt row 0)
  intro id
  apply noFcgi_bind (noFcgi_asString row 1)
  intro title
  apply noFcgi_bind (noFcgi_asString row 2)
  intro excerpt
  apply noFcgi_bind (noFcgi_asString row 3)
  intro content
  exact noFcgi_ok _

theorem headed_blogroll : Headed (Wp.blogroll pool xml request) := by
  apply headed_bind (headed_failing _)
  intro _
  apply headed_dbStmt
  intro stmt
  apply headed_bindStmt
  · apply headed_bindStmt (headed_execute stmt)
    intro _
    apply headed_whileFetch
    intro posts row
    apply headed_bind (headed_ofExcept (noFcgi_postElement row))
    intro post
    exact headed_pure _
  · intro posts
    exact headed_sendDoc xml _ (contentType_eq request)

theorem headed_lookup (name : Bytes) : Headed (Wp.lookup pool name) := by
  apply headed_bind (headed_failing _)
  intro _
  apply headed_dbStmt
  intro stmt
  apply headed_bindStmt (headed_execute stmt)
  intro _
  apply headed_bindStmt (headed_fetch stmt)
  intro row
  exact headed_pure ()

theorem noFcgi_postDoc (row : Row) : NoFcgi (Wp.postDoc request row) := by
  apply noFcgi_bind (noFcgi_asInt row 0)
  intro id
  apply noFcgi_bind (noFcgi_asString row 1)
  intro content
  exact noFcgi_ok _

theorem headed_post (name : Bytes) : Headed (Wp.post pool xml request name) := by
  apply headed_bind (headed_failing _)
  intro _
  apply headed_dbStmt
  intro stmt
  apply headed_bindStmt (headed_execute stmt)
  intro _
  apply headed_bindStmt (headed_fetch stmt)
  intro row
  cases row with
  | none => exact headed_pure false
  | some row =>
    apply headed_bind (headed_ofExcept (noFcgi_postDoc request row))
    intro doc
    apply headed_bind (headed_sendDoc xml doc (contentType_eq request))
    intro _
    exact headed_pure true

theorem headed_wpHandle : Headed (Wp.handle pool xml request) := by
  unfold Wp.handle
  dsimp only
  split_ifs
  · exact headed_onDbException (headed_blogroll xml request)
  · exact headed_onDbException (headed_lookup _)
  · exact headed_onDbException (headed_lookup _)
  · apply headed_bind
    · apply headed_catching (headed_post xml request _)
      intro e y _ hsome
      obtain ⟨z, hz, rfl⟩ := Option.map_eq_some_iff.mp hsome
      cases e with
      | db e =>
        cases hz
        apply headed_bind (headed_returnError _ (Or.inl rfl))
        intro _
        exact headed_pure true
      | fcgi e => cases hz
      | std what => cases hz
    · intro found
      cases found with
      | true => exact headed_pure ()
      | false => exact headed_returnError _ (Or.inr rfl)

theorem headed_pages (pagination : Sitemap.Pagination) (n : UInt64) (numPosts : UInt32) :
    Headed (pagination.pages n numPosts) := by
  refine ⟨Or.inl (Sitemap.silent_pages _ _ _), ?_⟩
  intro e hthrown
  exact absurd ⟨_, hthrown⟩ (Sitemap.pages_not_throws pagination n numPosts)

theorem noFcgi_lastModified (row : Row) : NoFcgi (Sitemap.lastModified row) := by
  apply noFcgi_bind (noFcgi_asString row 1)
  intro modified
  split_ifs
  · exact noFcgi_asString row 1
  · exact noFcgi_asString row 2

theorem noFcgi_substr (s : Bytes) (pos n : ℕ) : NoFcgi ((substr s pos n).mapError Sitemap.outOfRange) := by
  rw [substr]
  split_ifs
  · exact noFcgi_ok _
  · exact nofun

theorem noFcgi_postEntry (hostname : Bytes) (row : Row) : NoFcgi (Sitemap.postEntry hostname row) := by
  apply noFcgi_bind (noFcgi_asString row 2)
  intro dt
  apply noFcgi_bind (noFcgi_lastModified row)
  intro modified
  split_ifs
  · apply noFcgi_bind (noFcgi_asString row 0)
    intro name
    exact noFcgi_ok _
  · apply noFcgi_bind (noFcgi_substr dt 0 4)
    intro year
    apply noFcgi_bind (noFcgi_substr dt 5 2)
    intro month
    apply noFcgi_bind (noFcgi_asString row 0)
    intro name
    exact noFcgi_ok _

theorem noFcgi_categoryEntry (taxonomy : Bytes) (row : Row) : NoFcgi (Sitemap.categoryEntry taxonomy row) := by
  apply noFcgi_bind (noFcgi_asString row 1)
  intro modified
  apply noFcgi_bind (noFcgi_asInt row 2)
  intro numPosts
  apply noFcgi_bind (noFcgi_asString row 0)
  intro name
  exact noFcgi_ok _

theorem noFcgi_entry {hostname : Bytes} {part : Sitemap.Part} (hpart : part ∈ Sitemap.parts hostname) (row : Row) :
    NoFcgi (part.entry row) := by
  simp only [Sitemap.parts, List.mem_append, List.mem_cons, List.mem_map, List.mem_ite_nil_right, List.not_mem_nil,
    or_false] at hpart
  rcases hpart with (((rfl | ⟨postType, -, rfl⟩) | ⟨taxonomy, -, rfl⟩) | ⟨-, rfl⟩) | rfl
  · apply noFcgi_bind (noFcgi_lastModified row)
    intro modified
    apply noFcgi_bind (noFcgi_asString row 0)
    intro name
    exact noFcgi_ok _
  · exact noFcgi_postEntry hostname row
  · exact noFcgi_categoryEntry taxonomy row
  · apply noFcgi_bind (noFcgi_asString row 1)
    intro modified
    apply noFcgi_bind (noFcgi_asString row 0)
    intro name
    exact noFcgi_ok _
  · apply noFcgi_bind (noFcgi_asString row 0)
    intro modified
    apply noFcgi_bind (noFcgi_asInt row 1)
    intro numPosts
    exact noFcgi_ok _

theorem headed_addPart {hostname baseUrl : Bytes} {n : UInt64} {part : Sitemap.Part}
    (hpart : part ∈ Sitemap.parts hostname) (doc : XMLDoc) : Headed (Sitemap.addPart pool baseUrl n doc part) := by
  apply headed_dbStmt
  intro stmt
  apply headed_bindStmt (headed_execute stmt)
  intro _
  apply headed_whileFetch
  intro doc row
  apply headed_bind (headed_ofExcept (noFcgi_entry hpart row))
  intro entry
  apply headed_bind
  · rw [Sitemap.markTime]
    split_ifs
    · exact headed_pure _
    · exact headed_die _
  · intro modified
    apply headed_bind (headed_pages _ _ _)
    intro numbers
    exact headed_pure _

theorem headed_firstRow {α : Type} {q : Query} {f : Option Row → Act α} (hf : ∀ row, Headed (f row)) :
    Headed (dbStmt pool q fun stmt => do stmt.execute; let row ← stmt.fetch; f row) := by
  apply headed_dbStmt
  intro stmt
  apply headed_bindStmt (headed_execute stmt)
  intro _
  exact headed_bindStmt (headed_fetch stmt) hf

theorem headed_urlset (hostname : Bytes) : Headed (Sitemap.urlset pool hostname) := by
  apply headed_bind (headed_failing _)
  intro _
  apply headed_bind
  · apply headed_firstRow
    intro row
    cases row with
    | none => exact headed_pure _
    | some row => exact headed_ofExcept (noFcgi_asString row 0)
  · intro baseUrl
    apply headed_bind
    · apply headed_firstRow
      intro row
      cases row with
      | none => exact headed_pure _
      | some row =>
      apply headed_ofExcept
      have hread := noFcgi_asInt row 0
      cases hint : asInt row 0 with
      | ok i => exact noFcgi_ok (Sitemap.toSize i)
      | error e =>
        rintro e' ⟨⟩
        exact hread e' hint
    · intro n
      apply headed_foldlM
      intro part hpart doc
      exact headed_addPart hpart doc

theorem headed_sitemapHandle (sites : Sitemap.PoolContainer) : Headed (Sitemap.handle sites xml request) := by
  unfold Sitemap.handle
  dsimp only
  cases sites[request.getFcgiParam serverName]? with
  | none => exact headed_returnError _ (Or.inl rfl)
  | some pool =>
    apply headed_onDbException
    apply headed_bind (headed_urlset _)
    intro doc
    exact headed_sendDoc xml doc (Or.inr rfl)

theorem headed_tryInvoke (server : FcgiServer Handler) : Headed (tryInvoke server xml request) := by
  unfold tryInvoke
  cases fcgxGetParam scriptName request.envp with
  | none => exact headed_raise nofun
  | some _ =>
    dsimp only
    rw [Handlers.invokeHandler_eq]
    cases handlerFor server request.getScriptName with
    | none =>
      apply headed_raise
      rintro e ⟨⟩
      rfl
    | some handler =>
      cases handler with
      | wp pool => exact headed_wpHandle xml request
      | sitemap sites => exact headed_sitemapHandle xml request sites

theorem headed_workerTurn (server : FcgiServer Handler) : Headed (workerTurn server xml request) := by
  have htry := headed_tryInvoke xml request server
  have h500 : (500, [(contentTypeName, plainText), noCache]) ∈ heads := by simp [heads]
  apply headed_catching htry
  intro e y hend hsome
  cases e with
  | fcgi e =>
    cases hsome
    have hstatus := htry.thrown e hend
    have hhead : (404, [(contentTypeName, plainText)]) ∈ heads := by simp [heads]
    refine headed_response hhead ?_ nofun
    rw [← hstatus]
    exact ⟨_, rfl⟩
  | db e =>
    cases hsome
    exact headed_response h500 ⟨_, rfl⟩ nofun
  | std what =>
    cases hsome
    exact headed_response h500 ⟨_, rfl⟩ nofun

end

/-- Neither the request nor what is stored gets into the head of a response. -/
theorem turn_head (server : FcgiServer Handler) (xml : Libxml) (request : Request) :
    bytesOf (workerTurn server xml request).out = [] ∨
      ∃ head ∈ heads, ∃ body, bytesOf (workerTurn server xml request).out = bytesOf (headOf head) ++ body ∧
        readResponse (bytesOf (workerTurn server xml request).out) = some (head.1, head.2, body) := by
  rcases (headed_workerTurn xml request server).first with hnil | ⟨head, hhead, rest, hout⟩
  · rw [hnil]
    exact Or.inl rfl
  · have hplain : ∀ head ∈ heads, ∀ field ∈ head.2, PlainField field := by
      unfold PlainField
      decide
    refine Or.inr ⟨head, hhead, bytesOf rest, ?_⟩
    rw [← hout, bytesOf_append, readResponse_headOf (hplain head hhead)]
    exact ⟨rfl, rfl⟩

end FcgiAppserver.Handlers
