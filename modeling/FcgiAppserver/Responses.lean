import FcgiAppserver.FormdataParser
import FcgiAppserver.ScopedEffects
import FcgiAppserver.XmlDoc

namespace FcgiAppserver.Handlers

open ByteStrings Formdata QueryArgs ScopedEffects Xml

/-- One insertion into `fcgi_out`, or several that make up a line. -/
inductive Write
  | status (status : ℕ)
  | header (name value : Bytes)
  | endHeaders
  | body (text : Bytes)
deriving DecidableEq

structure DbException where
  what : Bytes
deriving DecidableEq

/-- `db_exception` is no `std::exception`. -/
inductive Exception
  | db (e : DbException)
  | fcgi (e : FcgiException)
  | std (what : Bytes)
deriving DecidableEq

inductive Death
  | terminated
  | undefined
  | endless
deriving DecidableEq

abbrev Act := ScopedEffects.Act Write Exception Death

open ScopedEffects.Act

structure Request where
  envp : Bytes → Option Bytes
  params : Params

def fcgxGetParam (name : Bytes) (envp : Bytes → Option Bytes) : Option Bytes := envp name

def Request.getFcgiParam (request : Request) (name : Bytes) : Bytes := (fcgxGetParam name request.envp).getD []

def scriptName : Bytes := ascii "SCRIPT_NAME"

def serverName : Bytes := ascii "SERVER_NAME"

def Request.getScriptName (request : Request) : Bytes := request.getFcgiParam scriptName

def Request.getParam (request : Request) (name : Bytes) : Bytes := request.params[name]?.getD []

def contentTypeName : Bytes := ascii "Content-Type"

/-- `return_error` of both handlers; their default status is 200. -/
def returnError (msg : Bytes) (status : ℕ) : Act Unit := do
  write (.status status)
  write (.header contentTypeName (ascii "text/html"))
  write .endHeaders
  write (.body (ascii "<html>"))
  write (.body (ascii "<head>"))
  write (.body (ascii "<title>Error</title>"))
  write (.body (ascii "</head>"))
  write (.body (ascii "<body>"))
  write (.body (ascii "<h2>An error has occured</h2>"))
  write (.body (ascii "<p>" ++ msg ++ ascii "</p>"))
  write (.body (ascii "</body>"))
  write (.body (ascii "</html>"))

/-- `operator<<` for documents. -/
def writeDoc (xml : Libxml) (doc : XMLDoc) : Act Unit :=
  match xml.xmlDocDumpMemory doc with
  | some mem => write (.body mem)
  | none => raise (.std (ascii "cannot serialize document"))

def sendDoc (xml : Libxml) (contentType : Bytes) (doc : XMLDoc) : Act Unit := do
  write (.status 200)
  write (.header contentTypeName contentType)
  write .endHeaders
  writeDoc xml doc

/-- The `catch` blocks of the handlers. -/
def onDbException : Exception → Option (Act Unit)
  | .db e => some (returnError e.what 200)
  | _ => none

def plainText : Bytes := ascii "text/plain; encoding=utf-8"

/-- The three `catch` blocks of `worker_thread`. -/
def onException : Exception → Option (Act Unit)
  | .fcgi e => some do
    write (.status e.status)
    write (.header contentTypeName plainText)
    write .endHeaders
    write (.body (ascii "Error: " ++ e.what))
  | .std what => some do
    write (.status 500)
    write (.header contentTypeName plainText)
    write (.header (ascii "Cache-Control") (ascii "no-cache"))
    write .endHeaders
    write (.body (ascii "Error: " ++ what))
  | .db _ => some do
    write (.status 500)
    write (.header contentTypeName plainText)
    write (.header (ascii "Cache-Control") (ascii "no-cache"))
    write .endHeaders
    write (.body (ascii "Unknown internal error"))

def response (status : ℕ) (headers : List (Bytes × Bytes)) (body : List Bytes) : List Write :=
  .status status :: headers.map (fun h => .header h.1 h.2) ++ .endHeaders :: body.map .body

def OneResponse (out : List Write) : Prop := ∃ status headers body, body ≠ [] ∧ out = response status headers body

def Answers (turn : Act Unit) : Prop := turn.Completes ∧ OneResponse turn.out

def Write.isStatus : Write → Bool
  | .status _ => true
  | _ => false

def Begun (out : List Write) : Prop := ∃ status, .status status ∈ out

theorem statuses_response (status : ℕ) (headers : List (Bytes × Bytes)) (body : List Bytes) :
    (response status headers body).countP Write.isStatus = 1 := by
  have hheaders : (headers.map (fun h => Write.header h.1 h.2)).countP Write.isStatus = 0 := by
    rw [List.countP_map, List.countP_eq_zero]
    simp [Write.isStatus]
  have hbody : (body.map Write.body).countP Write.isStatus = 0 := by
    rw [List.countP_map, List.countP_eq_zero]
    simp [Write.isStatus]
  rw [response, List.countP_append, List.countP_cons, List.countP_cons, hheaders, hbody]
  rfl

theorem not_oneResponse_second {out : List Write} (hout : Begun out) (status : ℕ) (headers : List (Bytes × Bytes))
    (body : List Bytes) : ¬ OneResponse (out ++ response status headers body) := by
  rintro ⟨status', headers', body', -, heq⟩
  have hcount := congrArg (List.countP Write.isStatus) heq
  rw [List.countP_append, statuses_response, statuses_response] at hcount
  obtain ⟨n, hn⟩ := hout
  have hpos : 0 < out.countP Write.isStatus := List.countP_pos_iff.mpr ⟨_, hn, rfl⟩
  omega

theorem not_oneResponse_nil : ¬ OneResponse [] := by
  rintro ⟨status, headers, body, -, heq⟩
  cases heq

theorem returnError_eq (msg : Bytes) (status : ℕ) :
    ∃ headers body, body ≠ [] ∧ returnError msg status = ⟨response status headers body, .done ()⟩ :=
  ⟨[(contentTypeName, ascii "text/html")],
    [ascii "<html>", ascii "<head>", ascii "<title>Error</title>", ascii "</head>", ascii "<body>",
      ascii "<h2>An error has occured</h2>", ascii "<p>" ++ msg ++ ascii "</p>", ascii "</body>", ascii "</html>"],
    List.cons_ne_nil _ _, rfl⟩

theorem answers_returnError (msg : Bytes) (status : ℕ) : Answers ((returnError msg status).catching onException) := by
  obtain ⟨headers, body, hbody, heq⟩ := returnError_eq msg status
  rw [heq]
  exact ⟨⟨(), rfl⟩, status, headers, body, hbody, rfl⟩

theorem onException_eq (e : Exception) : ∃ status headers body, body ≠ [] ∧
    onException e = some ⟨response status headers body, .done ()⟩ := by
  cases e with
  | db e =>
    exact ⟨500, [(contentTypeName, plainText), (ascii "Cache-Control", ascii "no-cache")],
      [ascii "Unknown internal error"], List.cons_ne_nil _ _, rfl⟩
  | fcgi e =>
    exact ⟨e.status, [(contentTypeName, plainText)], [ascii "Error: " ++ e.what], List.cons_ne_nil _ _, rfl⟩
  | std what =>
    exact ⟨500, [(contentTypeName, plainText), (ascii "Cache-Control", ascii "no-cache")],
      [ascii "Error: " ++ what], List.cons_ne_nil _ _, rfl⟩

theorem sendDoc_fails {xml : Libxml} (h : xml.fails = true) (contentType : Bytes) (doc : XMLDoc) :
    sendDoc xml contentType doc = ⟨[.status 200, .header contentTypeName contentType, .endHeaders],
      .thrown (.std (ascii "cannot serialize document"))⟩ := by
  rw [sendDoc, writeDoc, Libxml.xmlDocDumpMemory, if_pos h]
  rfl

theorem sendDoc_eq {xml : Libxml} (h : xml.fails = false) (contentType : Bytes) (doc : XMLDoc) :
    sendDoc xml contentType doc =
      ⟨response 200 [(contentTypeName, contentType)] [xml.text doc], .done ()⟩ := by
  rw [sendDoc, writeDoc, Libxml.xmlDocDumpMemory, if_neg (by simp [h])]
  rfl

section

variable {α : Type} {Fine : α → List Write → Prop} {x : Act α}

theorem sendDoc_begun (xml : Libxml) (contentType : Bytes) (doc : XMLDoc) : Begun (sendDoc xml contentType doc).out := by
  refine ⟨200, ?_⟩
  cases hfails : xml.fails with
  | true => simp [sendDoc_fails hfails]
  | false => simp [sendDoc_eq hfails, response]

/-- Nothing is written when `x` throws, and what is written is fine when it does not. -/
def Answerable (Fine : α → List Write → Prop) (x : Act α) : Prop :=
  (x.Throws ∧ x.out = []) ∨ ∃ a, x.ending = .done a ∧ Fine a x.out

theorem answerable_thrown {e : Exception} (hend : x.ending = .thrown e) : Answerable Fine x ↔ x.out = [] := by
  simp [Answerable, Throws, hend]

theorem answerable_done {a : α} (hend : x.ending = .done a) : Answerable Fine x ↔ Fine a x.out := by
  simp [Answerable, Throws, hend]

theorem not_answerable_dead {d : Death} (hend : x.ending = .dead d) : ¬ Answerable Fine x := by
  simp [Answerable, Throws, hend]

theorem answerable_failing {e : Option Exception} : Answerable Fine (do failing e; x) ↔ e ≠ none ∨ Answerable Fine x := by
  cases e with
  | none => simp only [failing, pure_bind, ne_eq, not_true_eq_false, false_or]
  | some e => exact iff_of_true (Or.inl ⟨⟨e, rfl⟩, rfl⟩) (Or.inl (Option.some_ne_none e))

theorem answerable_inScope {close : Option Exception} : Answerable Fine (inScope close .terminated x) ↔
    (close = none ∧ Answerable Fine x) ∨ (close ≠ none ∧ x.Completes ∧ x.out = []) := by
  cases close with
  | none => simp [inScope_none]
  | some e => simp [Answerable, throws_inScope, inScope_out, inScope_some_ne_done]

theorem answerable_killed {kills : Bool} {d : Death} :
    Answerable Fine (killed kills d x) ↔ kills = false ∧ Answerable Fine x := by
  cases kills with
  | false => simp
  | true => simp [Answerable, throws_killed, killed_true_ne_done]

end

def Sent (_ : Unit) (out : List Write) : Prop := OneResponse out

theorem answerable_silent {x : Act Unit} (hx : x.Silent) : Answerable Sent x ↔ x.Throws := by
  constructor
  · rintro (⟨hthrows, -⟩ | ⟨a, -, hsent⟩)
    · exact hthrows
    · rw [hx] at hsent
      exact absurd hsent not_oneResponse_nil
  · intro hthrows
    exact Or.inl ⟨hthrows, hx⟩

theorem answers_appended {out : List Write} (hout : out = [] ∨ Begun out) {status : ℕ}
    {headers : List (Bytes × Bytes)} {body : List Bytes} (hbody : body ≠ []) :
    Answers ⟨out ++ response status headers body, .done ()⟩ ↔ out = [] := by
  constructor
  · rintro ⟨-, hone⟩
    rcases hout with hnil | hbegun
    · exact hnil
    · exact absurd hone (not_oneResponse_second hbegun _ _ _)
  · rintro rfl
    exact ⟨⟨(), rfl⟩, status, headers, body, hbody, rfl⟩

theorem answers_onException {x : Act Unit} (hx : x.out = [] ∨ Begun x.out) :
    Answers (x.catching onException) ↔ Answerable Sent x := by
  cases hend : x.ending with
  | done a =>
    rw [answerable_done hend, catching, hend]
    simp [Answers, Sent, Completes, hend]
  | dead d =>
    refine iff_of_false ?_ (not_answerable_dead hend)
    rw [catching, hend]
    simp [Answers, Completes, hend]
  | thrown e =>
    obtain ⟨status, headers, body, hbody, heq⟩ := onException_eq e
    have hturn : x.catching onException = ⟨x.out ++ response status headers body, .done ()⟩ := by
      rw [catching, hend]
      simp only [heq]
    rw [hturn, answers_appended hx hbody, answerable_thrown hend]

theorem onDbException_none {α : Type} {x : Act α} (hdb : ¬ ∃ e, x.ending = .thrown (.db e)) {e : Exception}
    (he : x.ending = .thrown e) : onDbException e = none := by
  cases e with
  | db e => exact absurd ⟨e, he⟩ hdb
  | fcgi e => rfl
  | std what => rfl

theorem answers_onDbException {x : Act Unit} (hx : x.out = [] ∨ Begun x.out) :
    Answers ((x.catching onDbException).catching onException) ↔ Answerable Sent x := by
  by_cases hdb : ∃ e, x.ending = .thrown (.db e)
  · obtain ⟨e, hend⟩ := hdb
    obtain ⟨headers, body, hbody, heq⟩ := returnError_eq e.what 200
    have hcaught : x.catching onDbException = ⟨x.out ++ response 200 headers body, .done ()⟩ := by
      rw [catching, hend]
      simp only [onDbException, heq]
    rw [hcaught, answerable_thrown hend, ← answers_appended hx hbody]
    rfl
  · have hother : x.catching onDbException = x := catching_other (fun _ => onDbException_none hdb)
    rw [hother, answers_onException hx]

section

variable {α : Type} {x : Act α} {xml : Libxml} {contentType : Bytes} {f : α → XMLDoc}

theorem send_begun (hx : x.Silent) (hsend : x.Completes) :
    Begun (do let a ← x; sendDoc xml contentType (f a)).out := by
  obtain ⟨a, ha⟩ := hsend
  rw [bind_done ha, hx, List.nil_append]
  exact sendDoc_begun _ _ _

theorem send_silent_or_begun (hx : x.Silent) :
    (do let a ← x; sendDoc xml contentType (f a)).out = [] ∨
      Begun (do let a ← x; sendDoc xml contentType (f a)).out := by
  cases hend : x.ending with
  | done a => exact Or.inr (send_begun hx ⟨a, hend⟩)
  | thrown e => exact Or.inl (by rw [bind_thrown hend, hx])
  | dead d => exact Or.inl (by rw [bind_dead hend, hx])

theorem send_writes (xml : Libxml) (contentType : Bytes) (f : α → XMLDoc) (hx : x.Silent) :
    ¬ ((do let a ← x; sendDoc xml contentType (f a)).Completes ∧
      (do let a ← x; sendDoc xml contentType (f a)).out = []) := by
  rintro ⟨hcompletes, hnil⟩
  obtain ⟨a, ha, -⟩ := completes_bind.mp hcompletes
  obtain ⟨n, hn⟩ := send_begun hx ⟨a, ha⟩
  rw [hnil] at hn
  cases hn

theorem answerable_send (hx : x.Silent) : Answerable Sent (do let a ← x; sendDoc xml contentType (f a)) ↔
    x.Throws ∨ (x.Completes ∧ xml.fails = false) := by
  cases hend : x.ending with
  | dead d =>
    rw [bind_dead hend]
    simp [Answerable, Throws, Completes, hend]
  | thrown e =>
    rw [bind_thrown hend, hx]
    simp [Answerable, Throws, Completes, hend]
  | done a =>
    rw [bind_done hend, hx, List.nil_append]
    cases hfails : xml.fails with
    | true =>
      rw [sendDoc_fails hfails]
      simp [Answerable, Throws, Completes, hend]
    | false =>
      rw [sendDoc_eq hfails, answerable_done rfl]
      exact iff_of_true ⟨200, _, _, List.cons_ne_nil _ _, rfl⟩ (Or.inr ⟨⟨a, hend⟩, rfl⟩)

end

end FcgiAppserver.Handlers
