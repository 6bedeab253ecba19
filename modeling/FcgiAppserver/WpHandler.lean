import FcgiAppserver.JsonWriter
import FcgiAppserver.PoolReplies

namespace FcgiAppserver.Handlers.Wp

open ByteStrings Json ScopedEffects ScopedEffects.Act Xml

def contentType (request : Request) : Bytes :=
  if request.getParam (ascii "showxml") ≠ ascii "yes" then ascii "text/xml" else ascii "application/xml"

def page (request : Request) : XMLDoc :=
  let doc := XMLDoc.new (ascii "page") none
  if request.getParam (ascii "showxml") ≠ ascii "yes" then
    doc.addPi (ascii "modxslt-stylesheet") (ascii "type=\"text/xsl\" href=\"xsl/feedback.xsl\"")
  else doc

def textElement (name content : Bytes) : XMLNode := (XMLNode.new name).addText content

def contentElement (content : Bytes) : XMLNode :=
  let morePos := find content (ascii "<!--more-->") 0
  if morePos ≠ npos then
    ((XMLNode.new (ascii "content")).setAttr (ascii "more") (ascii "yes")).addText (content.take morePos)
  else textElement (ascii "content") content

def postElement (row : Row) : Reading XMLNode := do
  let id ← asInt row 0
  let post := (XMLNode.new (ascii "post")).setAttr (ascii "id") (writeInt id.toInt)
  let title ← asString row 1
  let post := post.add (textElement (ascii "title") title)
  let excerpt ← asString row 2
  let post := post.add (textElement (ascii "excerpt") excerpt)
  let content ← asString row 3
  return post.add (contentElement content)

def blogrollQuery : Query :=
  query ("select id, post_title, post_excerpt, post_content from wp_posts where post_status='publish' " ++
    " and post_type='post' order by post_date_gmt desc limit 10")

def addPost (posts : XMLNode) (row : Row) : Act XMLNode := do
  let post ← ofExcept (postElement row)
  return posts.add post

def fetchPosts (stmt : Stmt) : StmtAct XMLNode := do
  stmt.execute
  stmt.whileFetch addPost (XMLNode.new (ascii "posts"))

def sendPosts (xml : Libxml) (request : Request) (stmt : Stmt) : StmtAct Unit := do
  let posts ← fetchPosts stmt
  sendDoc xml (contentType request) ((page request).add posts)

def blogroll (pool : Pool) (xml : Libxml) (request : Request) : Act Unit := do
  dbConnHolder pool
  dbStmt pool blogrollQuery (sendPosts xml request)

def handleBlogroll (pool : Pool) (xml : Libxml) (request : Request) : Act Unit :=
  (blogroll pool xml request).catching onDbException

def idQuery (name : Bytes) : Query :=
  -- the parameter has no value: they are counted from 0
  (query "select ID from wp_posts where post_status='publish' and post_name=?").bindString 1 name

def fetchId (stmt : Stmt) : StmtAct Unit := do
  stmt.execute
  -- neither a row nor no data leads to a response
  let _ ← stmt.fetch
  return ()

def lookup (pool : Pool) (name : Bytes) : Act Unit := do
  dbConnHolder pool
  dbStmt pool (idQuery name) fetchId

def handleCategory (pool : Pool) (name : Bytes) : Act Unit := (lookup pool name).catching onDbException

def handleAuthor (pool : Pool) (name : Bytes) : Act Unit := (lookup pool name).catching onDbException

def postQuery (name : Bytes) : Query :=
  (query "select id, post_content from wp_posts where post_status='publish' and post_name=?").bindString 0 name

def postDoc (request : Request) (row : Row) : Reading XMLDoc := do
  let id ← asInt row 0
  let post := (XMLNode.new (ascii "post")).setAttr (ascii "id") (writeInt id.toInt)
  let content ← asString row 1
  return (page request).add (post.addText content)

def sendRow (xml : Libxml) (request : Request) : Option Row → Act Bool
  | none => return false
  | some row => do
    let doc ← ofExcept (postDoc request row)
    sendDoc xml (contentType request) doc
    return true

def sendPost (xml : Libxml) (request : Request) (stmt : Stmt) : StmtAct Bool := do
  stmt.execute
  let row ← stmt.fetch
  sendRow xml request row

def post (pool : Pool) (xml : Libxml) (request : Request) (name : Bytes) : Act Bool := do
  dbConnHolder pool
  dbStmt pool (postQuery name) (sendPost xml request)

def handlePost (pool : Pool) (xml : Libxml) (request : Request) (name : Bytes) : Act Bool :=
  (post pool xml request name).catching fun e => (onDbException e).map (fun handler => do handler; return true)

def handle404 : Act Unit := returnError (ascii "page does not exist") 404

def categoryPath : Bytes := ascii "/category/"

def authorPath : Bytes := ascii "/author/"

def handle (pool : Pool) (xml : Libxml) (request : Request) : Act Unit :=
  let scriptName := request.getFcgiParam scriptName
  if scriptName = ascii "/" ∨ scriptName = [] then handleBlogroll pool xml request
  else if find scriptName categoryPath 0 = 0 then handleCategory pool (scriptName.drop categoryPath.length)
  else if find scriptName authorPath 0 = 0 then handleAuthor pool (scriptName.drop authorPath.length)
  else do
    let found ← handlePost pool xml request (scriptName.drop 1)
    if !found then handle404 else return ()

def PostReadable (row : Row) : Prop := ReadsInt row 0 ∧ Readable row 1

/-- Where the text of the id is blank, no exception is thrown. -/
def PostBad (row : Row) : Prop := ¬ Readable row 0 ∨ (ReadsInt row 0 ∧ ¬ Readable row 1)

def BlogrollReadable (row : Row) : Prop := ReadsInt row 0 ∧ Readable row 1 ∧ Readable row 2 ∧ Readable row 3

def BlogrollBad (row : Row) : Prop :=
  ¬ Readable row 0 ∨ (ReadsInt row 0 ∧ ¬ (Readable row 1 ∧ Readable row 2 ∧ Readable row 3))

theorem postElement_ok {row : Row} : (∃ node, postElement row = .ok node) ↔ BlogrollReadable row := by
  rw [BlogrollReadable, ← asInt_ok, Readable, Readable, Readable, postElement]
  cases asInt row 0 <;> cases asString row 1 <;> cases asString row 2 <;> cases asString row 3 <;>
    simp [bind, Except.bind, pure, Except.pure]

theorem postElement_error {row : Row} : (∃ e, postElement row = .error (.inl e)) ↔ BlogrollBad row := by
  rw [BlogrollBad, ← asInt_error, ← asInt_ok, not_and_or, not_and_or, ← asString_error, ← asString_error,
    ← asString_error, postElement]
  rcases asInt row 0 with (e₀ | d₀) | id
  · simp [bind, Except.bind]
  · simp [bind, Except.bind]
  · rcases h₁ : asString row 1 with (e₁ | d₁) | title
    · simp [bind, Except.bind]
    · exact absurd h₁ (asString_alive row 1 d₁)
    · rcases h₂ : asString row 2 with (e₂ | d₂) | excerpt
      · simp [bind, Except.bind]
      · exact absurd h₂ (asString_alive row 2 d₂)
      · rcases h₃ : asString row 3 with (e₃ | d₃) | content
        · simp [bind, Except.bind]
        · exact absurd h₃ (asString_alive row 3 d₃)
        · simp [bind, Except.bind, pure, Except.pure]

theorem postDoc_ok {request : Request} {row : Row} : (∃ doc, postDoc request row = .ok doc) ↔ PostReadable row := by
  rw [PostReadable, ← asInt_ok, Readable, postDoc]
  cases asInt row 0 <;> cases asString row 1 <;> simp [bind, Except.bind, pure, Except.pure]

theorem postDoc_error {request : Request} {row : Row} :
    (∃ e, postDoc request row = .error (.inl e)) ↔ PostBad row := by
  rw [PostBad, ← asInt_error, ← asInt_ok, ← asString_error, postDoc]
  rcases asInt row 0 with (e₀ | d₀) | id
  · simp [bind, Except.bind]
  · simp [bind, Except.bind]
  · rcases h₁ : asString row 1 with (e₁ | d₁) | content
    · simp [bind, Except.bind]
    · exact absurd h₁ (asString_alive row 1 d₁)
    · simp [bind, Except.bind, pure, Except.pure]

theorem blogrollQuery_bound (pool : Pool) : none ∉ (pool.stmt blogrollQuery).query.bound :=
  query_bound (parameters_append (m := 0) (n := 0) (parameters_ofList rfl) (parameters_ofList rfl))

theorem postQuery_bound (pool : Pool) (name : Bytes) : none ∉ (pool.stmt (postQuery name)).query.bound :=
  bindString_bound (parameters_ofList rfl) name

theorem idQuery_bound (pool : Pool) (name : Bytes) : none ∈ (pool.stmt (idQuery name)).query.bound := by
  have hbound : (pool.stmt (idQuery name)).query.bound = [none] := rfl
  rw [hbound]
  exact List.mem_cons_self

theorem silent_addPost (posts : XMLNode) (row : Row) : (addPost posts row).Silent := by
  apply silent_bind (silent_ofExcept _)
  intro post
  exact silent_pure _

theorem completes_addPost (posts : XMLNode) (row : Row) : (addPost posts row).Completes ↔ BlogrollReadable row := by
  rw [addPost, completes_bind_of (fun _ => Iff.of_eq (eq_true (completes_pure _))), completes_ofExcept,
    postElement_ok, and_true]

theorem throws_addPost (posts : XMLNode) (row : Row) : (addPost posts row).Throws ↔ BlogrollBad row := by
  rw [addPost, throws_bind_of (fun _ => Iff.of_eq (eq_false (not_throws_pure _))), throws_ofExcept,
    postElement_error, and_false, or_false]

section

variable {pool : Pool} {xml : Libxml} {request : Request}

def BlogrollAnswers (pool : Pool) (xml : Libxml) : Prop :=
  pool.connectFails ≠ none ∨ (pool.reply blogrollQuery).prepareFails ≠ none ∨
    ((pool.reply blogrollQuery).closeFails = none ∧ (pool.reply blogrollQuery).Released BlogrollReadable ∧
      ((pool.reply blogrollQuery).RowsFail BlogrollReadable BlogrollBad ∨
        ((pool.reply blogrollQuery).AllRows BlogrollReadable ∧ xml.fails = false)))

section

variable {stmt : Stmt}

theorem silent_fetchPosts : (fetchPosts stmt).act.Silent := silent_rows silent_addPost _

theorem completes_fetchPosts (hbound : none ∉ stmt.query.bound) :
    (fetchPosts stmt).act.Completes ↔ stmt.AllRows BlogrollReadable := completes_rows hbound completes_addPost _

theorem throws_fetchPosts (hbound : none ∉ stmt.query.bound) :
    (fetchPosts stmt).act.Throws ↔ stmt.RowsFail BlogrollReadable BlogrollBad :=
  throws_rows hbound completes_addPost throws_addPost _

theorem released_fetchPosts (hbound : none ∉ stmt.query.bound) :
    stmt.freesTwice (fetchPosts stmt).count = false ↔ stmt.Released BlogrollReadable :=
  released_iff hbound completes_addPost _

theorem act_sendPosts (xml : Libxml) (request : Request) (stmt : Stmt) : (sendPosts xml request stmt).act =
    (fetchPosts stmt).act >>= fun posts => sendDoc xml (contentType request) ((page request).add posts) :=
  Counted.act_bind

theorem freeing_sendPosts (xml : Libxml) (request : Request) (stmt : Stmt) : stmt.freeing (sendPosts xml request stmt) =
    killed (stmt.freesTwice (fetchPosts stmt).count) .undefined (sendPosts xml request stmt).act := by
  rw [Reply.freeing, sendPosts, Counted.count_bind_unused (fun _ => rfl)]

theorem sendPosts_out (xml : Libxml) (request : Request) (stmt : Stmt) :
    (sendPosts xml request stmt).act.out = [] ∨ Begun (sendPosts xml request stmt).act.out := by
  rw [act_sendPosts]
  exact send_silent_or_begun silent_fetchPosts

theorem sendPosts_answerable (hbound : none ∉ stmt.query.bound) :
    Answerable Sent (stmt.freeing (sendPosts xml request stmt)) ↔ stmt.Released BlogrollReadable ∧
      (stmt.RowsFail BlogrollReadable BlogrollBad ∨ (stmt.AllRows BlogrollReadable ∧ xml.fails = false)) := by
  rw [freeing_sendPosts, answerable_killed, released_fetchPosts hbound, act_sendPosts, answerable_send silent_fetchPosts,
    completes_fetchPosts hbound, throws_fetchPosts hbound]

theorem sendPosts_writes (xml : Libxml) (request : Request) (stmt : Stmt) :
    ¬ ((stmt.freeing (sendPosts xml request stmt)).Completes ∧ (sendPosts xml request stmt).act.out = []) := by
  rw [freeing_sendPosts, completes_killed, act_sendPosts]
  rintro ⟨⟨-, hcompletes⟩, hnil⟩
  exact send_writes xml (contentType request) (page request).add silent_fetchPosts ⟨hcompletes, hnil⟩

end

theorem handleBlogroll_answers :
    Answers ((handleBlogroll pool xml request).catching onException) ↔ BlogrollAnswers pool xml := by
  have hout : (blogroll pool xml request).out = [] ∨ Begun (blogroll pool xml request).out := by
    rw [blogroll]
    exact dbStmt_out pool blogrollQuery (sendPosts xml request) (sendPosts_out xml request (pool.stmt blogrollQuery))
  have hwrites := sendPosts_writes xml request (pool.stmt blogrollQuery)
  rw [handleBlogroll, answers_onDbException hout, blogroll, answerable_dbStmt,
    sendPosts_answerable (blogrollQuery_bound pool), stmt_toReply, BlogrollAnswers]
  constructor
  · rintro (hconnect | hprepare | hclose | ⟨-, hquiet⟩)
    · exact Or.inl hconnect
    · exact Or.inr (Or.inl hprepare)
    · exact Or.inr (Or.inr hclose)
    · exact absurd hquiet hwrites
  · rintro (hconnect | hprepare | hclose)
    · exact Or.inl hconnect
    · exact Or.inr (Or.inl hprepare)
    · exact Or.inr (Or.inr (Or.inl hclose))

theorem not_completes_fetchId (name : Bytes) :
    ¬ (fetchId (pool.stmt (idQuery name))).act.Completes ∧ ¬ (fetchId (pool.stmt (idQuery name))).act.Throws := by
  have hexecute : (pool.stmt (idQuery name)).execute = die .undefined := if_pos (idQuery_bound pool name)
  rw [fetchId, Counted.act_bind, Counted.act_lift, hexecute, bind_dead rfl]
  exact ⟨not_completes_die _, not_throws_die _⟩

theorem silent_fetchId (stmt : Stmt) : (fetchId stmt).act.Silent := by
  rw [fetchId, Counted.act_bind]
  apply silent_bind silent_execute
  intro _
  rw [Counted.act_bind]
  exact silent_bind silent_fetch (fun _ => silent_pure _)

/-- A statement with a parameter that has no value is answered only if it is not executed. -/
def LookupAnswers (pool : Pool) (name : Bytes) : Prop :=
  pool.connectFails ≠ none ∨ (pool.reply (idQuery name)).prepareFails ≠ none

theorem lookup_answers {name : Bytes} :
    Answers (((lookup pool name).catching onDbException).catching onException) ↔ LookupAnswers pool name := by
  have hsilent := silent_fetchId (pool.stmt (idQuery name))
  have hout : (lookup pool name).out = [] ∨ Begun (lookup pool name).out := dbStmt_out _ _ _ (Or.inl hsilent)
  have hfree : ((pool.stmt (idQuery name)).freeing (fetchId (pool.stmt (idQuery name)))).Silent :=
    (freeing_out _ _).trans hsilent
  obtain ⟨hcompletes, hthrows⟩ :
      ¬ (fetchId (pool.stmt (idQuery name))).act.Completes ∧ ¬ (fetchId (pool.stmt (idQuery name))).act.Throws :=
    not_completes_fetchId name
  rw [answers_onDbException hout, lookup, answerable_dbStmt, answerable_silent hfree, Reply.freeing, completes_killed,
    throws_killed, LookupAnswers]
  tauto

def NoPost (stmt : Reply) : Prop := stmt.executeFails = none ∧ stmt.rows = [] ∧ stmt.fetchFails = none

/-- What may be written before `handle_404` is given its chance. -/
def FoundFine (found : Bool) (out : List Write) : Prop := if found then OneResponse out else out = []

theorem sendDoc_found_out (xml : Libxml) (contentType : Bytes) (doc : XMLDoc) :
    (do sendDoc xml contentType doc; return true : Act Bool).out = (sendDoc xml contentType doc).out := by
  cases hfails : xml.fails with
  | true =>
    rw [sendDoc_fails hfails]
    rfl
  | false =>
    rw [sendDoc_eq hfails]
    exact List.append_nil _

section

variable {stmt : Stmt}

theorem freeing_sendPost (stmt : Stmt) : stmt.freeing (sendPost xml request stmt) = (sendPost xml request stmt).act :=
  freeing_eq (count_first (fun _ => rfl))

theorem sendPost_cases (xml : Libxml) (request : Request) (hbound : none ∉ stmt.query.bound) :
    (stmt.FirstFails PostBad ∧ ¬ NoPost stmt.toReply ∧ ∃ e, (sendPost xml request stmt).act = raise e) ∨
      (NoPost stmt.toReply ∧ (sendPost xml request stmt).act = pure false) ∨
      (stmt.FirstRow PostReadable ∧ ¬ stmt.FirstFails PostBad ∧ ¬ NoPost stmt.toReply ∧
        ∃ doc, (sendPost xml request stmt).act = do sendDoc xml (contentType request) doc; return true) ∨
      (¬ stmt.FirstRow PostReadable ∧ ¬ stmt.FirstFails PostBad ∧ ¬ NoPost stmt.toReply ∧
        ∃ d, (sendPost xml request stmt).act = die d) := by
  have hact : (sendPost xml request stmt).act = _ := act_first hbound
  rw [hact, Reply.FirstRow, Reply.FirstFails, NoPost]
  cases stmt.executeFails with
  | some e =>
    refine Or.inl ⟨Or.inl (Option.some_ne_none e), by simp, .db e, ?_⟩
    cases stmt.rows <;> rfl
  | none =>
    cases stmt.rows with
    | nil =>
      cases stmt.fetchFails with
      | some e => exact Or.inl ⟨by simp, by simp, .db e, rfl⟩
      | none => exact Or.inr (Or.inl ⟨⟨rfl, rfl, rfl⟩, rfl⟩)
    | cons row rows =>
      have hgood : (∃ doc, postDoc request row = .ok doc) ↔ PostReadable row := postDoc_ok
      have hbad : (∃ e, postDoc request row = .error (.inl e)) ↔ PostBad row := postDoc_error
      have hrest : (failing (Option.map Exception.db none) >>= fun _ =>
          ((liftM (sendRow xml request (some row)) : StmtAct Bool)).act) =
            (ofExcept (postDoc request row) >>= fun doc => do
              sendDoc xml (contentType request) doc
              return true : Act Bool) := rfl
      simp only [hrest]
      rcases hdoc : postDoc request row with (e | d) | doc
      · rw [hdoc] at hbad
        exact Or.inl ⟨by simp [← hbad], by simp, e, rfl⟩
      · rw [hdoc] at hgood hbad
        exact Or.inr (Or.inr (Or.inr ⟨by simp [← hgood], by simp [← hbad], by simp, d, rfl⟩))
      · rw [hdoc] at hgood hbad
        exact Or.inr (Or.inr (Or.inl ⟨by simp [← hgood], by simp [← hbad], by simp, doc, rfl⟩))

theorem sendPost_out (hbound : none ∉ stmt.query.bound) :
    (sendPost xml request stmt).act.out = [] ∨ Begun (sendPost xml request stmt).act.out := by
  rcases sendPost_cases xml request hbound with ⟨-, -, e, h⟩ | ⟨-, h⟩ | ⟨-, -, -, doc, h⟩ | ⟨-, -, -, d, h⟩
  · exact Or.inl (by rw [h]; rfl)
  · exact Or.inl (by rw [h]; rfl)
  · apply Or.inr
    rw [h, sendDoc_found_out]
    exact sendDoc_begun _ _ _
  · exact Or.inl (by rw [h]; rfl)

theorem sendPost_quiet (hbound : none ∉ stmt.query.bound) :
    ((sendPost xml request stmt).act.Completes ∧ (sendPost xml request stmt).act.out = []) ↔ NoPost stmt.toReply := by
  rcases sendPost_cases xml request hbound with ⟨-, hno, e, h⟩ | ⟨hno, h⟩ | ⟨-, -, hno, doc, h⟩ | ⟨-, -, hno, d, h⟩
  · exact iff_of_false (by simp [h]) hno
  · exact iff_of_true (by rw [h]; exact ⟨completes_pure _, rfl⟩) hno
  · refine iff_of_false ?_ hno
    rw [h, sendDoc_found_out]
    rintro ⟨-, hnil⟩
    obtain ⟨n, hn⟩ := sendDoc_begun xml (contentType request) doc
    rw [hnil] at hn
    cases hn
  · exact iff_of_false (by simp [h]) hno

theorem sendPost_answerable (hbound : none ∉ stmt.query.bound) :
    Answerable FoundFine (sendPost xml request stmt).act ↔
      NoPost stmt.toReply ∨ stmt.FirstFails PostBad ∨ (stmt.FirstRow PostReadable ∧ xml.fails = false) := by
  rcases sendPost_cases xml request hbound with
    ⟨hfails, hno, e, h⟩ | ⟨hno, h⟩ | ⟨hfirst, hfails, hno, doc, h⟩ | ⟨hfirst, hfails, hno, d, h⟩
  · rw [h, answerable_thrown rfl]
    exact iff_of_true rfl (Or.inr (Or.inl hfails))
  · rw [h, answerable_done rfl]
    exact iff_of_true rfl (Or.inl hno)
  · rw [h]
    cases hxml : xml.fails with
    | true =>
      rw [sendDoc_fails hxml, bind_thrown rfl, answerable_thrown rfl]
      simp [hno, hfails]
    | false =>
      rw [sendDoc_eq hxml, bind_done rfl, answerable_done rfl]
      exact iff_of_true ⟨200, _, _, List.cons_ne_nil _ _, List.append_nil _⟩ (Or.inr (Or.inr ⟨hfirst, rfl⟩))
  · rw [h]
    exact iff_of_false (not_answerable_dead rfl) (by simp [hno, hfails, hfirst])

end

def PostAnswers (pool : Pool) (xml : Libxml) (name : Bytes) : Prop :=
  pool.connectFails ≠ none ∨ (pool.reply (postQuery name)).prepareFails ≠ none ∨ NoPost (pool.reply (postQuery name)) ∨
    ((pool.reply (postQuery name)).closeFails = none ∧ ((pool.reply (postQuery name)).FirstFails PostBad ∨
      ((pool.reply (postQuery name)).FirstRow PostReadable ∧ xml.fails = false)))

theorem answers_handle404 {x : Act Bool} (hx : x.out = [] ∨ Begun x.out) :
    Answers ((do
      let found ← x.catching fun e => (onDbException e).map (fun handler => do handler; return true)
      if !found then handle404 else return () : Act Unit).catching onException) ↔ Answerable FoundFine x := by
  by_cases hdb : ∃ e, x.ending = .thrown (.db e)
  · obtain ⟨e, hend⟩ := hdb
    obtain ⟨headers, body, hbody, heq⟩ := returnError_eq e.what 200
    have hcaught : (x.catching fun e => (onDbException e).map (fun handler => do handler; return true)) =
        ⟨x.out ++ response 200 headers body, .done true⟩ := by
      have hhandler : (do returnError e.what 200; return true) = (⟨response 200 headers body, .done true⟩ : Act Bool) := by
        rw [heq, bind_done rfl, pure_eq, List.append_nil]
      rw [catching, hend]
      simp only [onDbException, Option.map_some, hhandler]
    rw [hcaught, bind_done rfl, answerable_thrown hend]
    simp only [catching, Bool.not_true, Bool.false_eq_true, if_false, pure_eq, List.append_nil]
    exact answers_appended hx hbody
  · have hother : (x.catching fun e => (onDbException e).map (fun handler => do handler; return true)) = x := by
      apply catching_other
      intro e he
      rw [onDbException_none hdb he, Option.map_none]
    rw [hother]
    cases hend : x.ending with
    | thrown e => rw [bind_thrown hend, answers_onException hx, answerable_thrown rfl, answerable_thrown hend]
    | dead d =>
      rw [bind_dead hend, answers_onException hx]
      exact iff_of_false (not_answerable_dead rfl) (not_answerable_dead hend)
    | done found =>
      rw [bind_done hend, answerable_done hend]
      cases found with
      | true => simp [catching, pure_eq, Answers, Completes, FoundFine]
      | false =>
        obtain ⟨headers, body, hbody, heq⟩ := returnError_eq (ascii "page does not exist") 404
        simp only [Bool.not_false, if_true, handle404, heq]
        exact answers_appended hx hbody

theorem post_answers {name : Bytes} : Answers ((do
    let found ← handlePost pool xml request name
    if !found then handle404 else return () : Act Unit).catching onException) ↔ PostAnswers pool xml name := by
  have hbound := postQuery_bound pool name
  have hout : (post pool xml request name).out = [] ∨ Begun (post pool xml request name).out :=
    dbStmt_out _ _ _ (sendPost_out hbound)
  rw [handlePost, answers_handle404 hout, post, answerable_dbStmt, freeing_sendPost, sendPost_answerable hbound,
    sendPost_quiet hbound, stmt_toReply, PostAnswers]
  tauto

def HandleAnswers (pool : Pool) (xml : Libxml) (scriptName : Bytes) : Prop :=
  if scriptName = ascii "/" ∨ scriptName = [] then BlogrollAnswers pool xml
  else if find scriptName categoryPath 0 = 0 then LookupAnswers pool (scriptName.drop categoryPath.length)
  else if find scriptName authorPath 0 = 0 then LookupAnswers pool (scriptName.drop authorPath.length)
  else PostAnswers pool xml (scriptName.drop 1)

theorem handle_answers :
    Answers ((handle pool xml request).catching onException) ↔ HandleAnswers pool xml (request.getFcgiParam scriptName) := by
  unfold handle HandleAnswers
  dsimp only
  split_ifs
  · exact handleBlogroll_answers
  · exact lookup_answers
  · exact lookup_answers
  · exact post_answers

end

end FcgiAppserver.Handlers.Wp
