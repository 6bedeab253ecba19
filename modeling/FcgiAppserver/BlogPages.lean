import FcgiAppserver.WorkerTurn

namespace FcgiAppserver.Handlers.Wp

open ByteStrings Dispatch Json ScopedEffects ScopedEffects.Act Xml

def marker : Bytes := ascii "<!--more-->"

/-- What the blogroll shows of a post: all of it, or the part before the first marker. -/
inductive Teaser (content : Bytes) : Bytes → List (Bytes × Bytes) → Prop
  | whole (habsent : ¬ marker <:+: content) : Teaser content content []
  | cut (shown rest : Bytes) (hcontent : content = shown ++ (marker ++ rest))
      (hfirst : ∀ k < shown.length, ¬ marker <+: content.drop k) : Teaser content shown [(ascii "more", ascii "yes")]

def titled (name content : Bytes) : XMLNode := .element name [] [.text content]

def idAttr (id : Int32) : List (Bytes × Bytes) := [(ascii "id", writeInt id.toInt)]

/-- A string in memory is shorter than `npos`. -/
def ShowsPost (row : Row) (node : XMLNode) : Prop :=
  ∃ id title excerpt content shown more, asInt row 0 = .ok id ∧ asString row 1 = .ok title ∧
    asString row 2 = .ok excerpt ∧ asString row 3 = .ok content ∧
    (content.length < npos → Teaser content shown more) ∧
    node = .element (ascii "post") (idAttr id) [titled (ascii "title") title, titled (ascii "excerpt") excerpt,
      .element (ascii "content") more [.text shown]]

def pageDoc (request : Request) (node : XMLNode) : XMLDoc :=
  { page request with root := .element (ascii "page") [] [node] }

def blogrollDoc (request : Request) (nodes : List XMLNode) : XMLDoc :=
  pageDoc request (.element (ascii "posts") [] nodes)

def postPage (request : Request) (id : Int32) (content : Bytes) : XMLDoc :=
  pageDoc request (.element (ascii "post") (idAttr id) [.text content])

def pageHeaders (request : Request) : List (Bytes × Bytes) := [(contentTypeName, contentType request)]

/-- The connection and the statement are got, and the statement closes. -/
def Served (pool : Pool) (q : Query) : Prop :=
  pool.connectFails = none ∧ (pool.reply q).prepareFails = none ∧ (pool.reply q).closeFails = none

theorem contentElement_teaser (content : Bytes) : ∃ shown more,
    contentElement content = .element (ascii "content") more [.text shown] ∧
      (content.length < npos → Teaser content shown more) := by
  rw [contentElement]
  have hmarker : ascii "<!--more-->" = marker := rfl
  rw [hmarker, find, if_pos (Nat.zero_le _), List.drop_zero]
  cases hindex : indexOf? marker content with
  | none =>
    refine ⟨content, [], by simp [textElement, XMLNode.new, XMLNode.addText, XMLNode.add], ?_⟩
    intro _
    apply Teaser.whole
    intro hinfix
    obtain ⟨u, t, hcontent, -⟩ := first_occurrence hinfix
    apply indexOf?_none hindex u.length
    rw [hcontent, List.drop_left]
    exact List.prefix_append _ _
  | some i =>
    obtain ⟨⟨u, t, hcontent, hlength⟩, hfirst⟩ := indexOf?_some hindex
    dsimp only
    by_cases hnpos : 0 + i ≠ npos
    · rw [if_pos hnpos, Nat.zero_add]
      refine ⟨u, [(ascii "more", ascii "yes")], ?_, ?_⟩
      · rw [hcontent, ← hlength, List.take_left]
        rfl
      · intro _
        exact Teaser.cut u t hcontent (hlength ▸ hfirst)
    · rw [if_neg hnpos]
      refine ⟨content, [], rfl, ?_⟩
      intro hshort
      rw [ne_eq, not_not] at hnpos
      have hle := congrArg List.length hcontent
      rw [List.length_append] at hle
      omega

theorem postElement_shows {row : Row} {node : XMLNode} (h : postElement row = .ok node) : ShowsPost row node := by
  obtain ⟨id, hid, htitled⟩ := bind_ok h
  obtain ⟨title, htitle, hexcerpted⟩ := bind_ok htitled
  obtain ⟨excerpt, hexcerpt, hlast⟩ := bind_ok hexcerpted
  obtain ⟨content, hcontent, hreturn⟩ := bind_ok hlast
  obtain ⟨shown, more, hnode, hteaser⟩ := contentElement_teaser content
  refine ⟨id, title, excerpt, content, shown, more, hid, htitle, hexcerpt, hcontent, hteaser, ?_⟩
  cases hreturn
  rw [hnode]
  rfl

theorem addPost_rows {rows : List Row} {attrs : List (Bytes × Bytes)} {children : List XMLNode} {name : Bytes}
    {posts : XMLNode} (h : (rows.foldlM addPost (.element name attrs children)).ending = .done posts) :
    ∃ nodes, List.Forall₂ ShowsPost rows nodes ∧ posts = .element name attrs (children ++ nodes) := by
  induction rows generalizing children with
  | nil =>
    cases h
    exact ⟨[], List.Forall₂.nil, by rw [List.append_nil]⟩
  | cons row rows ih =>
    rw [List.foldlM_cons] at h
    obtain ⟨first, hfirst, hrest⟩ := bind_ending_done.mp h
    obtain ⟨node, hnode, hadd⟩ := bind_ending_done.mp hfirst
    cases hadd
    obtain ⟨nodes, hshows, hposts⟩ := ih hrest
    refine ⟨node :: nodes, List.Forall₂.cons (postElement_shows (ofExcept_done hnode)) hshows, ?_⟩
    rw [hposts, List.append_assoc, List.singleton_append]

theorem fetchPosts_done {stmt : Stmt} {posts : XMLNode} (h : (fetchPosts stmt).act.ending = .done posts) :
    ∃ nodes, List.Forall₂ ShowsPost stmt.rows nodes ∧ posts = .element (ascii "posts") [] nodes := by
  rw [fetchPosts, Counted.act_bind, act_whileFetch] at h
  obtain ⟨-, -, hfetch⟩ := bind_ending_done.mp h
  obtain ⟨posts', hrows, hend⟩ := bind_ending_done.mp hfetch
  obtain ⟨-, -, hreturn⟩ := bind_ending_done.mp hend
  cases hreturn
  exact addPost_rows hrows

/-- What the `catch` blocks and `handle_404` write begins with a header of no page. -/
def Appended (tail : List Write) : Prop :=
  ∃ status value rest, tail = .status status :: .header contentTypeName value :: rest ∧
    value ∈ [ascii "text/html", plainText]

def cutPage (request : Request) : List Write :=
  [.status 200, .header contentTypeName (contentType request), .endHeaders]

def sentPage (request : Request) (text : Bytes) : List Write := response 200 (pageHeaders request) [text]

def sentTurn (request : Request) (text : Bytes) : Act Unit := ⟨sentPage request text, .done ()⟩

/-- A block dies, or writes nothing, or is cut before the body, or sends its page. -/
def PageBlock {α : Type} (request : Request) (x : Act α) : Prop :=
  (∃ d, x.ending = .dead d) ∨ x.out = [] ∨ (∃ e, x = ⟨cutPage request, .thrown e⟩) ∨
    ∃ text a, x = ⟨sentPage request text, .done a⟩

/-- A `finish` that appends to what was thrown. -/
structure Finishes {α : Type} (finish : Act α → Act Unit) : Prop where
  dead : ∀ {x d}, x.ending = .dead d → ¬ (finish x).Completes
  thrown : ∀ {x e}, x.ending = .thrown e → ∃ tail, Appended tail ∧ (finish x).out = x.out ++ tail
  done : ∀ {x a}, x.ending = .done a → (finish x).out = x.out ∨ ∃ tail, Appended tail ∧ (finish x).out = x.out ++ tail

theorem contentType_ne {request : Request} {value : Bytes} (h : value ∈ [ascii "text/html", plainText]) :
    value ≠ contentType request := by
  rw [contentType]
  rcases List.mem_cons.mp h with rfl | hplain
  · split_ifs <;> decide
  · rw [List.mem_singleton.mp hplain]
    split_ifs <;> decide

theorem returnError_begins (msg : Bytes) (status : ℕ) : ∃ rest,
    (returnError msg status).out = .status status :: .header contentTypeName (ascii "text/html") :: rest :=
  ⟨.endHeaders :: [ascii "<html>", ascii "<head>", ascii "<title>Error</title>", ascii "</head>", ascii "<body>",
    ascii "<h2>An error has occured</h2>", ascii "<p>" ++ msg ++ ascii "</p>", ascii "</body>",
    ascii "</html>"].map Write.body, rfl⟩

theorem appended_returnError (msg : Bytes) (status : ℕ) : Appended (returnError msg status).out := by
  obtain ⟨rest, hrest⟩ := returnError_begins msg status
  exact ⟨status, ascii "text/html", rest, hrest, List.mem_cons_self⟩

theorem onException_appends (e : Exception) :
    ∃ tail, Appended tail ∧ onException e = some ⟨tail, .done ()⟩ := by
  have hplain : plainText ∈ [ascii "text/html", plainText] := List.mem_cons_of_mem _ List.mem_cons_self
  cases e with
  | db e => exact ⟨_, ⟨500, plainText, _, rfl, hplain⟩, rfl⟩
  | fcgi e => exact ⟨_, ⟨e.status, plainText, _, rfl, hplain⟩, rfl⟩
  | std what => exact ⟨_, ⟨500, plainText, _, rfl, hplain⟩, rfl⟩

section

variable {α : Type} {pool : Pool} {q : Query} {request : Request} {text : Bytes} {tail : List Write}

theorem nil_ne_sentPage : [] ≠ sentPage request text := by
  intro h
  cases h

theorem appended_ne_sentPage (h : Appended tail) : tail ≠ sentPage request text := by
  rintro rfl
  obtain ⟨status, value, rest, heq, hvalue⟩ := h
  cases heq
  exact contentType_ne hvalue rfl

theorem cut_append_ne (h : Appended tail) : cutPage request ++ tail ≠ sentPage request text := by
  obtain ⟨status, value, rest, rfl, -⟩ := h
  intro heq
  cases heq

theorem sent_append_ne {text' : Bytes} (h : Appended tail) : sentPage request text' ++ tail ≠ sentPage request text := by
  obtain ⟨status, value, rest, rfl, -⟩ := h
  intro heq
  cases heq

theorem completes_sentTurn : (sentTurn request text).Completes := ⟨(), rfl⟩

section

variable {finish : Act α → Act Unit} (hfinish : Finishes finish)

include hfinish

theorem finish_dead {x : Act α} {d : Death} (h : x.ending = .dead d) : finish x ≠ sentTurn request text := by
  intro heq
  apply hfinish.dead h
  rw [heq]
  exact completes_sentTurn

theorem finish_silent {x : Act α} (h : x.out = []) : finish x ≠ sentTurn request text := by
  intro heq
  have hout : (finish x).out = sentPage request text := congrArg Act.out heq
  cases hend : x.ending with
  | dead d => exact finish_dead hfinish hend heq
  | thrown e =>
    obtain ⟨tail, htail, happended⟩ := hfinish.thrown hend
    rw [happended, h] at hout
    exact appended_ne_sentPage htail hout
  | done a =>
    rcases hfinish.done hend with hsame | ⟨tail, htail, happended⟩
    · rw [hsame, h] at hout
      exact nil_ne_sentPage hout
    · rw [happended, h] at hout
      exact appended_ne_sentPage htail hout

theorem finish_cut {x : Act α} {e : Exception} (h : x = ⟨cutPage request, .thrown e⟩) :
    finish x ≠ sentTurn request text := by
  intro heq
  have hout : (finish x).out = sentPage request text := congrArg Act.out heq
  obtain ⟨tail, htail, happended⟩ := hfinish.thrown (congrArg Act.ending h)
  rw [happended, h] at hout
  exact cut_append_ne htail hout

theorem finish_thrown {x : Act α} {text' : Bytes} {e : Exception} (h : x = ⟨sentPage request text', .thrown e⟩) :
    finish x ≠ sentTurn request text := by
  intro heq
  have hout : (finish x).out = sentPage request text := congrArg Act.out heq
  obtain ⟨tail, htail, happended⟩ := hfinish.thrown (congrArg Act.ending h)
  rw [happended, h] at hout
  exact sent_append_ne htail hout

/-- A page is sent when its block sends it and nothing around the block fails. -/
theorem sent_iff {block : Stmt → StmtAct α} {x : Act α} (hx : (pool.stmt q).freeing (block (pool.stmt q)) = x)
    (hblock : PageBlock request x)
    (hdone : ∀ text' a, x = ⟨sentPage request text', .done a⟩ → finish x = sentTurn request text') :
    finish (do dbConnHolder pool; dbStmt pool q block) = sentTurn request text ↔
      Served pool q ∧ ∃ a, x = ⟨sentPage request text, .done a⟩ := by
  rw [dbConnHolder, dbStmt, Served, hx, ← stmt_toReply]
  cases pool.connectFails with
  | some e => exact iff_of_false (finish_silent hfinish rfl) (fun h => Option.some_ne_none e h.1.1)
  | none =>
    rw [Option.map_none, failing, pure_bind]
    cases (pool.stmt q).prepareFails with
    | some e => exact iff_of_false (finish_silent hfinish rfl) (fun h => Option.some_ne_none e h.1.2.1)
    | none =>
      rw [Option.map_none, failing, pure_bind]
      cases (pool.stmt q).closeFails with
      | some e =>
        apply iff_of_false ?_ (fun h => Option.some_ne_none e h.1.2.2)
        rcases hblock with ⟨d, hdead⟩ | hnil | ⟨e', rfl⟩ | ⟨text', a, rfl⟩
        · exact finish_dead hfinish (inScope_dead hdead)
        · exact finish_silent hfinish (inScope_out.trans hnil)
        · exact finish_dead hfinish rfl
        · exact finish_thrown hfinish rfl
      | none =>
        rw [Option.map_none, inScope_none]
        rcases hblock with ⟨d, hdead⟩ | hnil | ⟨e', hcut⟩ | ⟨text', a, hsent⟩
        · apply iff_of_false (finish_dead hfinish hdead)
          rintro ⟨-, a, heq⟩
          rw [heq] at hdead
          cases hdead
        · apply iff_of_false (finish_silent hfinish hnil)
          rintro ⟨-, a, heq⟩
          rw [heq] at hnil
          cases hnil
        · apply iff_of_false (finish_cut hfinish hcut)
          rintro ⟨-, a, heq⟩
          rw [hcut] at heq
          cases heq
        · rw [hdone text' a hsent, hsent]
          constructor
          · intro heq
            have hout : sentPage request text' = sentPage request text := congrArg Act.out heq
            rw [hout]
            exact ⟨⟨rfl, rfl, rfl⟩, a, rfl⟩
          · rintro ⟨-, a', heq⟩
            have hout : sentPage request text' = sentPage request text := congrArg Act.out heq
            rw [sentTurn, hout, sentTurn]

end

end

theorem pageBlock_sends {α : Type} {request : Request} {text : Bytes} {a : α} {x : Act α}
    (h : x = ⟨sentPage request text, .done a⟩) : PageBlock request x := Or.inr (Or.inr (Or.inr ⟨text, a, h⟩))

theorem pageBlock_silent {α : Type} {request : Request} {x : Act α} (h : x.out = []) : PageBlock request x :=
  Or.inr (Or.inl h)

theorem pageBlock_cut {α : Type} {request : Request} {x : Act α} {e : Exception} (h : x = ⟨cutPage request, .thrown e⟩) :
    PageBlock request x := Or.inr (Or.inr (Or.inl ⟨e, h⟩))

theorem pageBlock_killed {α : Type} {request : Request} {kills : Bool} {d : Death} {x : Act α}
    (h : PageBlock request x) : PageBlock request (killed kills d x) := by
  cases kills with
  | false =>
    rw [killed_false]
    exact h
  | true => exact Or.inl killed_true_dead

theorem sendDoc_pageBlock (xml : Libxml) (request : Request) (doc : XMLDoc) :
    PageBlock request (sendDoc xml (contentType request) doc) := by
  cases hfails : xml.fails with
  | true => exact pageBlock_cut (sendDoc_fails hfails _ _)
  | false => exact pageBlock_sends (sendDoc_eq hfails _ _)

theorem finishes_unit : Finishes fun x : Act Unit => (x.catching onDbException).catching onException where
  dead h := by simp [catching, h, Completes]
  done h := Or.inl (by simp [catching, h])
  thrown {x e} h := by
    cases e with
    | db e =>
      refine ⟨_, appended_returnError e.what 200, ?_⟩
      simp only [catching, h, onDbException]
      rfl
    | fcgi e =>
      obtain ⟨tail, htail, hcaught⟩ := onException_appends (.fcgi e)
      refine ⟨tail, htail, ?_⟩
      simp only [catching, h, onDbException, hcaught]
    | std what =>
      obtain ⟨tail, htail, hcaught⟩ := onException_appends (.std what)
      refine ⟨tail, htail, ?_⟩
      simp only [catching, h, onDbException, hcaught]

theorem turn_eq {server : FcgiServer Handler} {xml : Libxml} {request : Request} {pool : Pool}
    (hname : (fcgxGetParam scriptName request.envp).isSome)
    (hhandler : handlerFor server request.getScriptName = some (.wp pool)) :
    workerTurn server xml request = (handle pool xml request).catching onException := by
  obtain ⟨name, hscript⟩ := Option.isSome_iff_exists.mp hname
  rw [workerTurn, tryInvoke, hscript]
  dsimp only
  rw [Handlers.invokeHandler_eq, hhandler]
  rfl

theorem sendPosts_pageBlock (xml : Libxml) (request : Request) (stmt : Stmt) :
    PageBlock request (stmt.freeing (sendPosts xml request stmt)) := by
  have hsilent : (fetchPosts stmt).act.out = [] := silent_fetchPosts
  rw [freeing_sendPosts, act_sendPosts]
  apply pageBlock_killed
  cases hend : (fetchPosts stmt).act.ending with
  | done posts =>
    rw [bind_done hend, hsilent]
    exact sendDoc_pageBlock xml request _
  | thrown e =>
    rw [bind_thrown hend]
    exact pageBlock_silent hsilent
  | dead d =>
    rw [bind_dead hend]
    exact pageBlock_silent hsilent

theorem page_add (request : Request) (node : XMLNode) : (page request).add node = pageDoc request node := by
  rw [pageDoc, page]
  split_ifs <;> rfl

theorem sendPosts_done {xml : Libxml} {request : Request} {stmt : Stmt} (hbound : none ∉ stmt.query.bound)
    (h : (stmt.freeing (sendPosts xml request stmt)).Completes) :
    stmt.Released BlogrollReadable ∧ stmt.AllRows BlogrollReadable ∧ xml.fails = false := by
  rw [freeing_sendPosts, completes_killed, released_fetchPosts hbound, act_sendPosts] at h
  obtain ⟨hreleased, hcompletes⟩ := h
  obtain ⟨posts, hposts, hdoc⟩ := completes_bind.mp hcompletes
  refine ⟨hreleased, (completes_fetchPosts hbound).mp ⟨posts, hposts⟩, ?_⟩
  cases hfails : xml.fails with
  | true =>
    rw [sendDoc_fails hfails] at hdoc
    obtain ⟨a, ha⟩ := hdoc
    cases ha
  | false => rfl

theorem sendPosts_sends {xml : Libxml} {request : Request} {stmt : Stmt} (hbound : none ∉ stmt.query.bound)
    (hreleased : stmt.Released BlogrollReadable) (hrows : stmt.AllRows BlogrollReadable) (hfails : xml.fails = false) :
    ∃ nodes, List.Forall₂ ShowsPost stmt.rows nodes ∧
      stmt.freeing (sendPosts xml request stmt) = sentTurn request (xml.text (blogrollDoc request nodes)) := by
  have hsilent : (fetchPosts stmt).act.out = [] := silent_fetchPosts
  obtain ⟨posts, hposts⟩ := (completes_fetchPosts hbound).mpr hrows
  obtain ⟨nodes, hshows, rfl⟩ := fetchPosts_done hposts
  refine ⟨nodes, hshows, ?_⟩
  rw [freeing_sendPosts, (released_fetchPosts hbound).mpr hreleased, killed_false, act_sendPosts, bind_done hposts,
    hsilent, sendDoc_eq hfails, page_add]
  rfl

/-- The blogroll is sent, with its posts in the order of the rows, if and only if nothing fails. -/
theorem blogroll_sent (server : FcgiServer Handler) (xml : Libxml) (request : Request) (pool : Pool)
    (hname : (fcgxGetParam scriptName request.envp).isSome)
    (hhandler : handlerFor server request.getScriptName = some (.wp pool))
    (hroot : request.getScriptName = ascii "/" ∨ request.getScriptName = []) :
    (∃ nodes, List.Forall₂ ShowsPost (pool.reply blogrollQuery).rows nodes ∧
      workerTurn server xml request = sentTurn request (xml.text (blogrollDoc request nodes))) ↔
        Served pool blogrollQuery ∧ (pool.reply blogrollQuery).Released BlogrollReadable ∧
          (pool.reply blogrollQuery).AllRows BlogrollReadable ∧ xml.fails = false := by
  have hhandle : handle pool xml request = handleBlogroll pool xml request := by
    rw [handle]
    exact if_pos hroot
  have hbound := blogrollQuery_bound pool
  have hsent : ∀ text, (handle pool xml request).catching onException = sentTurn request text ↔
      Served pool blogrollQuery ∧ ∃ a, (pool.stmt blogrollQuery).freeing (sendPosts xml request (pool.stmt blogrollQuery)) =
        ⟨sentPage request text, .done a⟩ := by
    intro text
    rw [hhandle]
    apply sent_iff finishes_unit rfl (sendPosts_pageBlock xml request _)
    intro text' a heq
    rw [heq]
    rfl
  simp only [turn_eq hname hhandler, hsent, ← stmt_toReply]
  constructor
  · rintro ⟨nodes, -, hserved, a, hblock⟩
    exact ⟨hserved, sendPosts_done hbound ⟨a, congrArg Act.ending hblock⟩⟩
  · rintro ⟨hserved, hreleased, hrows, hfails⟩
    obtain ⟨nodes, hshows, hblock⟩ := sendPosts_sends hbound hreleased hrows hfails
    exact ⟨nodes, hshows, hserved, (), hblock⟩

def shownRow : Row := [.ok (ascii "7"), .ok (ascii "Cakes"), .ok [], .ok (ascii "Shown<!--more-->not shown")]

def shownPool : Pool := ⟨none, fun _ => { noRows with rows := [shownRow] }⟩

theorem blogroll_sent_shown : ∃ nodes, List.Forall₂ ShowsPost [shownRow] nodes ∧
    workerTurn (addHandlerMappings [(ascii "/", some (.wp shownPool))]) (libxml false) (getRequest (ascii "/")) =
      sentTurn (getRequest (ascii "/")) ((libxml false).text (blogrollDoc (getRequest (ascii "/")) nodes)) := by
  have hreadable : BlogrollReadable shownRow := by
    refine ⟨⟨_, 7, rfl, ?_⟩, ⟨_, rfl⟩, ⟨_, rfl⟩, ⟨_, rfl⟩⟩
    decide +kernel
  apply (blogroll_sent (addHandlerMappings [(ascii "/", some (.wp shownPool))]) (libxml false) (getRequest (ascii "/"))
    shownPool rfl rfl (Or.inl rfl)).mpr
  refine ⟨⟨rfl, rfl, rfl⟩, fun _ _ _ => rfl, ⟨rfl, ?_, rfl⟩, rfl⟩
  intro row hrow
  rw [List.mem_singleton.mp hrow]
  exact hreadable

def missingPage : List Write := (returnError (ascii "page does not exist") 404).out

def afterPost : Ending Exception Death Bool → Act Unit
  | .done true => pure ()
  | .done false => handle404
  | .thrown (.db e) => returnError e.what 200
  | .thrown e => (onException e).getD (raise e)
  | .dead d => die d

def finishPost (x : Act Bool) : Act Unit :=
  (do
    let found ← x.catching fun e => (onDbException e).map (fun handler => do handler; return true)
    if !found then handle404 else return () : Act Unit).catching onException

theorem finishPost_eq (x : Act Bool) :
    finishPost x = ⟨x.out ++ (afterPost x.ending).out, (afterPost x.ending).ending⟩ := by
  have hrow : ∀ y : Act Bool, y.ending = .done true → (do
      let found ← y
      if !found then handle404 else return () : Act Unit).catching onException = ⟨y.out, .done ()⟩ := by
    intro y hy
    rw [bind_done hy]
    simp [catching, pure_eq]
  rw [finishPost]
  cases hend : x.ending with
  | done found =>
    have hsame : (x.catching fun e => (onDbException e).map (fun handler => do handler; return true)) = x := by
      rw [catching, hend]
    rw [hsame]
    cases found with
    | true =>
      rw [hrow x hend, afterPost, pure_eq, List.append_nil]
    | false =>
      rw [bind_done hend]
      rfl
  | dead d =>
    have hsame : (x.catching fun e => (onDbException e).map (fun handler => do handler; return true)) = x := by
      rw [catching, hend]
    rw [hsame, bind_dead hend, afterPost, die, List.append_nil]
    rfl
  | thrown e =>
    by_cases hdb : ∃ e', e = .db e'
    · obtain ⟨e', rfl⟩ := hdb
      have hcaught : (x.catching fun e => (onDbException e).map (fun handler => do handler; return true)) =
          ⟨x.out ++ ((returnError e'.what 200).out ++ []), .done true⟩ := by
        rw [catching, hend]
        rfl
      rw [hcaught, hrow _ rfl, List.append_nil]
      rfl
    · have hsame : (x.catching fun e => (onDbException e).map (fun handler => do handler; return true)) = x := by
        apply catching_other
        intro e' he'
        rw [hend] at he'
        cases he'
        cases e with
        | db e => exact absurd ⟨e, rfl⟩ hdb
        | fcgi e => rfl
        | std what => rfl
      rw [hsame, bind_thrown hend]
      cases e with
      | db e => exact absurd ⟨e, rfl⟩ hdb
      | fcgi e => rfl
      | std what => rfl

theorem appended_thrown (e : Exception) : Appended (afterPost (.thrown e)).out := by
  cases e with
  | db e => exact appended_returnError e.what 200
  | fcgi e =>
    obtain ⟨tail, htail, hcaught⟩ := onException_appends (.fcgi e)
    change Appended ((onException (.fcgi e)).getD (raise (.fcgi e))).out
    rw [hcaught]
    exact htail
  | std what =>
    obtain ⟨tail, htail, hcaught⟩ := onException_appends (.std what)
    change Appended ((onException (.std what)).getD (raise (.std what))).out
    rw [hcaught]
    exact htail

theorem finishes_post : Finishes finishPost where
  dead h := by
    rw [finishPost_eq, h]
    rintro ⟨_, hdone⟩
    cases hdone
  thrown h := by
    rw [finishPost_eq, h]
    exact ⟨_, appended_thrown _, rfl⟩
  done {x found} h := by
    rw [finishPost_eq, h]
    cases found with
    | false => exact Or.inr ⟨missingPage, appended_returnError _ _, rfl⟩
    | true => exact Or.inl (List.append_nil _)

theorem missingPage_ne {status : ℕ} {rest : List Write} (hstatus : status ≠ 404) : .status status :: rest ≠ missingPage := by
  obtain ⟨rest', hrest⟩ := returnError_begins (ascii "page does not exist") 404
  rw [missingPage, hrest]
  intro heq
  exact hstatus (Write.status.inj (List.cons.inj heq).1)

theorem missingPage_ne_nil : missingPage ≠ [] := by
  obtain ⟨rest, hrest⟩ := returnError_begins (ascii "page does not exist") 404
  rw [missingPage, hrest]
  exact List.cons_ne_nil _ _

theorem thrown_ne_missingPage (e : Exception) : (afterPost (.thrown e)).out ≠ missingPage := by
  cases e with
  | db e =>
    obtain ⟨rest, hrest⟩ := returnError_begins e.what 200
    change (returnError e.what 200).out ≠ missingPage
    rw [hrest]
    exact missingPage_ne (by decide)
  | fcgi e =>
    -- its status may be 404 too, but it is no page
    obtain ⟨rest, hrest⟩ := returnError_begins (ascii "page does not exist") 404
    rw [missingPage, hrest]
    intro heq
    have hheader := (List.cons.inj (List.cons.inj heq).2).1
    exact absurd (Write.header.inj hheader).2 (by decide)
  | std what =>
    change Write.status 500 :: _ ≠ missingPage
    exact missingPage_ne (by decide)

def missingTurn : Act Unit := ⟨missingPage, .done ()⟩

/-- Only an end without a post makes the page that says so. -/
theorem missing_iff_ending {x : Act Bool} (hblock : x.out = [] ∨ ∃ rest, x.out = .status 200 :: rest) :
    finishPost x = missingTurn ↔ x = ⟨[], .done false⟩ := by
  rw [finishPost_eq]
  constructor
  · intro hturn
    have hout : x.out ++ (afterPost x.ending).out = missingPage := congrArg Act.out hturn
    have hending : (afterPost x.ending).ending = .done () := congrArg Act.ending hturn
    rcases hblock with hnil | ⟨rest, hrest⟩
    · rw [hnil, List.nil_append] at hout
      obtain ⟨out, ending⟩ := x
      cases hnil
      cases ending with
      | done found =>
        cases found with
        | true => exact absurd hout.symm missingPage_ne_nil
        | false => rfl
      | dead d => cases hending
      | thrown e => exact absurd hout (thrown_ne_missingPage e)
    · rw [hrest, List.cons_append] at hout
      exact absurd hout (missingPage_ne (by decide))
  · rintro rfl
    obtain ⟨headers, body, -, heq⟩ := returnError_eq (ascii "page does not exist") 404
    have hmissing : afterPost (.done false) = missingTurn := by rw [afterPost, handle404, missingTurn, missingPage, heq]
    rw [hmissing, List.nil_append]

theorem postDoc_shows {request : Request} {row : Row} {doc : XMLDoc} (h : postDoc request row = .ok doc) :
    ∃ id content, asInt row 0 = .ok id ∧ asString row 1 = .ok content ∧ doc = postPage request id content := by
  obtain ⟨id, hid, hrest⟩ := bind_ok h
  obtain ⟨content, hcontent, hreturn⟩ := bind_ok hrest
  refine ⟨id, content, hid, hcontent, ?_⟩
  cases hreturn
  exact page_add request _

section

variable {xml : Libxml} {request : Request} {stmt : Stmt}

theorem sendPost_found {row : Row} {rest : List Row} {doc : XMLDoc} (hbound : none ∉ stmt.query.bound)
    (hexecute : stmt.executeFails = none) (hrows : stmt.rows = row :: rest) (hdoc : postDoc request row = .ok doc) :
    (sendPost xml request stmt).act = do sendDoc xml (contentType request) doc; return true := by
  have hact : (sendPost xml request stmt).act = _ := act_first hbound
  rw [hact, hrows, hexecute]
  change (do let doc ← ofExcept (postDoc request row); sendDoc xml (contentType request) doc; return true : Act Bool) = _
  rw [hdoc]
  rfl

theorem sendFound_pageBlock (xml : Libxml) (request : Request) (doc : XMLDoc) :
    PageBlock request (do sendDoc xml (contentType request) doc; return true : Act Bool) := by
  cases hfails : xml.fails with
  | true =>
    rw [sendDoc_fails hfails]
    exact pageBlock_cut rfl
  | false =>
    rw [sendDoc_eq hfails]
    exact pageBlock_sends (a := true) rfl

theorem sendPost_pageBlock (xml : Libxml) (request : Request) (hbound : none ∉ stmt.query.bound) :
    PageBlock request (sendPost xml request stmt).act := by
  rcases sendPost_cases xml request hbound with ⟨-, -, e, h⟩ | ⟨-, h⟩ | ⟨-, -, -, doc, h⟩ | ⟨-, -, -, d, h⟩
  · rw [h]
    exact pageBlock_silent rfl
  · rw [h]
    exact pageBlock_silent rfl
  · rw [h]
    exact sendFound_pageBlock xml request doc
  · rw [h]
    exact pageBlock_silent rfl

theorem sendPost_begins (xml : Libxml) (request : Request) (hbound : none ∉ stmt.query.bound) :
    (sendPost xml request stmt).act.out = [] ∨ ∃ rest, (sendPost xml request stmt).act.out = .status 200 :: rest := by
  rcases sendPost_cases xml request hbound with ⟨-, -, e, h⟩ | ⟨-, h⟩ | ⟨-, -, -, doc, h⟩ | ⟨-, -, -, d, h⟩
  · exact Or.inl (by rw [h]; rfl)
  · exact Or.inl (by rw [h]; rfl)
  · apply Or.inr
    rw [h, sendDoc_found_out]
    cases hfails : xml.fails with
    | true => exact ⟨_, congrArg Act.out (sendDoc_fails hfails _ _)⟩
    | false => exact ⟨_, congrArg Act.out (sendDoc_eq hfails _ _)⟩
  · exact Or.inl (by rw [h]; rfl)

theorem sendPost_missing (hbound : none ∉ stmt.query.bound) :
    (sendPost xml request stmt).act = ⟨[], .done false⟩ ↔ NoPost stmt.toReply := by
  constructor
  · intro h
    apply (sendPost_quiet hbound).mp
    rw [h]
    exact ⟨⟨false, rfl⟩, rfl⟩
  · intro hno
    rcases sendPost_cases xml request hbound with ⟨-, hnot, -⟩ | ⟨-, hnone⟩ | ⟨-, -, hnot, -⟩ | ⟨-, -, hnot, -⟩
    · exact absurd hno hnot
    · exact hnone
    · exact absurd hno hnot
    · exact absurd hno hnot

theorem missing_iff {pool : Pool} {name : Bytes} :
    finishPost (post pool xml request name) = missingTurn ↔
      Served pool (postQuery name) ∧ NoPost (pool.reply (postQuery name)) := by
  have hbound := postQuery_bound pool name
  have hbegins := sendPost_begins xml request hbound
  rw [post, dbConnHolder, dbStmt, Served, freeing_sendPost, ← stmt_toReply]
  cases pool.connectFails with
  | some e =>
    rw [missing_iff_ending (Or.inl rfl)]
    refine iff_of_false ?_ (fun h => Option.some_ne_none e h.1.1)
    intro h
    cases h
  | none =>
    rw [Option.map_none, failing, pure_bind]
    cases (pool.stmt (postQuery name)).prepareFails with
    | some e =>
      rw [missing_iff_ending (Or.inl rfl)]
      refine iff_of_false ?_ (fun h => Option.some_ne_none e h.1.2.1)
      intro h
      cases h
    | none =>
      rw [Option.map_none, failing, pure_bind]
      cases (pool.stmt (postQuery name)).closeFails with
      | some e =>
        rw [missing_iff_ending (by rw [inScope_out]; exact hbegins)]
        refine iff_of_false ?_ (fun h => Option.some_ne_none e h.1.2.2)
        intro h
        exact inScope_some_ne_done _ false (congrArg Act.ending h)
      | none =>
        rw [Option.map_none, inScope_none, missing_iff_ending hbegins, sendPost_missing hbound]
        exact ⟨fun hno => ⟨⟨rfl, rfl, rfl⟩, hno⟩, fun h => h.2⟩

theorem sendPost_sent {text : Bytes} {a : Bool} (hbound : none ∉ stmt.query.bound)
    (h : (sendPost xml request stmt).act = ⟨sentPage request text, .done a⟩) :
    ∃ row rest doc, stmt.executeFails = none ∧ stmt.rows = row :: rest ∧ postDoc request row = .ok doc ∧
      xml.fails = false ∧ xml.text doc = text ∧ a = true := by
  rcases sendPost_cases xml request hbound with ⟨-, -, e, hraise⟩ | ⟨-, hnone⟩ |
    ⟨⟨hexecute, hend, hread⟩, -, hno, -⟩ | ⟨-, -, -, d, hdead⟩
  · rw [hraise] at h
    cases h
  · rw [hnone] at h
    cases h
  · cases hrows : stmt.rows with
    | nil => exact absurd ⟨hexecute, hrows, hend hrows⟩ hno
    | cons row rest =>
      rw [hrows] at hread
      obtain ⟨doc, hdoc⟩ := postDoc_ok.mpr (hread row rfl)
      rw [sendPost_found hbound hexecute hrows hdoc] at h
      refine ⟨row, rest, doc, hexecute, rfl, hdoc, ?_⟩
      cases hfails : xml.fails with
      | true =>
        rw [sendDoc_fails hfails] at h
        cases h
      | false =>
        rw [sendDoc_eq hfails] at h
        have hout := congrArg Act.out h
        have hending := congrArg Act.ending h
        cases hending
        cases hout
        exact ⟨rfl, rfl, rfl⟩
  · rw [hdead] at h
    cases h

end

theorem handle_post {pool : Pool} {xml : Libxml} {request : Request}
    (hroot : ¬ (request.getScriptName = ascii "/" ∨ request.getScriptName = []))
    (hcategory : ¬ categoryPath <+: request.getScriptName) (hauthor : ¬ authorPath <+: request.getScriptName) :
    (handle pool xml request).catching onException =
      finishPost (post pool xml request (request.getScriptName.drop 1)) := by
  have hscript : request.getFcgiParam scriptName = request.getScriptName := rfl
  rw [handle, hscript, if_neg hroot, if_neg (fun h => hcategory ((find_zero_iff _ _).mp h)),
    if_neg (fun h => hauthor ((find_zero_iff _ _).mp h))]
  rfl

/-- A post is sent if and only if the database has it and nothing fails, and it is reported missing if and only if the
database answers that it has none. -/
theorem post_sent (server : FcgiServer Handler) (xml : Libxml) (request : Request) (pool : Pool)
    (hname : (fcgxGetParam scriptName request.envp).isSome)
    (hhandler : handlerFor server request.getScriptName = some (.wp pool))
    (hroot : ¬ (request.getScriptName = ascii "/" ∨ request.getScriptName = []))
    (hcategory : ¬ categoryPath <+: request.getScriptName) (hauthor : ¬ authorPath <+: request.getScriptName) :
    ((∃ row rest id content, (pool.reply (postQuery (request.getScriptName.drop 1))).rows = row :: rest ∧
        asInt row 0 = .ok id ∧ asString row 1 = .ok content ∧
        workerTurn server xml request = sentTurn request (xml.text (postPage request id content))) ↔
      Served pool (postQuery (request.getScriptName.drop 1)) ∧
        (pool.reply (postQuery (request.getScriptName.drop 1))).FirstRow PostReadable ∧
        (pool.reply (postQuery (request.getScriptName.drop 1))).rows ≠ [] ∧ xml.fails = false) ∧
    (workerTurn server xml request = missingTurn ↔
      Served pool (postQuery (request.getScriptName.drop 1)) ∧
        NoPost (pool.reply (postQuery (request.getScriptName.drop 1)))) := by
  rw [turn_eq hname hhandler, handle_post hroot hcategory hauthor]
  generalize request.getScriptName.drop 1 = name
  have hbound := postQuery_bound pool name
  have hdone : ∀ text' a, (sendPost xml request (pool.stmt (postQuery name))).act = ⟨sentPage request text', .done a⟩ →
      finishPost (sendPost xml request (pool.stmt (postQuery name))).act = sentTurn request text' := by
    intro text' a heq
    obtain ⟨-, -, -, -, -, -, -, -, rfl⟩ := sendPost_sent hbound heq
    rw [finishPost_eq, heq]
    rfl
  have hsent : ∀ text, finishPost (post pool xml request name) = sentTurn request text ↔ Served pool (postQuery name) ∧
      ∃ a, (sendPost xml request (pool.stmt (postQuery name))).act = ⟨sentPage request text, .done a⟩ :=
    fun text => sent_iff finishes_post (freeing_sendPost _) (sendPost_pageBlock xml request hbound) hdone
  refine ⟨?_, missing_iff⟩
  rw [← stmt_toReply]
  constructor
  · rintro ⟨row, rest, id, content, hrows, hid, hcontent, hturn⟩
    obtain ⟨hserved, a, heq⟩ := (hsent _).mp hturn
    obtain ⟨row', rest', doc, hexecute, hrows', hdoc, hfails, -, -⟩ := sendPost_sent hbound heq
    refine ⟨hserved, ⟨hexecute, ?_, ?_⟩, ?_, hfails⟩
    · intro hnil
      rw [hnil] at hrows
      cases hrows
    · rw [hrows']
      intro first hfirst
      cases hfirst
      exact postDoc_ok.mp ⟨doc, hdoc⟩
    · rw [hrows]
      exact List.cons_ne_nil row rest
  · rintro ⟨hserved, ⟨hexecute, -, hread⟩, hne, hfails⟩
    obtain ⟨row, rest, hrows⟩ := List.exists_cons_of_ne_nil hne
    rw [hrows] at hread
    obtain ⟨doc, hdoc⟩ := postDoc_ok.mpr (hread row rfl)
    obtain ⟨id, content, hid, hcontent, rfl⟩ := postDoc_shows hdoc
    refine ⟨row, rest, id, content, hrows, hid, hcontent, (hsent _).mpr ⟨hserved, true, ?_⟩⟩
    rw [sendPost_found hbound hexecute hrows hdoc, sendDoc_eq hfails]
    rfl

theorem post_sent_missing :
    workerTurn wpServer (libxml false) (getRequest (ascii "/cakes")) = missingTurn :=
  (post_sent wpServer (libxml false) (getRequest (ascii "/cakes")) idlePool rfl rfl (by decide +kernel) (by decide +kernel)
    (by decide +kernel)).2.mpr ⟨⟨rfl, rfl, rfl⟩, rfl, rfl, rfl⟩

end FcgiAppserver.Handlers.Wp
