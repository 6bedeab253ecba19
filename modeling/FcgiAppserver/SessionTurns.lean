import FcgiAppserver.TraceTriples
import FcgiAppserver.WorkerTurn

namespace FcgiAppserver.Handlers

open ByteStrings Dispatch Formdata ScopedEffects ScopedEffects.Act TransitionRuns Xml

inductive Fetched
  | row
  | noData
  | failed
deriving DecidableEq

/-- The calls that a turn makes on its response, on a pool and on the statements of its connection. -/
inductive Effect
  | write (w : Write)
  -- without a connection `get` was left by an exception
  | get (connected : Bool)
  | put
  -- `mysql_stmt_init` has opened a handle, prepared or not
  | prepare (q : Query) (prepared : Bool)
  | execute (executed : Bool)
  | fetch (fetched : Fetched)
  | close
deriving DecidableEq

def Effect.written : Effect → List Write
  | .write w => [w]
  | _ => []

def Effect.isFetch : Effect → Bool
  | .fetch _ => true
  | _ => false

namespace Traced

abbrev Act := ScopedEffects.Act Effect Exception Death

variable {α β : Type}

def erase (x : Act α) : Handlers.Act α := x.mapOut Effect.written

/-- What the model of the handlers keeps of a statement's block. -/
def counting (x : Act α) : StmtAct α := ⟨erase x, x.out.countP Effect.isFetch⟩

def writing (x : Handlers.Act α) : Act α := x.mapOut (fun w => [.write w])

def withConn (pool : Pool) (block : Act α) : Act α :=
  match pool.connectFails with
  | none => bracket (.get true) .put block
  | some e => do
    write (.get false)
    raise (.db e)

def freeing (stmt : Reply) (x : Act α) : Act α := killed (stmt.freesTwice (x.out.countP Effect.isFetch)) .undefined x

/-- A block that declares a `DBStmt`. If the constructor throws there is no destructor to close the statement. -/
def withStmt (pool : Pool) (q : Query) (block : Stmt → Act α) : Act α :=
  let stmt := pool.stmt q
  match stmt.prepareFails with
  | none => inScope (stmt.closeFails.map .db) .terminated (bracket (.prepare q true) .close (freeing stmt.toReply (block stmt)))
  | some e => do
    write (.prepare q false)
    raise (.db e)

def execute (stmt : Stmt) : Act Unit :=
  if none ∈ stmt.query.bound then die .undefined
  else do
    write (.execute stmt.executeFails.isNone)
    failing (stmt.executeFails.map .db)

def fetchEnd (stmt : Stmt) : Act Unit := do
  write (.fetch (if stmt.fetchFails.isNone then .noData else .failed))
  failing (stmt.fetchFails.map .db)

def fetch (stmt : Stmt) : Act (Option Row) :=
  match stmt.rows with
  | row :: _ => do
    write (.fetch .row)
    return some row
  | [] => do
    fetchEnd stmt
    return none

def fetchRow (step : β → Row → Act β) (b : β) (row : Row) : Act β := do
  write (.fetch .row)
  step b row

def whileFetch (stmt : Stmt) (step : β → Row → Act β) (b : β) : Act β := do
  let b ← stmt.rows.foldlM (fetchRow step) b
  fetchEnd stmt
  return b

def onDbException (e : Exception) : Option (Act Unit) := (Handlers.onDbException e).map writing

def onException (e : Exception) : Option (Act Unit) := (Handlers.onException e).map writing

def fetchPosts (stmt : Stmt) : Act XMLNode := do
  execute stmt
  whileFetch stmt (fun posts row => writing (Wp.addPost posts row)) (XMLNode.new (ascii "posts"))

def sendPosts (xml : Libxml) (request : Request) (stmt : Stmt) : Act Unit := do
  let posts ← fetchPosts stmt
  writing (sendDoc xml (Wp.contentType request) ((Wp.page request).add posts))

def blogroll (pool : Pool) (xml : Libxml) (request : Request) : Act Unit :=
  withConn pool (withStmt pool Wp.blogrollQuery (sendPosts xml request))

/-- A statement of which the first row is read. -/
def firstRow (pool : Pool) (q : Query) (read : Option Row → Handlers.Act α) : Act α :=
  withStmt pool q fun stmt => do
    execute stmt
    let row ← fetch stmt
    writing (read row)

def lookup (pool : Pool) (name : Bytes) : Act Unit := withConn pool (firstRow pool (Wp.idQuery name) (fun _ => pure ()))

def post (pool : Pool) (xml : Libxml) (request : Request) (name : Bytes) : Act Bool :=
  withConn pool (firstRow pool (Wp.postQuery name) (Wp.sendRow xml request))

def handlePost (pool : Pool) (xml : Libxml) (request : Request) (name : Bytes) : Act Bool :=
  (post pool xml request name).catching fun e => (onDbException e).map (fun handler => do handler; return true)

def wpHandle (pool : Pool) (xml : Libxml) (request : Request) : Act Unit :=
  let scriptName := request.getFcgiParam scriptName
  if scriptName = ascii "/" ∨ scriptName = [] then (blogroll pool xml request).catching onDbException
  else if find scriptName Wp.categoryPath 0 = 0 then
    (lookup pool (scriptName.drop Wp.categoryPath.length)).catching onDbException
  else if find scriptName Wp.authorPath 0 = 0 then
    (lookup pool (scriptName.drop Wp.authorPath.length)).catching onDbException
  else do
    let found ← handlePost pool xml request (scriptName.drop 1)
    if !found then writing Wp.handle404 else return ()

def getBaseUrl (pool : Pool) : Act Bytes := firstRow pool Sitemap.homeQuery Sitemap.readBaseUrl

def getNumPostsPerPage (pool : Pool) : Act UInt64 := firstRow pool Sitemap.postsPerPageQuery Sitemap.readNumPostsPerPage

def addPart (pool : Pool) (baseUrl : Bytes) (numPostsPerPage : UInt64) (doc : XMLDoc) (part : Sitemap.Part) : Act XMLDoc :=
  withStmt pool part.query fun stmt => do
    execute stmt
    whileFetch stmt (fun doc row => writing (Sitemap.addRow baseUrl numPostsPerPage part doc row)) doc

def urlset (pool : Pool) (hostname : Bytes) : Act XMLDoc := do
  let baseUrl ← getBaseUrl pool
  let numPostsPerPage ← getNumPostsPerPage pool
  (Sitemap.parts hostname).foldlM (addPart pool baseUrl numPostsPerPage) (Sitemap.emptyDoc hostname)

def sitemapHandle (sites : Sitemap.PoolContainer) (xml : Libxml) (request : Request) : Act Unit :=
  let hostname := request.getFcgiParam serverName
  match sites[hostname]? with
  | none => writing (returnError (ascii "site not found: " ++ hostname) 200)
  | some pool => (withConn pool (do
      let doc ← urlset pool hostname
      writing (sendDoc xml (ascii "application/xml") doc))).catching onDbException

def handle (handler : Handler) (xml : Libxml) (request : Request) : Act Unit :=
  match handler with
  | .wp pool => wpHandle pool xml request
  | .sitemap sites => sitemapHandle sites xml request

instance : MonadExceptOf FcgiException Act where
  throw e := raise (.fcgi e)
  tryCatch x handler := x.catching fun
    | .fcgi e => some (handler e)
    | _ => none

def tryInvoke (server : FcgiServer Handler) (xml : Libxml) (request : Request) : Act Unit :=
  match fcgxGetParam scriptName request.envp with
  | none => raise (.std (ascii "HTTP server is not configured to pass SCRIPT_NAME variable"))
  | some _ => invokeHandler server (fun handler => handle handler xml request) request.getScriptName

def workerTurn (server : FcgiServer Handler) (xml : Libxml) (request : Request) : Act Unit :=
  (tryInvoke server xml request).catching onException

section

variable {pool : Pool} {stmt : Stmt} {x : Act α}

theorem erase_bind (x : Act α) (f : α → Act β) : erase (x >>= f) = erase x >>= fun a => erase (f a) := mapOut_bind

theorem erase_writing (x : Handlers.Act α) : erase (writing x) = x := by
  rw [erase, writing, mapOut_mapOut]
  exact mapOut_singleton

theorem counting_bind (x : Act α) (f : α → Act β) : counting (x >>= f) = counting x >>= fun a => counting (f a) := by
  apply Counted.ext
  · rw [Counted.act_bind]
    exact erase_bind x f
  · cases hx : x.ending with
    | done a =>
      have hdone : (counting x).act.ending = .done a := hx
      rw [Counted.count_bind_done hdone, counting, bind_done hx, List.countP_append]
      rfl
    | thrown e =>
      have hnot : ¬ (counting x).act.Completes := by simp [Completes, counting, erase, hx]
      rw [Counted.count_bind_not hnot, counting, bind_thrown hx]
      rfl
    | dead d =>
      have hnot : ¬ (counting x).act.Completes := by simp [Completes, counting, erase, hx]
      rw [Counted.count_bind_not hnot, counting, bind_dead hx]
      rfl

theorem counting_writing (x : Handlers.Act α) : counting (writing x) = liftM x := by
  apply Counted.ext
  · exact erase_writing x
  · change (writing x).out.countP Effect.isFetch = 0
    rw [writing, mapOut, List.countP_eq_zero]
    intro e he
    obtain ⟨w, -, hw⟩ := List.mem_flatMap.mp he
    rw [List.mem_singleton.mp hw]
    exact Bool.false_ne_true

theorem erase_withConn : erase (withConn pool x) = (do dbConnHolder pool; erase x : Handlers.Act α) := by
  rw [withConn, dbConnHolder]
  cases pool.connectFails with
  | none => exact mapOut_bracket rfl rfl
  | some e => rfl

theorem erase_withStmt (q : Query) (block : Stmt → Act α) :
    erase (withStmt pool q block) = dbStmt pool q (fun stmt => counting (block stmt)) := by
  rw [withStmt, dbStmt]
  cases hprepare : (pool.stmt q).prepareFails with
  | none =>
    dsimp only
    rw [erase, mapOut_inScope, mapOut_bracket rfl rfl, freeing, mapOut_killed]
    rfl
  | some e => rfl

theorem counting_execute : counting (execute stmt) = liftM stmt.execute := by
  rw [execute, Stmt.execute]
  split_ifs
  · rfl
  · cases stmt.executeFails <;> rfl

theorem counting_fetchEnd : counting (fetchEnd stmt) = (do
    Counted.tick
    (failing (stmt.fetchFails.map .db) : Handlers.Act Unit)) := by
  rw [fetchEnd]
  cases stmt.fetchFails <;> rfl

theorem counting_fetch : counting (fetch stmt) = stmt.fetch := by
  rw [fetch, Stmt.fetch]
  cases stmt.rows with
  | nil =>
    dsimp only
    rw [counting_bind, counting_fetchEnd, bind_assoc]
    rfl
  | cons row rows => rfl

theorem counting_whileFetch (step : β → Row → Handlers.Act β) (b : β) :
    counting (whileFetch stmt (fun b row => writing (step b row)) b) = stmt.whileFetch step b := by
  have hrow : ∀ b row, counting (fetchRow (fun b row => writing (step b row)) b row) = Stmt.fetchRow step b row := by
    intro b row
    rw [fetchRow, counting_bind, counting_writing]
    rfl
  have hrows : ∀ (rows : List Row) (b : β), counting (rows.foldlM (fetchRow fun b row => writing (step b row)) b) =
      rows.foldlM (Stmt.fetchRow step) b := by
    intro rows
    induction rows with
    | nil => exact fun _ => rfl
    | cons row rows ih =>
      intro b
      rw [List.foldlM_cons, List.foldlM_cons, counting_bind, hrow]
      congr 1
      funext b'
      exact ih b'
  rw [whileFetch, counting_bind, hrows, Stmt.whileFetch]
  congr 1
  funext b'
  rw [counting_bind, counting_fetchEnd, bind_assoc]
  rfl

theorem erase_catching {handler : Exception → Option (Handlers.Act α)} :
    erase (x.catching fun e => (handler e).map writing) = (erase x).catching handler := by
  rw [erase, mapOut_catching]
  congr 1
  funext e
  cases handler e with
  | none => rfl
  | some y => exact congrArg some (erase_writing y)

theorem counting_sendPosts (xml : Libxml) (request : Request) :
    counting (sendPosts xml request stmt) = Wp.sendPosts xml request stmt := by
  rw [sendPosts, Wp.sendPosts, counting_bind, fetchPosts, counting_bind, counting_execute, counting_whileFetch,
    Wp.fetchPosts]
  simp only [counting_writing]

theorem erase_blogroll (xml : Libxml) (request : Request) :
    erase (blogroll pool xml request) = Wp.blogroll pool xml request := by
  rw [blogroll, Wp.blogroll, erase_withConn, erase_withStmt]
  simp only [counting_sendPosts]

theorem erase_firstRow (q : Query) (read : Option Row → Handlers.Act α) :
    erase (firstRow pool q read) = dbStmt pool q (fun stmt => do stmt.execute; let row ← stmt.fetch; read row) := by
  rw [firstRow, erase_withStmt]
  simp only [counting_bind, counting_execute, counting_fetch, counting_writing]

theorem erase_lookup (name : Bytes) : erase (lookup pool name) = Wp.lookup pool name := by
  rw [lookup, Wp.lookup, erase_withConn, erase_firstRow]
  rfl

theorem erase_post (xml : Libxml) (request : Request) (name : Bytes) :
    erase (post pool xml request name) = Wp.post pool xml request name := by
  rw [post, Wp.post, erase_withConn, erase_firstRow]
  rfl

theorem erase_handlePost (xml : Libxml) (request : Request) (name : Bytes) :
    erase (handlePost pool xml request name) = Wp.handlePost pool xml request name := by
  rw [handlePost, Wp.handlePost, ← erase_post, erase, mapOut_catching]
  congr 1
  funext e
  rw [onDbException, Option.map_map, Option.map_map]
  congr 1
  funext handler
  rw [Function.comp_apply, Function.comp_apply, mapOut_bind]
  congr 1
  exact erase_writing handler

theorem erase_wpHandle (xml : Libxml) (request : Request) :
    erase (wpHandle pool xml request) = Wp.handle pool xml request := by
  unfold wpHandle Wp.handle
  dsimp only
  split_ifs
  · rw [Wp.handleBlogroll, ← erase_blogroll]
    exact erase_catching
  · rw [Wp.handleCategory, ← erase_lookup]
    exact erase_catching
  · rw [Wp.handleAuthor, ← erase_lookup]
    exact erase_catching
  · rw [erase_bind, erase_handlePost]
    congr 1
    funext found
    cases found with
    | true => rfl
    | false => exact erase_writing _

theorem erase_getBaseUrl : erase (getBaseUrl pool) = Sitemap.getBaseUrl pool := erase_firstRow _ _

theorem erase_getNumPostsPerPage : erase (getNumPostsPerPage pool) = Sitemap.getNumPostsPerPage pool :=
  erase_firstRow _ _

theorem erase_addPart (baseUrl : Bytes) (numPostsPerPage : UInt64) (doc : XMLDoc) (part : Sitemap.Part) :
    erase (addPart pool baseUrl numPostsPerPage doc part) = Sitemap.addPart pool baseUrl numPostsPerPage doc part := by
  rw [addPart, Sitemap.addPart, erase_withStmt]
  simp only [counting_bind, counting_execute, counting_whileFetch]

theorem erase_urlset (hostname : Bytes) :
    (do dbConnHolder pool; erase (urlset pool hostname)) = Sitemap.urlset pool hostname := by
  rw [urlset, Sitemap.urlset]
  simp only [erase_bind, erase_getBaseUrl, erase_getNumPostsPerPage]
  congr 1
  funext _
  congr 1
  funext baseUrl
  congr 1
  funext numPostsPerPage
  rw [erase, mapOut_foldlM]
  congr 1
  funext doc part
  exact erase_addPart _ _ _ _

theorem erase_sitemapHandle (sites : Sitemap.PoolContainer) (xml : Libxml) (request : Request) :
    erase (sitemapHandle sites xml request) = Sitemap.handle sites xml request := by
  unfold sitemapHandle Sitemap.handle
  dsimp only
  cases sites[request.getFcgiParam serverName]? with
  | none => exact erase_writing _
  | some pool =>
    dsimp only
    rw [← erase_urlset, bind_assoc]
    refine erase_catching.trans ?_
    rw [erase_withConn, erase_bind]
    simp only [erase_writing]

theorem erase_handle (handler : Handler) (xml : Libxml) (request : Request) :
    erase (handle handler xml request) = handler.handle xml request := by
  cases handler with
  | wp pool => exact erase_wpHandle xml request
  | sitemap sites => exact erase_sitemapHandle sites xml request

theorem erase_tryInvoke (server : FcgiServer Handler) (xml : Libxml) (request : Request) :
    erase (tryInvoke server xml request) = Handlers.tryInvoke server xml request := by
  unfold tryInvoke Handlers.tryInvoke
  cases fcgxGetParam scriptName request.envp with
  | none => rfl
  | some _ =>
    dsimp only
    rw [Dispatch.invokeHandler_eq, Dispatch.invokeHandler_eq]
    cases (exactHandler server request.getScriptName).or (prefixHandler server request.getScriptName) with
    | none => rfl
    | some handler => exact erase_handle handler xml request

/-- What is written does not depend on whether the other calls are recorded. -/
theorem erase_workerTurn (server : FcgiServer Handler) (xml : Libxml) (request : Request) :
    erase (workerTurn server xml request) = Handlers.workerTurn server xml request := by
  rw [Handlers.workerTurn, ← erase_tryInvoke]
  exact erase_catching

end

end Traced

end FcgiAppserver.Handlers
