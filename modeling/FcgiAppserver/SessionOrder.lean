import FcgiAppserver.SessionTurns

namespace FcgiAppserver.Handlers

open ByteStrings Dispatch ScopedEffects ScopedEffects.Act TransitionRuns Xml

/-- What a thread holds: nothing, a connection, or a connection and one statement of it. -/
inductive Session
  | idle
  | connected
  | prepared
  | fetching
  -- the statement was executed in vain, or its rows are used up
  | exhausted
  -- a handle was opened and not prepared, and nothing closes it
  | leaking
deriving DecidableEq

/-- The order that the pool and the database's client library ask for. -/
def Session.step : Session → Effect → Except Effect Session
  | s, .write _ => .ok s
  | .idle, .get succeeds => .ok (if succeeds then .connected else .idle)
  | .connected, .put => .ok .idle
  | .leaking, .put => .ok .idle
  | .connected, .prepare _ succeeds => .ok (if succeeds then .prepared else .leaking)
  | .prepared, .execute succeeds => .ok (if succeeds then .fetching else .exhausted)
  | .fetching, .fetch fetched => .ok (if fetched = .row then .fetching else .exhausted)
  | .prepared, .close => .ok .connected
  | .fetching, .close => .ok .connected
  | .exhausted, .close => .ok .connected
  | _, e => .error e

def Session.conns : Session → ℕ
  | .idle => 0
  | _ => 1

def Session.stmts : Session → ℕ
  | .idle => 0
  | .connected => 0
  | .leaking => 0
  | _ => 1

def Session.sound : Session → ℕ
  | .idle => 0
  | .leaking => 0
  | _ => 1

def Session.HasStmt (s : Session) : Prop := s.stmts = 1

/-- Without a statement a connection is put back. -/
def Session.Returnable (s : Session) : Prop := s = .connected ∨ s = .leaking

def Effect.opens : Effect → Bool
  | .prepare _ _ => true
  | _ => false

def Effect.leaks : Effect → Bool
  | .prepare _ prepared => !prepared
  | _ => false

structure Accounted (s : Session) (out : List Effect) (s' : Session) : Prop where
  conns : out.count (.get true) + s.conns = out.count .put + s'.conns
  stmts : out.countP Effect.opens + s.stmts = out.count .close + out.countP Effect.leaks + s'.stmts
  leaks : out.countP Effect.leaks + s'.sound ≤ out.count (.get true) + s.sound

theorem accounted_step {s s' : Session} {e : Effect} (h : s.step e = .ok s') : Accounted s [e] s' := by
  unfold Session.step at h
  split at h <;> cases h
  · exact ⟨by simp, by simp [Effect.opens, Effect.leaks], by simp [Effect.leaks]⟩
  · rename_i succeeds
    cases succeeds <;> exact ⟨by decide, by decide, by decide⟩
  · exact ⟨by decide, by decide, by decide⟩
  · exact ⟨by decide, by decide, by decide⟩
  · rename_i q succeeds
    cases succeeds <;> exact ⟨by simp [Session.conns], by simp [Effect.opens, Effect.leaks, Session.stmts],
      by simp [Effect.leaks, Session.sound]⟩
  · rename_i succeeds
    cases succeeds <;> exact ⟨by decide, by decide, by decide⟩
  · rename_i fetched
    cases fetched <;> exact ⟨by decide, by decide, by decide⟩
  · exact ⟨by decide, by decide, by decide⟩
  · exact ⟨by decide, by decide, by decide⟩
  · exact ⟨by decide, by decide, by decide⟩

theorem accounted_run {s s' : Session} {out : List Effect} (h : exec Session.step s out = .ok s') :
    Accounted s out s' := by
  induction out generalizing s with
  | nil =>
    cases h
    exact ⟨rfl, rfl, Nat.le_refl _⟩
  | cons e out ih =>
    obtain ⟨s1, hs1, hrest⟩ := exec_cons_ok.mp h
    obtain ⟨hconns, hstmts, hleaks⟩ := accounted_step hs1
    obtain ⟨hconns', hstmts', hleaks'⟩ := ih hrest
    rw [← List.singleton_append]
    constructor
    · rw [List.count_append, List.count_append]
      omega
    · rw [List.count_append, List.countP_append, List.countP_append]
      omega
    · rw [List.count_append, List.countP_append]
      omega

/-- Calls in the order that the monitor asks for, of a thread that has nothing before and nothing after them. -/
structure Orderly (out : List Effect) : Prop where
  followed : exec Session.step .idle out = .ok .idle
  conns : out.count (.get true) = out.count .put
  stmts : out.countP Effect.opens = out.count .close + out.countP Effect.leaks
  leaks : out.countP Effect.leaks ≤ out.count (.get true)

theorem orderly_of_followed {out : List Effect} (h : exec Session.step .idle out = .ok .idle) : Orderly out where
  followed := h
  conns := Nat.add_right_cancel (accounted_run h).conns
  stmts := Nat.add_right_cancel (accounted_run h).stmts
  leaks := (accounted_run h).leaks

namespace Traced

variable {α β : Type} {pool : Pool}

/-- In the state `s` the monitor follows the computation, which leaves it in `s` however it ends. -/
def Keeps (s : Session) (x : Act α) : Prop := Triple Session.step (· = s) x (fun _ => (· = s)) (· = s)

/-- The block of a connection, which an exception may leave with a lost handle. -/
def InConn (x : Act α) : Prop :=
  Triple Session.step (· = .connected) x (fun _ => (· = .connected)) Session.Returnable

/-- The block of a statement, which need not leave rows unfetched or fetched. -/
def InStmt (s : Session) (x : Act α) : Prop := Triple Session.step (· = s) x (fun _ => Session.HasStmt) Session.HasStmt

theorem step_write (s : Session) (w : Write) : Session.step s (.write w) = .ok s := by
  cases s <;> rfl

theorem step_close {s : Session} (hs : s.HasStmt) : Session.step s .close = .ok .connected := by
  cases s with
  | idle => cases hs
  | connected => cases hs
  | leaking => cases hs
  | prepared => rfl
  | fetching => rfl
  | exhausted => rfl

theorem keeps_pure (s : Session) (a : α) : Keeps s (pure a : Act α) := triple_pure (fun _ hs => hs)

theorem keeps_raise (s : Session) (e : Exception) : Keeps s (raise e : Act α) := triple_raise (fun _ hs => hs)

theorem keeps_bind {s : Session} {x : Act α} {f : α → Act β} (hx : Keeps s x) (hf : ∀ a, Keeps s (f a)) :
    Keeps s (x >>= f) := triple_bind hx hf

theorem keeps_writing (s : Session) (x : Handlers.Act α) : Keeps s (writing x) := by
  apply triple_ignored
  intro e he t
  obtain ⟨w, -, hw⟩ := List.mem_flatMap.mp he
  rw [List.mem_singleton.mp hw]
  exact step_write t w

theorem keeps_caught {s : Session} {x : Act α} {handler : Exception → Option (Act α)} (hx : Keeps s x)
    (hhandler : ∀ e y, handler e = some y → Keeps s y) : Keeps s (x.catching handler) := triple_catching hx hhandler

theorem keeps_onDbException {s : Session} {x : Act Unit} (hx : Keeps s x) : Keeps s (x.catching onDbException) := by
  apply keeps_caught hx
  intro e y hy
  obtain ⟨z, -, rfl⟩ := Option.map_eq_some_iff.mp hy
  exact keeps_writing s z

theorem step_put {s : Session} (hs : s.Returnable) : Session.step s .put = .ok .idle := by
  rcases hs with rfl | rfl
  · rfl
  · rfl

theorem keeps_withConn {block : Act α} (h : InConn block) : Keeps .idle (withConn pool block) := by
  rw [withConn]
  cases pool.connectFails with
  | none =>
    apply triple_bracket h
    · rintro s rfl
      exact ⟨.connected, rfl, rfl⟩
    · rintro a s rfl
      exact ⟨.idle, rfl, rfl⟩
    · intro s hs
      exact ⟨.idle, step_put hs, rfl⟩
  | some e =>
    apply triple_bind (R := fun _ => (· = .idle))
    · apply triple_write
      rintro s rfl
      exact ⟨.idle, rfl, rfl⟩
    · intro _
      exact keeps_raise _ _

theorem inConn_withStmt {q : Query} {block : Stmt → Act α} (h : InStmt .prepared (block (pool.stmt q))) :
    InConn (withStmt pool q block) := by
  rw [withStmt]
  cases (pool.stmt q).prepareFails with
  | none =>
    apply triple_inScope
    · apply triple_bracket (triple_killed h)
      · rintro s rfl
        exact ⟨.prepared, rfl, rfl⟩
      · intro a s hs
        exact ⟨.connected, step_close hs, rfl⟩
      · intro s hs
        exact ⟨.connected, step_close hs, Or.inl rfl⟩
    · exact fun _ _ _ hs => Or.inl hs
  | some e =>
    apply triple_bind (R := fun _ => (· = .leaking))
    · apply triple_write
      rintro s rfl
      exact ⟨.leaking, rfl, rfl⟩
    · intro _
      exact triple_raise (fun _ hs => Or.inr hs)

theorem inConn_bind {x : Act α} {f : α → Act β} (hx : InConn x) (hf : ∀ a, InConn (f a)) : InConn (x >>= f) :=
  triple_bind hx hf

theorem inConn_writing (x : Handlers.Act α) : InConn (writing x) :=
  triple_imp (keeps_writing .connected x) (fun _ hs => hs) (fun _ _ hs => hs) (fun _ hs => Or.inl hs)

theorem triple_execute (stmt : Stmt) :
    Triple Session.step (· = .prepared) (execute stmt) (fun _ => (· = .fetching)) Session.HasStmt := by
  rw [execute]
  split
  · exact (triple_dead rfl).mpr (fun s _ => ⟨s, rfl⟩)
  · cases stmt.executeFails with
    | none =>
      apply triple_bind (R := fun _ => (· = .fetching))
      · apply triple_write
        rintro s rfl
        exact ⟨.fetching, rfl, rfl⟩
      · intro _
        exact triple_pure (fun _ hs => hs)
    | some e =>
      apply triple_bind (R := fun _ => (· = .exhausted))
      · apply triple_write
        rintro s rfl
        exact ⟨.exhausted, rfl, rfl⟩
      · intro _
        apply triple_raise
        rintro s rfl
        rfl

theorem triple_fetchEnd (stmt : Stmt) :
    Triple Session.step (· = .fetching) (fetchEnd stmt) (fun _ => Session.HasStmt) Session.HasStmt := by
  apply triple_bind (R := fun _ => (· = .exhausted))
  · apply triple_write
    rintro s rfl
    cases stmt.fetchFails with
    | none => exact ⟨.exhausted, rfl, rfl⟩
    | some e => exact ⟨.exhausted, rfl, rfl⟩
  · intro _
    apply triple_failing
    · rintro - s rfl
      exact rfl
    · rintro - s rfl
      exact rfl

theorem triple_fetchRow : Triple Session.step (· = .fetching) (write (.fetch .row) : Act Unit) (fun _ => (· = .fetching))
    Session.HasStmt := by
  apply triple_write
  rintro s rfl
  exact ⟨.fetching, rfl, rfl⟩

theorem inStmt_fetch (stmt : Stmt) : InStmt .fetching (fetch stmt) := by
  rw [fetch]
  cases stmt.rows with
  | nil => exact triple_bind (triple_fetchEnd stmt) (fun _ => triple_pure (fun _ hs => hs))
  | cons row rows =>
    apply triple_bind triple_fetchRow
    intro _
    apply triple_pure
    rintro s rfl
    exact rfl

theorem inStmt_whileFetch (stmt : Stmt) (step : β → Row → Handlers.Act β) (b : β) :
    InStmt .fetching (whileFetch stmt (fun b row => writing (step b row)) b) := by
  rw [whileFetch]
  apply triple_bind (R := fun _ => (· = .fetching))
  · apply triple_foldlM
    intro b' row
    apply triple_bind triple_fetchRow
    intro _
    apply triple_imp (keeps_writing .fetching (step b' row))
    · exact fun _ hs => hs
    · exact fun _ _ hs => hs
    · rintro s rfl
      exact rfl
  · intro b'
    exact triple_bind (triple_fetchEnd stmt) (fun _ => triple_pure (fun _ hs => hs))

/-- With a statement open, what only writes or reads columns leaves it open. -/
theorem inStmt_bind {s : Session} {x : Act α} {f : α → Act β} (hx : InStmt s x)
    (hf : ∀ a t, t.HasStmt → Keeps t (f a)) : InStmt s (x >>= f) := by
  apply triple_bind hx
  intro a t ht
  obtain ⟨t', hexec, hdone, hthrown⟩ := hf a t ht t rfl
  refine ⟨t', hexec, ?_, ?_⟩
  · intro b hb
    rw [hdone b hb]
    exact ht
  · intro hthrows
    rw [hthrown hthrows]
    exact ht

theorem inStmt_executed {stmt : Stmt} {f : Unit → Act α} (h : InStmt .fetching (f ())) :
    InStmt .prepared (execute stmt >>= f) := triple_bind (triple_execute stmt) (fun _ => h)

theorem keeps_blogroll (xml : Libxml) (request : Request) : Keeps .idle (blogroll pool xml request) := by
  apply keeps_withConn
  apply inConn_withStmt
  apply inStmt_bind
  · exact inStmt_executed (inStmt_whileFetch _ _ _)
  · intro posts t _
    exact keeps_writing t _

theorem inConn_firstRow (q : Query) (read : Option Row → Handlers.Act α) : InConn (firstRow pool q read) := by
  apply inConn_withStmt
  apply inStmt_executed
  apply inStmt_bind (inStmt_fetch _)
  intro row t _
  exact keeps_writing t _

theorem keeps_lookup (name : Bytes) : Keeps .idle (lookup pool name) := keeps_withConn (inConn_firstRow _ _)

theorem keeps_post (xml : Libxml) (request : Request) (name : Bytes) : Keeps .idle (post pool xml request name) :=
  keeps_withConn (inConn_firstRow _ _)

theorem keeps_wpHandle (xml : Libxml) (request : Request) : Keeps .idle (wpHandle pool xml request) := by
  unfold wpHandle
  dsimp only
  split_ifs
  · exact keeps_onDbException (keeps_blogroll xml request)
  · exact keeps_onDbException (keeps_lookup _)
  · exact keeps_onDbException (keeps_lookup _)
  · apply keeps_bind
    · apply keeps_caught (keeps_post xml request _)
      intro e y hy
      obtain ⟨z, hz, rfl⟩ := Option.map_eq_some_iff.mp hy
      obtain ⟨w, -, rfl⟩ := Option.map_eq_some_iff.mp hz
      exact keeps_bind (keeps_writing _ _) (fun _ => keeps_pure _ true)
    · intro found
      cases found with
      | true => exact keeps_pure _ ()
      | false => exact keeps_writing _ _

theorem inConn_addPart (baseUrl : Bytes) (numPostsPerPage : UInt64) (doc : XMLDoc) (part : Sitemap.Part) :
    InConn (addPart pool baseUrl numPostsPerPage doc part) := by
  apply inConn_withStmt
  exact inStmt_executed (inStmt_whileFetch _ _ _)

theorem inConn_urlset (hostname : Bytes) : InConn (urlset pool hostname) := by
  apply inConn_bind (inConn_firstRow _ _)
  intro baseUrl
  apply inConn_bind (inConn_firstRow _ _)
  intro numPostsPerPage
  exact triple_foldlM (inConn_addPart baseUrl numPostsPerPage) _ _

theorem keeps_sitemapHandle (sites : Sitemap.PoolContainer) (xml : Libxml) (request : Request) :
    Keeps .idle (sitemapHandle sites xml request) := by
  unfold sitemapHandle
  dsimp only
  cases sites[request.getFcgiParam serverName]? with
  | none => exact keeps_writing _ _
  | some pool =>
    apply keeps_onDbException
    apply keeps_withConn
    apply inConn_bind (inConn_urlset _)
    intro doc
    exact inConn_writing _

theorem keeps_tryInvoke (server : FcgiServer Handler) (xml : Libxml) (request : Request) :
    Keeps .idle (tryInvoke server xml request) := by
  unfold tryInvoke
  cases fcgxGetParam scriptName request.envp with
  | none => exact keeps_raise _ _
  | some _ =>
    dsimp only
    rw [Dispatch.invokeHandler_eq]
    cases (exactHandler server request.getScriptName).or (prefixHandler server request.getScriptName) with
    | none => exact keeps_raise _ _
    | some handler =>
      cases handler with
      | wp pool => exact keeps_wpHandle xml request
      | sitemap sites => exact keeps_sitemapHandle sites xml request

theorem keeps_workerTurn (server : FcgiServer Handler) (xml : Libxml) (request : Request) :
    Keeps .idle (workerTurn server xml request) := by
  apply keeps_caught (keeps_tryInvoke server xml request)
  intro e y hy
  obtain ⟨z, -, rfl⟩ := Option.map_eq_some_iff.mp hy
  exact keeps_writing _ _

/-- A turn that comes to an end leaves the monitor where it was. -/
theorem workerTurn_followed (server : FcgiServer Handler) (xml : Libxml) (request : Request) :
    ∃ s, exec Session.step .idle (workerTurn server xml request).out = .ok s ∧
      ((∀ d, (workerTurn server xml request).ending ≠ .dead d) → s = .idle) := by
  obtain ⟨s, hexec, hdone, hthrown⟩ := keeps_workerTurn server xml request .idle rfl
  refine ⟨s, hexec, ?_⟩
  intro hlives
  cases hend : (workerTurn server xml request).ending with
  | done a => exact hdone a hend
  | thrown e => exact hthrown ⟨e, hend⟩
  | dead d => exact absurd hend (hlives d)

end Traced

def Wp.firstQuery (scriptName : Bytes) : Query :=
  if scriptName = ascii "/" ∨ scriptName = [] then blogrollQuery
  else if find scriptName categoryPath 0 = 0 then idQuery (scriptName.drop categoryPath.length)
  else if find scriptName authorPath 0 = 0 then idQuery (scriptName.drop authorPath.length)
  else postQuery (scriptName.drop 1)

/-- The pool that a handler turns to for a request, and the first query. -/
def Handler.asks (handler : Handler) (request : Request) : Option (Pool × Query) :=
  match handler with
  | .wp pool => some (pool, Wp.firstQuery (request.getFcgiParam scriptName))
  | .sitemap sites => sites[request.getFcgiParam serverName]?.map (fun pool => (pool, Sitemap.homeQuery))

def opening (pool : Pool) (q : Query) : List Effect :=
  .get pool.connectFails.isNone ::
    if pool.connectFails = none then [.prepare q (pool.reply q).prepareFails.isNone] else []

namespace Traced

section

variable {α β : Type} {pool : Pool} {q : Query}

theorem withStmt_prepares (block : Stmt → Act α) :
    [.prepare q (pool.reply q).prepareFails.isNone] <+: (withStmt pool q block).out := by
  have hreply : (pool.reply q).prepareFails = (pool.stmt q).prepareFails := rfl
  rw [withStmt, hreply]
  cases (pool.stmt q).prepareFails with
  | none =>
    dsimp only
    rw [inScope_out]
    exact (List.prefix_append [_] _).trans (prefix_bracket _ _ _)
  | some e =>
    dsimp only
    exact prefix_bind (write (Effect.prepare q false)) _

theorem firstRow_prepares (read : Option Row → Handlers.Act α) :
    [.prepare q (pool.reply q).prepareFails.isNone] <+: (firstRow pool q read).out := withStmt_prepares _

theorem withConn_opens {block : Act α} (h : [.prepare q (pool.reply q).prepareFails.isNone] <+: block.out) :
    opening pool q <+: (withConn pool block).out := by
  rw [opening, withConn]
  cases pool.connectFails with
  | none =>
    rw [if_pos rfl]
    exact ((List.prefix_cons_inj _).mpr h).trans (prefix_bracket _ _ _)
  | some e =>
    rw [if_neg (Option.some_ne_none e)]
    exact prefix_bind (write (Effect.get false)) _

theorem wpHandle_opens (xml : Libxml) (request : Request) :
    opening pool (Wp.firstQuery (request.getFcgiParam scriptName)) <+: (wpHandle pool xml request).out := by
  unfold wpHandle Wp.firstQuery
  dsimp only
  split_ifs
  · exact (withConn_opens (withStmt_prepares _)).trans (prefix_catching _ _)
  · exact (withConn_opens (withStmt_prepares _)).trans (prefix_catching _ _)
  · exact (withConn_opens (withStmt_prepares _)).trans (prefix_catching _ _)
  · have hpost : opening pool _ <+: (post pool xml request ((request.getFcgiParam scriptName).drop 1)).out :=
      withConn_opens (withStmt_prepares _)
    exact (hpost.trans (prefix_catching _ _)).trans (prefix_bind _ _)

theorem sitemapHandle_opens {sites : Sitemap.PoolContainer} (xml : Libxml) {request : Request}
    (hsite : sites[request.getFcgiParam serverName]? = some pool) :
    opening pool Sitemap.homeQuery <+: (sitemapHandle sites xml request).out := by
  unfold sitemapHandle
  dsimp only
  rw [hsite]
  have hurlset : [.prepare Sitemap.homeQuery (pool.reply Sitemap.homeQuery).prepareFails.isNone] <+:
      (urlset pool (request.getFcgiParam serverName)).out := by
    rw [urlset, getBaseUrl]
    exact (firstRow_prepares _).trans (prefix_bind _ _)
  exact (withConn_opens (hurlset.trans (prefix_bind _ _))).trans (prefix_catching _ _)

end

theorem workerTurn_opens (server : FcgiServer Handler) (xml : Libxml) (request : Request) {handler : Handler}
    {pool : Pool} {q : Query} (hname : (fcgxGetParam scriptName request.envp).isSome)
    (hfor : handlerFor server request.getScriptName = some handler) (hasks : handler.asks request = some (pool, q)) :
    opening pool q <+: (workerTurn server xml request).out := by
  refine List.IsPrefix.trans ?_ (prefix_catching _ _)
  obtain ⟨name, hname⟩ := Option.isSome_iff_exists.mp hname
  rw [tryInvoke, hname]
  dsimp only
  rw [Dispatch.invokeHandler_eq]
  rw [handlerFor] at hfor
  rw [hfor]
  cases handler with
  | wp pool =>
    cases hasks
    exact wpHandle_opens xml request
  | sitemap sites =>
    obtain ⟨pool, hsite, hpair⟩ := Option.map_eq_some_iff.mp hasks
    cases hpair
    exact sitemapHandle_opens xml hsite

/-- What a turn leaves open unless it dies: the handle of a statement that was not prepared. -/
theorem turn_session (server : FcgiServer Handler) (xml : Libxml) (request : Request) :
    erase (workerTurn server xml request) = Handlers.workerTurn server xml request ∧
      (∃ s, exec Session.step .idle (workerTurn server xml request).out = .ok s) ∧
      ((∀ d, (workerTurn server xml request).ending ≠ .dead d) → Orderly (workerTurn server xml request).out) ∧
      (∀ handler pool q, (fcgxGetParam scriptName request.envp).isSome →
        handlerFor server request.getScriptName = some handler → handler.asks request = some (pool, q) →
        opening pool q <+: (workerTurn server xml request).out) := by
  obtain ⟨s, hexec, hidle⟩ := workerTurn_followed server xml request
  refine ⟨erase_workerTurn server xml request, ⟨s, hexec⟩, ?_, ?_⟩
  · intro hlives
    rw [hidle hlives] at hexec
    exact orderly_of_followed hexec
  · intro handler pool q hname hfor hasks
    exact workerTurn_opens server xml request hname hfor hasks

end Traced

end FcgiAppserver.Handlers
