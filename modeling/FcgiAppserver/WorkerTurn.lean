import FcgiAppserver.HandlerDispatch
import FcgiAppserver.SitemapAnswers
import FcgiAppserver.WpHandler

namespace FcgiAppserver.Handlers

open ByteStrings Dispatch Formdata ScopedEffects ScopedEffects.Act Xml

/-- The handlers that `worker_process` maps, with what their databases do in the turn. -/
inductive Handler
  | wp (pool : Pool)
  | sitemap (sites : Sitemap.PoolContainer)

def Handler.handle (handler : Handler) (xml : Libxml) (request : Request) : Act Unit :=
  match handler with
  | .wp pool => Wp.handle pool xml request
  | .sitemap sites => Sitemap.handle sites xml request

instance : MonadExceptOf FcgiException Act where
  throw e := raise (.fcgi e)
  tryCatch x handler := x.catching fun
    | .fcgi e => some (handler e)
    | _ => none

def tryInvoke (server : FcgiServer Handler) (xml : Libxml) (request : Request) : Act Unit :=
  match fcgxGetParam scriptName request.envp with
  | none => raise (.std (ascii "HTTP server is not configured to pass SCRIPT_NAME variable"))
  | some _ => invokeHandler server (fun handler => handler.handle xml request) request.getScriptName

def workerTurn (server : FcgiServer Handler) (xml : Libxml) (request : Request) : Act Unit :=
  (tryInvoke server xml request).catching onException

def handlerFor (server : FcgiServer Handler) (uri : Bytes) : Option Handler :=
  (exactHandler server uri).or (prefixHandler server uri)

def Handler.AnswersWhen (handler : Handler) (xml : Libxml) (request : Request) : Prop :=
  match handler with
  | .wp pool => Wp.HandleAnswers pool xml (request.getFcgiParam scriptName)
  | .sitemap sites => Sitemap.HandleAnswers sites xml (request.getFcgiParam serverName)

theorem Handler.handle_answers (handler : Handler) (xml : Libxml) (request : Request) :
    Answers ((handler.handle xml request).catching onException) ↔ handler.AnswersWhen xml request := by
  cases handler with
  | wp pool => exact Wp.handle_answers
  | sitemap sites => exact Sitemap.handle_answers

theorem raise_answers (e : Exception) : Answers ((raise e : Act Unit).catching onException) :=
  (answers_onException (Or.inl rfl)).mpr (Or.inl ⟨⟨e, rfl⟩, rfl⟩)

theorem invokeHandler_eq (server : FcgiServer Handler) (handle : Handler → Act Unit) (uri : Bytes) :
    invokeHandler server handle uri =
      match handlerFor server uri with
      | some handler => handle handler
      | none => raise (.fcgi (noHandlers uri)) := by
  rw [invokeHandler, handlerFor]
  cases exactHandler server uri with
  | some handler => rfl
  | none =>
    cases prefixHandler server uri with
    | some handler => rfl
    | none => rfl

/-- A turn makes one response if and only if the handler it finds, if any, meets its own condition. -/
theorem workerTurn_answers_iff (server : FcgiServer Handler) (xml : Libxml) (request : Request) :
    Answers (workerTurn server xml request) ↔
      ((fcgxGetParam scriptName request.envp).isSome → ∀ handler, handlerFor server request.getScriptName = some handler →
        handler.AnswersWhen xml request) := by
  rw [workerTurn, tryInvoke]
  cases fcgxGetParam scriptName request.envp with
  | none => exact iff_of_true (raise_answers _) (fun h => absurd h (by simp))
  | some _ =>
    dsimp only
    rw [invokeHandler_eq]
    cases handlerFor server request.getScriptName with
    | none => exact iff_of_true (raise_answers _) (fun _ _ h => by cases h)
    | some handler =>
      simp only [Option.some.injEq, forall_eq', Option.isSome_some, forall_const]
      exact handler.handle_answers xml request

def noRows : Reply := ⟨none, none, [], none, none, [], fun _ _ => 0, .error⟩

def idlePool : Pool := ⟨none, fun _ => noRows⟩

def wpServer : FcgiServer Handler := addHandlerMappings [(ascii "/", some (.wp idlePool))]

def getRequest (script : Bytes) : Request := ⟨fun name => if name = scriptName then some script else none, ∅⟩

def libxml (fails : Bool) : Libxml := ⟨fails, fun _ => ascii "<page/>"⟩

/-- A page that cannot be dumped is answered twice, and a category is not answered. -/
theorem page_answered_twice :
    (workerTurn wpServer (libxml true) (getRequest (ascii "/"))).out.countP Write.isStatus = 2 ∧
      ¬ Answers (workerTurn wpServer (libxml true) (getRequest (ascii "/"))) ∧
      (workerTurn wpServer (libxml false) (getRequest (ascii "/category/news"))).out = [] ∧
      ¬ Answers (workerTurn wpServer (libxml false) (getRequest (ascii "/category/news"))) := by
  have htwo : (workerTurn wpServer (libxml true) (getRequest (ascii "/"))).out.countP Write.isStatus = 2 := by
    decide +kernel
  have hnone : (workerTurn wpServer (libxml false) (getRequest (ascii "/category/news"))).out = [] := by
    decide +kernel
  refine ⟨htwo, ?_, hnone, ?_⟩
  · rintro ⟨-, status, headers, body, -, heq⟩
    rw [heq, statuses_response] at htwo
    cases htwo
  · rintro ⟨-, hone⟩
    rw [hnone] at hone
    exact not_oneResponse_nil hone

end FcgiAppserver.Handlers
