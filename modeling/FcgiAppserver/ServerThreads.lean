import FcgiAppserver.PoolOwnership
import FcgiAppserver.SessionOrder

namespace FcgiAppserver.Server

open Db Dispatch Handlers ScopedEffects TransitionRuns Xml

abbrev numWorkers : ℕ := 5

instance : NeZero numWorkers := ⟨Nat.succ_ne_zero 4⟩

abbrev Thread := Fin numWorkers

/-- What a thread does for one request: its calls in their order, and whether it dies of them. -/
structure Turn where
  effects : List Effect
  dies : Bool
  followed : ∃ s, exec Session.step .idle effects = .ok s ∧ (dies = false → s = .idle)

def endingDies : Ending Exception Death Unit → Bool
  | .dead _ => true
  | _ => false

def turnOf (server : FcgiServer Handler) (xml : Libxml) (request : Request) : Turn where
  effects := (Traced.workerTurn server xml request).out
  dies := endingDies (Traced.workerTurn server xml request).ending
  followed := by
    obtain ⟨s, hexec, hidle⟩ := Traced.workerTurn_followed server xml request
    refine ⟨s, hexec, ?_⟩
    intro hlives
    apply hidle
    intro d hd
    rw [hd] at hlives
    cases hlives

/-- A request in the work of a thread: `conn` is that of its `DBConnHolder`, `waits` tells whether it is in
`pthread_cond_wait`. -/
structure Serving where
  number : ℕ
  turn : Turn
  made : List Effect
  rest : List Effect
  conn : Option Conn
  waits : Bool

def Serving.start (number : ℕ) (turn : Turn) : Serving := ⟨number, turn, [], turn.effects, none, false⟩

def Serving.call (sv : Serving) (e : Effect) (rest : List Effect) (conn : Option Conn) : Serving :=
  { sv with made := sv.made ++ [e], rest := rest, conn := conn, waits := false }

def Serving.written (sv : Serving) : List Write := sv.made.flatMap Effect.written

inductive ThreadPc
  | testing
  | locking
  | accepting
  | unlocking (rc : Option (ℕ × Turn))
  | serving (sv : Serving)
  | terminated

/-- The server while `run` runs. Requests are numbered in the order in which they are accepted. -/
structure ServerState where
  exiting : Bool
  acceptMutex : Option Thread
  threads : Thread → ThreadPc
  pool : DBPool Thread
  accepted : List Turn
  finished : List (ℕ × List Write)

inductive ServerEvent
  | exit
  | accepts (t : Thread) (rc : Option Turn)
  | thread (t : Thread) (now : ℤ) (woken : Thread)
  | maintenance (now : ℤ)

inductive Halt
  | stuck (cause : Stuck)
  | died
deriving DecidableEq

namespace ServerState

def start (maxConnections : UInt64) : ServerState where
  exiting := false
  acceptMutex := none
  threads := fun _ => .testing
  pool := newPool maxConnections
  accepted := []
  finished := []

def setThread (s : ServerState) (t : Thread) (pc : ThreadPc) : ServerState :=
  { s with threads := Function.update s.threads t pc }

/-- `FCGX_Accept_r` returns to a thread: with a request, or with an error. -/
def accepts (s : ServerState) (t : Thread) (rc : Option Turn) : Except Halt ServerState :=
  match s.threads t, rc with
  | .accepting, some turn => .ok { s.setThread t (.unlocking (some (s.accepted.length, turn))) with
      accepted := s.accepted ++ [turn] }
  | .accepting, none => .ok (s.setThread t (.unlocking none))
  | _, _ => .error (.stuck .notEnabled)

def callGet (s : ServerState) (t : Thread) (sv : Serving) (connected : Bool) (rest : List Effect) (now : ℤ) :
    Except Halt ServerState :=
  match s.pool.get t connected now with
  | .ok (.got conn, pool) =>
    -- a turn in which `get` throws is none in which it finds a connection
    if connected then .ok { s.setThread t (.serving (sv.call (.get true) rest (some conn))) with pool := pool }
    else .error (.stuck .notEnabled)
  | .ok (.waits, pool) =>
    if connected then .ok { s.setThread t (.serving { sv with waits := true }) with pool := pool }
    else .error (.stuck .notEnabled)
  | .ok (.thrown, pool) => .ok { s.setThread t (.serving (sv.call (.get connected) rest none)) with pool := pool }
  | .error cause => .error (.stuck cause)

def callResume (s : ServerState) (t : Thread) (sv : Serving) (connected : Bool) (rest : List Effect) (now : ℤ) :
    Except Halt ServerState :=
  match s.pool.resume t now with
  | .ok (conn, pool) => .ok { s.setThread t (.serving (sv.call (.get connected) rest (some conn))) with pool := pool }
  | .error cause => .error (.stuck cause)

def callPut (s : ServerState) (t : Thread) (sv : Serving) (rest : List Effect) (now : ℤ) (woken : Thread) :
    Except Halt ServerState :=
  match sv.conn with
  | some conn =>
    match s.pool.put t conn now woken with
    | .ok pool => .ok { s.setThread t (.serving (sv.call .put rest none)) with pool := pool }
    | .error cause => .error (.stuck cause)
  | none => .error (.stuck .notEnabled)

/-- The next call of a turn, or `FCGX_Finish_r` after the last. -/
def serve (s : ServerState) (t : Thread) (sv : Serving) (now : ℤ) (woken : Thread) : Except Halt ServerState :=
  match sv.rest with
  | [] =>
    if sv.turn.dies then .error .died
    else .ok { s.setThread t .testing with finished := s.finished ++ [(sv.number, sv.written)] }
  | .get connected :: rest =>
    if sv.waits then s.callResume t sv connected rest now else s.callGet t sv connected rest now
  | .put :: rest => s.callPut t sv rest now woken
  | e :: rest => .ok (s.setThread t (.serving (sv.call e rest sv.conn)))

def threadStep (s : ServerState) (t : Thread) (now : ℤ) (woken : Thread) : Except Halt ServerState :=
  match s.threads t with
  | .testing => .ok (s.setThread t (if s.exiting then .terminated else .locking))
  | .locking =>
    if s.acceptMutex = none then .ok { s.setThread t .accepting with acceptMutex := some t }
    else .error (.stuck .blocked)
  | .accepting => .error (.stuck .blocked)
  | .unlocking none => .ok { s.setThread t .terminated with acceptMutex := none }
  | .unlocking (some (number, turn)) => .ok { s.setThread t (.serving (.start number turn)) with acceptMutex := none }
  | .serving sv => s.serve t sv now woken
  | .terminated => .error (.stuck .notEnabled)

def step (s : ServerState) : ServerEvent → Except Halt ServerState
  | .exit => .ok { s with exiting := true }
  | .accepts t rc => s.accepts t rc
  | .thread t now woken => s.threadStep t now woken
  | .maintenance now =>
    match s.pool.maintenance now with
    | .ok pool => .ok { s with pool := pool }
    | .error cause => .error (.stuck cause)

end ServerState

def onPool : Effect → Bool
  | .get _ => true
  | .put => true
  | _ => false

open ServerState

inductive Stepped (s : ServerState) : ServerEvent → ServerState → Prop
  | exits : Stepped s .exit { s with exiting := true }
  | goesOn (t : Thread) (now : ℤ) (woken : Thread) (hpc : s.threads t = .testing) (hexiting : s.exiting = false) :
      Stepped s (.thread t now woken) (s.setThread t .locking)
  | stops (t : Thread) (now : ℤ) (woken : Thread) (hpc : s.threads t = .testing) (hexiting : s.exiting = true) :
      Stepped s (.thread t now woken) (s.setThread t .terminated)
  | locks (t : Thread) (now : ℤ) (woken : Thread) (hpc : s.threads t = .locking) (hfree : s.acceptMutex = none) :
      Stepped s (.thread t now woken) { s.setThread t .accepting with acceptMutex := some t }
  | accepted (t : Thread) (turn : Turn) (hpc : s.threads t = .accepting) :
      Stepped s (.accepts t (some turn))
        { s.setThread t (.unlocking (some (s.accepted.length, turn))) with accepted := s.accepted ++ [turn] }
  | refused (t : Thread) (hpc : s.threads t = .accepting) :
      Stepped s (.accepts t none) (s.setThread t (.unlocking none))
  | leaves (t : Thread) (now : ℤ) (woken : Thread) (hpc : s.threads t = .unlocking none) :
      Stepped s (.thread t now woken) { s.setThread t .terminated with acceptMutex := none }
  | unlocks (t : Thread) (now : ℤ) (woken : Thread) (number : ℕ) (turn : Turn)
      (hpc : s.threads t = .unlocking (some (number, turn))) :
      Stepped s (.thread t now woken) { s.setThread t (.serving (.start number turn)) with acceptMutex := none }
  | calls (t : Thread) (now : ℤ) (woken : Thread) (sv : Serving) (e : Effect) (rest : List Effect)
      (hpc : s.threads t = .serving sv) (hrest : sv.rest = e :: rest) (he : onPool e = false) :
      Stepped s (.thread t now woken) (s.setThread t (.serving (sv.call e rest sv.conn)))
  | got (t : Thread) (now : ℤ) (woken : Thread) (sv : Serving) (rest : List Effect) (conn : Conn) (pool : DBPool Thread)
      (hpc : s.threads t = .serving sv) (hrest : sv.rest = .get true :: rest) (hwaits : sv.waits = false)
      (hget : s.pool.get t true now = .ok (.got conn, pool)) :
      Stepped s (.thread t now woken)
        { s.setThread t (.serving (sv.call (.get true) rest (some conn))) with pool := pool }
  | failed (t : Thread) (now : ℤ) (woken : Thread) (sv : Serving) (connected : Bool) (rest : List Effect)
      (pool : DBPool Thread) (hpc : s.threads t = .serving sv) (hrest : sv.rest = .get connected :: rest)
      (hwaits : sv.waits = false) (hget : s.pool.get t connected now = .ok (.thrown, pool)) :
      Stepped s (.thread t now woken)
        { s.setThread t (.serving (sv.call (.get connected) rest none)) with pool := pool }
  | waits (t : Thread) (now : ℤ) (woken : Thread) (sv : Serving) (rest : List Effect) (pool : DBPool Thread)
      (hpc : s.threads t = .serving sv) (hrest : sv.rest = .get true :: rest) (hwaits : sv.waits = false)
      (hget : s.pool.get t true now = .ok (.waits, pool)) :
      Stepped s (.thread t now woken) { s.setThread t (.serving { sv with waits := true }) with pool := pool }
  | resumed (t : Thread) (now : ℤ) (woken : Thread) (sv : Serving) (connected : Bool) (rest : List Effect) (conn : Conn)
      (pool : DBPool Thread) (hpc : s.threads t = .serving sv) (hrest : sv.rest = .get connected :: rest)
      (hwaits : sv.waits = true) (hresume : s.pool.resume t now = .ok (conn, pool)) :
      Stepped s (.thread t now woken)
        { s.setThread t (.serving (sv.call (.get connected) rest (some conn))) with pool := pool }
  | puts (t : Thread) (now : ℤ) (woken : Thread) (sv : Serving) (rest : List Effect) (conn : Conn)
      (pool : DBPool Thread) (hpc : s.threads t = .serving sv) (hrest : sv.rest = .put :: rest)
      (hconn : sv.conn = some conn) (hput : s.pool.put t conn now woken = .ok pool) :
      Stepped s (.thread t now woken) { s.setThread t (.serving (sv.call .put rest none)) with pool := pool }
  | finishes (t : Thread) (now : ℤ) (woken : Thread) (sv : Serving) (hpc : s.threads t = .serving sv)
      (hrest : sv.rest = []) (hlives : sv.turn.dies = false) :
      Stepped s (.thread t now woken)
        { s.setThread t .testing with finished := s.finished ++ [(sv.number, sv.written)] }
  | maintained (now : ℤ) (pool : DBPool Thread) (hpass : s.pool.maintenance now = .ok pool) :
      Stepped s (.maintenance now) { s with pool := pool }

variable {s s' : ServerState}

theorem callGet_stepped {t : Thread} {now : ℤ} {woken : Thread} {sv : Serving} {connected : Bool} {rest : List Effect}
    (hpc : s.threads t = .serving sv) (hrest : sv.rest = .get connected :: rest) (hwaits : sv.waits = false)
    (h : s.callGet t sv connected rest now = .ok s') : Stepped s (.thread t now woken) s' := by
  unfold callGet at h
  split at h
  · rename_i conn pool hget
    cases connected with
    | true =>
      cases h
      exact .got t now woken sv rest conn pool hpc hrest hwaits hget
    | false => cases h
  · rename_i pool hget
    cases connected with
    | true =>
      cases h
      exact .waits t now woken sv rest pool hpc hrest hwaits hget
    | false => cases h
  · rename_i pool hget
    cases h
    exact .failed t now woken sv connected rest pool hpc hrest hwaits hget
  · cases h

theorem serve_stepped {t : Thread} {now : ℤ} {woken : Thread} {sv : Serving} (hpc : s.threads t = .serving sv)
    (h : s.serve t sv now woken = .ok s') : Stepped s (.thread t now woken) s' := by
  unfold serve at h
  split at h
  · rename_i hrest
    split at h
    · cases h
    · rename_i hlives
      cases h
      exact .finishes t now woken sv hpc hrest (by simpa using hlives)
  · rename_i connected rest hrest
    split at h
    · rename_i hwaits
      unfold callResume at h
      split at h
      · rename_i conn pool hresume
        cases h
        exact .resumed t now woken sv connected rest conn pool hpc hrest hwaits hresume
      · cases h
    · rename_i hwaits
      exact callGet_stepped hpc hrest (by simpa using hwaits) h
  · rename_i rest hrest
    unfold callPut at h
    split at h
    · rename_i conn hconn
      split at h
      · rename_i pool hput
        cases h
        exact .puts t now woken sv rest conn pool hpc hrest hconn hput
      · cases h
    · cases h
  · rename_i e rest hget hput hrest
    cases h
    refine .calls t now woken sv e rest hpc hrest ?_
    cases e with
    | get connected => exact absurd rfl (hget connected)
    | put => exact absurd rfl hput
    | _ => rfl

theorem threadStep_stepped {t : Thread} {now : ℤ} {woken : Thread} (h : s.threadStep t now woken = .ok s') :
    Stepped s (.thread t now woken) s' := by
  unfold threadStep at h
  split at h <;> rename_i hpc
  · cases h
    cases hexiting : s.exiting with
    | true => exact .stops t now woken hpc hexiting
    | false => exact .goesOn t now woken hpc hexiting
  · split at h
    · rename_i hfree
      cases h
      exact .locks t now woken hpc hfree
    · cases h
  · cases h
  · cases h
    exact .leaves t now woken hpc
  · rename_i number turn
    cases h
    exact .unlocks t now woken number turn hpc
  · exact serve_stepped hpc h
  · cases h

theorem step_stepped {e : ServerEvent} (h : s.step e = .ok s') : Stepped s e s' := by
  cases e with
  | exit =>
    cases h
    exact .exits
  | accepts t rc =>
    simp only [step, accepts] at h
    split at h
    · rename_i turn hpc
      cases h
      exact .accepted t turn hpc
    · rename_i hpc
      cases h
      exact .refused t hpc
    · cases h
  | thread t now woken => exact threadStep_stepped h
  | maintenance now =>
    simp only [step] at h
    split at h
    · rename_i pool hpass
      cases h
      exact .maintained now pool hpass
    · cases h

end FcgiAppserver.Server
