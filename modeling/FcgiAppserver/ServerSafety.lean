import FcgiAppserver.PoolCalls
import FcgiAppserver.ServerThreads

namespace FcgiAppserver.Server

open Db Dispatch Handlers TransitionRuns ServerState

theorem session_get {σ σ' : Session} {connected : Bool} (h : σ.step (.get connected) = .ok σ') :
    σ = .idle ∧ σ' = if connected then .connected else .idle := by
  cases σ with
  | idle =>
    cases h
    exact ⟨rfl, rfl⟩
  | _ => cases h

theorem session_put {σ σ' : Session} (h : σ.step .put = .ok σ') : σ' = .idle := by
  cases σ with
  | connected =>
    cases h
    rfl
  | leaking =>
    cases h
    rfl
  | _ => cases h

theorem session_call {σ σ' : Session} {e : Effect} (he : onPool e = false) (h : σ.step e = .ok σ') :
    σ ≠ .idle ↔ σ' ≠ .idle := by
  have hledger := (accounted_step h).conns
  have hnone : [e].count (.get true) = 0 ∧ [e].count .put = 0 := by
    cases e with
    | get connected => cases he
    | put => cases he
    | _ => exact ⟨rfl, rfl⟩
  rw [hnone.1, hnone.2, Nat.zero_add, Nat.zero_add] at hledger
  have hconns : ∀ ρ : Session, ρ ≠ .idle ↔ ρ.conns = 1 := by
    intro ρ
    cases ρ <;> simp [Session.conns]
  rw [hconns, hconns, hledger]

/-- A thread in the middle of a turn has a connection exactly where the turn has one. -/
structure Serving.Valid (sv : Serving) : Prop where
  split : sv.turn.effects = sv.made ++ sv.rest
  session : ∃ σ, exec Session.step .idle sv.made = .ok σ ∧ (sv.conn.isSome ↔ σ ≠ .idle)
  waiting : sv.waits = true → ∃ rest, sv.rest = .get true :: rest

namespace Serving

variable {sv : Serving} {e : Effect} {rest : List Effect}

theorem valid_start (number : ℕ) (turn : Turn) : (start number turn).Valid where
  split := rfl
  session := ⟨.idle, rfl, by simp [start]⟩
  waiting := nofun

theorem Valid.next (hsv : sv.Valid) (hrest : sv.rest = e :: rest) :
    ∃ σ σ' : Session, exec Session.step .idle sv.made = .ok σ ∧ (sv.conn.isSome ↔ σ ≠ .idle) ∧ σ.step e = .ok σ' := by
  obtain ⟨σ, hmade, hconn⟩ := hsv.session
  obtain ⟨τ, hall, -⟩ := sv.turn.followed
  rw [hsv.split, hrest, exec_append hmade] at hall
  obtain ⟨σ', hstep, -⟩ := exec_cons_ok.mp hall
  exact ⟨σ, σ', hmade, hconn, hstep⟩

theorem Valid.call {conn : Option Conn} (hsv : sv.Valid) (hrest : sv.rest = e :: rest)
    (hconn : ∀ σ σ' : Session, (sv.conn.isSome ↔ σ ≠ .idle) → σ.step e = .ok σ' → (conn.isSome ↔ σ' ≠ .idle)) :
    (sv.call e rest conn).Valid where
  split := by
    rw [Serving.call, List.append_assoc, List.singleton_append, ← hrest]
    exact hsv.split
  session := by
    obtain ⟨σ, σ', hmade, hheld, hstep⟩ := hsv.next hrest
    refine ⟨σ', ?_, hconn σ σ' hheld hstep⟩
    exact (exec_append hmade).trans (exec_cons_ok.mpr ⟨σ', hstep, exec_nil⟩)
  waiting := nofun

theorem Valid.conn_of_get {connected : Bool} (hsv : sv.Valid) (hrest : sv.rest = .get connected :: rest) :
    sv.conn = none := by
  obtain ⟨σ, σ', -, hheld, hstep⟩ := hsv.next hrest
  rw [(session_get hstep).1] at hheld
  simpa using hheld

theorem Valid.got {conn : Conn} (hsv : sv.Valid) (hrest : sv.rest = .get true :: rest) :
    (sv.call (.get true) rest (some conn)).Valid := by
  apply hsv.call hrest
  intro σ σ' _ hstep
  simp [(session_get hstep).2]

theorem Valid.put (hsv : sv.Valid) (hrest : sv.rest = .put :: rest) : (sv.call .put rest none).Valid := by
  apply hsv.call hrest
  intro σ σ' _ hstep
  simp [session_put hstep]

theorem Valid.conn_at_end (hsv : sv.Valid) (hrest : sv.rest = []) (hlives : sv.turn.dies = false) : sv.conn = none := by
  obtain ⟨σ, hmade, hheld⟩ := hsv.session
  obtain ⟨τ, hall, hidle⟩ := sv.turn.followed
  rw [hsv.split, hrest, List.append_nil, hmade] at hall
  rw [Except.ok.inj hall, hidle hlives] at hheld
  simpa using hheld

end Serving

namespace ThreadPc

def hasMutex : ThreadPc → Bool
  | accepting => true
  | unlocking _ => true
  | _ => false

def conn : ThreadPc → Option Conn
  | serving sv => sv.conn
  | _ => none

end ThreadPc

/-- Every connection that is out is in the hands of one thread, which has no other. -/
structure Holds (s : ServerState) : Prop where
  held : ∀ u conn, (u, conn) ∈ s.pool.checkedOut ↔ (s.threads u).conn = some conn
  once : (s.pool.checkedOut.map Prod.fst).Nodup

structure Sound (s : ServerState) : Prop where
  exclusive : ∀ u, (s.threads u).hasMutex = true ↔ s.acceptMutex = some u
  valid : ∀ u sv, s.threads u = .serving sv → sv.Valid
  pool : DBPool.PoolInv s.pool
  holds : Holds s

variable {s s' : ServerState} {t : Thread} {pc : ThreadPc} {e : ServerEvent}

theorem threads_update {P : Thread → ThreadPc → Prop} (h : ∀ u, u ≠ t → P u (s.threads u)) (ht : P t pc) (u : Thread) :
    P u (Function.update s.threads t pc u) := by
  by_cases hu : u = t
  · subst hu
    rwa [Function.update_self]
  · rw [Function.update_of_ne hu]
    exact h u hu

theorem exclusive_step (hs : ∀ u, (s.threads u).hasMutex = true ↔ s.acceptMutex = some u) (h : Stepped s e s') :
    ∀ u, (s'.threads u).hasMutex = true ↔ s'.acceptMutex = some u := by
  have hsame : ∀ {t pc}, (s.threads t).hasMutex = ThreadPc.hasMutex pc →
      ∀ u, (Function.update s.threads t pc u).hasMutex = true ↔ s.acceptMutex = some u := by
    intro t pc hpc
    refine threads_update (P := fun u pc => pc.hasMutex = true ↔ s.acceptMutex = some u) (fun u _ => hs u) ?_
    rw [← hpc]
    exact hs t
  have hfreed : ∀ {t pc}, s.acceptMutex = some t → ThreadPc.hasMutex pc = false →
      ∀ u, (Function.update s.threads t pc u).hasMutex = true ↔ none = some u := by
    intro t pc hheld hpc
    refine threads_update (P := fun u pc => pc.hasMutex = true ↔ none = some u) ?_ (by simp [hpc])
    intro u hu
    rw [hs u, hheld, Option.some.injEq]
    exact iff_of_false (Ne.symm hu) nofun
  cases h with
  | exits => exact hs
  | goesOn t now woken hpc => exact hsame (by rw [hpc]; rfl)
  | stops t now woken hpc => exact hsame (by rw [hpc]; rfl)
  | locks t now woken hpc hfree =>
    refine threads_update (P := fun u pc => pc.hasMutex = true ↔ some t = some u) ?_ (iff_of_true rfl rfl)
    intro u hu
    rw [hs u, hfree, Option.some.injEq]
    exact iff_of_false nofun (Ne.symm hu)
  | accepted t turn hpc => exact hsame (by rw [hpc]; rfl)
  | refused t hpc => exact hsame (by rw [hpc]; rfl)
  | leaves t now woken hpc => exact hfreed ((hs t).mp (by rw [hpc]; rfl)) rfl
  | unlocks t now woken number turn hpc => exact hfreed ((hs t).mp (by rw [hpc]; rfl)) rfl
  | calls t now woken sv e rest hpc => exact hsame (by rw [hpc]; rfl)
  | got t now woken sv rest conn pool hpc => exact hsame (by rw [hpc]; rfl)
  | failed t now woken sv connected rest pool hpc => exact hsame (by rw [hpc]; rfl)
  | waits t now woken sv rest pool hpc => exact hsame (by rw [hpc]; rfl)
  | resumed t now woken sv connected rest conn pool hpc => exact hsame (by rw [hpc]; rfl)
  | puts t now woken sv rest conn pool hpc => exact hsame (by rw [hpc]; rfl)
  | finishes t now woken sv hpc => exact hsame (by rw [hpc]; rfl)
  | maintained now pool => exact hs

theorem valid_step (hs : ∀ u sv, s.threads u = .serving sv → sv.Valid) (h : Stepped s e s') :
    ∀ u sv, s'.threads u = .serving sv → sv.Valid := by
  have hmoved : ∀ {t pc}, (∀ sv, pc = .serving sv → sv.Valid) →
      ∀ u sv, Function.update s.threads t pc u = .serving sv → sv.Valid := by
    intro t pc hpc
    exact threads_update (P := fun _ pc => ∀ sv, pc = .serving sv → sv.Valid) (fun u _ => hs u) hpc
  have hserving : ∀ {t sv}, sv.Valid → ∀ u sv', Function.update s.threads t (.serving sv) u = .serving sv' → sv'.Valid := by
    intro t sv hsv
    apply hmoved
    rintro sv' ⟨⟩
    exact hsv
  cases h with
  | exits => exact hs
  | goesOn t now woken hpc => exact hmoved nofun
  | stops t now woken hpc => exact hmoved nofun
  | locks t now woken hpc hfree => exact hmoved nofun
  | accepted t turn hpc => exact hmoved nofun
  | refused t hpc => exact hmoved nofun
  | leaves t now woken hpc => exact hmoved nofun
  | unlocks t now woken number turn hpc => exact hserving (Serving.valid_start number turn)
  | calls t now woken sv e rest hpc hrest he =>
    apply hserving
    apply (hs t sv hpc).call hrest
    intro σ σ' hheld hstep
    exact hheld.trans (session_call he hstep)
  | got t now woken sv rest conn pool hpc hrest => exact hserving ((hs t sv hpc).got hrest)
  | failed t now woken sv connected rest pool hpc hrest hwaits hget =>
    apply hserving
    apply (hs t sv hpc).call hrest
    intro σ σ' _ hstep
    simp [(session_get hstep).2, (DBPool.get_thrown hget).1]
  | waits t now woken sv rest pool hpc hrest =>
    exact hserving ⟨(hs t sv hpc).split, (hs t sv hpc).session, fun _ => ⟨rest, hrest⟩⟩
  | resumed t now woken sv connected rest conn pool hpc hrest hwaits =>
    obtain ⟨rest', hrest'⟩ := (hs t sv hpc).waiting hwaits
    rw [hrest] at hrest'
    cases hrest'
    exact hserving ((hs t sv hpc).got hrest)
  | puts t now woken sv rest conn pool hpc hrest => exact hserving ((hs t sv hpc).put hrest)
  | finishes t now woken sv hpc => exact hmoved nofun
  | maintained now pool => exact hs

theorem Holds.same (hs : Holds s) (hout : s'.pool.checkedOut = s.pool.checkedOut)
    (hthreads : ∀ u, (s'.threads u).conn = (s.threads u).conn) : Holds s' where
  held u conn := by rw [hout, hthreads]; exact hs.held u conn
  once := by rw [hout]; exact hs.once

theorem Holds.move (hs : Holds s) (hout : s'.pool.checkedOut = s.pool.checkedOut) (hconn : pc.conn = (s.threads t).conn)
    (hthreads : s'.threads = Function.update s.threads t pc) : Holds s' := by
  apply hs.same hout
  rw [hthreads]
  exact threads_update (P := fun u pc => pc.conn = (s.threads u).conn) (fun _ _ => rfl) hconn

theorem Holds.not_mem (hs : Holds s) (hnone : (s.threads t).conn = none) : t ∉ s.pool.checkedOut.map Prod.fst := by
  intro ht
  obtain ⟨⟨u, conn⟩, hmem, rfl⟩ := List.mem_map.mp ht
  rw [hs.held u conn, hnone] at hmem
  cases hmem

theorem Holds.took {conn : Conn} (hs : Holds s) (hnone : (s.threads t).conn = none) (hconn : pc.conn = some conn)
    (hout : s'.pool.checkedOut = s.pool.checkedOut ++ [(t, conn)])
    (hthreads : s'.threads = Function.update s.threads t pc) : Holds s' where
  held u other := by
    rw [hout, hthreads, List.mem_append, List.mem_singleton, Prod.mk.injEq]
    refine threads_update
      (P := fun u pc => (u, other) ∈ s.pool.checkedOut ∨ u = t ∧ other = conn ↔ pc.conn = some other) ?_ ?_ u
    · intro u hu
      rw [hs.held u other]
      simp [hu]
    · rw [hs.held t other, hnone, hconn, Option.some.injEq]
      simp [eq_comm]
  once := by
    rw [hout, List.map_append, List.map_singleton]
    apply hs.once.append (List.nodup_singleton t)
    rw [List.disjoint_singleton]
    exact hs.not_mem hnone

theorem Holds.gave {conn : Conn} (hs : Holds s) (hheld : (s.threads t).conn = some conn) (hnone : pc.conn = none)
    (hout : s'.pool.checkedOut = s.pool.checkedOut.erase (t, conn))
    (hthreads : s'.threads = Function.update s.threads t pc) : Holds s' where
  held u other := by
    have hnodup : s.pool.checkedOut.Nodup := hs.once.of_map
    rw [hout, hthreads, hnodup.mem_erase_iff, hs.held u other, ne_eq, Prod.mk.injEq]
    refine threads_update
      (P := fun u pc => ¬ (u = t ∧ other = conn) ∧ (s.threads u).conn = some other ↔ pc.conn = some other) ?_ ?_ u
    · intro u hu
      simp [hu]
    · rw [hnone, hheld, Option.some.injEq]
      simp [eq_comm]
  once := by
    rw [hout]
    exact hs.once.sublist (List.Sublist.map Prod.fst List.erase_sublist)

theorem holds_step (hs : Holds s) (hvalid : ∀ u sv, s.threads u = .serving sv → sv.Valid) (h : Stepped s e s') :
    Holds s' := by
  cases h with
  | exits => exact hs.same rfl (fun _ => rfl)
  | goesOn t now woken hpc => exact hs.move rfl (by rw [hpc]; rfl) rfl
  | stops t now woken hpc => exact hs.move rfl (by rw [hpc]; rfl) rfl
  | locks t now woken hpc hfree => exact hs.move rfl (by rw [hpc]; rfl) rfl
  | accepted t turn hpc => exact hs.move rfl (by rw [hpc]; rfl) rfl
  | refused t hpc => exact hs.move rfl (by rw [hpc]; rfl) rfl
  | leaves t now woken hpc => exact hs.move rfl (by rw [hpc]; rfl) rfl
  | unlocks t now woken number turn hpc => exact hs.move rfl (by rw [hpc]; rfl) rfl
  | calls t now woken sv e rest hpc hrest he => exact hs.move rfl (by rw [hpc]; rfl) rfl
  | got t now woken sv rest conn pool hpc hrest hwaits hget =>
    have hnone : (s.threads t).conn = none := by
      rw [hpc]
      exact (hvalid t sv hpc).conn_of_get hrest
    exact hs.took hnone rfl (DBPool.get_got_handed hget).1 rfl
  | failed t now woken sv connected rest pool hpc hrest hwaits hget =>
    obtain ⟨-, -, -, -, rfl⟩ := DBPool.get_thrown hget
    refine hs.move rfl ?_ rfl
    rw [hpc]
    exact ((hvalid t sv hpc).conn_of_get hrest).symm
  | waits t now woken sv rest pool hpc hrest hwaits hget =>
    obtain ⟨-, -, rfl⟩ := DBPool.get_waits hget
    exact hs.move rfl (by rw [hpc]; rfl) rfl
  | resumed t now woken sv connected rest conn pool hpc hrest hwaits hresume =>
    have hnone : (s.threads t).conn = none := by
      rw [hpc]
      exact (hvalid t sv hpc).conn_of_get hrest
    exact hs.took hnone rfl (DBPool.resume_handed hresume).2.1 rfl
  | puts t now woken sv rest conn pool hpc hrest hconn hput =>
    have hheld : (s.threads t).conn = some conn := by
      rw [hpc]
      exact hconn
    exact hs.gave hheld rfl (DBPool.put_returned hput).1 rfl
  | finishes t now woken sv hpc hrest hlives =>
    refine hs.move rfl ?_ rfl
    rw [hpc]
    exact ((hvalid t sv hpc).conn_at_end hrest hlives).symm
  | maintained now pool hpass => exact hs.same (DBPool.maintenance_passed hpass).1 (fun _ => rfl)

def Serving.poolCalls (sv : Serving) (t : Thread) (now : ℤ) (woken : Thread) : List (PoolEvent Thread) :=
  match sv.rest with
  | .get connected :: _ => [if sv.waits then .resume t now else .get t connected now]
  | .put :: _ => (sv.conn.map (fun conn => .put t conn now woken)).toList
  | _ => []

/-- The calls of the pool in one step: at most one. -/
def poolCalls (s : ServerState) : ServerEvent → List (PoolEvent Thread)
  | .thread t now woken =>
    match s.threads t with
    | .serving sv => sv.poolCalls t now woken
    | _ => []
  | .maintenance now => [.maintenance now]
  | _ => []

theorem poolCalls_serving {now : ℤ} {woken : Thread} {sv : Serving} (hpc : s.threads t = .serving sv) :
    poolCalls s (.thread t now woken) = sv.poolCalls t now woken := by
  rw [poolCalls, hpc]

theorem pool_called {call : PoolEvent Thread} (hown : DBPool.PutsBackOwn s.pool call)
    (hstep : DBPool.step s.pool call = .ok s'.pool) :
    Along DBPool.step DBPool.PutsBackOwn s.pool [call] ∧ exec DBPool.step s.pool [call] = .ok s'.pool :=
  ⟨along_cons.mpr ⟨hown, fun _ _ => trivial⟩, exec_cons_ok.mpr ⟨s'.pool, hstep, exec_nil⟩⟩

/-- A thread puts back only what it holds. -/
theorem pool_stepped (hs : Holds s) (h : Stepped s e s') :
    Along DBPool.step DBPool.PutsBackOwn s.pool (poolCalls s e) ∧ exec DBPool.step s.pool (poolCalls s e) = .ok s'.pool := by
  cases h with
  | got t now woken sv rest conn pool hpc hrest hwaits hget =>
    rw [poolCalls_serving hpc, Serving.poolCalls, hrest, hwaits]
    exact pool_called trivial (DBPool.get_step _ hget)
  | failed t now woken sv connected rest pool hpc hrest hwaits hget =>
    rw [poolCalls_serving hpc, Serving.poolCalls, hrest, hwaits]
    exact pool_called trivial (DBPool.get_step _ hget)
  | waits t now woken sv rest pool hpc hrest hwaits hget =>
    rw [poolCalls_serving hpc, Serving.poolCalls, hrest, hwaits]
    exact pool_called trivial (DBPool.get_step _ hget)
  | resumed t now woken sv connected rest conn pool hpc hrest hwaits hresume =>
    rw [poolCalls_serving hpc, Serving.poolCalls, hrest, hwaits]
    exact pool_called trivial (DBPool.resume_step hresume)
  | puts t now woken sv rest conn pool hpc hrest hconn hput =>
    rw [poolCalls_serving hpc, Serving.poolCalls, hrest, hconn]
    refine pool_called ?_ hput
    apply (hs.held t conn).mpr
    rw [hpc]
    exact hconn
  | maintained now pool hpass => exact pool_called trivial hpass
  | goesOn t now woken hpc hexiting =>
    rw [poolCalls, hpc]
    exact ⟨trivial, rfl⟩
  | stops t now woken hpc hexiting =>
    rw [poolCalls, hpc]
    exact ⟨trivial, rfl⟩
  | locks t now woken hpc hfree =>
    rw [poolCalls, hpc]
    exact ⟨trivial, rfl⟩
  | leaves t now woken hpc =>
    rw [poolCalls, hpc]
    exact ⟨trivial, rfl⟩
  | unlocks t now woken number turn hpc =>
    rw [poolCalls, hpc]
    exact ⟨trivial, rfl⟩
  | calls t now woken sv e rest hpc hrest he =>
    rw [poolCalls_serving hpc, Serving.poolCalls, hrest]
    cases e with
    | get connected => cases he
    | put => cases he
    | _ => exact ⟨trivial, rfl⟩
  | finishes t now woken sv hpc hrest hlives =>
    rw [poolCalls_serving hpc, Serving.poolCalls, hrest]
    exact ⟨trivial, rfl⟩
  | _ => exact ⟨trivial, rfl⟩

theorem sound_step (hs : Sound s) (h : s.step e = .ok s') : Sound s' where
  exclusive := exclusive_step hs.exclusive (step_stepped h)
  valid := valid_step hs.valid (step_stepped h)
  pool := by
    obtain ⟨halong, hexec⟩ := pool_stepped hs.holds (step_stepped h)
    exact exec_invariant (fun _ _ _ hs he hstep => DBPool.poolInv_step hs he hstep) hs.pool halong hexec
  holds := holds_step hs.holds hs.valid (step_stepped h)

theorem sound_start (maxConnections : UInt64) : Sound (start maxConnections) where
  exclusive _ := iff_of_false nofun nofun
  valid := nofun
  pool := DBPool.poolInv_newPool maxConnections
  holds := ⟨fun _ _ => iff_of_false List.not_mem_nil nofun, List.nodup_nil⟩

theorem sound_run {maxConnections : UInt64} {events : List ServerEvent}
    (hexec : exec step (start maxConnections) events = .ok s) : Sound s :=
  exec_keeps (fun _ _ _ hs hstep => sound_step hs hstep) (sound_start maxConnections) hexec

/-- The pool of a server is a pool all of whose callers put back only what they got. -/
theorem pool_run {maxConnections : UInt64} {events : List ServerEvent}
    (hexec : exec step (start maxConnections) events = .ok s) :
    Along DBPool.step DBPool.PutsBackOwn (newPool maxConnections)
        (projected step poolCalls (start maxConnections) events) ∧
      exec DBPool.step (newPool maxConnections) (projected step poolCalls (start maxConnections) events) = .ok s.pool :=
  exec_projects (f := ServerState.pool) (fun _ _ _ hs hstep => sound_step hs hstep)
    (fun _ _ _ hs hstep => pool_stepped hs.holds (step_stepped hstep)) (sound_start maxConnections) hexec

structure PoolKept (s : ServerState) : Prop where
  consistent : DBPool.PoolConsistent s.pool
  holds : Holds s
  turns : ∀ u sv, s.threads u = .serving sv → sv.Valid

theorem server_keeps_pool (maxConnections : UInt64) (events : List ServerEvent) (s : ServerState)
    (hexec : exec step (start maxConnections) events = .ok s) :
    PoolKept s ∧
      Along DBPool.step DBPool.PutsBackOwn (newPool maxConnections)
        (projected step poolCalls (start maxConnections) events) ∧
      exec DBPool.step (newPool maxConnections) (projected step poolCalls (start maxConnections) events) = .ok s.pool :=
  ⟨⟨(sound_run hexec).pool.consistent, (sound_run hexec).holds, (sound_run hexec).valid⟩, pool_run hexec⟩

def deniedPool : Pool := ⟨none, fun _ => { noRows with prepareFails := some ⟨ByteStrings.ascii "denied"⟩ }⟩

def deniedTurn : Turn :=
  turnOf (addHandlerMappings [(ByteStrings.ascii "/", some (.wp deniedPool))]) (libxml false)
    (getRequest (ByteStrings.ascii "/category/news"))

def accepting (t : Thread) (turn : Turn) : List ServerEvent :=
  [.thread t 0 t, .thread t 0 t, .accepts t (some turn), .thread t 0 t]

def twoServing : List ServerEvent :=
  accepting 0 deniedTurn ++ accepting 1 deniedTurn ++ [.thread 1 5 0, .thread 0 6 0, .thread 0 7 0]

theorem server_keeps_pool_two :
    ∃ s, exec step (start 40) twoServing = .ok s ∧ s.pool.checkedOut = [(1, 0), (0, 1)] ∧ PoolKept s :=
  ⟨_, rfl, rfl, (server_keeps_pool 40 twoServing _ rfl).1⟩

end FcgiAppserver.Server
