import FcgiAppserver.PoolLock
import FcgiAppserver.ServerRequests

namespace FcgiAppserver.Server

open Db Dispatch Handlers ScopedEffects ScopedEffects.Act TransitionRuns Xml ServerState

namespace Serving

def AwaitsPool (sv : Serving) : Prop := ∃ e ∈ sv.rest, onPool e = true

def MadeWithoutPool (sv : Serving) : Prop := ∀ e ∈ sv.made, onPool e = false

theorem AwaitsPool.call {sv : Serving} (h : sv.AwaitsPool) {e : Effect} {rest : List Effect} (hrest : sv.rest = e :: rest)
    (he : onPool e = false) (conn : Option Conn) : (sv.call e rest conn).AwaitsPool := by
  obtain ⟨e', hmem, he'⟩ := h
  rw [hrest, List.mem_cons] at hmem
  rcases hmem with rfl | hmem
  · rw [he] at he'
    cases he'
  · exact ⟨e', hmem, he'⟩

end Serving

/-- What cannot change any more after `s₀`, in which the lock of the pool is held for good. -/
structure Outage (s₀ s : ServerState) : Prop where
  pool : s.pool = s₀.pool
  grows : s₀.accepted.length ≤ s.accepted.length
  stuck : ∀ t sv, s₀.threads t = .serving sv → sv.AwaitsPool →
    ∃ sv', s.threads t = .serving sv' ∧ sv'.number = sv.number ∧ sv'.AwaitsPool
  fresh : ∀ t sv, s.threads t = .serving sv → s₀.accepted.length ≤ sv.number → sv.MadeWithoutPool
  later : ∀ n out turn, (n, out) ∈ s.finished → s₀.accepted.length ≤ n → s.accepted[n]? = some turn →
    ∀ e ∈ turn.effects, onPool e = false

variable {s₀ s s' : ServerState} {t : Thread} {pc : ThreadPc} {e : ServerEvent}

theorem outage_refl (hs : Accounts s₀) : Outage s₀ s₀ where
  pool := rfl
  grows := Nat.le_refl _
  stuck _ sv hpc hawaits := ⟨sv, hpc, rfl, hawaits⟩
  fresh t sv hpc hle := by
    have hrequest : (s₀.threads t).request = some (sv.number, sv.turn) := by
      rw [hpc]
      rfl
    exact absurd (hs.number_lt hrequest) (Nat.not_lt.mpr hle)
  later n out turn hmem hle _ := by
    have hlt := hs.finished_lt (List.mem_map_of_mem (f := Prod.fst) hmem)
    exact absurd hlt (by simpa using hle)

/-- No thread of which `s₀` had a turn stuck has moved to another place than that turn. -/
theorem Outage.move (h : Outage s₀ s) (hpool : s'.pool = s.pool) (haccepted : s'.accepted = s.accepted)
    (hfinished : s'.finished = s.finished) (hthreads : s'.threads = Function.update s.threads t pc)
    (hpc : ∀ sv, s.threads t = .serving sv → sv.AwaitsPool →
      ∃ sv', pc = .serving sv' ∧ sv'.number = sv.number ∧ sv'.AwaitsPool)
    (hfresh : ∀ sv, pc = .serving sv → s₀.accepted.length ≤ sv.number → sv.MadeWithoutPool) : Outage s₀ s' where
  pool := hpool.trans h.pool
  grows := haccepted ▸ h.grows
  stuck u sv hu hawaits := by
    rw [hthreads]
    refine threads_update (P := fun u pc => ∀ sv, s₀.threads u = .serving sv → sv.AwaitsPool →
      ∃ sv', pc = .serving sv' ∧ sv'.number = sv.number ∧ sv'.AwaitsPool) (fun u _ => h.stuck u) ?_ u sv hu hawaits
    intro sv hsv hawaits
    obtain ⟨sv', hpc', hnumber, hawaits'⟩ := h.stuck t sv hsv hawaits
    obtain ⟨sv'', hpc'', hnumber', hawaits''⟩ := hpc sv' hpc' hawaits'
    exact ⟨sv'', hpc'', hnumber'.trans hnumber, hawaits''⟩
  fresh := by
    rw [hthreads]
    exact threads_update
      (P := fun _ pc => ∀ sv, pc = .serving sv → s₀.accepted.length ≤ sv.number → sv.MadeWithoutPool)
      (fun u _ => h.fresh u) hfresh
  later := by
    rw [haccepted, hfinished]
    exact h.later

theorem outage_call (h : Outage s₀ s) {sv : Serving} {e : Effect} {rest : List Effect} (hpc : s.threads t = .serving sv)
    (hrest : sv.rest = e :: rest) (he : onPool e = false) :
    Outage s₀ (s.setThread t (.serving (sv.call e rest sv.conn))) := by
  refine h.move rfl rfl rfl rfl ?_ ?_
  · intro sv' hsv' hawaits
    rw [hpc, ThreadPc.serving.injEq] at hsv'
    subst hsv'
    exact ⟨_, rfl, rfl, hawaits.call hrest he _⟩
  · rintro sv' ⟨⟩ hle e' he'
    rcases List.mem_append.mp he' with hmade | hlast
    · exact h.fresh t sv hpc hle e' hmade
    · rw [List.mem_singleton.mp hlast]
      exact he

theorem outage_accepted (h : Outage s₀ s) (hs : Accounts s) (hpc : s.threads t = .accepting) (turn : Turn) :
    Outage s₀ { s.setThread t (.unlocking (some (s.accepted.length, turn))) with accepted := s.accepted ++ [turn] } := by
  have hmoved : Outage s₀ (s.setThread t (.unlocking (some (s.accepted.length, turn)))) := by
    refine h.move rfl rfl rfl rfl ?_ ?_
    · intro sv hsv
      rw [hpc] at hsv
      cases hsv
    · nofun
  refine ⟨hmoved.pool, ?_, hmoved.stuck, hmoved.fresh, ?_⟩
  · rw [List.length_append]
    exact Nat.le_add_right_of_le h.grows
  · intro n out turn' hmem hle hturn
    have hlt := hs.finished_lt (List.mem_map_of_mem (f := Prod.fst) hmem)
    rw [List.getElem?_append_left hlt] at hturn
    exact h.later n out turn' hmem hle hturn

theorem outage_finished (h : Outage s₀ s) (hs : Accounts s) {sv : Serving} (hsv : sv.Valid)
    (hpc : s.threads t = .serving sv) (hrest : sv.rest = []) :
    Outage s₀ { s.setThread t .testing with finished := s.finished ++ [(sv.number, sv.written)] } := by
  have hmoved : Outage s₀ (s.setThread t .testing) := by
    refine h.move rfl rfl rfl rfl ?_ ?_
    · rintro sv' hsv' ⟨e, he, -⟩
      rw [hpc, ThreadPc.serving.injEq] at hsv'
      rw [← hsv', hrest] at he
      cases he
    · nofun
  refine ⟨hmoved.pool, h.grows, hmoved.stuck, hmoved.fresh, ?_⟩
  intro n out turn hmem hle hturn
  rcases List.mem_append.mp hmem with hmem | hmem
  · exact h.later n out turn hmem hle hturn
  · rw [List.mem_singleton, Prod.mk.injEq] at hmem
    obtain ⟨rfl, -⟩ := hmem
    have haccepted := (hs.inWork t sv.number sv.turn (by rw [hpc]; rfl)).1
    have hsame : sv.turn = turn := Option.some.inj (haccepted.symm.trans hturn)
    rw [← hsame, hsv.split, hrest, List.append_nil]
    exact h.fresh t sv hpc hle

theorem outage_step (hlock : s₀.pool.lockHeld = true) (hsound : Sound s) (hs : Accounts s) (h : Outage s₀ s)
    (hstep : Stepped s e s') : Outage s₀ s' := by
  have hblocked : ∀ (call : PoolEvent Thread) (pool : DBPool Thread), s.pool.step call ≠ .ok pool := by
    intro call pool
    rw [h.pool, DBPool.step_blocked hlock]
    exact nofun
  have hmove : ∀ {t pc}, (∀ sv, s.threads t ≠ .serving sv) → (∀ sv, pc ≠ .serving sv) →
      ∀ {s'}, s'.pool = s.pool → s'.accepted = s.accepted → s'.finished = s.finished →
        s'.threads = Function.update s.threads t pc → Outage s₀ s' := by
    intro t pc hnot hpc s' hpool haccepted hfinished hthreads
    refine h.move hpool haccepted hfinished hthreads ?_ ?_
    · intro sv hsv
      exact absurd hsv (hnot sv)
    · intro sv hsv
      exact absurd hsv (hpc sv)
  cases hstep with
  | exits => exact ⟨h.pool, h.grows, h.stuck, h.fresh, h.later⟩
  | goesOn t now woken hpc => exact hmove (t := t) (by simp [hpc]) (by simp) rfl rfl rfl rfl
  | stops t now woken hpc => exact hmove (t := t) (by simp [hpc]) (by simp) rfl rfl rfl rfl
  | locks t now woken hpc hfree => exact hmove (t := t) (by simp [hpc]) (by simp) rfl rfl rfl rfl
  | accepted t turn hpc => exact outage_accepted h hs hpc turn
  | refused t hpc => exact hmove (t := t) (by simp [hpc]) (by simp) rfl rfl rfl rfl
  | leaves t now woken hpc => exact hmove (t := t) (by simp [hpc]) (by simp) rfl rfl rfl rfl
  | unlocks t now woken number turn hpc =>
    refine h.move rfl rfl rfl rfl ?_ ?_
    · intro sv hsv
      rw [hpc] at hsv
      cases hsv
    · rintro sv ⟨⟩ -
      exact List.forall_mem_nil _
  | calls t now woken sv e rest hpc hrest he => exact outage_call h hpc hrest he
  | got t now woken sv rest conn pool hpc hrest hwaits hget =>
    exact absurd (DBPool.get_step _ hget) (hblocked _ _)
  | failed t now woken sv connected rest pool hpc hrest hwaits hget =>
    exact absurd (DBPool.get_step _ hget) (hblocked _ _)
  | waits t now woken sv rest pool hpc hrest hwaits hget =>
    exact absurd (DBPool.get_step _ hget) (hblocked _ _)
  | resumed t now woken sv connected rest conn pool hpc hrest hwaits hresume =>
    exact absurd (DBPool.resume_step hresume) (hblocked _ _)
  | puts t now woken sv rest conn pool hpc hrest hconn hput => exact absurd hput (hblocked (.put t conn now woken) _)
  | finishes t now woken sv hpc hrest hlives => exact outage_finished h hs (hsound.valid t sv hpc) hpc hrest
  | maintained now pool hpass => exact absurd hpass (hblocked (.maintenance now) _)

theorem outage_run {later : List ServerEvent} (hlock : s₀.pool.lockHeld = true) (hsound : Sound s₀) (hs : Accounts s₀)
    (hexec : exec step s₀ later = .ok s) : Sound s ∧ Accounts s ∧ Outage s₀ s := by
  refine exec_keeps (I := fun s => Sound s ∧ Accounts s ∧ Outage s₀ s) ?_ ⟨hsound, hs, outage_refl hs⟩ hexec
  rintro s e s' ⟨hsound, hs, h⟩ hstep
  have hstepped := step_stepped hstep
  exact ⟨sound_step hsound hstep, accounts_step hs hsound.valid hstepped, outage_step hlock hsound hs h hstepped⟩

theorem failed_connect_locks (hsound : Sound s) {sv : Serving} {rest : List Effect} {now : ℤ} {woken : Thread}
    (hpc : s.threads t = .serving sv) (hrest : sv.rest = .get false :: rest)
    (hstep : s.step (.thread t now woken) = .ok s') : s'.pool.lockHeld = true := by
  rw [step, threadStep, hpc] at hstep
  dsimp only at hstep
  have hwaits : sv.waits = false := by
    cases hwaits : sv.waits with
    | false => rfl
    | true =>
      obtain ⟨rest', hrest'⟩ := (hsound.valid t sv hpc).waiting hwaits
      rw [hrest] at hrest'
      cases hrest'
  rw [serve, hrest] at hstep
  simp only [hwaits, Bool.false_eq_true, if_false, callGet] at hstep
  split at hstep
  · cases hstep
  · cases hstep
  · rename_i pool hget
    obtain ⟨-, -, -, -, rfl⟩ := DBPool.get_thrown hget
    cases hstep
    rfl
  · cases hstep

/-- When each thread waits for the pool, the server does nothing any more. -/
theorem Outage.idle (h : Outage s₀ s)
    (hall : ∀ u, ∃ sv, s₀.threads u = .serving sv ∧ sv.AwaitsPool) (hstep : Stepped s e s') :
    s'.accepted = s.accepted ∧ s'.finished = s.finished := by
  have hstuck : ∀ u, ∃ sv, s.threads u = .serving sv ∧ sv.AwaitsPool := by
    intro u
    obtain ⟨sv, hpc, hawaits⟩ := hall u
    obtain ⟨sv', hpc', -, hawaits'⟩ := h.stuck u sv hpc hawaits
    exact ⟨sv', hpc', hawaits'⟩
  cases hstep with
  | accepted t turn hpc =>
    obtain ⟨sv, hsv, -⟩ := hstuck t
    rw [hpc] at hsv
    cases hsv
  | finishes t now woken sv hpc hrest hlives =>
    obtain ⟨sv', hsv, e, he, -⟩ := hstuck t
    rw [hpc, ThreadPc.serving.injEq] at hsv
    rw [← hsv, hrest] at he
    cases he
  | _ => exact ⟨rfl, rfl⟩

theorem wpTurn_getsFirst {server : FcgiServer Handler} (xml : Libxml) {request : Request} {pool : Pool}
    (hname : (fcgxGetParam scriptName request.envp).isSome)
    (hwp : handlerFor server request.getScriptName = some (.wp pool)) :
    .get pool.connectFails.isNone ∈ (turnOf server xml request).effects := by
  have hopens := Traced.workerTurn_opens server xml request hname hwp rfl
  exact hopens.subset List.mem_cons_self

structure OutageLasts (s₀ s : ServerState) : Prop where
  outage : Outage s₀ s
  wpUnserved : ∀ n server xml request pool, s.accepted[n]? = some (turnOf server xml request) →
    s₀.accepted.length ≤ n → (fcgxGetParam scriptName request.envp).isSome →
    handlerFor server request.getScriptName = some (.wp pool) → n ∉ s.finished.map Prod.fst
  idle : (∀ u, ∃ sv, s₀.threads u = .serving sv ∧ sv.AwaitsPool) →
    s.accepted = s₀.accepted ∧ s.finished = s₀.finished

theorem outageLasts_of_locked {later : List ServerEvent} (hlock : s₀.pool.lockHeld = true) (hsound : Sound s₀)
    (hs : Accounts s₀) (hexec : exec step s₀ later = .ok s) : OutageLasts s₀ s := by
  obtain ⟨-, haccounts, houtage⟩ := outage_run hlock hsound hs hexec
  refine ⟨houtage, ?_, ?_⟩
  · intro n server xml request pool haccepted hle hname hwp hfinished
    obtain ⟨⟨m, out⟩, hmem, rfl⟩ := List.mem_map.mp hfinished
    have hget := houtage.later m out _ hmem hle haccepted _ (wpTurn_getsFirst xml hname hwp)
    cases hget
  · intro hall
    have hboth : (Sound s ∧ Accounts s ∧ Outage s₀ s) ∧ s.accepted = s₀.accepted ∧ s.finished = s₀.finished := by
      refine exec_keeps
        (I := fun s => (Sound s ∧ Accounts s ∧ Outage s₀ s) ∧ s.accepted = s₀.accepted ∧ s.finished = s₀.finished)
        ?_ ⟨⟨hsound, hs, outage_refl hs⟩, rfl, rfl⟩ hexec
      rintro s e s' ⟨⟨hsound, hs, h⟩, haccepted, hfinished⟩ hstep
      have hstepped := step_stepped hstep
      obtain ⟨haccepted', hfinished'⟩ := h.idle hall hstepped
      refine ⟨?_, haccepted'.trans haccepted, hfinished'.trans hfinished⟩
      exact ⟨sound_step hsound hstep, accounts_step hs hsound.valid hstepped, outage_step hlock hsound hs h hstepped⟩
    exact hboth.2

/-- A connect that failed once is felt at every later time. -/
theorem server_outage (maxConnections : UInt64) (events : List ServerEvent) (s : ServerState) (t : Thread) (sv : Serving)
    (rest : List Effect) (now : ℤ) (woken : Thread) (s₁ : ServerState) (between later : List ServerEvent)
    (s₀ s' : ServerState) (hexec : exec step (start maxConnections) events = .ok s) (hpc : s.threads t = .serving sv)
    (hrest : sv.rest = .get false :: rest) (hstep : s.step (.thread t now woken) = .ok s₁)
    (hbetween : exec step s₁ between = .ok s₀) (hlater : exec step s₀ later = .ok s') : OutageLasts s₀ s' := by
  have hlock₁ := failed_connect_locks (sound_run hexec) hpc hrest hstep
  have hsound₁ : Sound s₁ := sound_step (sound_run hexec) hstep
  have haccounts₁ : Accounts s₁ := accounts_step (accounts_run hexec) (sound_run hexec).valid (step_stepped hstep)
  obtain ⟨hsound₀, haccounts₀, houtage⟩ := outage_run hlock₁ hsound₁ haccounts₁ hbetween
  have hlock₀ : s₀.pool.lockHeld = true := by
    rw [houtage.pool]
    exact hlock₁
  exact outageLasts_of_locked hlock₀ hsound₀ haccounts₀ hlater

def brokenPool : Pool := ⟨some ⟨ByteStrings.ascii "down"⟩, fun _ => noRows⟩

def brokenTurn : Turn :=
  turnOf (addHandlerMappings [(ByteStrings.ascii "/", some (.wp brokenPool))]) (libxml false)
    (getRequest (ByteStrings.ascii "/category/news"))

/-- The connect of thread 0 fails, thread 1 then waits for the pool. -/
theorem server_outage_second :
    ∃ s s₁ s₀, exec step (start 40) (accepting 0 brokenTurn) = .ok s ∧ s.step (.thread 0 1 0) = .ok s₁ ∧
      exec step s₁ (accepting 1 deniedTurn) = .ok s₀ ∧ OutageLasts s₀ s₀ := by
  have hfirst : (exec step (start 40) (accepting 0 brokenTurn)).map (fun s => s.threads 0) =
    .ok (.serving (.start 0 brokenTurn)) := rfl
  have hall : (exec step (start 40) (accepting 0 brokenTurn ++ .thread 0 1 0 :: accepting 1 deniedTurn)).map
    (fun _ => ()) = .ok () := rfl
  have hget : (Serving.start 0 brokenTurn).rest.head? = some (.get false) := rfl
  obtain ⟨rest, hrest⟩ := List.head?_eq_some_iff.mp hget
  obtain ⟨s, hexec, hpc⟩ := exec_map_ok hfirst
  obtain ⟨s₀, hrun, -⟩ := exec_map_ok hall
  obtain ⟨s₁, hstep, hbetween⟩ := exec_cons_ok.mp ((exec_append hexec).symm.trans hrun)
  exact ⟨s, s₁, s₀, hexec, hstep, hbetween, server_outage 40 (accepting 0 brokenTurn) s 0 _ rest 1 0 s₁
    (accepting 1 deniedTurn) [] s₀ s₀ hexec hpc hrest hstep hbetween exec_nil⟩

end FcgiAppserver.Server
