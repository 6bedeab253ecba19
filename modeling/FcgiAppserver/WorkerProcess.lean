import FcgiAppserver.DbPool

namespace FcgiAppserver.Worker

open TransitionRuns Db

abbrev PoolAddr := ℕ

/-- The statements of the try block of `worker_process`, in its order. -/
inductive ServerStage
  | construct
  | dropPermissions
  | newWpHandler
  | newSitemapHandler
  | addSite
  | mapRoot
  | mapSitemap
  | addSitemapHandler
  | addWpHandler
  | init
  | run
  | shutdown
deriving DecidableEq

def ServerStage.next : ServerStage → Option ServerStage
  | construct => some dropPermissions
  | dropPermissions => some newWpHandler
  | newWpHandler => some newSitemapHandler
  | newSitemapHandler => some addSite
  | addSite => some mapRoot
  | mapRoot => some mapSitemap
  | mapSitemap => some addSitemapHandler
  | addSitemapHandler => some addWpHandler
  | addWpHandler => some init
  | init => some run
  | run => some shutdown
  | shutdown => none

/-- Where `worker_process` stands. The last four before the pool is destroyed are `join_maintenance_thread`. -/
inductive WorkerPc
  | constructPool
  | startMaintenance
  | serving (stage : ServerStage)
  | joinLock
  | joinSet
  | joinUnlock
  | joinWait
  | destroyPool (code : ℕ)
  | returned (code : ℕ)
  | exited
deriving DecidableEq

/-- Where `maintenance_thread_func` stands, with its locals and the pools its iteration has left. -/
inductive ThreadPc
  | absent
  | top
  | locking (now : ℤ)
  | visiting (now : ℤ) (pools : List PoolAddr)
  | scanning (now : ℤ) (pool : PoolAddr) (rest : List PoolAddr)
  | leaving (exiting : Bool)
  | sleeping (exiting : Bool)
  | finished
deriving DecidableEq

inductive LockHolder
  | worker
  | maintenance
deriving DecidableEq

structure WorkerProcess (τ : Type) where
  worker : WorkerPc
  thread : ThreadPc
  memory : PoolAddr → Option (DBPool τ)
  pools : List PoolAddr
  maintenanceLock : Option LockHolder
  maintenanceThreadRunning : Bool
  maintenanceThreadExiting : Bool

inductive WorkerEvent (τ : Type)
  | worker (created : Bool)
  | throws
  | sigquit
  | request (e : PoolEvent τ)
  | maintenance (now : ℤ)

inductive Fault
  | stuck (cause : Stuck)
  | destroyed (pool : PoolAddr)
deriving DecidableEq

def poolWpCom : PoolAddr := 0

namespace WorkerProcess

variable {τ : Type}

def start : WorkerProcess τ where
  worker := .constructPool
  thread := .absent
  memory := fun _ => none
  pools := []
  maintenanceLock := none
  maintenanceThreadRunning := false
  maintenanceThreadExiting := false

/-- `created` tells whether `pthread_create` succeeds, which the function does not look at. -/
def startMaintenanceThread (s : WorkerProcess τ) (pool : PoolAddr) (created : Bool) : WorkerProcess τ :=
  if s.maintenanceThreadRunning then { s with pools := s.pools ++ [pool] }
  else { s with
    pools := s.pools ++ [pool]
    thread := if created then .top else s.thread
    maintenanceThreadRunning := true }

def afterStage (stage : ServerStage) : WorkerPc :=
  match stage.next with
  | some later => .serving later
  | none => .joinLock

def workerStep (s : WorkerProcess τ) (created : Bool) : Except Fault (WorkerProcess τ) :=
  match s.worker with
  | .constructPool => .ok { s with
      memory := Function.update s.memory poolWpCom (some (newPool 40))
      worker := .startMaintenance }
  | .startMaintenance => .ok { s.startMaintenanceThread poolWpCom created with worker := .serving .construct }
  | .serving stage => .ok { s with worker := afterStage stage }
  | .joinLock =>
    if s.maintenanceLock = none then .ok { s with maintenanceLock := some .worker, worker := .joinSet }
    else .error (.stuck .blocked)
  | .joinSet => .ok { s with maintenanceThreadExiting := true, worker := .joinUnlock }
  | .joinUnlock => .ok { s with maintenanceLock := none, worker := .joinWait }
  | .joinWait =>
    match s.thread with
    | .finished => .ok { s with worker := .destroyPool 0 }
    -- pthread_join of a thread that was never made
    | .absent => .error (.stuck .undefined)
    | _ => .error (.stuck .blocked)
  | .destroyPool code => .ok { s with
      memory := Function.update s.memory poolWpCom none
      worker := .returned code }
  | .returned _ => .error (.stuck .notEnabled)
  | .exited => .error (.stuck .notEnabled)

/-- An exception of the try block: both catch clauses return 1. -/
def throws (s : WorkerProcess τ) : Except Fault (WorkerProcess τ) :=
  match s.worker with
  | .serving _ => .ok { s with worker := .destroyPool 1 }
  | _ => .error (.stuck .notEnabled)

/-- `exit` in the signal handler destroys no local object. -/
def sigquit (s : WorkerProcess τ) : WorkerProcess τ := { s with worker := .exited }

def threadStep (s : WorkerProcess τ) (now : ℤ) : Except Fault (WorkerProcess τ) :=
  match s.thread with
  | .absent => .error (.stuck .notEnabled)
  | .top => .ok { s with thread := .locking now }
  | .locking now =>
    if s.maintenanceLock = none then
      .ok { s with maintenanceLock := some .maintenance, thread := .visiting now s.pools }
    else .error (.stuck .blocked)
  | .visiting _ [] => .ok { s with thread := .leaving s.maintenanceThreadExiting }
  | .visiting now (p :: rest) =>
    match s.memory p with
    | none => .error (.destroyed p)
    | some pool =>
      if pool.lockHeld then .error (.stuck .blocked)
      else .ok { s with
        memory := Function.update s.memory p (some { pool with lockHeld := true })
        thread := .scanning now p rest }
  | .scanning now p rest =>
    match s.memory p with
    | none => .error (.destroyed p)
    | some pool =>
      match DBPool.maintenance { pool with lockHeld := false } now with
      | .ok pool => .ok { s with
          memory := Function.update s.memory p (some pool)
          thread := .visiting now rest }
      | .error cause => .error (.stuck cause)
  | .leaving exiting => .ok { s with maintenanceLock := none, thread := .sleeping exiting }
  | .sleeping exiting => .ok { s with thread := if exiting then .finished else .top }
  | .finished => .error (.stuck .notEnabled)

variable [DecidableEq τ]

/-- A call of `get` or `put` by a thread of the server while it runs. -/
def request (s : WorkerProcess τ) (e : PoolEvent τ) : Except Fault (WorkerProcess τ) :=
  match s.worker, s.memory poolWpCom, e with
  | _, _, .maintenance _ => .error (.stuck .notEnabled)
  | .serving .run, some pool, e =>
    match DBPool.step pool e with
    | .ok pool => .ok { s with memory := Function.update s.memory poolWpCom (some pool) }
    | .error cause => .error (.stuck cause)
  | _, _, _ => .error (.stuck .notEnabled)

def step (s : WorkerProcess τ) : WorkerEvent τ → Except Fault (WorkerProcess τ)
  | .worker created => s.workerStep created
  | .throws => s.throws
  | .sigquit => .ok s.sigquit
  | .request e => s.request e
  | .maintenance now => s.threadStep now

omit [DecidableEq τ] in
/-- No exception leaves the try block while there is a maintenance thread. -/
def NoErrorExit (s : WorkerProcess τ) : WorkerEvent τ → Prop
  | .throws => s.thread = .absent
  | _ => True

omit [DecidableEq τ] in
instance (s : WorkerProcess τ) : (e : WorkerEvent τ) → Decidable (NoErrorExit s e)
  | .throws => inferInstanceAs (Decidable (s.thread = .absent))
  | .worker _ | .sigquit | .request _ | .maintenance _ => .isTrue trivial

omit [DecidableEq τ] in
def Idle (s : WorkerProcess τ) : Prop := s.thread = .absent ∨ s.thread = .finished

end WorkerProcess

def ThreadPc.toVisit : ThreadPc → List PoolAddr
  | visiting _ pools => pools
  | scanning _ p rest => p :: rest
  | _ => []

namespace WorkerProcess

variable {τ : Type}

/-- While the maintenance thread lives, every pool that it visits now or in a later pass lives too. -/
structure Sound (s : WorkerProcess τ) : Prop where
  living : s.Idle ∨ ∀ p ∈ s.pools ++ s.thread.toVisit, (s.memory p).isSome
  constructing : s.worker = .constructPool → s.thread = .absent ∧ s.pools = []
  starting : s.worker = .startMaintenance → s.thread = .absent ∧ s.pools = [] ∧ (s.memory poolWpCom).isSome
  destroying : ∀ code, s.worker = .destroyPool code → s.Idle

theorem sound_start : Sound (start : WorkerProcess τ) where
  living := Or.inl (Or.inl rfl)
  constructing := fun _ => ⟨rfl, rfl⟩
  starting := nofun
  destroying := nofun

theorem isSome_update {memory : PoolAddr → Option (DBPool τ)} {p q : PoolAddr} {pool : DBPool τ}
    (h : (memory q).isSome) : (Function.update memory p (some pool) q).isSome := by
  by_cases hq : q = p
  · subst hq
    simp
  · rwa [Function.update_of_ne hq]

theorem afterStage_cases (stage : ServerStage) :
    (∃ later, afterStage stage = .serving later) ∨ afterStage stage = .joinLock := by
  unfold afterStage
  cases stage.next with
  | some later => exact Or.inl ⟨later, rfl⟩
  | none => exact Or.inr rfl

theorem startMaintenanceThread_thread (s : WorkerProcess τ) (pool : PoolAddr) (created : Bool) :
    (s.startMaintenanceThread pool created).thread = s.thread ∨
      (s.startMaintenanceThread pool created).thread = .top := by
  unfold startMaintenanceThread
  split
  · exact Or.inl rfl
  · cases created with
    | true => exact Or.inr rfl
    | false => exact Or.inl rfl

theorem startMaintenanceThread_pools (s : WorkerProcess τ) (pool : PoolAddr) (created : Bool) :
    (s.startMaintenanceThread pool created).pools = s.pools ++ [pool] := by
  unfold startMaintenanceThread
  split <;> rfl

theorem startMaintenanceThread_memory (s : WorkerProcess τ) (pool : PoolAddr) (created : Bool) :
    (s.startMaintenanceThread pool created).memory = s.memory := by
  unfold startMaintenanceThread
  split <;> rfl

theorem Sound.move {s s' : WorkerProcess τ} (hs : Sound s) (hthread : s'.thread = s.thread)
    (hmemory : s'.memory = s.memory) (hpools : s'.pools = s.pools) (hconstruct : s'.worker ≠ .constructPool)
    (hstart : s'.worker ≠ .startMaintenance) (hdestroy : ∀ code, s'.worker = .destroyPool code → s'.Idle) :
    Sound s' where
  living := by
    rw [Idle, hthread, hmemory, hpools]
    exact hs.living
  constructing := fun h => absurd h hconstruct
  starting := fun h => absurd h hstart
  destroying := hdestroy

theorem sound_workerStep {s s' : WorkerProcess τ} {created : Bool} (hs : Sound s)
    (h : s.workerStep created = .ok s') : Sound s' := by
  unfold workerStep at h
  split at h
  · rename_i hpc
    cases h
    obtain ⟨habsent, hpools⟩ := hs.constructing hpc
    refine ⟨Or.inl (Or.inl habsent), nofun, ?_, nofun⟩
    intro _
    exact ⟨habsent, hpools, by simp⟩
  · rename_i hpc
    cases h
    obtain ⟨habsent, hpools, hlive⟩ := hs.starting hpc
    refine ⟨?_, nofun, nofun, nofun⟩
    rcases startMaintenanceThread_thread s poolWpCom created with hthread | hthread
    · exact Or.inl (Or.inl (hthread.trans habsent))
    · apply Or.inr
      intro p hp
      rw [hthread, startMaintenanceThread_pools, hpools] at hp
      have hpool : p = poolWpCom := by simpa [ThreadPc.toVisit] using hp
      rw [startMaintenanceThread_memory, hpool]
      exact hlive
  · rename_i stage hpc
    cases h
    rcases afterStage_cases stage with ⟨later, hafter⟩ | hafter
    · apply hs.move <;> simp [hafter]
    · apply hs.move <;> simp [hafter]
  · split at h
    · cases h
      apply hs.move <;> simp
    · cases h
  · cases h
    apply hs.move <;> simp
  · cases h
    apply hs.move <;> simp
  · split at h
    · rename_i hfinished
      cases h
      exact hs.move rfl rfl rfl nofun nofun (fun _ _ => Or.inr hfinished)
    · cases h
    · cases h
  · rename_i code hpc
    cases h
    exact ⟨Or.inl (hs.destroying code hpc), nofun, nofun, nofun⟩
  · cases h
  · cases h

theorem Sound.visit {s s' : WorkerProcess τ} (hs : Sound s) (hlives : ¬ s.Idle) (hworker : s'.worker = s.worker)
    (hvisit : ∀ p ∈ s'.pools ++ s'.thread.toVisit, p ∈ s.pools ++ s.thread.toVisit)
    (hmemory : ∀ p, (s.memory p).isSome → (s'.memory p).isSome) : Sound s' where
  living := Or.inr fun p hp => hmemory p (hs.living.resolve_left hlives p (hvisit p hp))
  constructing := fun h => absurd (Or.inl (hs.constructing (hworker ▸ h)).1) hlives
  starting := fun h => absurd (Or.inl (hs.starting (hworker ▸ h)).1) hlives
  destroying := fun code h => absurd (hs.destroying code (hworker ▸ h)) hlives

theorem Sound.rest {s s' : WorkerProcess τ} (hs : Sound s) (hlives : ¬ s.Idle) (hworker : s'.worker = s.worker)
    (hpools : s'.pools = s.pools) (hmemory : s'.memory = s.memory) (hnone : s'.thread.toVisit = []) :
    Sound s' := by
  apply hs.visit hlives hworker
  · rw [hpools, hnone, List.append_nil]
    exact fun p hp => List.mem_append_left _ hp
  · rw [hmemory]
    exact fun p hp => hp

theorem not_idle {s : WorkerProcess τ} {pc : ThreadPc} (hpc : s.thread = pc) (habsent : pc ≠ .absent)
    (hfinished : pc ≠ .finished) : ¬ s.Idle := by
  rintro (h | h)
  · exact habsent (hpc.symm.trans h)
  · exact hfinished (hpc.symm.trans h)

theorem sound_threadStep {s s' : WorkerProcess τ} {now : ℤ} (hs : Sound s) (h : s.threadStep now = .ok s') :
    Sound s' := by
  unfold threadStep at h
  split at h
  · cases h
  · rename_i hpc
    cases h
    exact hs.rest (not_idle hpc nofun nofun) rfl rfl rfl rfl
  · rename_i started hpc
    split at h
    · cases h
      refine hs.visit (not_idle hpc nofun nofun) rfl ?_ (fun _ => id)
      intro p hp
      have hpool : p ∈ s.pools := by simpa [ThreadPc.toVisit] using hp
      exact List.mem_append_left _ hpool
    · cases h
  · rename_i started hpc
    cases h
    exact hs.rest (not_idle hpc nofun nofun) rfl rfl rfl rfl
  · rename_i started p rest hpc
    split at h
    · cases h
    · split at h
      · cases h
      · cases h
        exact hs.visit (not_idle hpc nofun nofun) rfl (by simp [ThreadPc.toVisit, hpc]) (fun _ => isSome_update)
  · rename_i started p rest hpc
    split at h
    · cases h
    · split at h
      · cases h
        refine hs.visit (not_idle hpc nofun nofun) rfl ?_ (fun _ => isSome_update)
        intro q hq
        rw [hpc, ThreadPc.toVisit]
        rcases List.mem_append.mp hq with hq | hq
        · exact List.mem_append_left _ hq
        · exact List.mem_append_right _ (List.mem_cons_of_mem _ hq)
      · cases h
  · rename_i exiting hpc
    cases h
    exact hs.rest (not_idle hpc nofun nofun) rfl rfl rfl rfl
  · rename_i exiting hpc
    cases h
    refine hs.rest (not_idle hpc nofun nofun) rfl rfl rfl ?_
    cases exiting <;> rfl
  · cases h

variable [DecidableEq τ]

theorem sound_request {s s' : WorkerProcess τ} {e : PoolEvent τ} (hs : Sound s) (h : s.request e = .ok s') :
    Sound s' := by
  unfold request at h
  split at h
  · cases h
  · rename_i hserving _ _
    split at h
    · cases h
      refine ⟨hs.living.imp_right fun hall p hp => isSome_update (hall p hp), ?_, ?_, ?_⟩
      all_goals simp [hserving]
    · cases h
  · cases h

theorem sound_step {s s' : WorkerProcess τ} {e : WorkerEvent τ} (hs : Sound s) (hexit : NoErrorExit s e)
    (h : s.step e = .ok s') : Sound s' := by
  cases e with
  | worker created => exact sound_workerStep hs h
  | throws =>
    simp only [step, throws] at h
    split at h
    · cases h
      exact hs.move rfl rfl rfl nofun nofun (fun _ _ => Or.inl hexit)
    · cases h
  | sigquit =>
    cases h
    exact hs.move rfl rfl rfl nofun nofun nofun
  | request e => exact sound_request hs h
  | maintenance now => exact sound_threadStep hs h

theorem step_destroyed {s : WorkerProcess τ} {e : WorkerEvent τ} {p : PoolAddr}
    (h : s.step e = .error (.destroyed p)) : p ∈ s.thread.toVisit ∧ s.memory p = none := by
  cases e with
  | worker created =>
    simp only [step, workerStep] at h
    repeat' split at h
    all_goals cases h
  | throws =>
    simp only [step, throws] at h
    split at h <;> cases h
  | sigquit => cases h
  | request e =>
    simp only [step, request] at h
    repeat' split at h
    all_goals cases h
  | maintenance now =>
    simp only [step, threadStep] at h
    repeat' split at h
    all_goals cases h
    · rename_i started rest hpc hnone
      exact ⟨by rw [hpc]; exact List.mem_cons_self, hnone⟩
    · rename_i started rest hpc hnone
      exact ⟨by rw [hpc]; exact List.mem_cons_self, hnone⟩

theorem never_destroyed (events : List (WorkerEvent τ)) (p : PoolAddr)
    (hexit : Along step NoErrorExit start events) : exec step start events ≠ .error (.destroyed p) := by
  refine exec_ne_error (fun _ _ _ hs hexit hstep => sound_step hs hexit hstep) ?_ sound_start hexit
  intro s e hs hstep
  obtain ⟨hvisit, hnone⟩ := step_destroyed hstep
  rcases hs.living with (hidle | hidle) | hlive
  · rw [hidle] at hvisit
    exact absurd hvisit List.not_mem_nil
  · rw [hidle] at hvisit
    exact absurd hvisit List.not_mem_nil
  · have hsome := hlive p (List.mem_append_right _ hvisit)
    rw [hnone] at hsome
    exact absurd hsome nofun

/-- The states of the try block once there is a maintenance thread. -/
def Circulating (s : WorkerProcess τ) : Prop :=
  s.pools = [poolWpCom] ∧ s.maintenanceThreadExiting = false ∧
    match s.thread with
    | .absent => False
    | .top => s.maintenanceLock = none
    | .locking _ => s.maintenanceLock = none
    | .visiting _ pools => ∀ p ∈ pools, p = poolWpCom
    | .scanning _ p rest => ∀ q ∈ p :: rest, q = poolWpCom
    | .leaving exiting => exiting = false
    | .sleeping exiting => exiting = false ∧ s.maintenanceLock = none
    | .finished => False

def Served (s : WorkerProcess τ) : Prop :=
  match s.worker with
  | .constructPool | .startMaintenance =>
    s.thread = .absent ∧ s.pools = [] ∧ s.maintenanceLock = none ∧ s.maintenanceThreadExiting = false
  | .serving _ => s.thread = .absent ∨ Circulating s
  | _ => True

omit [DecidableEq τ] in
theorem threadStep_worker {s s' : WorkerProcess τ} {now : ℤ} (h : s.threadStep now = .ok s') :
    s'.worker = s.worker := by
  unfold threadStep at h
  repeat' split at h
  all_goals
    cases h
    try rfl

omit [DecidableEq τ] in
theorem circulating_threadStep {s s' : WorkerProcess τ} {now : ℤ} (hs : Circulating s)
    (h : s.threadStep now = .ok s') : Circulating s' := by
  obtain ⟨hpools, hexiting, hthread⟩ := hs
  unfold threadStep at h
  split at h <;> rename_i hpc <;> rw [hpc] at hthread
  · cases h
  · cases h
    exact ⟨hpools, hexiting, hthread⟩
  · have hfree : s.maintenanceLock = none := hthread
    rw [if_pos hfree] at h
    cases h
    refine ⟨hpools, hexiting, ?_⟩
    intro p hp
    rw [hpools] at hp
    exact List.mem_singleton.mp hp
  · cases h
    exact ⟨hpools, hexiting, hexiting⟩
  · split at h
    · cases h
    · split at h
      · cases h
      · cases h
        exact ⟨hpools, hexiting, hthread⟩
  · split at h
    · cases h
    · split at h
      · cases h
        exact ⟨hpools, hexiting, fun q hq => hthread q (List.mem_cons_of_mem _ hq)⟩
      · cases h
  · cases h
    exact ⟨hpools, hexiting, hthread, rfl⟩
  · rename_i exiting
    have hgoes : exiting = false := hthread.1
    subst hgoes
    cases h
    exact ⟨hpools, hexiting, hthread.2⟩
  · cases h

omit [DecidableEq τ] in
theorem served_workerStep {s s' : WorkerProcess τ} {created : Bool} (hs : Served s)
    (h : s.workerStep created = .ok s') : Served s' := by
  unfold workerStep at h
  unfold Served at hs
  split at h <;> rename_i hpc <;> rw [hpc] at hs
  · cases h
    exact hs
  · cases h
    obtain ⟨habsent, hpools, hlock, hexiting⟩ := hs
    unfold startMaintenanceThread
    split
    · exact Or.inl habsent
    · cases created with
      | false => exact Or.inl habsent
      | true => exact Or.inr ⟨by rw [hpools]; rfl, hexiting, hlock⟩
  · rename_i stage
    cases h
    rcases afterStage_cases stage with ⟨later, hafter⟩ | hafter
    · rw [hafter]
      exact hs
    · rw [hafter]
      trivial
  · split at h
    · cases h
      trivial
    · cases h
  · cases h
    trivial
  · cases h
    trivial
  · split at h
    · cases h
      trivial
    · cases h
    · cases h
  · cases h
    trivial
  · cases h
  · cases h

theorem served_step {s s' : WorkerProcess τ} {e : WorkerEvent τ} (hs : Served s) (h : s.step e = .ok s') :
    Served s' := by
  cases e with
  | worker created => exact served_workerStep hs h
  | throws =>
    simp only [step, throws] at h
    split at h
    · cases h
      trivial
    · cases h
  | sigquit =>
    cases h
    trivial
  | request e =>
    simp only [step, request] at h
    split at h
    · cases h
    · rename_i hserving _ _
      split at h
      · cases h
        unfold Served at hs ⊢
        rw [hserving] at hs ⊢
        exact hs
      · cases h
    · cases h
  | maintenance now =>
    have hlives : s.thread ≠ .absent := by
      intro habsent
      simp [step, threadStep, habsent] at h
    unfold Served at hs ⊢
    rw [threadStep_worker h]
    cases hworker : s.worker with
    | serving stage =>
      rw [hworker] at hs
      exact Or.inr (circulating_threadStep (hs.resolve_left hlives) h)
    | constructPool =>
      rw [hworker] at hs
      exact absurd hs.1 hlives
    | startMaintenance =>
      rw [hworker] at hs
      exact absurd hs.1 hlives
    | _ => trivial

theorem circulating_reaches {s : WorkerProcess τ} (hs : Circulating s) (hdead : s.memory poolWpCom = none) :
    ∃ passes, exec step s passes = .error (.destroyed poolWpCom) := by
  obtain ⟨worker, thread, memory, pools, lock, running, exiting⟩ := s
  obtain ⟨hpools, hexiting, hthread⟩ := hs
  simp only at hpools hexiting hthread hdead
  subst hpools hexiting
  cases thread with
  | absent => exact hthread.elim
  | top => exact ⟨[.maintenance 0, .maintenance 0, .maintenance 0], by simp [exec, step, threadStep, hthread, hdead]⟩
  | locking now => exact ⟨[.maintenance 0, .maintenance 0], by simp [exec, step, threadStep, hthread, hdead]⟩
  | visiting now pools =>
    cases pools with
    | nil =>
      exact ⟨List.replicate 6 (.maintenance 0), by simp [exec, step, threadStep, hdead, List.replicate]⟩
    | cons p rest =>
      have hp : p = poolWpCom := hthread p List.mem_cons_self
      exact ⟨[.maintenance 0], by simp [exec, step, threadStep, hp, hdead]⟩
  | scanning now p rest =>
    have hp : p = poolWpCom := hthread p List.mem_cons_self
    exact ⟨[.maintenance 0], by simp [exec, step, threadStep, hp, hdead]⟩
  | leaving exiting =>
    exact ⟨List.replicate 5 (.maintenance 0), by simp [exec, step, threadStep, hthread, hdead, List.replicate]⟩
  | sleeping exiting =>
    exact ⟨List.replicate 4 (.maintenance 0), by simp [exec, step, threadStep, hthread, hdead, List.replicate]⟩
  | finished => exact hthread.elim

/-- An exception in a state with a maintenance thread can be followed by a pass over the dead pool. -/
theorem error_exit_unsafe (events : List (WorkerEvent τ)) (s : WorkerProcess τ) (stage : ServerStage)
    (hexec : exec step start events = .ok s) (hserving : s.worker = .serving stage) (hthread : s.thread ≠ .absent) :
    ∃ passes, exec step start (events ++ .throws :: .worker true :: passes) = .error (.destroyed poolWpCom) := by
  have hserved : Served s := by
    refine exec_keeps (fun _ _ _ hs hstep => served_step hs hstep) ?_ hexec
    exact ⟨rfl, rfl, rfl, rfl⟩
  unfold Served at hserved
  rw [hserving] at hserved
  have hcirculating := hserved.resolve_left hthread
  obtain ⟨passes, hpasses⟩ := circulating_reaches (s := { s with
    worker := .returned 1
    memory := Function.update s.memory poolWpCom none }) hcirculating (by simp)
  refine ⟨passes, ?_⟩
  rw [exec_append hexec, exec, step, throws, hserving]
  exact hpasses

def normalRun : List (WorkerEvent ℕ) :=
  List.replicate 17 (.worker true) ++ List.replicate 7 (.maintenance 0) ++ List.replicate 2 (.worker true)

theorem never_destroyed_normal :
    (∃ s, exec step start normalRun = .ok s ∧ s.worker = .returned 0 ∧ s.thread = .finished) ∧
      exec step start normalRun ≠ .error (.destroyed poolWpCom) :=
  ⟨⟨_, rfl, rfl, rfl⟩, never_destroyed normalRun poolWpCom (by decide +kernel)⟩

/-- The server cannot be constructed, and the thread makes its first pass after `worker_process` returned 1. -/
theorem destroyed_pool_scanned :
    exec step (start : WorkerProcess ℕ)
        [.worker true, .worker true, .throws, .worker true, .maintenance 0, .maintenance 0, .maintenance 0] =
      .error (.destroyed poolWpCom) := rfl

end WorkerProcess

end FcgiAppserver.Worker
