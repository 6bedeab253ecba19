import FcgiAppserver.PoolLock
import FcgiAppserver.WorkerProcess

namespace FcgiAppserver.Worker

open TransitionRuns Db

def ThreadPc.Passing : ThreadPc → Prop
  | visiting _ _ | scanning _ _ _ | leaving _ => True
  | _ => False

def WorkerPc.Joining : WorkerPc → Prop
  | joinSet | joinUnlock => True
  | _ => False

def WorkerPc.Waits : WorkerPc → Prop
  | serving _ | joinLock | joinSet | joinUnlock | joinWait => True
  | _ => False

namespace WorkerProcess

variable {τ : Type}

structure LockFits (s : WorkerProcess τ) : Prop where
  passing : s.thread.Passing → s.maintenanceLock = some .maintenance
  joining : s.worker.Joining → s.maintenanceLock = some .worker

/-- No step of the maintenance thread leads from here to its end. -/
def Stays (s : WorkerProcess τ) : ThreadPc → Prop
  | .visiting _ pools => (∀ p ∈ pools, p = poolWpCom) ∧ (pools = [] → s.maintenanceThreadExiting = false)
  | .leaving exiting => exiting = false
  | .sleeping exiting => exiting = false
  | .scanning _ _ _ => False
  | .finished => False
  | _ => True

/-- `get` has kept the lock of the pool, which stays as it is. -/
structure Jammed (pool : DBPool τ) (s : WorkerProcess τ) : Prop where
  memory : s.memory poolWpCom = some pool
  pools : s.thread ≠ .absent → s.pools = [poolWpCom]
  stays : Stays s s.thread
  waits : s.worker.Waits
  fits : LockFits s

def Aborted (s : WorkerProcess τ) : Prop := s.worker ∈ [.destroyPool 1, .returned 1, .exited]

theorem lockFits_start : LockFits (start : WorkerProcess τ) where
  passing h := h.elim
  joining h := h.elim

theorem LockFits.disjoint {s : WorkerProcess τ} (hs : LockFits s) (hpassing : s.thread.Passing) : ¬ s.worker.Joining := by
  intro hjoining
  have hlock := (hs.passing hpassing).symm.trans (hs.joining hjoining)
  cases hlock

theorem LockFits.free {s : WorkerProcess τ} (hs : LockFits s) (hfree : s.maintenanceLock = none) : ¬ s.thread.Passing := by
  intro hpassing
  have hlock := (hs.passing hpassing).symm.trans hfree
  cases hlock

theorem afterStage_not_joining (stage : ServerStage) : ¬ (afterStage stage).Joining := by
  rcases afterStage_cases stage with ⟨later, hafter⟩ | hafter
  · rw [hafter]
    exact fun h => h
  · rw [hafter]
    exact fun h => h

theorem afterStage_waits (stage : ServerStage) : (afterStage stage).Waits := by
  rcases afterStage_cases stage with ⟨later, hafter⟩ | hafter
  · rw [hafter]
    trivial
  · rw [hafter]
    trivial

theorem lockFits_workerStep {s s' : WorkerProcess τ} {created : Bool} (hs : LockFits s)
    (h : s.workerStep created = .ok s') : LockFits s' := by
  unfold workerStep at h
  split at h <;> rename_i hpc
  · cases h
    exact ⟨hs.passing, fun h => h.elim⟩
  · cases h
    refine ⟨?_, fun h => h.elim⟩
    intro hpassing
    have hthread : s.thread.Passing := by
      rcases startMaintenanceThread_thread s poolWpCom created with hsame | htop
      · exact hsame ▸ hpassing
      · have hnot : (s.startMaintenanceThread poolWpCom created).thread.Passing := hpassing
        rw [htop] at hnot
        exact hnot.elim
    have hlock := hs.passing hthread
    unfold startMaintenanceThread
    split
    · exact hlock
    · exact hlock
  · cases h
    exact ⟨hs.passing, fun h => absurd h (afterStage_not_joining _)⟩
  · split at h
    · rename_i hfree
      cases h
      exact ⟨fun hpassing => absurd hpassing (hs.free hfree), fun _ => rfl⟩
    · cases h
  · cases h
    refine ⟨hs.passing, fun _ => hs.joining ?_⟩
    rw [hpc]
    trivial
  · cases h
    refine ⟨fun hpassing => absurd ?_ (hs.disjoint hpassing), fun h => h.elim⟩
    rw [hpc]
    trivial
  · split at h
    · cases h
      exact ⟨hs.passing, fun h => h.elim⟩
    · cases h
    · cases h
  · cases h
    exact ⟨hs.passing, fun h => h.elim⟩
  · cases h
  · cases h

theorem lockFits_threadStep {s s' : WorkerProcess τ} {now : ℤ} (hs : LockFits s) (h : s.threadStep now = .ok s') :
    LockFits s' := by
  have hpassing : ∀ pc, s.thread = pc → pc.Passing → s.maintenanceLock = some .maintenance := by
    rintro pc rfl hpc
    exact hs.passing hpc
  unfold threadStep at h
  split at h <;> rename_i hpc
  · cases h
  · cases h
    exact ⟨fun h => h.elim, hs.joining⟩
  · split at h
    · rename_i hfree
      cases h
      refine ⟨fun _ => rfl, ?_⟩
      intro hjoining
      have hlock := (hs.joining hjoining).symm.trans hfree
      cases hlock
    · cases h
  · cases h
    exact ⟨fun _ => hpassing _ hpc trivial, hs.joining⟩
  · split at h
    · cases h
    · split at h
      · cases h
      · cases h
        exact ⟨fun _ => hpassing _ hpc trivial, hs.joining⟩
  · split at h
    · cases h
    · split at h
      · cases h
        exact ⟨fun _ => hpassing _ hpc trivial, hs.joining⟩
      · cases h
  · cases h
    refine ⟨fun h => h.elim, ?_⟩
    intro hjoining
    exact absurd hjoining (hs.disjoint (by rw [hpc]; trivial))
  · rename_i exiting
    cases h
    refine ⟨?_, hs.joining⟩
    cases exiting with
    | true => exact fun h => h.elim
    | false => exact fun h => h.elim
  · cases h

variable [DecidableEq τ]

theorem lockFits_step {s s' : WorkerProcess τ} {e : WorkerEvent τ} (hs : LockFits s) (h : s.step e = .ok s') :
    LockFits s' := by
  cases e with
  | worker created => exact lockFits_workerStep hs h
  | throws =>
    simp only [step, throws] at h
    split at h
    · cases h
      exact ⟨hs.passing, fun h => h.elim⟩
    · cases h
  | sigquit =>
    cases h
    exact ⟨hs.passing, fun h => h.elim⟩
  | request e =>
    simp only [step, request] at h
    split at h
    · cases h
    · split at h
      · cases h
        exact ⟨hs.passing, hs.joining⟩
      · cases h
    · cases h
  | maintenance now => exact lockFits_threadStep hs h

def ScansLocked (s : WorkerProcess τ) : Prop :=
  ∀ stage now p rest pool, s.worker = .serving stage → s.thread = .scanning now p rest → s.memory p = some pool →
    pool.lockHeld = true

omit [DecidableEq τ] in
theorem scansLocked_workerStep {s s' : WorkerProcess τ} {created : Bool} (hserved : Served s) (hs : ScansLocked s)
    (h : s.workerStep created = .ok s') : ScansLocked s' := by
  intro stage now p rest pool hworker hthread hmemory
  unfold workerStep at h
  split at h <;> rename_i hpc
  · cases h
    cases hworker
  · cases h
    unfold Served at hserved
    rw [hpc] at hserved
    rcases startMaintenanceThread_thread s poolWpCom created with hsame | htop
    · have habsent := (hsame.trans hserved.1).symm.trans hthread
      cases habsent
    · have hscans := htop.symm.trans hthread
      cases hscans
  · cases h
    exact hs _ now p rest pool hpc hthread hmemory
  · split at h
    · cases h
      cases hworker
    · cases h
  · cases h
    cases hworker
  · cases h
    cases hworker
  · split at h
    · cases h
      cases hworker
    · cases h
    · cases h
  · cases h
    cases hworker
  · cases h
  · cases h

omit [DecidableEq τ] in
theorem scansLocked_threadStep {s s' : WorkerProcess τ} {now' : ℤ} (h : s.threadStep now' = .ok s') : ScansLocked s' := by
  intro stage now p rest pool hworker hthread hmemory
  unfold threadStep at h
  split at h
  · cases h
  · cases h
    cases hthread
  · split at h
    · cases h
      cases hthread
    · cases h
  · cases h
    cases hthread
  · split at h
    · cases h
    · split at h
      · cases h
      · cases h
        cases hthread
        simp only [Function.update_self, Option.some.injEq] at hmemory
        rw [← hmemory]
  · split at h
    · cases h
    · split at h
      · cases h
        cases hthread
      · cases h
  · cases h
    cases hthread
  · rename_i exiting hpc
    cases h
    cases exiting with
    | true => cases hthread
    | false => cases hthread
  · cases h

theorem scansLocked_step {s s' : WorkerProcess τ} {e : WorkerEvent τ} (hserved : Served s) (hs : ScansLocked s)
    (h : s.step e = .ok s') : ScansLocked s' := by
  cases e with
  | worker created => exact scansLocked_workerStep hserved hs h
  | throws =>
    simp only [step, throws] at h
    split at h
    · cases h
      intro stage now p rest pool hworker
      cases hworker
    · cases h
  | sigquit =>
    cases h
    intro stage now p rest pool hworker
    cases hworker
  | request e =>
    simp only [step, request] at h
    split at h
    · cases h
    · rename_i hworker hpool hnot
      split at h
      · rename_i hstep
        cases h
        intro stage now p rest pool hserving hthread hmemory
        unfold Served at hserved
        rw [hworker] at hserved
        rcases hserved with habsent | ⟨-, -, hcirculates⟩
        · have hscans := habsent.symm.trans hthread
          cases hscans
        · have hscanned : s.thread = .scanning now p rest := hthread
          rw [hscanned] at hcirculates
          have hp : p = poolWpCom := hcirculates p List.mem_cons_self
          subst hp
          rw [DBPool.step_blocked (hs _ now _ rest _ hworker hscanned hpool)] at hstep
          cases hstep
      · cases h
    · cases h
  | maintenance now => exact scansLocked_threadStep h

section

variable {pool : DBPool τ} {s s' : WorkerProcess τ}

omit [DecidableEq τ] in
theorem jammed_workerStep {created : Bool} (hs : Jammed pool s) (h : s.workerStep created = .ok s') :
    Jammed pool s' := by
  have hfits := lockFits_workerStep hs.fits h
  have hwaits := hs.waits
  have hstays := hs.stays
  unfold workerStep at h
  split at h <;> rename_i hpc <;> rw [hpc] at hwaits
  · exact hwaits.elim
  · exact hwaits.elim
  · rename_i stage
    cases h
    exact ⟨hs.memory, hs.pools, hstays, afterStage_waits stage, hfits⟩
  · split at h
    · cases h
      exact ⟨hs.memory, hs.pools, hstays, trivial, hfits⟩
    · cases h
  · cases h
    refine ⟨hs.memory, hs.pools, ?_, trivial, hfits⟩
    -- the thread is not in a pass while the worker holds the lock
    have hnot : ¬ s.thread.Passing := by
      intro hpassing
      apply hs.fits.disjoint hpassing
      rw [hpc]
      trivial
    change Stays _ s.thread
    cases hthread : s.thread with
    | visiting now pools =>
      rw [hthread] at hnot
      exact absurd trivial hnot
    | _ =>
      rw [hthread] at hstays
      exact hstays
  · cases h
    exact ⟨hs.memory, hs.pools, hstays, trivial, hfits⟩
  · split at h
    · rename_i hfinished
      rw [hfinished] at hstays
      exact hstays.elim
    · cases h
    · cases h
  · exact hwaits.elim
  · exact hwaits.elim
  · exact hwaits.elim

omit [DecidableEq τ] in
theorem jammed_threadStep {now : ℤ} (hlocked : pool.lockHeld = true) (hs : Jammed pool s)
    (h : s.threadStep now = .ok s') : Jammed pool s' := by
  have hfits := lockFits_threadStep hs.fits h
  have hlives : s.thread ≠ .absent := by
    intro habsent
    simp [threadStep, habsent] at h
  have hpools := hs.pools hlives
  have hstays := hs.stays
  unfold threadStep at h
  split at h <;> rename_i hpc <;> rw [hpc] at hstays
  · cases h
  · cases h
    exact ⟨hs.memory, fun _ => hpools, trivial, hs.waits, hfits⟩
  · split at h
    · cases h
      refine ⟨hs.memory, fun _ => hpools, ⟨?_, ?_⟩, hs.waits, hfits⟩
      · intro p hp
        rw [hpools] at hp
        exact List.mem_singleton.mp hp
      · intro hnil
        rw [hpools] at hnil
        cases hnil
    · cases h
  · cases h
    exact ⟨hs.memory, fun _ => hpools, hstays.2 rfl, hs.waits, hfits⟩
  · rename_i p rest
    have hp : p = poolWpCom := hstays.1 p List.mem_cons_self
    rw [hp, hs.memory] at h
    simp only [hlocked, if_true] at h
    cases h
  · exact hstays.elim
  · cases h
    exact ⟨hs.memory, fun _ => hpools, hstays, hs.waits, hfits⟩
  · rename_i exiting
    have hgoes : exiting = false := hstays
    subst hgoes
    cases h
    exact ⟨hs.memory, fun _ => hpools, trivial, hs.waits, hfits⟩
  · cases h

theorem jammed_step {e : WorkerEvent τ} (hlocked : pool.lockHeld = true) (hs : Jammed pool s ∨ Aborted s)
    (h : s.step e = .ok s') : Jammed pool s' ∨ Aborted s' := by
  rcases hs with hs | hs
  · cases e with
    | worker created => exact Or.inl (jammed_workerStep hs h)
    | throws =>
      simp only [step, throws] at h
      split at h
      · cases h
        exact Or.inr List.mem_cons_self
      · cases h
    | sigquit =>
      cases h
      exact Or.inr (List.mem_cons_of_mem _ (List.mem_cons_of_mem _ List.mem_cons_self))
    | request e =>
      simp only [step, request] at h
      split at h
      · cases h
      · rename_i hworker hpool hnot
        rw [hs.memory, Option.some.injEq] at hpool
        subst hpool
        rw [DBPool.step_blocked hlocked] at h
        cases h
      · cases h
    | maintenance now => exact Or.inl (jammed_threadStep hlocked hs h)
  · apply Or.inr
    cases e with
    | worker created =>
      simp only [step, workerStep] at h
      rcases List.mem_cons.mp hs with hpc | hs
      · rw [hpc] at h
        cases h
        exact List.mem_cons_of_mem _ List.mem_cons_self
      · rcases List.mem_cons.mp hs with hpc | hs
        · rw [hpc] at h
          cases h
        · rw [List.mem_singleton.mp hs] at h
          cases h
    | throws =>
      simp only [step, throws] at h
      split at h
      · rename_i hpc
        rw [Aborted, hpc] at hs
        simp at hs
      · cases h
    | sigquit =>
      cases h
      exact List.mem_cons_of_mem _ (List.mem_cons_of_mem _ List.mem_cons_self)
    | request e =>
      simp only [step, request] at h
      split at h
      · cases h
      · rename_i hpc _ _
        rw [Aborted, hpc] at hs
        simp at hs
      · cases h
    | maintenance now =>
      rw [Aborted, threadStep_worker h]
      exact hs

theorem jammed_of_failed {pool : DBPool τ} {t : τ} {now : ℤ} (hserved : Served s) (hscans : ScansLocked s) (hfits : LockFits s)
    (hrunning : s.worker = .serving .run) (hpool : s.memory poolWpCom = some pool) (hnone : pool.numAvailable = 0)
    (hroom : pool.numConnections < pool.maxConnections) (h : s.step (.request (.get t false now)) = .ok s') :
    Jammed { pool with lockHeld := true } s' := by
  have hfree : pool.lockHeld = false := by
    rw [← Bool.not_eq_true]
    intro hlocked
    simp only [step, request, hrunning, hpool, DBPool.step_blocked hlocked] at h
    cases h
  have hget : DBPool.step pool (.get t false now) = .ok { pool with lockHeld := true } := by
    rw [DBPool.step, DBPool.get_failed hfree hnone hroom]
    rfl
  simp only [step, request, hrunning, hpool, hget] at h
  cases h
  unfold Served at hserved
  rw [hrunning] at hserved
  refine ⟨by simp only [Function.update_self], ?_, ?_, ?_, ⟨hfits.passing, fun h => h.elim⟩⟩
  · intro hlives
    exact (hserved.resolve_left hlives).1
  · change Stays _ s.thread
    rcases hserved with habsent | ⟨-, hexiting, hcirculates⟩
    · rw [habsent]
      trivial
    · cases hthread : s.thread with
      | absent => trivial
      | top => trivial
      | locking now => trivial
      | visiting now pools =>
        rw [hthread] at hcirculates
        exact ⟨hcirculates, fun _ => hexiting⟩
      | scanning now p rest =>
        rw [hthread] at hcirculates
        have hp : p = poolWpCom := hcirculates p List.mem_cons_self
        have hlocked := hscans _ now p rest pool hrunning hthread (hp ▸ hpool)
        rw [hfree] at hlocked
        cases hlocked
      | leaving exiting =>
        rw [hthread] at hcirculates
        exact hcirculates
      | sleeping exiting =>
        rw [hthread] at hcirculates
        exact hcirculates.1
      | finished =>
        rw [hthread] at hcirculates
        exact hcirculates.elim
  · trivial

end

/-- Once a connection attempt has failed in `get`, the pool stays locked, the maintenance thread never ends, and the process
never gets past the wait for it, unless an exception or SIGQUIT ends it. -/
theorem failed_connect_hangs (before later : List (WorkerEvent τ)) (s s' : WorkerProcess τ) (pool : DBPool τ) (t : τ)
    (now : ℤ) (hbefore : exec step start before = .ok s) (hrunning : s.worker = .serving .run)
    (hpool : s.memory poolWpCom = some pool) (hnone : pool.numAvailable = 0)
    (hroom : pool.numConnections < pool.maxConnections)
    (hlater : exec step s (.request (.get t false now) :: later) = .ok s') :
    (s'.memory poolWpCom = some { pool with lockHeld := true } ∧ s'.thread ≠ .finished ∧ s'.worker.Waits) ∨ Aborted s' := by
  have hinvariant : Served s ∧ ScansLocked s ∧ LockFits s := by
    apply exec_keeps (I := fun s => Served s ∧ ScansLocked s ∧ LockFits s) _ _ hbefore
    · rintro s e s' ⟨hserved, hscans, hfits⟩ hstep
      exact ⟨served_step hserved hstep, scansLocked_step hserved hscans hstep, lockFits_step hfits hstep⟩
    · refine ⟨⟨rfl, rfl, rfl, rfl⟩, ?_, lockFits_start⟩
      intro stage now p rest pool hworker
      cases hworker
  obtain ⟨hserved, hscans, hfits⟩ := hinvariant
  obtain ⟨s₁, hstep, hrest⟩ := exec_cons_ok.mp hlater
  have hjammed := jammed_of_failed hserved hscans hfits hrunning hpool hnone hroom hstep
  have hrun := exec_keeps (I := fun s => Jammed { pool with lockHeld := true } s ∨ Aborted s)
    (fun _ _ _ => jammed_step rfl) (Or.inl hjammed) hrest
  rcases hrun with hend | haborted
  · apply Or.inl
    refine ⟨hend.memory, ?_, hend.waits⟩
    intro hfinished
    have hstays := hend.stays
    rw [hfinished] at hstays
    exact hstays
  · exact Or.inr haborted

def serving : WorkerProcess ℕ where
  worker := .serving .run
  thread := .top
  memory := Function.update (fun _ => none) poolWpCom (some (newPool 40))
  pools := [poolWpCom]
  maintenanceLock := none
  maintenanceThreadRunning := true
  maintenanceThreadExiting := false

def hanging : WorkerProcess ℕ where
  worker := .joinWait
  thread := .visiting 0 [poolWpCom]
  memory := Function.update serving.memory poolWpCom (some { newPool 40 with lockHeld := true })
  pools := [poolWpCom]
  maintenanceLock := some .maintenance
  maintenanceThreadRunning := true
  maintenanceThreadExiting := true

theorem failed_connect_hangs_first :
    exec step serving (.request (.get 0 false 0) :: (List.replicate 5 (.worker true) ++ List.replicate 2 (.maintenance 0))) =
        .ok hanging ∧
      ((hanging.memory poolWpCom = some { newPool 40 with lockHeld := true } ∧ hanging.thread ≠ .finished ∧
        hanging.worker.Waits) ∨ Aborted hanging) := by
  have hbefore : exec step start (List.replicate 12 (.worker true)) = .ok serving := rfl
  have hlater : exec step serving
      (.request (.get 0 false 0) :: (List.replicate 5 (.worker true) ++ List.replicate 2 (.maintenance 0))) = .ok hanging := rfl
  refine ⟨hlater, ?_⟩
  exact failed_connect_hangs (List.replicate 12 (.worker true))
    (List.replicate 5 (.worker true) ++ List.replicate 2 (.maintenance 0)) serving hanging (newPool 40) 0 0 hbefore rfl rfl rfl
    (by decide) hlater

end WorkerProcess

end FcgiAppserver.Worker
