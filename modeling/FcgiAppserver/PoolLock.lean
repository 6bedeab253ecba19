import FcgiAppserver.DbPool

namespace FcgiAppserver.Db.DBPool

open TransitionRuns

variable {τ : Type} [DecidableEq τ]

def FailsCleanly (s : DBPool τ) (t : τ) (now : ℤ) : Prop :=
  ∃ s', s.get t false now = .ok (.thrown, s') ∧ s'.allConnections = s.allConnections ∧
    s'.availableConnections = s.availableConnections ∧ s'.numConnections = s.numConnections ∧
    s'.numAvailable = s.numAvailable ∧ s'.lockHeld = false

theorem step_blocked {s : DBPool τ} (h : s.lockHeld = true) (e : PoolEvent τ) : s.step e = .error .blocked := by
  cases e with
  | get t connects now => simp [step, get, h, Except.map]
  | resume t now => simp [step, resume, h, Except.map]
  | put t conn now woken => simp [step, put, h]
  | maintenance now => simp [step, maintenance, h]

omit [DecidableEq τ] in
theorem get_failed {s : DBPool τ} (hfree : s.lockHeld = false) (hnone : s.numAvailable = 0)
    (hroom : s.numConnections < s.maxConnections) (t : τ) (now : ℤ) :
    s.get t false now = .ok (.thrown, { s with lockHeld := true }) := by
  simp [get, hfree, hnone, hroom]

theorem failed_get_keeps_lock (s : DBPool τ) (hfree : s.lockHeld = false) (hnone : s.numAvailable = 0)
    (hroom : s.numConnections < s.maxConnections) (t : τ) (now : ℤ) :
    ¬ FailsCleanly s t now ∧
    ∃ s', s.get t false now = .ok (.thrown, s') ∧ s'.allConnections = s.allConnections ∧
      s'.availableConnections = s.availableConnections ∧ s'.numConnections = s.numConnections ∧
      s'.numAvailable = s.numAvailable ∧ ∀ e, s'.step e = .error .blocked := by
  have hfailed := get_failed hfree hnone hroom t now
  refine ⟨?_, { s with lockHeld := true }, hfailed, rfl, rfl, rfl, rfl, fun e => step_blocked rfl e⟩
  rintro ⟨s', hget, -, -, -, -, hlock⟩
  rw [hfailed, Except.ok.injEq, Prod.mk.injEq] at hget
  rw [← hget.2] at hlock
  exact absurd hlock (by simp)

theorem failed_first_get : ¬ FailsCleanly (newPool 1 : DBPool ℕ) 1 0 :=
  (failed_get_keeps_lock (newPool 1 : DBPool ℕ) rfl rfl (by decide) 1 0).1

theorem outage_blocks_recovery :
    (exec step (newPool 1 : DBPool ℕ) [.get 1 false 0]).map (fun s => s.lockHeld) = .ok true ∧
    (exec step (newPool 1 : DBPool ℕ) [.get 1 false 0, .get 2 true 5]).map (fun _ => ()) = .error .blocked := by
  refine ⟨by decide, by decide⟩

end FcgiAppserver.Db.DBPool
