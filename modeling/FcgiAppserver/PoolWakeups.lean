import FcgiAppserver.DbPool

namespace FcgiAppserver.Db.DBPool

open TransitionRuns

variable {τ : Type}

/-- While a call of `get` sleeps unsignalled, each available connection is promised to a woken call. -/
def Promised (s : DBPool τ) : Prop :=
  s.waiting ≠ [] → s.availableConnections.length ≤ s.signalled.length

theorem promised_newPool (maxConnections : UInt64) : Promised (newPool maxConnections : DBPool τ) :=
  fun h => absurd rfl h

variable [DecidableEq τ]

theorem promised_step {s s' : DBPool τ} {e : PoolEvent τ} (hs : Promised s) (h : s.step e = .ok s') :
    Promised s' := by
  cases step_stepped h with
  | grew t now => exact hs
  | failed t now => exact hs
  | waits t connects now hfree hgrow hempty =>
    intro _
    change s.availableConnections.length ≤ s.signalled.length
    rw [hempty]
    exact Nat.zero_le _
  | took t connects now conn rest hfree hgrow hfront =>
    intro hwaiting
    have hle := hs hwaiting
    rw [hfront, List.length_cons] at hle
    exact Nat.le_of_succ_le hle
  | resumed t now conn rest hfree hwoken hfront =>
    intro hwaiting
    have hle := hs hwaiting
    have hlen := List.length_erase_of_mem hwoken
    rw [hfront, List.length_cons] at hle
    change rest.length ≤ (s.signalled.erase t).length
    omega
  | returned t conn now woken waiting signalled hfree hmemory hsignal =>
    intro hwaiting
    rcases hsignal with ⟨hnone, rfl, -⟩ | ⟨hwoken, -, rfl⟩
    · exact absurd hnone hwaiting
    · have hle := hs (List.ne_nil_of_mem hwoken)
      change (s.availableConnections ++ [conn]).length ≤ (s.signalled ++ [woken]).length
      simp only [List.length_append, List.length_singleton]
      omega
  | kept now => exact hs
  | evicted now conn before after hfree hidle hfind =>
    intro hwaiting
    have hle := hs hwaiting
    rw [hfind, List.length_append, List.length_cons] at hle
    change (before ++ after).length ≤ s.signalled.length
    rw [List.length_append]
    omega

theorem no_wakeup_lost (maxConnections : UInt64) (events : List (PoolEvent τ)) (s : DBPool τ)
    (hexec : exec step (newPool maxConnections) events = .ok s) (hwaiting : s.waiting ≠ []) :
    s.availableConnections.length ≤ s.signalled.length := by
  have hpromised : Promised s :=
    exec_keeps (fun _ _ _ hs hstep => promised_step hs hstep) (promised_newPool maxConnections) hexec
  exact hpromised hwaiting

theorem no_wakeup_lost_two_waiting :
    ∃ s : DBPool ℕ, exec step (newPool 1) [.get 1 true 0, .get 2 true 1, .get 3 true 2, .put 1 0 3 2] = .ok s ∧
      s.waiting = [3] ∧ s.availableConnections.length ≤ s.signalled.length :=
  ⟨_, rfl, rfl, no_wakeup_lost 1 [.get 1 true 0, .get 2 true 1, .get 3 true 2, .put 1 0 3 2] _ rfl (by decide)⟩

end FcgiAppserver.Db.DBPool
