import FcgiAppserver.DbPool

namespace FcgiAppserver.Db.DBPool

open TransitionRuns SizeCounters

variable {τ : Type} [DecidableEq τ]

def takesFront (s : DBPool τ) : PoolEvent τ → Prop
  | .get _ _ _ => s.lockHeld = false ∧ ¬ (s.numAvailable = 0 ∧ s.numConnections < s.maxConnections) ∧
      s.availableConnections ≠ []
  | .resume t _ => s.lockHeld = false ∧ t ∈ s.signalled
  | .put _ _ _ _ => False
  | .maintenance _ => False

def TakesSafely (s : DBPool τ) (e : PoolEvent τ) : Prop :=
  s.takesFront e → s.availableConnections ≠ [] ∧ 1 ≤ s.numAvailable

/-- No step uses up a connection that a woken call is about to take. -/
def LeavesForWoken (s : DBPool τ) : PoolEvent τ → Prop
  | .get _ _ _ => s.availableConnections ≠ [] → s.signalled.length < s.availableConnections.length
  | .resume _ _ => True
  | .put _ _ _ _ => True
  | .maintenance now => (∃ conn ∈ s.availableConnections, s.isIdle now conn = true) →
      s.signalled.length < s.availableConnections.length

instance (s : DBPool τ) : (e : PoolEvent τ) → Decidable (s.takesFront e)
  | .get _ _ _ => inferInstanceAs (Decidable (_ ∧ ¬ (_ ∧ _) ∧ _ ≠ _))
  | .resume _ _ => inferInstanceAs (Decidable (_ ∧ _))
  | .put _ _ _ _ => .isFalse id
  | .maintenance _ => .isFalse id

instance (s : DBPool τ) (e : PoolEvent τ) : Decidable (TakesSafely s e) :=
  inferInstanceAs (Decidable (_ → _ ∧ _))

instance (s : DBPool τ) : (e : PoolEvent τ) → Decidable (LeavesForWoken s e)
  | .get _ _ _ => inferInstanceAs (Decidable (_ ≠ _ → _))
  | .resume _ _ => .isTrue trivial
  | .put _ _ _ _ => .isTrue trivial
  | .maintenance _ => inferInstanceAs (Decidable ((∃ conn ∈ s.availableConnections, _) → _))

structure WaitingServed (s : DBPool τ) : Prop where
  counted : s.numAvailable.toNat = s.availableConnections.length
  served : s.signalled.length ≤ s.availableConnections.length

omit [DecidableEq τ] in
theorem WaitingServed.empty_of_none {s : DBPool τ} (hs : WaitingServed s) (hnone : s.numAvailable = 0) :
    s.availableConnections = [] := by
  have hcounted := hs.counted
  rw [hnone] at hcounted
  exact List.length_eq_zero_iff.mp hcounted.symm

theorem waitingServed_step {s s' : DBPool τ} {e : PoolEvent τ} (hs : WaitingServed s)
    (he : LeavesForWoken s e) (h : s.step e = .ok s') : WaitingServed s' := by
  obtain ⟨hcounted, hserved⟩ := hs
  cases step_stepped h with
  | grew t now => exact ⟨hcounted, hserved⟩
  | failed t now => exact ⟨hcounted, hserved⟩
  | waits t connects now => exact ⟨hcounted, hserved⟩
  | took t connects now conn rest hfree hgrow hfront =>
    have hleft := he (by simp [hfront])
    rw [hfront, List.length_cons] at hcounted hleft
    exact ⟨toNat_pred hcounted, Nat.lt_succ_iff.mp hleft⟩
  | resumed t now conn rest hfree hwoken hfront =>
    have hlen := List.length_erase_of_mem hwoken
    rw [hfront, List.length_cons] at hcounted hserved
    refine ⟨toNat_pred hcounted, ?_⟩
    change (s.signalled.erase t).length ≤ rest.length
    omega
  | returned t conn now woken waiting signalled hfree hmemory hsignal =>
    have hsucc := toNat_succ (n := s.numAvailable) (by omega)
    refine ⟨?_, ?_⟩
    · change (s.numAvailable + 1).toNat = (s.availableConnections ++ [conn]).length
      rw [hsucc, hcounted, List.length_append, List.length_singleton]
    · change signalled.length ≤ (s.availableConnections ++ [conn]).length
      rcases hsignal with ⟨-, -, rfl⟩ | ⟨-, -, rfl⟩
      · simp only [List.length_append, List.length_singleton]
        omega
      · simp only [List.length_append, List.length_singleton]
        omega
  | kept now => exact ⟨hcounted, hserved⟩
  | evicted now conn before after hfree hidle hfind =>
    have hleft := he ⟨conn, by simp [hfind], hidle⟩
    rw [hfind] at hcounted hleft
    simp only [List.length_append, List.length_cons] at hcounted hleft
    refine ⟨?_, ?_⟩
    · change (s.numAvailable - 1).toNat = (before ++ after).length
      rw [List.length_append]
      exact toNat_pred (by omega)
    · change s.signalled.length ≤ (before ++ after).length
      rw [List.length_append]
      omega

omit [DecidableEq τ] in
theorem takesSafely_of_waitingServed {s : DBPool τ} {e : PoolEvent τ} (hs : WaitingServed s) :
    TakesSafely s e := by
  intro htakes
  have hne : s.availableConnections ≠ [] := by
    cases e with
    | get t connects now => exact htakes.2.2
    | resume t now =>
      have hpos := List.length_pos_of_mem htakes.2
      have hserved := hs.served
      exact List.ne_nil_of_length_pos (by omega)
    | put t conn now woken => exact htakes.elim
    | maintenance now => exact htakes.elim
  refine ⟨hne, ?_⟩
  have hpos := List.length_pos_iff.mpr hne
  rw [UInt64.le_iff_toNat_le, hs.counted]
  exact hpos

omit [DecidableEq τ] in
theorem waitingServed_newPool (maxConnections : UInt64) : WaitingServed (newPool maxConnections : DBPool τ) :=
  ⟨rfl, Nat.le_refl 0⟩

theorem resume_front {s : DBPool τ} {t : τ} {conn : Conn} {rest : List Conn} (hfree : s.lockHeld = false)
    (hwoken : t ∈ s.signalled) (hfront : s.availableConnections = conn :: rest) (now : ℤ) :
    s.step (.resume t now) = .ok (handOut { s with
      signalled := s.signalled.erase t
      availableConnections := rest
      numAvailable := s.numAvailable - 1 } t conn now) := by
  rw [step, resume, if_neg (by simp [hfree]), if_pos hwoken]
  simp only [takeFront, hfront]
  rfl

theorem woken_run_dry {s : DBPool τ} (hfree : s.lockHeld = false)
    (h : s.availableConnections.length < s.signalled.length) (now : ℤ) :
    exec step s (s.signalled.map (fun t => .resume t now)) = .error .undefined := by
  generalize havailable : s.availableConnections = available at h
  induction available generalizing s with
  | nil =>
    obtain ⟨t, rest, hwoken⟩ := List.exists_cons_of_length_pos h
    simp [hwoken, exec, step, resume, hfree, takeFront, havailable, Except.map]
  | cons conn available ih =>
    obtain ⟨t, rest, hwoken⟩ := List.exists_cons_of_length_pos (Nat.zero_lt_of_lt h)
    rw [hwoken] at h
    have hfirst := resume_front hfree (by rw [hwoken]; exact List.mem_cons_self) havailable now (t := t)
    rw [hwoken, List.erase_cons_head] at hfirst
    rw [hwoken, List.map_cons, exec, hfirst]
    exact ih hfree rfl (Nat.lt_of_succ_lt_succ h)

/-- What `LeavesForWoken` forbids does harm: the woken calls still to come cannot all be served. -/
theorem overtaken_run_dry {s s' : DBPool τ} {e : PoolEvent τ} (hs : WaitingServed s)
    (he : ¬ LeavesForWoken s e) (h : s.step e = .ok s') (now : ℤ) :
    exec step s' (s'.signalled.map (fun t => .resume t now)) = .error .undefined := by
  have hdry : s'.lockHeld = false ∧ s'.availableConnections.length < s'.signalled.length := by
    cases step_stepped h with
    | grew t now hfree hnone hroom => exact absurd (fun hne => absurd (hs.empty_of_none hnone) hne) he
    | failed t now hfree hnone hroom => exact absurd (fun hne => absurd (hs.empty_of_none hnone) hne) he
    | waits t connects now hfree hgrow hempty => exact absurd (fun hne => absurd hempty hne) he
    | took t connects now conn rest hfree hgrow hfront =>
      simp only [LeavesForWoken, not_forall] at he
      obtain ⟨-, hlen⟩ := he
      rw [hfront, List.length_cons] at hlen
      refine ⟨hfree, ?_⟩
      change rest.length < s.signalled.length
      omega
    | resumed t now conn rest hfree hwoken hfront => exact absurd trivial he
    | returned t conn now woken waiting signalled hfree hmemory hsignal => exact absurd trivial he
    | kept now hfree hidle =>
      refine absurd ?_ he
      rintro ⟨conn, hconn, hidle'⟩
      simp [hidle conn hconn] at hidle'
    | evicted now conn before after hfree hidle hfind =>
      simp only [LeavesForWoken, not_forall] at he
      obtain ⟨-, hlen⟩ := he
      rw [hfind] at hlen
      refine ⟨hfree, ?_⟩
      change (before ++ after).length < s.signalled.length
      simp only [List.length_append, List.length_cons] at hlen ⊢
      omega
  exact woken_run_dry hdry.1 hdry.2 now

theorem takesSafely_of_leavesForWoken (maxConnections : UInt64) (events : List (PoolEvent τ))
    (h : Along step LeavesForWoken (newPool maxConnections) events) :
    Along step TakesSafely (newPool maxConnections) events := by
  apply Along.imp_of_invariant (I := WaitingServed) ?_ ?_ (waitingServed_newPool maxConnections) h
  · intro s e hs _
    exact takesSafely_of_waitingServed hs
  · intro s e s' hs he hstep
    exact waitingServed_step hs he hstep

theorem takesSafely_woken :
    Along step TakesSafely (newPool 1) [.get 1 true 0, .get 2 true 1, .put 1 0 2 2, .resume 2 3] :=
  takesSafely_of_leavesForWoken 1 _ (by decide)

/-- A third caller takes the connection for which the second was woken. -/
theorem woken_finds_empty :
    ¬ Along step TakesSafely (newPool 1)
        [.get 1 true 0, .get 2 true 1, .put 1 0 2 2, .get 3 true 3, .resume 2 4] ∧
      (exec step (newPool 1 : DBPool ℕ) [.get 1 true 0, .get 2 true 1, .put 1 0 2 2, .get 3 true 3,
        .resume 2 4]).map (fun _ => ()) = .error .undefined := by
  refine ⟨by decide, by decide⟩

end FcgiAppserver.Db.DBPool
