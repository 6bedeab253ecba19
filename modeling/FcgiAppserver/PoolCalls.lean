import FcgiAppserver.PoolOwnership

namespace FcgiAppserver.Db.DBPool

open TransitionRuns

variable {τ : Type} {s s' : DBPool τ} {t : τ} {connects : Bool} {now : ℤ} {conn : Conn}

theorem get_thrown (h : s.get t connects now = .ok (.thrown, s')) :
    connects = false ∧ s.lockHeld = false ∧ s.numAvailable = 0 ∧ s.numConnections < s.maxConnections ∧
      s' = { s with lockHeld := true } := by
  unfold get at h
  split at h
  · cases h
  · rename_i hlock
    split at h
    · rename_i hgrow
      cases connects with
      | true => cases h
      | false =>
        cases h
        exact ⟨rfl, by simpa using hlock, hgrow.1, hgrow.2, rfl⟩
    · split at h
      · cases h
      · rename_i hne
        obtain ⟨conn, rest, hfront⟩ := List.exists_cons_of_ne_nil hne
        simp only [takeFront, hfront] at h
        cases h

theorem get_waits (h : s.get t connects now = .ok (.waits, s')) :
    ¬ (s.numAvailable = 0 ∧ s.numConnections < s.maxConnections) ∧ s.availableConnections = [] ∧
      s' = { s with waiting := s.waiting ++ [t] } := by
  unfold get at h
  split at h
  · cases h
  · split at h
    · cases connects <;> cases h
    · rename_i hgrow
      split at h
      · rename_i hempty
        cases h
        exact ⟨hgrow, hempty, rfl⟩
      · rename_i hne
        obtain ⟨conn, rest, hfront⟩ := List.exists_cons_of_ne_nil hne
        simp only [takeFront, hfront] at h
        cases h

/-- A connection is got in one of two ways: a new one, or the front of the list. -/
theorem get_got (h : s.get t connects now = .ok (.got conn, s')) :
    (connects = true ∧ s.numAvailable = 0 ∧ s.numConnections < s.maxConnections ∧ conn = s.opened ∧
        s' = (s.grow now).2.handOut t s.opened now) ∨
      ∃ rest, s.availableConnections = conn :: rest ∧
        s' = handOut { s with availableConnections := rest, numAvailable := s.numAvailable - 1 } t conn now := by
  unfold get at h
  split at h
  · cases h
  · split at h
    · rename_i hgrow
      cases connects with
      | true =>
        cases h
        exact Or.inl ⟨rfl, hgrow.1, hgrow.2, rfl, rfl⟩
      | false => cases h
    · split at h
      · cases h
      · rename_i hne
        obtain ⟨front, rest, hfront⟩ := List.exists_cons_of_ne_nil hne
        simp only [takeFront, hfront] at h
        cases h
        exact Or.inr ⟨rest, hfront, rfl⟩

theorem get_got_handed (h : s.get t connects now = .ok (.got conn, s')) :
    s'.checkedOut = s.checkedOut ++ [(t, conn)] ∧ s'.waiting = s.waiting ∧ s'.signalled = s.signalled ∧
      s'.maxConnections = s.maxConnections ∧ s'.lockHeld = s.lockHeld := by
  rcases get_got h with ⟨-, -, -, rfl, rfl⟩ | ⟨rest, -, rfl⟩
  · exact ⟨rfl, rfl, rfl, rfl, rfl⟩
  · exact ⟨rfl, rfl, rfl, rfl, rfl⟩

theorem maintenance_shrinks (h : s.maintenance now = .ok s') :
    s'.availableConnections.length ≤ s.availableConnections.length := by
  unfold maintenance at h
  split at h
  · cases h
  · split at h
    · cases h
      exact Nat.le_refl _
    · cases h
      exact List.eraseP_sublist.length_le

theorem maintenance_passed (h : s.maintenance now = .ok s') :
    s'.checkedOut = s.checkedOut ∧ s'.waiting = s.waiting ∧ s'.signalled = s.signalled ∧
      s'.maxConnections = s.maxConnections ∧ s'.lockHeld = s.lockHeld := by
  unfold maintenance at h
  split at h
  · cases h
  · split at h
    · cases h
      exact ⟨rfl, rfl, rfl, rfl, rfl⟩
    · cases h
      exact ⟨rfl, rfl, rfl, rfl, rfl⟩

theorem get_succeeds (t : τ) (now : ℤ) (hs : PoolInv s) (hfree : s.lockHeld = false)
    (hroom : s.checkedOut.length < s.maxConnections.toNat) : ∃ conn s', s.get t true now = .ok (.got conn, s') := by
  unfold get
  rw [if_neg (by simp [hfree])]
  split
  · exact ⟨_, _, rfl⟩
  · rename_i hgrow
    have hne : s.availableConnections ≠ [] := by
      intro hempty
      apply hgrow
      have hcounted := hs.counted
      have hconnections := hs.connections
      rw [hempty, List.length_nil] at hcounted hconnections
      refine ⟨UInt64.toNat_inj.mp hcounted, ?_⟩
      rw [UInt64.lt_iff_toNat_lt]
      omega
    obtain ⟨conn, rest, hfront⟩ := List.exists_cons_of_ne_nil hne
    rw [if_neg hne]
    simp only [takeFront, hfront]
    exact ⟨_, _, rfl⟩

variable [DecidableEq τ] {woken : τ}

theorem put_succeeds (t : τ) (conn : Conn) (now : ℤ) (woken : τ) (hfree : s.lockHeld = false) (hmemory : s.availableConnections.length + 1 < 2 ^ 64)
    (hnobody : s.waiting = []) : ∃ s', s.put t conn now woken = .ok s' := by
  unfold put
  rw [if_neg (by simp [hfree]), if_neg (by omega), signal, if_pos hnobody]
  exact ⟨_, rfl⟩

theorem get_step (r : GetResult) (h : s.get t connects now = .ok (r, s')) : s.step (.get t connects now) = .ok s' := by
  rw [step, h]
  rfl

theorem resume_step (h : s.resume t now = .ok (conn, s')) : s.step (.resume t now) = .ok s' := by
  rw [step, h]
  rfl

theorem resume_handed (h : s.resume t now = .ok (conn, s')) :
    t ∈ s.signalled ∧ s'.checkedOut = s.checkedOut ++ [(t, conn)] ∧ s'.waiting = s.waiting ∧
      s'.signalled = s.signalled.erase t ∧ s'.maxConnections = s.maxConnections ∧ s'.lockHeld = s.lockHeld := by
  unfold resume at h
  split at h
  · cases h
  · split at h
    · rename_i hwoken
      unfold takeFront at h
      split at h
      · cases h
      · cases h
        exact ⟨hwoken, rfl, rfl, rfl, rfl, rfl⟩
    · cases h

theorem put_returned (h : s.put t conn now woken = .ok s') :
    s'.checkedOut = s.checkedOut.erase (t, conn) ∧ s'.maxConnections = s.maxConnections ∧ s'.lockHeld = s.lockHeld ∧
      s'.numConnections = s.numConnections ∧
      (s.waiting = [] → s'.waiting = [] ∧ s'.signalled = s.signalled) := by
  unfold put at h
  split at h
  · cases h
  · split at h
    · cases h
    · unfold signal at h
      split at h
      · rename_i hnone
        cases h
        exact ⟨rfl, rfl, rfl, rfl, fun _ => ⟨hnone, rfl⟩⟩
      · rename_i hsome
        split at h
        · cases h
          exact ⟨rfl, rfl, rfl, rfl, fun hnone => absurd hnone hsome⟩
        · cases h

end FcgiAppserver.Db.DBPool
