import FcgiAppserver.PoolOrder

namespace FcgiAppserver.Db.DBPool

open TransitionRuns

variable {τ : Type} [DecidableEq τ]

/-- What some passes of the maintenance thread do to a pool that nobody else uses meanwhile: the connections that were
used the longest time ago are gone, each after a minute without use. -/
structure Drained (s s' : DBPool τ) (passes : List ℤ) (j : ℕ) : Prop where
  ordered : LeastRecentFirst s
  few : j ≤ passes.length
  left : s'.availableConnections = s.availableConnections.drop j
  deleted : s'.deleted = s.deleted ++ s.availableConnections.take j
  idle : ∀ conn ∈ s.availableConnections.take j, ∃ now ∈ passes, s.isIdle now conn = true
  checkedOut : s'.checkedOut = s.checkedOut
  all : (∀ now ∈ passes, ∀ conn ∈ s.availableConnections, s.isIdle now conn = true) →
    j = min passes.length s.availableConnections.length

theorem pass_cases {s s' : DBPool τ} {now : ℤ} (hordered : LeastRecentFirst s) (h : s.step (.maintenance now) = .ok s') :
    (s' = s ∧ ∀ conn ∈ s.availableConnections, s.isIdle now conn = false) ∨
      ∃ conn rest, s.availableConnections = conn :: rest ∧ s.isIdle now conn = true ∧
        s' = { s with
          availableConnections := rest
          numConnections := s.numConnections - 1
          numAvailable := s.numAvailable - 1
          deleted := s.deleted ++ [conn] } := by
  simp only [step, maintenance] at h
  split at h
  · cases h
  · cases havailable : s.availableConnections with
    | nil =>
      rw [havailable, List.find?_nil] at h
      cases h
      exact Or.inl ⟨rfl, List.forall_mem_nil _⟩
    | cons conn rest =>
      cases hidle : s.isIdle now conn with
      | true =>
        rw [havailable, List.find?_cons_of_pos hidle, List.eraseP_cons_of_pos hidle] at h
        cases h
        exact Or.inr ⟨conn, rest, rfl, hidle, rfl⟩
      | false =>
        -- the first has waited the longest
        have hnone := front_none_idle hordered havailable hidle
        have hfind : s.availableConnections.find? (s.isIdle now) = none := by
          rw [List.find?_eq_none]
          intro other hother
          rw [hnone other hother]
          exact Bool.false_ne_true
        rw [hfind] at h
        cases h
        rw [havailable] at hnone
        exact Or.inl ⟨rfl, hnone⟩

theorem drained_run {s s' : DBPool τ} {passes : List ℤ} (hordered : LeastRecentFirst s)
    (h : exec step s (passes.map .maintenance) = .ok s') : ∃ j, Drained s s' passes j := by
  induction passes generalizing s with
  | nil =>
    cases h
    exact ⟨0, hordered, Nat.le_refl _, rfl, (List.append_nil _).symm, List.forall_mem_nil _, rfl,
      fun _ => (Nat.zero_min _).symm⟩
  | cons now passes ih =>
    obtain ⟨s₁, hstep, hrest⟩ := exec_cons_ok.mp h
    rcases pass_cases hordered hstep with ⟨rfl, hnone⟩ | ⟨conn, rest, havailable, hidle, rfl⟩
    · obtain ⟨j, hj⟩ := ih hordered hrest
      refine ⟨j, hordered, hj.few.trans (Nat.le_succ _), hj.left, hj.deleted, ?_, hj.checkedOut, ?_⟩
      · intro conn hconn
        obtain ⟨later, hlater, hidle⟩ := hj.idle conn hconn
        exact ⟨later, List.mem_cons_of_mem _ hlater, hidle⟩
      · intro hall
        have hempty : s₁.availableConnections = [] := by
          rw [List.eq_nil_iff_forall_not_mem]
          intro conn hconn
          have hidle := hall now List.mem_cons_self conn hconn
          rw [hnone conn hconn] at hidle
          cases hidle
        have hzero := hj.all (fun later hlater => hall later (List.mem_cons_of_mem _ hlater))
        rw [hempty, List.length_nil, Nat.min_zero] at hzero ⊢
        exact hzero
    · have hordered' := hordered
      rw [LeastRecentFirst, havailable, List.pairwise_cons] at hordered'
      obtain ⟨j, hj⟩ := ih (by exact hordered'.2) hrest
      refine ⟨j + 1, hordered, Nat.succ_le_succ hj.few, ?_, ?_, ?_, hj.checkedOut, ?_⟩
      · rw [havailable, List.drop_succ_cons]
        exact hj.left
      · rw [havailable, List.take_succ_cons, List.append_cons]
        exact hj.deleted
      · rw [havailable, List.take_succ_cons]
        intro other hother
        rcases List.mem_cons.mp hother with rfl | htail
        · exact ⟨now, List.mem_cons_self, hidle⟩
        · obtain ⟨later, hlater, hother⟩ := hj.idle other htail
          exact ⟨later, List.mem_cons_of_mem _ hlater, hother⟩
      · intro hall
        rw [havailable] at hall ⊢
        have hmin := hj.all (fun later hlater other hother =>
          hall later (List.mem_cons_of_mem _ hlater) other (List.mem_cons_of_mem _ hother))
        have hmin' : j = min passes.length rest.length := hmin
        rw [List.length_cons, List.length_cons]
        omega

theorem passes_own (s : DBPool τ) (passes : List ℤ) : Along step PutsBackOwn s (passes.map .maintenance) := by
  induction passes generalizing s with
  | nil => trivial
  | cons now passes ih => exact along_cons.mpr ⟨trivial, fun s' _ => ih s'⟩

/-- Maintenance passes over an idle pool close its connections one by one, the least recently used first, and go on until
none is left. -/
theorem passes_drain (maxConnections : UInt64) (events : List (PoolEvent τ)) (passes : List ℤ) (s s' : DBPool τ)
    (hown : Along step PutsBackOwn (newPool maxConnections) events) (hclock : ClockForward events)
    (hexec : exec step (newPool maxConnections) events = .ok s) (hpasses : exec step s (passes.map .maintenance) = .ok s') :
    ∃ j, Drained s s' passes j ∧ s'.numAvailable.toNat = s.availableConnections.length - j ∧
      s'.numConnections.toNat = s.availableConnections.length - j + s.checkedOut.length := by
  obtain ⟨j, hj⟩ := drained_run (leastRecentFirst_run hown hclock hexec) hpasses
  have hinv : PoolInv s' :=
    exec_invariant (fun _ _ _ hs he hstep => poolInv_step hs he hstep) (poolInv_run hown hexec) (passes_own s passes) hpasses
  refine ⟨j, hj, ?_, ?_⟩
  · rw [hinv.counted, hj.left, List.length_drop]
  · rw [hinv.connections, hj.left, List.length_drop, hj.checkedOut]

theorem passes_drain_two :
    ∃ s s' : DBPool ℕ, exec step (newPool 2) [.get 1 true 0, .get 2 true 1, .put 2 1 3 0, .put 1 0 5 0] = .ok s ∧
      exec step s (List.map .maintenance [100, 101]) = .ok s' ∧ s'.deleted = [1, 0] ∧
      ∃ j, Drained s s' [100, 101] j ∧ s'.numAvailable.toNat = s.availableConnections.length - j ∧
        s'.numConnections.toNat = s.availableConnections.length - j + s.checkedOut.length :=
  ⟨_, _, rfl, rfl, rfl, passes_drain 2 [.get 1 true 0, .get 2 true 1, .put 2 1 3 0, .put 1 0 5 0] [100, 101] _ _ (by decide)
    (by unfold ClockForward; decide) rfl rfl⟩

end FcgiAppserver.Db.DBPool
