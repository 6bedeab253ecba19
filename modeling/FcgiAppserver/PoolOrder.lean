import FcgiAppserver.PoolOwnership

namespace FcgiAppserver.Db.DBPool

open TransitionRuns

variable {τ : Type}

/-- The clock is read under the pool's lock, but by maintenance at some time before it takes the lock. -/
def reading : PoolEvent τ → Option ℤ
  | .get _ _ now => some now
  | .resume _ now => some now
  | .put _ _ now _ => some now
  | .maintenance _ => none

def ClockForward (events : List (PoolEvent τ)) : Prop := (events.filterMap reading).Pairwise (· ≤ ·)

def LeastRecentFirst (s : DBPool τ) : Prop :=
  s.availableConnections.Pairwise (fun conn other => s.lastUsed conn ≤ s.lastUsed other)

section

variable {s : DBPool τ} {conn : Conn}

theorem available_lt (hs : PoolInv s) (h : conn ∈ s.availableConnections) : conn < s.opened := by
  apply List.mem_range.mp
  apply hs.owned.mem_iff.mp
  exact List.mem_append_right _ (List.mem_append_left _ h)

theorem held_not_available (hs : PoolInv s) {t : τ} (h : (t, conn) ∈ s.checkedOut) :
    conn ∉ s.availableConnections := by
  intro hmem
  have hdisjoint := (List.nodup_append.mp hs.consistent.exclusive).2.2
  exact hdisjoint conn hmem conn (List.mem_map.mpr ⟨(t, conn), h, rfl⟩) rfl

theorem front_not_mem (hs : PoolInv s) {rest : List Conn} (h : s.availableConnections = conn :: rest) :
    conn ∉ rest := by
  have hnodup := (List.nodup_append.mp hs.consistent.exclusive).1
  rw [h] at hnodup
  exact (List.nodup_cons.mp hnodup).1

theorem update_elsewhere {stamps : Conn → ℤ} {now : ℤ} {conns : List Conn} (h : conn ∉ conns) :
    ∀ other ∈ conns, Function.update stamps conn now other = stamps other := by
  intro other hother
  apply Function.update_of_ne
  rintro rfl
  exact h hother

/-- A step thins out the available connections and leaves their times, or adds one at the end with the time it reads. -/
inductive Rearranged (s s' : DBPool τ) (e : PoolEvent τ) : Prop
  | thinned (hsublist : s'.availableConnections.Sublist s.availableConnections)
      (hstamps : ∀ conn ∈ s'.availableConnections, s'.lastUsed conn = s.lastUsed conn)
  | added (conn : Conn) (now : ℤ) (hreading : reading e = some now) (hnew : conn ∉ s.availableConnections)
      (happended : s'.availableConnections = s.availableConnections ++ [conn])
      (hstamps : s'.lastUsed = Function.update s.lastUsed conn now)

variable [DecidableEq τ]

theorem step_rearranged {s' : DBPool τ} {e : PoolEvent τ} (hs : PoolInv s) (he : PutsBackOwn s e)
    (h : s.step e = .ok s') : Rearranged s s' e := by
  cases step_stepped h with
  | grew t now hfree hnone hroom =>
    have hfresh : s.opened ∉ s.availableConnections := fun hmem => absurd (available_lt hs hmem) (lt_irrefl _)
    apply Rearranged.thinned
    · exact List.Sublist.refl s.availableConnections
    · intro conn hconn
      exact (update_elsewhere hfresh conn hconn).trans (update_elsewhere hfresh conn hconn)
  | failed t now => exact .thinned (List.Sublist.refl _) (fun _ _ => rfl)
  | waits t connects now => exact .thinned (List.Sublist.refl _) (fun _ _ => rfl)
  | took t connects now conn rest hfree hgrow hfront =>
    apply Rearranged.thinned
    · rw [hfront]
      exact List.sublist_cons_self conn rest
    · exact update_elsewhere (front_not_mem hs hfront)
  | resumed t now conn rest hfree hwoken hfront =>
    apply Rearranged.thinned
    · rw [hfront]
      exact List.sublist_cons_self conn rest
    · exact update_elsewhere (front_not_mem hs hfront)
  | returned t conn now woken => exact .added conn now rfl (held_not_available hs he) rfl rfl
  | kept now => exact .thinned (List.Sublist.refl _) (fun _ _ => rfl)
  | evicted now conn before after hfree hidle hfind =>
    apply Rearranged.thinned
    · rw [hfind]
      exact List.Sublist.append_left (List.sublist_cons_self conn after) before
    · exact fun _ _ => rfl

end

/-- The available connections are in order, and all their times are at most `clock`. -/
structure OrderedUntil (s : DBPool τ) (clock : ℤ) : Prop where
  ordered : LeastRecentFirst s
  past : ∀ conn ∈ s.availableConnections, s.lastUsed conn ≤ clock

section

variable {s s' : DBPool τ} {e : PoolEvent τ} {clock : ℤ}

theorem OrderedUntil.mono (h : OrderedUntil s clock) {later : ℤ} (hle : clock ≤ later) : OrderedUntil s later :=
  ⟨h.ordered, fun conn hconn => (h.past conn hconn).trans hle⟩

theorem orderedUntil_rearranged (h : OrderedUntil s clock) (hstep : Rearranged s s' e)
    (hclock : ∀ now ∈ reading e, clock ≤ now) : OrderedUntil s' ((reading e).getD clock) := by
  rcases hstep with ⟨hsublist, hstamps⟩ | ⟨conn, now, hreading, hnew, happended, hstamps⟩
  · have hthinned : OrderedUntil s' clock := by
      constructor
      · apply (h.ordered.sublist hsublist).imp_of_mem
        intro conn other hconn hother hle
        rwa [hstamps conn hconn, hstamps other hother]
      · intro conn hconn
        rw [hstamps conn hconn]
        exact h.past conn (hsublist.subset hconn)
    apply hthinned.mono
    cases hreading : reading e with
    | none => exact le_refl _
    | some now => exact hclock now hreading
  · have hle : clock ≤ now := hclock now hreading
    have hbefore {other : Conn} (hother : other ∈ s.availableConnections) : s'.lastUsed other = s.lastUsed other := by
      rw [hstamps]
      exact update_elsewhere hnew other hother
    have hlast : s'.lastUsed conn = now := by rw [hstamps, Function.update_self]
    rw [hreading, Option.getD_some]
    constructor
    · rw [LeastRecentFirst, happended, List.pairwise_append]
      refine ⟨?_, List.pairwise_singleton _ _, ?_⟩
      · apply h.ordered.imp_of_mem
        intro other other' hother hother' hle
        rwa [hbefore hother, hbefore hother']
      · intro other hother last hmem
        rw [List.mem_singleton.mp hmem, hbefore hother, hlast]
        exact (h.past other hother).trans hle
    · intro other hother
      rw [happended, List.mem_append, List.mem_singleton] at hother
      rcases hother with hother | rfl
      · rw [hbefore hother]
        exact (h.past other hother).trans hle
      · rw [hlast]

end

theorem orderedUntil_newPool (maxConnections : UInt64) (clock : ℤ) :
    OrderedUntil (newPool maxConnections : DBPool τ) clock :=
  ⟨List.Pairwise.nil, List.forall_mem_nil _⟩

theorem idle_of_later {s : DBPool τ} {now : ℤ} {conn other : Conn} (hle : s.lastUsed conn ≤ s.lastUsed other) (h : s.isIdle now other = true) :
    s.isIdle now conn = true := by
  rw [isIdle, decide_eq_true_eq] at *
  omega

theorem front_none_idle {s : DBPool τ} {now : ℤ} (hordered : LeastRecentFirst s) {front : Conn} {rest : List Conn}
    (hfront : s.availableConnections = front :: rest) (h : s.isIdle now front = false) :
    ∀ conn ∈ s.availableConnections, s.isIdle now conn = false := by
  rw [LeastRecentFirst, hfront, List.pairwise_cons] at hordered
  intro conn hconn
  rw [← Bool.not_eq_true] at h ⊢
  intro hidle
  apply h
  rw [hfront] at hconn
  rcases List.mem_cons.mp hconn with rfl | hrest
  · exact hidle
  · exact idle_of_later (hordered.1 conn hrest) hidle

variable [DecidableEq τ]

theorem orderedUntil_run {s s' : DBPool τ} {clock : ℤ} {events : List (PoolEvent τ)} (hs : PoolInv s)
    (h : OrderedUntil s clock) (hown : Along step PutsBackOwn s events)
    (hfrom : ∀ now ∈ events.filterMap reading, clock ≤ now) (hclock : ClockForward events)
    (hexec : exec step s events = .ok s') : LeastRecentFirst s' := by
  induction events generalizing s clock with
  | nil =>
    obtain rfl := Except.ok.inj hexec
    exact h.ordered
  | cons e events ih =>
    obtain ⟨s₁, hstep, hrest⟩ := exec_cons_ok.mp hexec
    obtain ⟨he, howns⟩ := along_cons.mp hown
    have hnow : ∀ now ∈ reading e, clock ≤ now := by
      intro now hreading
      exact hfrom now (List.mem_filterMap.mpr ⟨e, List.mem_cons_self, hreading⟩)
    have hordered := orderedUntil_rearranged h (step_rearranged hs he hstep) hnow
    unfold ClockForward at hclock
    cases hreading : reading e with
    | none =>
      rw [List.filterMap_cons_none hreading] at hfrom hclock
      rw [hreading] at hordered
      exact ih (poolInv_step hs he hstep) hordered (howns s₁ hstep) hfrom hclock hrest
    | some now =>
      rw [List.filterMap_cons_some hreading] at hclock
      rw [hreading] at hordered
      obtain ⟨hlater, hclock⟩ := List.pairwise_cons.mp hclock
      exact ih (poolInv_step hs he hstep) hordered (howns s₁ hstep) hlater hclock hrest

section

variable {s s' : DBPool τ} {now : ℤ}

theorem maintenance_available (h : s.step (.maintenance now) = .ok s') :
    s'.availableConnections = s.availableConnections.eraseP (s.isIdle now) := by
  simp only [step, maintenance] at h
  split at h
  · cases h
  · cases hfind : s.availableConnections.find? (s.isIdle now) with
    | none =>
      simp only [hfind, Except.ok.injEq] at h
      rw [← h, List.eraseP_of_forall_not (List.find?_eq_none.mp hfind)]
    | some conn =>
      simp only [hfind, Except.ok.injEq] at h
      rw [← h]

theorem front_keeps_all (hordered : LeastRecentFirst s) (hstep : s.step (.maintenance now) = .ok s') {front : Conn}
    {rest : List Conn} (hfront : s.availableConnections = front :: rest) (h : s.isIdle now front = false) :
    s'.availableConnections = s.availableConnections := by
  rw [maintenance_available hstep]
  apply List.eraseP_of_forall_not
  intro conn hconn hidle
  rw [front_none_idle hordered hfront h conn hconn] at hidle
  cases hidle

theorem evicts_front (hordered : LeastRecentFirst s) (hstep : s.step (.maintenance now) = .ok s') {conn : Conn}
    (hconn : conn ∈ s.availableConnections) (hgone : conn ∉ s'.availableConnections) :
    ∃ rest, s.availableConnections = conn :: rest := by
  obtain ⟨front, rest, hfront⟩ := List.exists_cons_of_ne_nil (List.ne_nil_of_mem hconn)
  cases hidle : s.isIdle now front with
  | false =>
    rw [front_keeps_all hordered hstep hfront hidle] at hgone
    exact absurd hconn hgone
  | true =>
    rw [maintenance_available hstep, hfront, List.eraseP_cons_of_pos hidle] at hgone
    rw [hfront] at hconn
    rcases List.mem_cons.mp hconn with rfl | hrest
    · exact ⟨rest, hfront⟩
    · exact absurd hrest hgone

end

/-- What the order of the available connections means for a maintenance pass. -/
structure EvictsOldest (s : DBPool τ) : Prop where
  ordered : LeastRecentFirst s
  oldest : ∀ now s' conn, s.step (.maintenance now) = .ok s' → conn ∈ s.availableConnections →
    conn ∉ s'.availableConnections → ∀ other ∈ s.availableConnections, s.lastUsed conn ≤ s.lastUsed other
  front : ∀ now s' front rest, s.step (.maintenance now) = .ok s' → s.availableConnections = front :: rest →
    s.isIdle now front = false → s'.availableConnections = s.availableConnections

theorem evictsOldest_of_ordered {s : DBPool τ} (h : LeastRecentFirst s) : EvictsOldest s where
  ordered := h
  oldest now s' conn hstep hconn hgone other hother := by
    obtain ⟨rest, hfront⟩ := evicts_front h hstep hconn hgone
    rw [LeastRecentFirst, hfront, List.pairwise_cons] at h
    rw [hfront] at hother
    rcases List.mem_cons.mp hother with rfl | hrest
    · exact le_refl _
    · exact h.1 other hrest
  front _ _ _ _ hstep hfront hidle := front_keeps_all h hstep hfront hidle

theorem leastRecentFirst_run {maxConnections : UInt64} {events : List (PoolEvent τ)} {s : DBPool τ}
    (hown : Along step PutsBackOwn (newPool maxConnections) events) (hclock : ClockForward events)
    (hexec : exec step (newPool maxConnections) events = .ok s) : LeastRecentFirst s := by
  obtain ⟨clock, hfrom⟩ : ∃ clock, ∀ now ∈ events.filterMap reading, clock ≤ now := by
    rw [ClockForward] at hclock
    cases hreadings : events.filterMap reading with
    | nil => exact ⟨0, List.forall_mem_nil _⟩
    | cons first later =>
      rw [hreadings, List.pairwise_cons] at hclock
      exact ⟨first, List.forall_mem_cons.mpr ⟨le_refl first, hclock.1⟩⟩
  exact orderedUntil_run (poolInv_newPool maxConnections) (orderedUntil_newPool maxConnections clock) hown hfrom hclock hexec

theorem pool_ordered (maxConnections : UInt64) (events : List (PoolEvent τ)) (s : DBPool τ)
    (hown : Along step PutsBackOwn (newPool maxConnections) events) (hclock : ClockForward events)
    (hexec : exec step (newPool maxConnections) events = .ok s) : EvictsOldest s := by
  apply evictsOldest_of_ordered
  exact leastRecentFirst_run hown hclock hexec

theorem pool_ordered_two :
    ∃ s : DBPool ℕ, exec step (newPool 2) [.get 1 true 0, .get 2 true 1, .put 2 1 3 0, .put 1 0 5 0] = .ok s ∧
      s.availableConnections = [1, 0] ∧ EvictsOldest s :=
  ⟨_, rfl, rfl, pool_ordered 2 [.get 1 true 0, .get 2 true 1, .put 2 1 3 0, .put 1 0 5 0] _ (by decide)
    (by unfold ClockForward; decide) rfl⟩

end FcgiAppserver.Db.DBPool
