import FcgiAppserver.PoolOwnership

namespace FcgiAppserver.Db.DBPool

open TransitionRuns

variable {τ : Type}

def RecordsOpen (s : DBPool τ) : Prop :=
  s.allConnections.Perm (s.availableConnections ++ s.held) ∧ s.allConnections.length = s.numConnections.toNat

/-- Destroyed now, the pool has deleted each connection it ever opened once. -/
def DeletesOnce (s : DBPool τ) : Prop := ∀ conn < s.opened, s.destroy.deleted.count conn = 1

def EvictsNothing (s : DBPool τ) : PoolEvent τ → Prop
  | .get _ _ _ => True
  | .resume _ _ => True
  | .put _ _ _ _ => True
  | .maintenance now => ∀ conn ∈ s.availableConnections, s.isIdle now conn = false

instance (s : DBPool τ) : (e : PoolEvent τ) → Decidable (EvictsNothing s e)
  | .get _ _ _ => .isTrue trivial
  | .resume _ _ => .isTrue trivial
  | .put _ _ _ _ => .isTrue trivial
  | .maintenance _ => inferInstanceAs (Decidable (∀ conn ∈ s.availableConnections, _))

theorem recordsOpen_iff {s : DBPool τ} (hs : PoolInv s) : RecordsOpen s ↔ s.deleted = [] := by
  have hlen := hs.owned.length_eq
  have hconnections := hs.connections
  simp only [List.length_append, List.length_range, held, List.length_map] at hlen
  constructor
  · rintro ⟨hperm, -⟩
    have hopen := hperm.length_eq
    simp only [hs.recorded, List.length_append, List.length_range, held, List.length_map] at hopen
    exact List.length_eq_zero_iff.mp (by omega)
  · intro hnil
    have howned := hs.owned
    rw [hnil, List.nil_append] at howned
    rw [hnil, List.length_nil] at hlen
    refine ⟨hs.recorded ▸ howned.symm, ?_⟩
    rw [hs.recorded, List.length_range]
    omega

theorem deletesOnce_iff {s : DBPool τ} (hs : PoolInv s) : DeletesOnce s ↔ s.deleted = [] := by
  have hcount : ∀ conn < s.opened, s.destroy.deleted.count conn = s.deleted.count conn + 1 := by
    intro conn hlt
    change (s.deleted ++ s.allConnections).count conn = _
    rw [hs.recorded, List.count_append, List.count_eq_one_of_mem List.nodup_range (List.mem_range.mpr hlt)]
  constructor
  · intro honce
    by_contra hne
    obtain ⟨conn, rest, hdeleted⟩ := List.exists_cons_of_ne_nil hne
    have hlt : conn < s.opened := by
      rw [← List.mem_range, ← hs.owned.mem_iff, hdeleted]
      simp
    have htwice := hcount conn hlt
    rw [honce conn hlt, hdeleted, List.count_cons_self] at htwice
    omega
  · intro hnil conn hlt
    rw [hcount conn hlt, hnil, List.count_nil]

variable [DecidableEq τ]

theorem evictsNothing_step {s s' : DBPool τ} {e : PoolEvent τ} (h : s.step e = .ok s') :
    s.deleted.length ≤ s'.deleted.length ∧ (EvictsNothing s e ↔ s'.deleted.length = s.deleted.length) := by
  cases step_stepped h with
  | grew t now => exact ⟨Nat.le_refl _, iff_of_true trivial rfl⟩
  | failed t now => exact ⟨Nat.le_refl _, iff_of_true trivial rfl⟩
  | waits t connects now => exact ⟨Nat.le_refl _, iff_of_true trivial rfl⟩
  | took t connects now => exact ⟨Nat.le_refl _, iff_of_true trivial rfl⟩
  | resumed t now => exact ⟨Nat.le_refl _, iff_of_true trivial rfl⟩
  | returned t conn now woken => exact ⟨Nat.le_refl _, iff_of_true trivial rfl⟩
  | kept now hfree hidle => exact ⟨Nat.le_refl _, iff_of_true hidle rfl⟩
  | evicted now conn before after hfree hidle hfind =>
    have hlen : (s.deleted ++ [conn]).length = s.deleted.length + 1 := List.length_append
    refine ⟨?_, iff_of_false ?_ ?_⟩
    · change s.deleted.length ≤ (s.deleted ++ [conn]).length
      omega
    · intro hnone
      have hconn := hnone conn (by simp [hfind])
      simp [hidle] at hconn
    · change (s.deleted ++ [conn]).length ≠ s.deleted.length
      omega

theorem evictsNothing_iff {maxConnections : UInt64} {events : List (PoolEvent τ)} {s : DBPool τ}
    (hexec : exec step (newPool maxConnections) events = .ok s) :
    Along step EvictsNothing (newPool maxConnections) events ↔ s.deleted = [] := by
  rw [along_iff_unchanged (f := fun s => s.deleted.length) (fun _ _ _ h => (evictsNothing_step h).1)
    (fun _ _ _ h => (evictsNothing_step h).2) hexec]
  exact List.length_eq_zero_iff

theorem pool_deletes_once_iff (maxConnections : UInt64) (events : List (PoolEvent τ)) (s : DBPool τ)
    (hown : Along step PutsBackOwn (newPool maxConnections) events)
    (hexec : exec step (newPool maxConnections) events = .ok s) :
    (DeletesOnce s ↔ Along step EvictsNothing (newPool maxConnections) events) ∧
    ((∀ before s', before <+: events → exec step (newPool maxConnections) before = .ok s' → RecordsOpen s') ↔
      Along step EvictsNothing (newPool maxConnections) events) := by
  have hinv := poolInv_run hown hexec
  refine ⟨?_, ?_⟩
  · rw [deletesOnce_iff hinv, evictsNothing_iff hexec]
  · constructor
    · intro hrecords
      rw [evictsNothing_iff hexec, ← recordsOpen_iff hinv]
      exact hrecords events s (List.prefix_refl events) hexec
    · rintro hnone before s' ⟨after, rfl⟩ hbefore
      rw [recordsOpen_iff (poolInv_run hown.of_append hbefore), ← evictsNothing_iff hbefore]
      exact hnone.of_append

theorem pool_deletes_once_kept :
    ∃ s : DBPool ℕ, exec step (newPool 1) [.get 1 true 0, .put 1 0 1 1, .maintenance 60] = .ok s ∧ DeletesOnce s :=
  ⟨_, rfl, (pool_deletes_once_iff 1 [.get 1 true 0, .put 1 0 1 1, .maintenance 60] _ (by decide) rfl).1.mpr
    (by decide)⟩

theorem evicted_deleted_twice :
    ∃ s : DBPool ℕ, exec step (newPool 1) [.get 1 true 0, .put 1 0 1 1, .maintenance 61] = .ok s ∧
      s.checkedOut = [] ∧ s.allConnections = [0] ∧ s.availableConnections = [] ∧ s.destroy.deleted = [0, 0] ∧
      ¬ DeletesOnce s := by
  refine ⟨_, rfl, rfl, rfl, rfl, rfl, ?_⟩
  intro honce
  exact absurd (honce 0 (by decide)) (by decide)

end FcgiAppserver.Db.DBPool
