import FcgiAppserver.DbPool

namespace FcgiAppserver.Db.DBPool

open TransitionRuns SizeCounters

variable {τ : Type}

def PutsBackOwn (s : DBPool τ) : PoolEvent τ → Prop
  | .get _ _ _ => True
  | .resume _ _ => True
  | .put t conn _ _ => (t, conn) ∈ s.checkedOut
  | .maintenance _ => True

def held (s : DBPool τ) : List Conn := s.checkedOut.map Prod.snd

structure PoolConsistent (s : DBPool τ) : Prop where
  counted : s.numAvailable.toNat = s.availableConnections.length
  connections : s.numConnections.toNat = s.availableConnections.length + s.checkedOut.length
  limited : s.numConnections ≤ s.maxConnections
  exclusive : (s.availableConnections ++ s.held).Nodup

structure PoolInv (s : DBPool τ) : Prop where
  counted : s.numAvailable.toNat = s.availableConnections.length
  connections : s.numConnections.toNat = s.availableConnections.length + s.checkedOut.length
  limited : s.numConnections ≤ s.maxConnections
  owned : (s.deleted ++ (s.availableConnections ++ s.held)).Perm (List.range s.opened)
  recorded : s.allConnections = List.range s.opened

theorem PoolInv.consistent {s : DBPool τ} (hs : PoolInv s) : PoolConsistent s where
  counted := hs.counted
  connections := hs.connections
  limited := hs.limited
  exclusive := (List.nodup_append.mp (hs.owned.nodup_iff.mpr List.nodup_range)).2.1

theorem poolInv_newPool (maxConnections : UInt64) : PoolInv (newPool maxConnections : DBPool τ) where
  counted := rfl
  connections := rfl
  limited := UInt64.zero_le
  owned := List.Perm.refl _
  recorded := rfl

theorem poolInv_grew {s : DBPool τ} (hs : PoolInv s) (t : τ) (now : ℤ)
    (hroom : s.numConnections < s.maxConnections) : PoolInv ((s.grow now).2.handOut t s.opened now) where
  counted := hs.counted
  connections := by
    change (s.numConnections + 1).toNat = s.availableConnections.length + (s.checkedOut ++ [(t, s.opened)]).length
    rw [toNat_succ_of_lt hroom, hs.connections, List.length_append, List.length_singleton, Nat.add_assoc]
  limited := by
    change s.numConnections + 1 ≤ s.maxConnections
    rw [UInt64.le_iff_toNat_le, toNat_succ_of_lt hroom]
    exact UInt64.lt_iff_toNat_lt.mp hroom
  owned := by
    change (s.deleted ++ (s.availableConnections ++ (s.checkedOut ++ [(t, s.opened)]).map Prod.snd)).Perm
      (List.range (s.opened + 1))
    rw [List.range_succ, List.map_append, ← List.append_assoc, ← List.append_assoc, List.append_assoc s.deleted]
    exact hs.owned.append_right [s.opened]
  recorded := by
    change s.allConnections ++ [s.opened] = List.range (s.opened + 1)
    rw [hs.recorded, List.range_succ]

theorem poolInv_took {s : DBPool τ} (hs : PoolInv s) (t : τ) (now : ℤ) {conn : Conn} {rest : List Conn}
    (signalled : List τ) (hfront : s.availableConnections = conn :: rest) :
    PoolInv (handOut { s with
      signalled := signalled
      availableConnections := rest
      numAvailable := s.numAvailable - 1 } t conn now) where
  counted := by
    have hcounted := hs.counted
    rw [hfront, List.length_cons] at hcounted
    exact toNat_pred hcounted
  connections := by
    have hconnections := hs.connections
    rw [hfront, List.length_cons] at hconnections
    change s.numConnections.toNat = rest.length + (s.checkedOut ++ [(t, conn)]).length
    rw [hconnections, List.length_append, List.length_singleton]
    omega
  limited := hs.limited
  owned := by
    have howned := hs.owned
    rw [hfront] at howned
    refine List.Perm.trans (List.Perm.append_left s.deleted ?_) howned
    change (rest ++ (s.checkedOut ++ [(t, conn)]).map Prod.snd).Perm (conn :: (rest ++ s.checkedOut.map Prod.snd))
    rw [List.map_append, ← List.append_assoc]
    exact List.perm_append_singleton conn _
  recorded := hs.recorded

theorem poolInv_evicted {s : DBPool τ} (hs : PoolInv s) {conn : Conn} {before after : List Conn}
    (hfind : s.availableConnections = before ++ conn :: after) :
    PoolInv { s with
      availableConnections := before ++ after
      numConnections := s.numConnections - 1
      numAvailable := s.numAvailable - 1
      deleted := s.deleted ++ [conn] } where
  counted := by
    have hcounted := hs.counted
    rw [hfind, List.length_append, List.length_cons] at hcounted
    change (s.numAvailable - 1).toNat = (before ++ after).length
    rw [List.length_append]
    exact toNat_pred (by omega)
  connections := by
    have hconnections := hs.connections
    rw [hfind, List.length_append, List.length_cons] at hconnections
    change (s.numConnections - 1).toNat = (before ++ after).length + s.checkedOut.length
    rw [List.length_append]
    exact toNat_pred (by omega)
  limited := by
    have hconnections := hs.connections
    rw [hfind, List.length_append, List.length_cons] at hconnections
    have hpred := toNat_pred (n := s.numConnections) (k := before.length + after.length + s.checkedOut.length) (by omega)
    have hlimited := UInt64.le_iff_toNat_le.mp hs.limited
    change s.numConnections - 1 ≤ s.maxConnections
    rw [UInt64.le_iff_toNat_le, hpred]
    omega
  owned := by
    refine List.Perm.trans ?_ hs.owned
    change (s.deleted ++ [conn] ++ (before ++ after ++ s.held)).Perm (s.deleted ++ (s.availableConnections ++ s.held))
    rw [hfind, List.append_assoc]
    apply List.Perm.append_left s.deleted
    simp only [List.append_assoc, List.cons_append, List.nil_append]
    exact List.perm_middle.symm
  recorded := hs.recorded

variable [DecidableEq τ]

instance (s : DBPool τ) : (e : PoolEvent τ) → Decidable (PutsBackOwn s e)
  | .get _ _ _ => .isTrue trivial
  | .resume _ _ => .isTrue trivial
  | .put _ _ _ _ => inferInstanceAs (Decidable (_ ∈ _))
  | .maintenance _ => .isTrue trivial

theorem poolInv_returned {s : DBPool τ} (hs : PoolInv s) {t : τ} {conn : Conn} (now : ℤ)
    (waiting signalled : List τ) (hown : (t, conn) ∈ s.checkedOut)
    (hmemory : s.availableConnections.length + 1 < 2 ^ 64) :
    PoolInv { s with
      availableConnections := s.availableConnections ++ [conn]
      numAvailable := s.numAvailable + 1
      lastUsed := Function.update s.lastUsed conn now
      checkedOut := s.checkedOut.erase (t, conn)
      waiting := waiting
      signalled := signalled } where
  counted := by
    have hcounted := hs.counted
    change (s.numAvailable + 1).toNat = (s.availableConnections ++ [conn]).length
    rw [toNat_succ (by omega), hcounted, List.length_append, List.length_singleton]
  connections := by
    have hlen := List.length_erase_of_mem hown
    have hpos := List.length_pos_of_mem hown
    have hconnections := hs.connections
    change s.numConnections.toNat = (s.availableConnections ++ [conn]).length + (s.checkedOut.erase (t, conn)).length
    rw [List.length_append, List.length_singleton]
    omega
  limited := hs.limited
  owned := by
    refine List.Perm.trans (List.Perm.append_left s.deleted ?_) hs.owned
    have herase := ((List.perm_cons_erase hown).map Prod.snd).append_left s.availableConnections
    change (s.availableConnections ++ [conn] ++ (s.checkedOut.erase (t, conn)).map Prod.snd).Perm
      (s.availableConnections ++ s.checkedOut.map Prod.snd)
    rw [List.append_assoc]
    exact herase.symm
  recorded := hs.recorded

theorem poolInv_step {s s' : DBPool τ} {e : PoolEvent τ} (hs : PoolInv s) (he : PutsBackOwn s e)
    (h : s.step e = .ok s') : PoolInv s' := by
  cases step_stepped h with
  | grew t now hfree hnone hroom => exact poolInv_grew hs t now hroom
  | failed t now => exact ⟨hs.counted, hs.connections, hs.limited, hs.owned, hs.recorded⟩
  | waits t connects now => exact ⟨hs.counted, hs.connections, hs.limited, hs.owned, hs.recorded⟩
  | took t connects now conn rest hfree hgrow hfront => exact poolInv_took hs t now s.signalled hfront
  | resumed t now conn rest hfree hwoken hfront => exact poolInv_took hs t now (s.signalled.erase t) hfront
  | returned t conn now woken waiting signalled hfree hmemory hsignal =>
    exact poolInv_returned hs now waiting signalled he hmemory
  | kept now => exact hs
  | evicted now conn before after hfree hidle hfind => exact poolInv_evicted hs hfind

theorem poolInv_run {maxConnections : UInt64} {events : List (PoolEvent τ)} {s : DBPool τ}
    (hown : Along step PutsBackOwn (newPool maxConnections) events)
    (hexec : exec step (newPool maxConnections) events = .ok s) : PoolInv s :=
  exec_invariant (fun _ _ _ hs he hstep => poolInv_step hs he hstep) (poolInv_newPool maxConnections) hown hexec

theorem pool_consistent (maxConnections : UInt64) (events : List (PoolEvent τ)) (s : DBPool τ)
    (hown : Along step PutsBackOwn (newPool maxConnections) events)
    (hexec : exec step (newPool maxConnections) events = .ok s) : PoolConsistent s :=
  (poolInv_run hown hexec).consistent

theorem pool_consistent_handed_over :
    ∃ s : DBPool ℕ, exec step (newPool 1) [.get 1 true 0, .get 2 true 1, .put 1 0 2 2, .resume 2 3] = .ok s ∧
      s.checkedOut = [(2, 0)] ∧ PoolConsistent s :=
  ⟨_, rfl, rfl, pool_consistent 1 [.get 1 true 0, .get 2 true 1, .put 1 0 2 2, .resume 2 3] _ (by decide) rfl⟩

end FcgiAppserver.Db.DBPool
