import FcgiAppserver.ServerSafety

namespace FcgiAppserver.Server

open Db Handlers SizeCounters TransitionRuns ServerState

/-- No thread has had to wait for a connection. -/
structure Uncrowded (maxConnections : UInt64) (s : ServerState) : Prop where
  nobody : s.pool.waiting = [] ∧ s.pool.signalled = []
  awake : ∀ u sv, s.threads u = .serving sv → sv.waits = false
  few : s.pool.numConnections.toNat ≤ numWorkers
  limit : s.pool.maxConnections = maxConnections

variable {s s' : ServerState} {t : Thread} {pc : ThreadPc} {e : ServerEvent} {maxConnections : UInt64}

theorem Holds.length_le (hs : Holds s) : s.pool.checkedOut.length ≤ numWorkers := by
  have hle := hs.once.length_le_card
  rwa [List.length_map, Fintype.card_fin] at hle

theorem Holds.length_lt (hs : Holds s) (hnone : (s.threads t).conn = none) :
    s.pool.checkedOut.length < numWorkers := by
  have hle := (List.nodup_cons.mpr ⟨hs.not_mem hnone, hs.once⟩).length_le_card
  rwa [List.length_cons, List.length_map, Fintype.card_fin] at hle

theorem Uncrowded.move (hs : Uncrowded maxConnections s) (hthreads : s'.threads = Function.update s.threads t pc)
    (hpool : s'.pool = s.pool) (hpc : ∀ sv, pc = .serving sv → sv.waits = false) :
    Uncrowded maxConnections s' where
  nobody := hpool ▸ hs.nobody
  awake := by
    rw [hthreads]
    exact threads_update (P := fun _ pc => ∀ sv, pc = .serving sv → sv.waits = false) (fun u _ => hs.awake u) hpc
  few := hpool ▸ hs.few
  limit := hpool ▸ hs.limit

theorem awake_update (hs : ∀ u sv, s.threads u = .serving sv → sv.waits = false) {sv : Serving} (hsv : sv.waits = false)
    (u : Thread) (sv' : Serving) (h : Function.update s.threads t (.serving sv) u = .serving sv') : sv'.waits = false := by
  refine threads_update (P := fun _ pc => ∀ sv, pc = .serving sv → sv.waits = false) (fun u _ => hs u) ?_ u sv' h
  rintro sv' ⟨⟩
  exact hsv

/-- With a thread to spare for each connection that may be opened, `get` never finds the list empty and no room to grow. -/
theorem get_not_waits (hmax : numWorkers ≤ maxConnections.toNat) (hsound : Sound s) (hs : Uncrowded maxConnections s)
    (hnone : (s.threads t).conn = none) {connected : Bool} {now : ℤ} {pool : DBPool Thread} :
    s.pool.get t connected now ≠ .ok (.waits, pool) := by
  intro hget
  obtain ⟨hgrow, hempty, -⟩ := DBPool.get_waits hget
  apply hgrow
  have hcounted := hsound.pool.counted
  have hconnections := hsound.pool.connections
  have hlt := hsound.holds.length_lt hnone
  rw [hempty, List.length_nil] at hcounted hconnections
  refine ⟨UInt64.toNat_inj.mp hcounted, ?_⟩
  rw [UInt64.lt_iff_toNat_lt, hs.limit]
  omega

theorem got_few (hsound : Sound s) (hs : Uncrowded maxConnections s) (hnone : (s.threads t).conn = none)
    {connected : Bool} {now : ℤ} {conn : Conn} {pool : DBPool Thread}
    (hget : s.pool.get t connected now = .ok (.got conn, pool)) : pool.numConnections.toNat ≤ numWorkers := by
  rcases DBPool.get_got hget with ⟨-, hzero, hroom, -, rfl⟩ | ⟨rest, -, rfl⟩
  · change (s.pool.numConnections + 1).toNat ≤ numWorkers
    have hcounted := hsound.pool.counted
    have hconnections := hsound.pool.connections
    have hlt := hsound.holds.length_lt hnone
    rw [hzero, UInt64.toNat_zero] at hcounted
    rw [toNat_succ_of_lt hroom]
    omega
  · exact hs.few

theorem uncrowded_step (hmax : numWorkers ≤ maxConnections.toNat) (hsound : Sound s) (hsound' : Sound s')
    (hs : Uncrowded maxConnections s) (h : Stepped s e s') : Uncrowded maxConnections s' := by
  have hconn : ∀ {t sv connected rest}, s.threads t = .serving sv → sv.rest = .get connected :: rest →
      (s.threads t).conn = none := by
    intro t sv connected rest hpc hrest
    rw [hpc]
    exact (hsound.valid t sv hpc).conn_of_get hrest
  cases h with
  | exits => exact ⟨hs.nobody, hs.awake, hs.few, hs.limit⟩
  | goesOn t now woken hpc => exact hs.move rfl rfl nofun
  | stops t now woken hpc => exact hs.move rfl rfl nofun
  | locks t now woken hpc hfree => exact hs.move rfl rfl nofun
  | accepted t turn hpc => exact hs.move rfl rfl nofun
  | refused t hpc => exact hs.move rfl rfl nofun
  | leaves t now woken hpc => exact hs.move rfl rfl nofun
  | unlocks t now woken number turn hpc => exact ⟨hs.nobody, awake_update hs.awake rfl, hs.few, hs.limit⟩
  | calls t now woken sv e rest hpc => exact ⟨hs.nobody, awake_update hs.awake rfl, hs.few, hs.limit⟩
  | got t now woken sv rest conn pool hpc hrest hwaits hget =>
    obtain ⟨-, hwaiting, hsignalled, hlimit, -⟩ := DBPool.get_got_handed hget
    refine ⟨⟨hwaiting.trans hs.nobody.1, hsignalled.trans hs.nobody.2⟩, awake_update hs.awake rfl, ?_,
      hlimit.trans hs.limit⟩
    exact got_few hsound hs (hconn hpc hrest) hget
  | failed t now woken sv connected rest pool hpc hrest hwaits hget =>
    obtain ⟨-, -, -, -, rfl⟩ := DBPool.get_thrown hget
    exact ⟨hs.nobody, awake_update hs.awake rfl, hs.few, hs.limit⟩
  | waits t now woken sv rest pool hpc hrest hwaits hget =>
    exact absurd hget (get_not_waits hmax hsound hs (hconn hpc hrest))
  | resumed t now woken sv connected rest conn pool hpc hrest hwaits hresume =>
    have hwoken := (DBPool.resume_handed hresume).1
    rw [hs.nobody.2] at hwoken
    cases hwoken
  | puts t now woken sv rest conn pool hpc hrest hconn hput =>
    obtain ⟨-, hlimit, -, hconnections, hnobody⟩ := DBPool.put_returned hput
    obtain ⟨hwaiting, hsignalled⟩ := hnobody hs.nobody.1
    exact ⟨⟨hwaiting, hsignalled.trans hs.nobody.2⟩, awake_update hs.awake rfl, hconnections ▸ hs.few,
      hlimit.trans hs.limit⟩
  | finishes t now woken sv hpc hrest hlives => exact hs.move rfl rfl nofun
  | maintained now pool hpass =>
    obtain ⟨hout, hwaiting, hsignalled, hlimit, -⟩ := DBPool.maintenance_passed hpass
    refine ⟨⟨hwaiting.trans hs.nobody.1, hsignalled.trans hs.nobody.2⟩, hs.awake, ?_, hlimit.trans hs.limit⟩
    have hshrinks := DBPool.maintenance_shrinks hpass
    have hconnections := hsound.pool.connections
    have hconnections' := hsound'.pool.connections
    have hfew := hs.few
    simp only at hconnections' ⊢
    rw [hconnections', hout]
    omega

theorem uncrowded_run {events : List ServerEvent} (hmax : numWorkers ≤ maxConnections.toNat)
    (hexec : exec step (start maxConnections) events = .ok s) : Uncrowded maxConnections s := by
  have hboth : Sound s ∧ Uncrowded maxConnections s := by
    refine exec_keeps (I := fun s => Sound s ∧ Uncrowded maxConnections s) ?_ ⟨sound_start _, ?_⟩ hexec
    · intro s e s' hs hstep
      have hsound' := sound_step hs.1 hstep
      exact ⟨hsound', uncrowded_step hmax hs.1 hsound' hs.2 (step_stepped hstep)⟩
    · exact ⟨⟨rfl, rfl⟩, nofun, Nat.zero_le _, rfl⟩
  exact hboth.2

theorem Serving.Valid.conn_of_put {sv : Serving} {rest : List Effect} (hsv : sv.Valid) (hrest : sv.rest = .put :: rest) :
    ∃ conn, sv.conn = some conn := by
  obtain ⟨σ, σ', -, hheld, hstep⟩ := hsv.next hrest
  apply Option.isSome_iff_exists.mp
  rw [hheld]
  rintro rfl
  cases hstep

theorem proceeds (hmax : numWorkers ≤ maxConnections.toNat) (hsound : Sound s) (hs : Uncrowded maxConnections s)
    (hfree : s.pool.lockHeld = false) {sv : Serving} {e : Effect} {rest : List Effect} (hpc : s.threads t = .serving sv)
    (hrest : sv.rest = e :: rest) (he : e ≠ .get false) (now : ℤ) (woken : Thread) :
    ∃ s', s.step (.thread t now woken) = .ok s' := by
  have hsv := hsound.valid t sv hpc
  have hstep : s.step (.thread t now woken) = s.serve t sv now woken := by
    rw [step, threadStep, hpc]
  rw [hstep, serve, hrest]
  cases e with
  | get connected =>
    cases connected with
    | false => exact absurd rfl he
    | true =>
      have hnone : (s.threads t).conn = none := by
        rw [hpc]
        exact hsv.conn_of_get hrest
      have hroom : s.pool.checkedOut.length < s.pool.maxConnections.toNat := by
        rw [hs.limit]
        exact (hsound.holds.length_lt hnone).trans_le hmax
      obtain ⟨conn, pool, hget⟩ := DBPool.get_succeeds t now hsound.pool hfree hroom
      simp [hs.awake t sv hpc, callGet, hget]
  | put =>
    obtain ⟨conn, hconn⟩ := hsv.conn_of_put hrest
    have hmemory : s.pool.availableConnections.length + 1 < 2 ^ 64 := by
      have hconnections := hsound.pool.connections
      have hfew : s.pool.numConnections.toNat ≤ 5 := hs.few
      omega
    obtain ⟨pool, hput⟩ := DBPool.put_succeeds t conn now woken hfree hmemory hs.nobody.1
    simp [callPut, hconn, hput]
  | _ => exact ⟨_, rfl⟩

structure NeverWaits (s : ServerState) : Prop where
  nobody : s.pool.waiting = [] ∧ s.pool.signalled = []
  few : s.pool.numConnections.toNat ≤ numWorkers
  -- but for a connect that fails, the next call of a turn can be made whatever the other threads do
  proceeds : s.pool.lockHeld = false → ∀ t sv e rest, s.threads t = .serving sv → sv.rest = e :: rest →
    e ≠ .get false → ∀ now woken, ∃ s', s.step (.thread t now woken) = .ok s'

theorem server_never_waits (maxConnections : UInt64) (hmax : numWorkers ≤ maxConnections.toNat)
    (events : List ServerEvent) (s : ServerState) (hexec : exec step (start maxConnections) events = .ok s) :
    NeverWaits s where
  nobody := (uncrowded_run hmax hexec).nobody
  few := (uncrowded_run hmax hexec).few
  proceeds hfree _ _ _ _ hpc hrest he :=
    Server.proceeds hmax (sound_run hexec) (uncrowded_run hmax hexec) hfree hpc hrest he

theorem server_never_waits_two :
    ∃ s, exec step (start 40) twoServing = .ok s ∧ s.pool.lockHeld = false ∧ NeverWaits s :=
  ⟨_, rfl, rfl, server_never_waits 40 (by decide) twoServing _ rfl⟩

end FcgiAppserver.Server
