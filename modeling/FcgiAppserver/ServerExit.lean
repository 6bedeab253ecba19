import FcgiAppserver.ServerRequests
import FcgiAppserver.ServerWaits

namespace FcgiAppserver.Server

open Db Handlers TransitionRuns ServerState

theorem sum_update {ι : Type*} [Fintype ι] [DecidableEq ι] {α : Type*} (f : α → ℕ) (g : ι → α) (t : ι) (a : α) :
    ∑ u, f (Function.update g t a u) + f (g t) = ∑ u, f (g u) + f a := by
  have hupdate : (fun u => f (Function.update g t a u)) = Function.update (fun u => f (g u)) t (f a) := by
    funext u
    by_cases hu : u = t
    · subst hu
      rw [Function.update_self, Function.update_self]
    · rw [Function.update_of_ne hu, Function.update_of_ne hu]
  have hsplit := Finset.sum_eq_add_sum_sdiff_singleton_of_mem (Finset.mem_univ t) (fun u => f (g u))
  rw [hupdate, Finset.sum_update_of_mem (Finset.mem_univ t), hsplit]
  omega

namespace ThreadPc

def mayAccept : ThreadPc → ℕ
  | locking => 1
  | accepting => 1
  | _ => 0

/-- The steps that a thread has before it to its end or to the return of `FCGX_Accept_r`, once `m_exiting` is set. -/
def work : ThreadPc → ℕ
  | testing => 1
  | locking => 1
  | accepting => 0
  | unlocking none => 1
  | unlocking (some (_, turn)) => 2 * turn.effects.length + 4
  | serving sv => 2 * sv.rest.length + (if sv.waits then 0 else 1) + 2
  | terminated => 0

end ThreadPc

def toAccept (s : ServerState) : ℕ := ∑ u, (s.threads u).mayAccept

def toDo (s : ServerState) : ℕ := ∑ u, (s.threads u).work

namespace ServerEvent

def isThread : ServerEvent → Bool
  | thread _ _ _ => true
  | _ => false

/-- What the return of `FCGX_Accept_r` gives a thread to do. -/
def brings : ServerEvent → ℕ
  | accepts _ (some turn) => 2 * turn.effects.length + 4
  | accepts _ none => 1
  | _ => 0

end ServerEvent

variable {s s' s₀ : ServerState} {t : Thread} {pc : ThreadPc} {e : ServerEvent}

theorem toAccept_update (hthreads : s'.threads = Function.update s.threads t pc) :
    toAccept s' + (s.threads t).mayAccept = toAccept s + pc.mayAccept := by
  rw [toAccept, toAccept, hthreads]
  exact sum_update _ _ _ _

theorem toAccept_setThread (s : ServerState) (t : Thread) (pc : ThreadPc) :
    toAccept (s.setThread t pc) + (s.threads t).mayAccept = toAccept s + pc.mayAccept := toAccept_update rfl

theorem toDo_update (hthreads : s'.threads = Function.update s.threads t pc) :
    toDo s' + (s.threads t).work = toDo s + pc.work := by
  rw [toDo, toDo, hthreads]
  exact sum_update _ _ _ _

/-- With `m_exiting` set a thread that accepts has lost that right, and no thread gains it. -/
theorem accepts_step (hexiting : s.exiting = true) (h : Stepped s e s') :
    s'.accepted.length + toAccept s' ≤ s.accepted.length + toAccept s := by
  have hsame : ∀ {t pc s'}, s'.accepted = s.accepted → s'.threads = Function.update s.threads t pc →
      pc.mayAccept ≤ (s.threads t).mayAccept → s'.accepted.length + toAccept s' ≤ s.accepted.length + toAccept s := by
    intro t pc s' haccepted hthreads hle
    have hsum := toAccept_update hthreads
    rw [haccepted]
    omega
  cases h with
  | exits => exact Nat.le_refl _
  | goesOn t now woken hpc hnot =>
    rw [hexiting] at hnot
    cases hnot
  | stops t now woken hpc => exact hsame rfl rfl (Nat.zero_le _)
  | locks t now woken hpc hfree => exact hsame rfl rfl (by rw [hpc]; rfl)
  | accepted t turn hpc =>
    change (s.accepted ++ [turn]).length + toAccept (s.setThread t _) ≤ _
    have hsum := toAccept_setThread s t (.unlocking (some (s.accepted.length, turn)))
    rw [hpc] at hsum
    simp only [ThreadPc.mayAccept] at hsum
    rw [List.length_append, List.length_singleton]
    omega
  | refused t hpc => exact hsame rfl rfl (Nat.zero_le _)
  | leaves t now woken hpc => exact hsame rfl rfl (Nat.zero_le _)
  | unlocks t now woken number turn hpc => exact hsame rfl rfl (Nat.zero_le _)
  | calls t now woken sv e rest hpc => exact hsame rfl rfl (Nat.zero_le _)
  | got t now woken sv rest conn pool hpc => exact hsame rfl rfl (Nat.zero_le _)
  | failed t now woken sv connected rest pool hpc => exact hsame rfl rfl (Nat.zero_le _)
  | waits t now woken sv rest pool hpc => exact hsame rfl rfl (Nat.zero_le _)
  | resumed t now woken sv connected rest conn pool hpc => exact hsame rfl rfl (Nat.zero_le _)
  | puts t now woken sv rest conn pool hpc => exact hsame rfl rfl (Nat.zero_le _)
  | finishes t now woken sv hpc => exact hsame rfl rfl (Nat.zero_le _)
  | maintained now pool => exact Nat.le_refl _

theorem work_call (sv : Serving) {e : Effect} {rest : List Effect} (hrest : sv.rest = e :: rest) (conn : Option Conn) :
    (ThreadPc.serving (sv.call e rest conn)).work + 1 ≤ (ThreadPc.serving sv).work := by
  simp only [ThreadPc.work, Serving.call, hrest, List.length_cons, Bool.false_eq_true, if_false]
  omega

theorem toDo_step (hexiting : s.exiting = true) (h : Stepped s e s') :
    [e].countP ServerEvent.isThread + toDo s' ≤ toDo s + e.brings := by
  have hless : ∀ {t pc s'}, s'.threads = Function.update s.threads t pc → pc.work + 1 ≤ (s.threads t).work →
      1 + toDo s' ≤ toDo s + 0 := by
    intro t pc s' hthreads hle
    have hsum := toDo_update hthreads
    omega
  have hcalls : ∀ {t sv e rest conn s'}, s.threads t = .serving sv → sv.rest = e :: rest →
      s'.threads = Function.update s.threads t (.serving (sv.call e rest conn)) → 1 + toDo s' ≤ toDo s + 0 := by
    intro t sv e rest conn s' hpc hrest hthreads
    apply hless hthreads
    rw [hpc]
    exact work_call sv hrest conn
  have hbrings : ∀ t pc, toDo (s.setThread t pc) ≤ toDo s + pc.work := by
    intro t pc
    have hsum : toDo (s.setThread t pc) + (s.threads t).work = toDo s + pc.work := toDo_update rfl
    omega
  cases h with
  | exits => exact Nat.le_of_eq (Nat.zero_add _)
  | goesOn t now woken hpc hnot =>
    rw [hexiting] at hnot
    cases hnot
  | stops t now woken hpc => exact hless rfl (by rw [hpc]; exact Nat.le_refl _)
  | locks t now woken hpc hfree => exact hless rfl (by rw [hpc]; exact Nat.le_refl _)
  | accepted t turn hpc => exact (Nat.zero_add _).le.trans (hbrings t (.unlocking (some (s.accepted.length, turn))))
  | refused t hpc => exact (Nat.zero_add _).le.trans (hbrings t (.unlocking none))
  | leaves t now woken hpc => exact hless rfl (by rw [hpc]; exact Nat.le_refl _)
  | unlocks t now woken number turn hpc =>
    apply hless rfl
    rw [hpc]
    exact Nat.le_refl _
  | calls t now woken sv e rest hpc hrest he => exact hcalls hpc hrest rfl
  | got t now woken sv rest conn pool hpc hrest hwaits hget => exact hcalls hpc hrest rfl
  | failed t now woken sv connected rest pool hpc hrest hwaits hget => exact hcalls hpc hrest rfl
  | waits t now woken sv rest pool hpc hrest hwaits hget =>
    apply hless rfl
    rw [hpc]
    simp [ThreadPc.work, hwaits]
  | resumed t now woken sv connected rest conn pool hpc hrest hwaits hresume => exact hcalls hpc hrest rfl
  | puts t now woken sv rest conn pool hpc hrest hconn hput => exact hcalls hpc hrest rfl
  | finishes t now woken sv hpc hrest hlives =>
    apply hless rfl
    rw [hpc]
    simp only [ThreadPc.work]
    omega
  | maintained now pool => exact Nat.le_of_eq (Nat.zero_add _)

theorem exiting_step (hexiting : s.exiting = true) (h : Stepped s e s') : s'.exiting = true := by
  cases h with
  | exits => rfl
  | _ => exact hexiting

theorem drains_run {later : List ServerEvent} (hexiting : s₀.exiting = true) (hexec : exec step s₀ later = .ok s) :
    s.accepted.length + toAccept s ≤ s₀.accepted.length + toAccept s₀ ∧
      later.countP ServerEvent.isThread + toDo s ≤ toDo s₀ + (later.map ServerEvent.brings).sum := by
  induction later generalizing s₀ with
  | nil =>
    cases hexec
    exact ⟨Nat.le_refl _, Nat.le_of_eq (Nat.zero_add _)⟩
  | cons e later ih =>
    obtain ⟨s₁, hs₁, hrest⟩ := exec_cons_ok.mp hexec
    have hstepped := step_stepped hs₁
    obtain ⟨haccepts, hwork⟩ := ih (exiting_step hexiting hstepped) hrest
    have haccepts₁ := accepts_step hexiting hstepped
    have hwork₁ := toDo_step hexiting hstepped
    rw [← List.singleton_append, List.countP_append, List.map_append, List.sum_append, List.map_singleton,
      List.sum_singleton]
    constructor
    · omega
    · omega

theorem toAccept_le (s : ServerState) : toAccept s ≤ numWorkers := by
  have hle : toAccept s ≤ (Finset.univ : Finset Thread).card • 1 := by
    apply Finset.sum_le_card_nsmul
    intro u _
    cases s.threads u with
    | locking => exact Nat.le_refl _
    | accepting => exact Nat.le_refl _
    | _ => exact Nat.zero_le _
  rwa [Finset.card_univ, Fintype.card_fin, smul_eq_mul, Nat.mul_one] at hle

def Turn.Healthy (turn : Turn) : Prop := .get false ∉ turn.effects ∧ turn.dies = false

theorem Accounts.turn_mem (hs : Accounts s) {sv : Serving} (hpc : s.threads t = .serving sv) : sv.turn ∈ s.accepted := by
  have hrequest : (s.threads t).request = some (sv.number, sv.turn) := by
    rw [hpc]
    rfl
  exact List.mem_of_getElem? (hs.inWork t sv.number sv.turn hrequest).1

theorem Serving.Valid.rest_subset {sv : Serving} (hsv : sv.Valid) : sv.rest ⊆ sv.turn.effects := by
  rw [hsv.split]
  exact List.subset_append_right _ _

theorem lock_step (h : Stepped s e s') : s'.pool.lockHeld = s.pool.lockHeld ∨
    ∃ t sv rest, s.threads t = .serving sv ∧ sv.rest = .get false :: rest := by
  cases h with
  | got t now woken sv rest conn pool hpc hrest hwaits hget => exact Or.inl (DBPool.get_got_handed hget).2.2.2.2
  | failed t now woken sv connected rest pool hpc hrest hwaits hget =>
    rw [(DBPool.get_thrown hget).1] at hrest
    exact Or.inr ⟨t, sv, rest, hpc, hrest⟩
  | waits t now woken sv rest pool hpc hrest hwaits hget =>
    obtain ⟨-, -, rfl⟩ := DBPool.get_waits hget
    exact Or.inl rfl
  | resumed t now woken sv connected rest conn pool hpc hrest hwaits hresume =>
    exact Or.inl (DBPool.resume_handed hresume).2.2.2.2.2
  | puts t now woken sv rest conn pool hpc hrest hconn hput => exact Or.inl (DBPool.put_returned hput).2.2.1
  | maintained now pool hpass => exact Or.inl (DBPool.maintenance_passed hpass).2.2.2.2
  | _ => exact Or.inl rfl

theorem accepted_subset (h : Stepped s e s') : s.accepted ⊆ s'.accepted := by
  cases h with
  | accepted t turn hpc => exact List.subset_append_left _ _
  | _ => exact List.Subset.refl _

theorem lock_free_run {maxConnections : UInt64} {events : List ServerEvent}
    (hexec : exec step (start maxConnections) events = .ok s) (hhealthy : ∀ turn ∈ s.accepted, turn.Healthy) :
    s.pool.lockHeld = false := by
  have hall : (Sound s ∧ Accounts s) ∧ ((∀ turn ∈ s.accepted, turn.Healthy) → s.pool.lockHeld = false) := by
    refine exec_keeps
      (I := fun s => (Sound s ∧ Accounts s) ∧ ((∀ turn ∈ s.accepted, turn.Healthy) → s.pool.lockHeld = false))
      ?_ ⟨⟨sound_start _, accounts_start _⟩, fun _ => rfl⟩ hexec
    rintro s e s' ⟨⟨hsound, hs⟩, hfree⟩ hstep
    have hstepped := step_stepped hstep
    refine ⟨⟨sound_step hsound hstep, accounts_step hs hsound.valid hstepped⟩, ?_⟩
    intro hhealthy
    have hbefore : ∀ turn ∈ s.accepted, turn.Healthy := fun turn hturn => hhealthy turn (accepted_subset hstepped hturn)
    rcases lock_step hstepped with hsame | ⟨t, sv, rest, hpc, hrest⟩
    · rw [hsame]
      exact hfree hbefore
    · have hmem : .get false ∈ sv.rest := by
        rw [hrest]
        exact List.mem_cons_self
      exact absurd ((hsound.valid t sv hpc).rest_subset hmem) (hbefore sv.turn (hs.turn_mem hpc)).1
  exact hall.2 hhealthy

/-- A thread can take a step, whichever the clock and the woken thread are. -/
def Moves (s : ServerState) (t : Thread) : Prop := ∀ now woken, ∃ s', s.step (.thread t now woken) = .ok s'

theorem moves_of_step (s' : ServerState) (h : ∀ now woken, s.step (.thread t now woken) = .ok s') : Moves s t :=
  fun now woken => ⟨s', h now woken⟩

theorem mutex_holder_moves (hsound : Sound s) (hmutex : s.acceptMutex = some t) :
    s.threads t = .accepting ∨ Moves s t := by
  have hholds := (hsound.exclusive t).mpr hmutex
  cases hpc : s.threads t with
  | accepting => exact Or.inl rfl
  | unlocking rc =>
    cases rc with
    | none => exact Or.inr (moves_of_step _ (fun now woken => by rw [step, threadStep, hpc]))
    | some request => exact Or.inr (moves_of_step _ (fun now woken => by rw [step, threadStep, hpc]))
  | testing =>
    rw [hpc] at hholds
    cases hholds
  | locking =>
    rw [hpc] at hholds
    cases hholds
  | serving sv =>
    rw [hpc] at hholds
    cases hholds
  | terminated =>
    rw [hpc] at hholds
    cases hholds

theorem serving_moves {maxConnections : UInt64} {events : List ServerEvent} (hmax : numWorkers ≤ maxConnections.toNat)
    (hexec : exec step (start maxConnections) events = .ok s) (hhealthy : ∀ turn ∈ s.accepted, turn.Healthy)
    {sv : Serving} (hpc : s.threads t = .serving sv) : Moves s t := by
  have hsound := sound_run hexec
  obtain ⟨hconnects, hlives⟩ := hhealthy sv.turn ((accounts_run hexec).turn_mem hpc)
  cases hrest : sv.rest with
  | nil =>
    apply moves_of_step { s.setThread t .testing with finished := s.finished ++ [(sv.number, sv.written)] }
    intro now woken
    rw [step, threadStep, hpc]
    simp only [serve, hrest, hlives, Bool.false_eq_true, if_false]
  | cons e rest =>
    have hmem : e ∈ sv.turn.effects := by
      apply (hsound.valid t sv hpc).rest_subset
      rw [hrest]
      exact List.mem_cons_self
    have hne : e ≠ .get false := by
      rintro rfl
      exact hconnects hmem
    intro now woken
    exact proceeds hmax hsound (uncrowded_run hmax hexec) (lock_free_run hexec hhealthy) hpc hrest hne now woken

/-- While a thread is left, one can move, or one waits for `FCGX_Accept_r` to return. -/
theorem some_thread_moves {maxConnections : UInt64} {events : List ServerEvent} (hmax : numWorkers ≤ maxConnections.toNat)
    (hexec : exec step (start maxConnections) events = .ok s) (hhealthy : ∀ turn ∈ s.accepted, turn.Healthy)
    (hleft : s.threads t ≠ .terminated) : ∃ u, s.threads u = .accepting ∨ Moves s u := by
  have hsound := sound_run hexec
  cases hpc : s.threads t with
  | testing => exact ⟨t, Or.inr (moves_of_step _ (fun now woken => by rw [step, threadStep, hpc]))⟩
  | locking =>
    cases hmutex : s.acceptMutex with
    | none =>
      refine ⟨t, Or.inr ?_⟩
      apply moves_of_step { s.setThread t .accepting with acceptMutex := some t }
      intro now woken
      rw [step, threadStep, hpc]
      exact if_pos hmutex
    | some v => exact ⟨v, mutex_holder_moves hsound hmutex⟩
  | accepting => exact ⟨t, Or.inl hpc⟩
  | unlocking rc => exact ⟨t, mutex_holder_moves hsound ((hsound.exclusive t).mp (by rw [hpc]; rfl))⟩
  | serving sv => exact ⟨t, Or.inr (serving_moves hmax hexec hhealthy hpc)⟩
  | terminated => exact absurd hpc hleft

/-- A server that is told to exit comes to its end, unless `FCGX_Accept_r` does not return. -/
structure Drains (s₀ : ServerState) (later : List ServerEvent) (s : ServerState) : Prop where
  accepts : s.accepted.length ≤ s₀.accepted.length + numWorkers
  bounded : later.countP ServerEvent.isThread + toDo s ≤ toDo s₀ + (later.map ServerEvent.brings).sum
  moves : (∀ turn ∈ s.accepted, turn.Healthy) → (∃ u, s.threads u ≠ .terminated) →
    ∃ u, s.threads u = .accepting ∨ Moves s u

theorem server_drains (maxConnections : UInt64) (hmax : numWorkers ≤ maxConnections.toNat)
    (before : List ServerEvent) (s₀ : ServerState) (later : List ServerEvent) (s : ServerState)
    (hbefore : exec step (start maxConnections) before = .ok s₀) (hexiting : s₀.exiting = true)
    (hlater : exec step s₀ later = .ok s) : Drains s₀ later s := by
  obtain ⟨haccepts, hwork⟩ := drains_run hexiting hlater
  have hfew := toAccept_le s₀
  refine ⟨by omega, hwork, ?_⟩
  rintro hhealthy ⟨u, hu⟩
  exact some_thread_moves hmax ((exec_append hbefore).trans hlater) hhealthy hu

/-- The server is told to exit while two threads serve and one waits for a request, which it still gets. -/
theorem server_drains_three : ∃ s₀ s,
    exec step (start 40) (twoServing ++ [.thread 2 8 0, .thread 2 8 0, .exit]) = .ok s₀ ∧ s₀.exiting = true ∧
      exec step s₀ [.accepts 2 (some deniedTurn), .thread 2 9 0] = .ok s ∧
      Drains s₀ [.accepts 2 (some deniedTurn), .thread 2 9 0] s :=
  ⟨_, _, rfl, rfl, rfl, server_drains 40 (by decide) (twoServing ++ [.thread 2 8 0, .thread 2 8 0, .exit]) _
    [.accepts 2 (some deniedTurn), .thread 2 9 0] _ rfl rfl rfl⟩

end FcgiAppserver.Server
