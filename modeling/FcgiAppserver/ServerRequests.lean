import FcgiAppserver.ServerSafety

namespace FcgiAppserver.Server

open Db Dispatch Handlers TransitionRuns Xml ServerState

/-- The request that a thread works on, from the return of `FCGX_Accept_r` to that of `FCGX_Finish_r`. -/
def ThreadPc.request : ThreadPc → Option (ℕ × Turn)
  | .unlocking rc => rc
  | .serving sv => some (sv.number, sv.turn)
  | _ => none

def Turn.written (turn : Turn) : List Write := turn.effects.flatMap Effect.written

theorem turnOf_written (server : FcgiServer Handler) (xml : Libxml) (request : Request) :
    (turnOf server xml request).written = (workerTurn server xml request).out :=
  congrArg ScopedEffects.Act.out (Traced.erase_workerTurn server xml request)

structure Accounts (s : ServerState) : Prop where
  inWork : ∀ u n turn, (s.threads u).request = some (n, turn) →
    s.accepted[n]? = some turn ∧ n ∉ s.finished.map Prod.fst
  alone : ∀ u v n turn turn', (s.threads u).request = some (n, turn) → (s.threads v).request = some (n, turn') → u = v
  done : ∀ n out, (n, out) ∈ s.finished → ∃ turn, s.accepted[n]? = some turn ∧ turn.dies = false ∧ out = turn.written
  once : (s.finished.map Prod.fst).Nodup
  all : ∀ n < s.accepted.length, n ∈ s.finished.map Prod.fst ∨ ∃ u turn, (s.threads u).request = some (n, turn)

variable {s s' : ServerState} {t : Thread} {pc : ThreadPc} {e : ServerEvent}

theorem request_update (u : Thread) : (Function.update s.threads t pc u).request =
    if u = t then pc.request else (s.threads u).request := by
  by_cases hu : u = t
  · subst hu
    rw [Function.update_self, if_pos rfl]
  · rw [Function.update_of_ne hu, if_neg hu]

theorem Accounts.same (hs : Accounts s) (hthreads : ∀ u, (s'.threads u).request = (s.threads u).request)
    (haccepted : s'.accepted = s.accepted) (hfinished : s'.finished = s.finished) : Accounts s' where
  inWork u n turn h := by
    rw [haccepted, hfinished]
    exact hs.inWork u n turn (hthreads u ▸ h)
  alone u v n turn turn' hu hv := hs.alone u v n turn turn' (hthreads u ▸ hu) (hthreads v ▸ hv)
  done n out h := by
    rw [haccepted]
    exact hs.done n out (hfinished ▸ h)
  once := hfinished ▸ hs.once
  all n hn := by
    simp only [hfinished, hthreads]
    exact hs.all n (haccepted ▸ hn)

theorem Accounts.move (hs : Accounts s) (hpc : pc.request = (s.threads t).request)
    (hthreads : s'.threads = Function.update s.threads t pc) (haccepted : s'.accepted = s.accepted)
    (hfinished : s'.finished = s.finished) : Accounts s' := by
  refine hs.same ?_ haccepted hfinished
  rw [hthreads]
  exact threads_update (P := fun u pc => pc.request = (s.threads u).request) (fun _ _ => rfl) hpc

theorem Accounts.number_lt (hs : Accounts s) {u : Thread} {n : ℕ} {turn : Turn}
    (h : (s.threads u).request = some (n, turn)) : n < s.accepted.length := by
  obtain ⟨hlt, -⟩ := List.getElem?_eq_some_iff.mp (hs.inWork u n turn h).1
  exact hlt

theorem Accounts.finished_lt (hs : Accounts s) {n : ℕ} (h : n ∈ s.finished.map Prod.fst) : n < s.accepted.length := by
  obtain ⟨⟨m, out⟩, hmem, rfl⟩ := List.mem_map.mp h
  obtain ⟨turn, hturn, -⟩ := hs.done m out hmem
  obtain ⟨hlt, -⟩ := List.getElem?_eq_some_iff.mp hturn
  exact hlt

theorem accounts_accepted (hs : Accounts s) (hpc : s.threads t = .accepting) (turn : Turn) :
    Accounts { s.setThread t (.unlocking (some (s.accepted.length, turn))) with accepted := s.accepted ++ [turn] } where
  inWork u n turn' h := by
    simp only [setThread, request_update] at h ⊢
    split at h
    · cases h
      refine ⟨List.getElem?_concat_length, ?_⟩
      intro hfinished
      exact absurd (hs.finished_lt hfinished) (Nat.lt_irrefl _)
    · obtain ⟨hturn, hfinished⟩ := hs.inWork u n turn' h
      rw [List.getElem?_append_left (hs.number_lt h)]
      exact ⟨hturn, hfinished⟩
  alone u v n turn' turn'' hu hv := by
    simp only [setThread, request_update] at hu hv
    split at hu <;> split at hv
    · rename_i hut hvt
      rw [hut, hvt]
    · cases hu
      exact absurd (hs.number_lt hv) (Nat.lt_irrefl _)
    · cases hv
      exact absurd (hs.number_lt hu) (Nat.lt_irrefl _)
    · exact hs.alone u v n turn' turn'' hu hv
  done n out h := by
    obtain ⟨turn', hturn, hdone⟩ := hs.done n out h
    have hlt := hs.finished_lt (List.mem_map_of_mem (f := Prod.fst) h)
    refine ⟨turn', ?_, hdone⟩
    simp only
    rw [List.getElem?_append_left hlt]
    exact hturn
  once := hs.once
  all n hn := by
    simp only [setThread, request_update, List.length_append, List.length_singleton] at hn ⊢
    rcases Nat.lt_succ_iff_lt_or_eq.mp hn with hlt | rfl
    · rcases hs.all n hlt with hfinished | ⟨u, turn', hu⟩
      · exact Or.inl hfinished
      · refine Or.inr ⟨u, turn', ?_⟩
        have hne : u ≠ t := by
          rintro rfl
          rw [hpc] at hu
          cases hu
        rw [if_neg hne]
        exact hu
    · exact Or.inr ⟨t, turn, if_pos rfl⟩

theorem accounts_finished {sv : Serving} (hs : Accounts s) (hpc : s.threads t = .serving sv)
    (hwritten : sv.written = sv.turn.written) (hlives : sv.turn.dies = false) :
    Accounts { s.setThread t .testing with finished := s.finished ++ [(sv.number, sv.written)] } := by
  have hrequest : (s.threads t).request = some (sv.number, sv.turn) := by
    rw [hpc]
    rfl
  obtain ⟨hturn, hnot⟩ := hs.inWork t sv.number sv.turn hrequest
  constructor
  · intro u n turn h
    simp only [setThread, request_update] at h ⊢
    split at h
    · cases h
    · rename_i hu
      obtain ⟨haccepted, hfinished⟩ := hs.inWork u n turn h
      refine ⟨haccepted, ?_⟩
      rw [List.map_append, List.mem_append, not_or]
      refine ⟨hfinished, ?_⟩
      intro hmem
      rw [List.map_singleton, List.mem_singleton] at hmem
      subst hmem
      exact hu (hs.alone u t _ turn sv.turn h hrequest)
  · intro u v n turn turn' hu hv
    simp only [setThread, request_update] at hu hv
    split at hu <;> split at hv
    · cases hu
    · cases hu
    · cases hv
    · exact hs.alone u v n turn turn' hu hv
  · intro n out h
    rcases List.mem_append.mp h with h | h
    · exact hs.done n out h
    · rw [List.mem_singleton, Prod.mk.injEq] at h
      obtain ⟨rfl, rfl⟩ := h
      exact ⟨sv.turn, hturn, hlives, hwritten⟩
  · rw [List.map_append, List.map_singleton]
    apply hs.once.append (List.nodup_singleton _)
    rw [List.disjoint_singleton]
    exact hnot
  · intro n hn
    simp only [setThread, request_update, List.map_append, List.mem_append]
    rcases hs.all n hn with hfinished | ⟨u, turn, hu⟩
    · exact Or.inl (Or.inl hfinished)
    · by_cases hut : u = t
      · subst hut
        rw [hrequest] at hu
        cases hu
        exact Or.inl (Or.inr List.mem_cons_self)
      · exact Or.inr ⟨u, turn, by rw [if_neg hut]; exact hu⟩

theorem accounts_step (hs : Accounts s) (hvalid : ∀ u sv, s.threads u = .serving sv → sv.Valid) (h : Stepped s e s') :
    Accounts s' := by
  cases h with
  | exits => exact hs.same (fun _ => rfl) rfl rfl
  | goesOn t now woken hpc => exact hs.move (by rw [hpc]; rfl) rfl rfl rfl
  | stops t now woken hpc => exact hs.move (by rw [hpc]; rfl) rfl rfl rfl
  | locks t now woken hpc hfree => exact hs.move (by rw [hpc]; rfl) rfl rfl rfl
  | accepted t turn hpc => exact accounts_accepted hs hpc turn
  | refused t hpc => exact hs.move (by rw [hpc]; rfl) rfl rfl rfl
  | leaves t now woken hpc => exact hs.move (by rw [hpc]; rfl) rfl rfl rfl
  | unlocks t now woken number turn hpc => exact hs.move (by rw [hpc]; rfl) rfl rfl rfl
  | calls t now woken sv e rest hpc => exact hs.move (by rw [hpc]; rfl) rfl rfl rfl
  | got t now woken sv rest conn pool hpc => exact hs.move (by rw [hpc]; rfl) rfl rfl rfl
  | failed t now woken sv connected rest pool hpc => exact hs.move (by rw [hpc]; rfl) rfl rfl rfl
  | waits t now woken sv rest pool hpc => exact hs.move (by rw [hpc]; rfl) rfl rfl rfl
  | resumed t now woken sv connected rest conn pool hpc => exact hs.move (by rw [hpc]; rfl) rfl rfl rfl
  | puts t now woken sv rest conn pool hpc => exact hs.move (by rw [hpc]; rfl) rfl rfl rfl
  | finishes t now woken sv hpc hrest hlives =>
    refine accounts_finished hs hpc ?_ hlives
    have hsplit := (hvalid t sv hpc).split
    rw [hrest, List.append_nil] at hsplit
    rw [Serving.written, Turn.written, hsplit]
  | maintained now pool => exact hs.same (fun _ => rfl) rfl rfl

theorem accounts_start (maxConnections : UInt64) : Accounts (start maxConnections) where
  inWork := nofun
  alone := nofun
  done := nofun
  once := List.nodup_nil
  all := nofun

theorem accounts_run {maxConnections : UInt64} {events : List ServerEvent}
    (hexec : exec step (start maxConnections) events = .ok s) : Accounts s := by
  have hboth : Sound s ∧ Accounts s := by
    refine exec_keeps (I := fun s => Sound s ∧ Accounts s) ?_ ⟨sound_start _, accounts_start _⟩ hexec
    intro s e s' hs hstep
    exact ⟨sound_step hs.1 hstep, accounts_step hs.2 hs.1.valid (step_stepped hstep)⟩
  exact hboth.2

structure Served (s : ServerState) : Prop where
  accounts : Accounts s
  exclusive : ∀ u v, (s.threads u).hasMutex = true → (s.threads v).hasMutex = true → u = v
  answers : ∀ n server xml request out, s.accepted[n]? = some (turnOf server xml request) → (n, out) ∈ s.finished →
    out = (workerTurn server xml request).out
  returned : (∀ u, s.threads u = .terminated) →
    s.pool.checkedOut = [] ∧ ∀ n < s.accepted.length, n ∈ s.finished.map Prod.fst

theorem server_serves_once (maxConnections : UInt64) (events : List ServerEvent) (s : ServerState)
    (hexec : exec step (start maxConnections) events = .ok s) : Served s := by
  have hsound := sound_run hexec
  have haccounts := accounts_run hexec
  constructor
  · exact haccounts
  · intro u v hu hv
    have hmutex := ((hsound.exclusive u).mp hu).symm.trans ((hsound.exclusive v).mp hv)
    exact Option.some.inj hmutex
  · intro n server xml request out haccepted hfinished
    obtain ⟨turn, hturn, -, hout⟩ := haccounts.done n out hfinished
    rw [haccepted, Option.some.injEq] at hturn
    rw [hout, ← hturn, turnOf_written]
  · intro hall
    constructor
    · apply List.eq_nil_iff_forall_not_mem.mpr
      rintro ⟨u, conn⟩ hmem
      rw [hsound.holds.held u conn, hall u] at hmem
      cases hmem
    · intro n hn
      apply (haccounts.all n hn).resolve_right
      rintro ⟨u, turn, hu⟩
      rw [hall u] at hu
      cases hu

def goingOn (t : Thread) (now : ℤ) (steps : ℕ) : List ServerEvent := List.replicate steps (.thread t now t)

/-- The two threads go on to the end of their requests, the later one first. -/
def twoServed : List ServerEvent := twoServing ++ (goingOn 1 8 15 ++ goingOn 0 9 14)

theorem server_serves_once_two :
    ∃ s, exec step (start 40) twoServed = .ok s ∧ s.finished.map Prod.fst = [1, 0] ∧ Served s := by
  have hmap : (exec step (start 40) twoServed).map (fun s => s.finished.map Prod.fst) = .ok [1, 0] := rfl
  obtain ⟨s, hexec, hfinished⟩ := exec_map_ok hmap
  exact ⟨s, hexec, hfinished, server_serves_once 40 twoServed s hexec⟩

end FcgiAppserver.Server
