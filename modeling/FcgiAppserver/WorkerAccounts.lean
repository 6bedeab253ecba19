import FcgiAppserver.MainProcess

namespace FcgiAppserver.Main.MainProcess

open TransitionRuns MapEntries SizeCounters

/-- The worker that is erased and whose function is still to be decremented. -/
def pending (s : MainProcess) (f : WorkerFunction) : ℕ :=
  match s.pc with
  | .decrementing _ held => if held = f then 1 else 0
  | _ => 0

def Between (s : MainProcess) : Prop := ∀ pid held, s.pc ≠ .decrementing pid held

structure Accounts (s : MainProcess) : Prop where
  counted : ∀ f, (s.function f).1.toNat = countValue s.workers f
  bounded : ∀ f, (s.function f).1 ≤ (s.function f).2
  registered : ∀ pid ∈ s.children, pid ∈ s.workers
  spawned : s.pc = .spawning [] → ∀ f, (s.function f).1 = (s.function f).2

/-- The entry behind `i` is still there when `i->second` is used. -/
def ReadsLive (s : MainProcess) : Prop := ∀ pid held, s.pc = .decrementing pid held → pid ∈ s.workers

def NoWorkerReaped (s : MainProcess) : MainEvent → Prop
  | .waitpid (some pid) => s.pc = .waiting → pid ∉ s.workers
  | _ => True

/-- What is read from the erased entry is what it held. -/
def ReadsIntact (s : MainProcess) : MainEvent → Prop
  | .decrement stale => ∀ pid held, s.pc = .decrementing pid held → stale = held
  | _ => True

structure Balanced (s : MainProcess) : Prop where
  counted : ∀ f, (s.function f).1.toNat = countValue s.workers f + s.pending f
  bounded : ∀ f, (s.function f).1 ≤ (s.function f).2
  filled : ∀ rest, s.pc = .spawning rest → ∀ f, f ∉ rest → (s.function f).1 = (s.function f).2

theorem addFunctions_eq (calls : List (WorkerFunction × UInt64)) :
    addFunctions calls = FirstWins.firstWins (calls.map (fun c => (c.1, (0, c.2)))) := by
  rw [FirstWins.firstWins, FirstWins.insertAll, List.foldl_map]
  rfl

theorem function_start (calls : List (WorkerFunction × UInt64)) (f : WorkerFunction) :
    ((start calls).function f).1 = 0 := by
  change ((addFunctions calls)[f]?.getD (0, 0)).1 = 0
  rw [addFunctions_eq, FirstWins.getElem?_firstWins]
  cases hlookup : (calls.map (fun c => (c.1, ((0 : UInt64), c.2)))).lookup f with
  | none => rfl
  | some value =>
    obtain ⟨c, -, hc⟩ := List.mem_map.mp (FirstWins.mem_of_lookup hlookup)
    obtain ⟨rfl, rfl⟩ := Prod.mk.inj hc
    rfl

theorem function_of_not_mem {s : MainProcess} {f : WorkerFunction} (hf : f ∉ s.functions.keys) :
    (s.function f).1 = (s.function f).2 := by
  have hnone : s.functions[f]? = none := by
    rw [Std.ExtTreeMap.mem_keys] at hf
    exact Std.ExtTreeMap.getElem?_eq_none hf
  rw [function, hnone]
  rfl

theorem pending_between {s : MainProcess} (hs : Between s) (f : WorkerFunction) : s.pending f = 0 := by
  unfold pending
  split
  · rename_i pid held hpc
    exact absurd hpc (hs pid held)
  · rfl

theorem balanced_start (calls : List (WorkerFunction × UInt64)) : Balanced (start calls) where
  counted := by
    intro f
    rw [function_start]
    change 0 = countValue (∅ : WorkerPool) f
    rw [countValue_empty]
  bounded := by
    intro f
    rw [function_start]
    exact UInt64.zero_le
  filled := by
    intro rest hpc f hf
    cases hpc
    exact function_of_not_mem hf

theorem Balanced.move {s s' : MainProcess} (hs : Balanced s) (hworkers : s'.workers = s.workers)
    (hfunctions : s'.functions = s.functions) (hfrom : Between s) (hto : Between s')
    (hfilled : ∀ rest, s'.pc = .spawning rest → ∀ f, f ∉ rest → (s.function f).1 = (s.function f).2) :
    Balanced s' := by
  have hfunction : ∀ f, s'.function f = s.function f := by
    intro f
    rw [function, hfunctions, function]
  refine ⟨?_, ?_, ?_⟩
  · intro f
    rw [hfunction, hs.counted f, hworkers, pending_between hfrom, pending_between hto]
  · intro f
    rw [hfunction]
    exact hs.bounded f
  · intro rest hpc f hf
    rw [hfunction]
    exact hfilled rest hpc f hf

theorem between_of_pc {s : MainProcess} {pc : LoopPc} (hpc : s.pc = pc)
    (hne : ∀ pid held, pc ≠ .decrementing pid held) : Between s :=
  fun pid held h => hne pid held (hpc.symm.trans h)

theorem balanced_forked {s : MainProcess} (hs : Balanced s) (hreg : Registered s) {f : WorkerFunction}
    {rest : List WorkerFunction} {pid : Pid} (hpc : s.pc = .spawning (f :: rest))
    (hroom : (s.function f).1 < (s.function f).2) (hfresh : pid ∉ s.children) :
    Balanced (setFirst { s with
      children := s.children ++ [pid]
      forked := s.forked ++ [pid]
      workers := s.workers.insertIfNew pid f } f ((s.function f).1 + 1)) := by
  have hbetween : Between s := between_of_pc hpc nofun
  have hnew : pid ∉ s.workers := fun h => hfresh ((hreg.mem_iff pid).mp h)
  have hsucc := toNat_succ_of_lt hroom
  refine ⟨?_, ?_, ?_⟩
  · intro g
    have hcount := hs.counted g
    rw [pending_between hbetween, Nat.add_zero] at hcount
    rw [function_setFirst]
    change (if f = g then _ else s.function g).1.toNat = countValue (s.workers.insertIfNew pid f) g + s.pending g
    rw [countValue_insertIfNew f g hnew, pending_between hbetween, Nat.add_zero]
    by_cases hg : f = g
    · subst hg
      rw [if_pos rfl, if_pos rfl, ← hcount]
      exact hsucc
    · rw [if_neg hg, if_neg hg]
      exact hcount
  · intro g
    rw [function_setFirst]
    by_cases hg : f = g
    · subst hg
      rw [if_pos rfl, UInt64.le_iff_toNat_le]
      have hlt := UInt64.lt_iff_toNat_lt.mp hroom
      change ((s.function f).1 + 1).toNat ≤ (s.function f).2.toNat
      omega
    · rw [if_neg hg]
      exact hs.bounded g
  · intro rest' hpc' g hg
    have hrest : f :: rest = rest' := LoopPc.spawning.inj (hpc.symm.trans hpc')
    subst hrest
    have hne : f ≠ g := fun h => hg (h ▸ List.mem_cons_self)
    rw [function_setFirst, if_neg hne]
    exact hs.filled (f :: rest) hpc g hg

theorem balanced_reaped {s : MainProcess} (hs : Balanced s) {pid : Pid} {held : WorkerFunction}
    (hpc : s.pc = .waiting) (hheld : s.workers[pid]? = some held) :
    Balanced { s with
      children := s.children.erase pid
      workers := s.workers.erase pid
      pc := .decrementing pid held } where
  counted := by
    intro f
    have hcount := hs.counted f
    rw [pending_between (between_of_pc hpc nofun), countValue_erase hheld f] at hcount
    exact hcount
  bounded := hs.bounded
  filled := nofun

theorem balanced_decremented {s : MainProcess} (hs : Balanced s) {pid : Pid} {held : WorkerFunction}
    (hpc : s.pc = .decrementing pid held) :
    Balanced { s.setFirst held ((s.function held).1 - 1) with pc := .testing } := by
  have hpending : ∀ f, s.pending f = if held = f then 1 else 0 := by
    intro f
    rw [pending, hpc]
  have hheld : (s.function held).1.toNat = countValue s.workers held + 1 := by
    rw [hs.counted held, hpending, if_pos rfl]
  have hpred := toNat_pred hheld
  refine ⟨?_, ?_, nofun⟩
  · intro f
    have hcount := hs.counted f
    change ((s.setFirst held ((s.function held).1 - 1)).function f).1.toNat = countValue s.workers f + 0
    rw [function_setFirst]
    by_cases hf : held = f
    · subst hf
      rw [if_pos rfl]
      exact hpred
    · rw [hpending, if_neg hf] at hcount
      rw [if_neg hf]
      exact hcount
  · intro f
    change ((s.setFirst held ((s.function held).1 - 1)).function f).1 ≤ ((s.setFirst held _).function f).2
    rw [function_setFirst]
    by_cases hf : held = f
    · subst hf
      rw [if_pos rfl, UInt64.le_iff_toNat_le]
      have hle := UInt64.le_iff_toNat_le.mp (hs.bounded held)
      change ((s.function held).1 - 1).toNat ≤ (s.function held).2.toNat
      omega
    · rw [if_neg hf]
      exact hs.bounded f

theorem balanced_step {s s' : MainProcess} {e : MainEvent} (hs : Balanced s) (hreg : Registered s)
    (hintact : ReadsIntact s e) (h : s.step e = .ok s') : Balanced s' := by
  cases step_stepped h with
  | quit => exact ⟨hs.counted, hs.bounded, hs.filled⟩
  | forked f rest pid hpc hroom hfresh => exact balanced_forked hs hreg hpc hroom hfresh
  | reaped pid held hpc hheld => exact balanced_reaped hs hpc hheld
  | decremented pid held stale f hpc hread =>
    have hnone : s.workers[pid]? = none := Std.ExtTreeMap.getElem?_eq_none (hreg.erased pid held hpc)
    have hf : f = held := by
      rw [hread, hnone]
      exact hintact pid held hpc
    subst hf
    exact balanced_decremented hs hpc
  | respawns hpc hstays =>
    refine hs.move rfl rfl (between_of_pc hpc nofun) nofun ?_
    intro rest hrest f hf
    cases hrest
    exact function_of_not_mem hf
  | filled f rest hpc hfull =>
    refine hs.move rfl rfl (between_of_pc hpc nofun) nofun ?_
    intro rest' hrest g hg
    cases hrest
    by_cases hgf : g = f
    · subst hgf
      exact UInt64.le_antisymm (hs.bounded g) (UInt64.not_lt.mp hfull)
    · exact hs.filled (f :: rest) hpc g (by simp [hgf, hg])
  | forkFailed f rest hpc => exact hs.move rfl rfl (between_of_pc hpc nofun) nofun nofun
  | interrupted hpc => exact hs.move rfl rfl (between_of_pc hpc nofun) nofun nofun
  | unknown pid hpc hnone => exact hs.move rfl rfl (between_of_pc hpc nofun) nofun nofun
  | spawned hpc => exact hs.move rfl rfl (between_of_pc hpc nofun) nofun nofun
  | observed hpc hexiting hfirst => exact hs.move rfl rfl (between_of_pc hpc nofun) nofun nofun
  | signalledBefore hpc hexiting hafter => exact hs.move rfl rfl (between_of_pc hpc nofun) nofun nofun
  | kills pid rest hpc => exact hs.move rfl rfl (between_of_pc hpc nofun) nofun nofun
  | allSignalled hpc => exact hs.move rfl rfl (between_of_pc hpc nofun) nofun nofun
  | finishes hpc hempty => exact hs.move rfl rfl (between_of_pc hpc nofun) nofun nofun
  | goesOn hpc hleft => exact hs.move rfl rfl (between_of_pc hpc nofun) nofun nofun

theorem accounts_of_balanced {s : MainProcess} (hs : Balanced s) (hreg : Registered s) (hbetween : Between s) :
    Accounts s where
  counted := fun f => by rw [hs.counted f, pending_between hbetween, Nat.add_zero]
  bounded := hs.bounded
  registered := fun pid hpid => (hreg.mem_iff pid).mpr hpid
  spawned := fun hpc f => hs.filled [] hpc f List.not_mem_nil

theorem accounts_intact {calls : List (WorkerFunction × UInt64)} {events : List MainEvent} {s : MainProcess}
    (hintact : Along step ReadsIntact (start calls) events) (hexec : exec step (start calls) events = .ok s)
    (hbetween : Between s) : Accounts s := by
  have hs : Balanced s ∧ Registered s := by
    refine exec_invariant (I := fun s => Balanced s ∧ Registered s) ?_ ?_ hintact hexec
    · intro s e s' hs hintact hstep
      exact ⟨balanced_step hs.1 hs.2 hintact hstep, registered_step hs.2 hstep⟩
    · exact ⟨balanced_start calls, registered_start calls⟩
  exact accounts_of_balanced hs.1 hs.2 hbetween

theorem waitpid_registered {s : MainProcess} {pid : Pid} {held : WorkerFunction} (hpc : s.pc = .waiting)
    (hheld : s.workers[pid]? = some held) :
    ∃ s', s.step (.waitpid (some pid)) = .ok s' ∧ s'.pc = .decrementing pid held ∧ pid ∉ s'.workers := by
  have hstep : s.step (.waitpid (some pid)) = .ok { s with
      children := s.children.erase pid
      workers := s.workers.erase pid
      pc := .decrementing pid held } := by
    simp only [step, waitpid, hpc, hheld]
  refine ⟨_, hstep, rfl, ?_⟩
  change pid ∉ s.workers.erase pid
  simp

theorem readsLive_step {s s' : MainProcess} {e : MainEvent} (hlive : ReadsLive s) (hreaps : NoWorkerReaped s e)
    (h : s.step e = .ok s') : ReadsLive s' := by
  intro pid held hpc'
  cases step_stepped h with
  | quit => exact hlive pid held hpc'
  | forked f rest pid' hpc hroom hfresh => exact absurd (hpc.symm.trans hpc') nofun
  | reaped pid' held' hpc hheld =>
    exact absurd (Std.ExtTreeMap.mem_iff_isSome_getElem?.mpr (by simp [hheld])) (hreaps hpc)
  | _ => cases hpc'

theorem readsLive_iff (calls : List (WorkerFunction × UInt64)) (events : List MainEvent) :
    Along step NoWorkerReaped (start calls) events ↔
      ∀ before s, before <+: events → exec step (start calls) before = .ok s → ReadsLive s := by
  refine along_iff_prefixes (fun _ _ _ hs hstep => registered_step hs hstep) ?_ (registered_start calls) nofun
  intro s e hreg hlive
  refine ⟨fun hreaps s' hstep => readsLive_step hlive hreaps hstep, ?_⟩
  intro hnext
  cases e with
  | waitpid result =>
    cases result with
    | none => trivial
    | some pid =>
      intro hpc hin
      obtain ⟨held, hheld⟩ := Option.isSome_iff_exists.mp (Std.ExtTreeMap.mem_iff_isSome_getElem?.mp hin)
      obtain ⟨s', hstep, hdec, hgone⟩ := waitpid_registered hpc hheld
      exact hgone (hnext s' hstep pid held hdec)
  | _ => trivial

theorem between_of_live {s : MainProcess} (hreg : Registered s) (hlive : ReadsLive s) : Between s :=
  fun pid held hpc => hreg.erased pid held hpc (hlive pid held hpc)

theorem readsIntact_of_noWorkerReaped {calls : List (WorkerFunction × UInt64)} {events : List MainEvent}
    (hreaps : Along step NoWorkerReaped (start calls) events) : Along step ReadsIntact (start calls) events := by
  refine hreaps.imp_of_invariant (I := fun s => Registered s ∧ ReadsLive s) ?_ ?_ ⟨registered_start calls, nofun⟩
  · intro s e hs _
    cases e with
    | decrement stale => exact fun pid held hpc => absurd hpc (between_of_live hs.1 hs.2 pid held)
    | _ => trivial
  · intro s e s' hs hreaps hstep
    exact ⟨registered_step hs.1 hstep, readsLive_step hs.2 hreaps hstep⟩

/-- The first part is the whole contract; without its last clause it needs only what an erased entry reads as. -/
theorem accounts_iff (calls : List (WorkerFunction × UInt64)) (events : List MainEvent) :
    ((∀ before s, before <+: events → exec step (start calls) before = .ok s →
        (Between s → Accounts s) ∧ ReadsLive s) ↔
      Along step NoWorkerReaped (start calls) events) ∧
    ∀ s, Along step ReadsIntact (start calls) events → exec step (start calls) events = .ok s →
      Between s → Accounts s := by
  refine ⟨⟨?_, ?_⟩, fun s hintact hexec hbetween => accounts_intact hintact hexec hbetween⟩
  · intro h
    rw [readsLive_iff]
    exact fun before s hbefore hexec => (h before s hbefore hexec).2
  · intro hreaps before s hbefore hexec
    have hlive := (readsLive_iff calls events).mp hreaps before s hbefore hexec
    obtain ⟨after, rfl⟩ := hbefore
    have hintact := readsIntact_of_noWorkerReaped hreaps.of_append
    exact ⟨accounts_intact hintact hexec, hlive⟩

/-- Two functions with one worker each. The worker of the second exits, and the erased entry reads as the
first: its count is decremented, and the next turn starts a second worker of it and none of the other. -/
theorem reaped_worker_miscounted :
    ∃ s s', exec step (start [(1, 1), (2, 1)])
        [.fork (some 10), .go, .fork (some 11), .go, .go, .waitpid (some 11)] = .ok s ∧ ¬ ReadsLive s ∧
      exec step s [.decrement 1, .go, .fork (some 12), .go, .go, .go] = .ok s' ∧
      Between s' ∧ ¬ Accounts s' ∧ s'.workers.toList = [(10, 1), (12, 1)] := by
  refine ⟨_, _, rfl, ?_, rfl, nofun, ?_, by decide +kernel⟩
  · intro hlive
    exact absurd (hlive 11 2 rfl) (by decide +kernel)
  · intro hs
    exact absurd (hs.counted 2) (by decide +kernel)

end FcgiAppserver.Main.MainProcess
