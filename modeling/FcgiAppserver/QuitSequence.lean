import FcgiAppserver.MainProcess

namespace FcgiAppserver.Main.MainProcess

open TransitionRuns

/-- What holds at `pc` once the workers `ws` were found registered with `m_exiting` set. -/
def QuitAt (s : MainProcess) (ws : List Pid) : LoopPc → Prop
  | .spawning _ => False
  | .signalling rest => s.killed ++ rest = ws
  | .finished => s.signalled = true ∧ s.killed = ws ∧ s.workers = ∅
  | _ => s.signalled = true ∧ s.killed = ws

def Running : LoopPc → Prop
  | .spawning _ | .waiting | .decrementing _ _ | .testing => True
  | .signalling _ | .closing | .finished => False

structure Quitting (s : MainProcess) : Prop where
  before : s.atQuit = none → s.signalled = false ∧ s.killed = [] ∧ Running s.pc
  after : ∀ ws, s.atQuit = some ws → s.exiting = true ∧ ws.Nodup ∧ QuitAt s ws s.pc

theorem quitting_start (calls : List (WorkerFunction × UInt64)) : Quitting (start calls) where
  before := fun _ => ⟨rfl, rfl, trivial⟩
  after := nofun

/-- A step that neither observes `m_exiting` nor signals. -/
structure Unsignalled (s s' : MainProcess) : Prop where
  atQuit : s'.atQuit = s.atQuit
  exiting : s'.exiting = s.exiting
  signalled : s'.signalled = s.signalled
  killed : s'.killed = s.killed

theorem Quitting.move {s s' : MainProcess} (hs : Quitting s) (h : Unsignalled s s')
    (hrun : Running s.pc → Running s'.pc) (hat : ∀ ws, QuitAt s ws s.pc → QuitAt s' ws s'.pc) : Quitting s' where
  before := by
    intro hnone
    rw [h.atQuit] at hnone
    obtain ⟨hnot, hkilled, hpc⟩ := hs.before hnone
    rw [h.signalled, h.killed]
    exact ⟨hnot, hkilled, hrun hpc⟩
  after := by
    intro ws hws
    rw [h.atQuit] at hws
    obtain ⟨hset, hnodup, hpc⟩ := hs.after ws hws
    rw [h.exiting]
    exact ⟨hset, hnodup, hat ws hpc⟩

theorem Quitting.spawns {s s' : MainProcess} (hs : Quitting s) (h : Unsignalled s s') {rest : List WorkerFunction}
    (hpc : s.pc = .spawning rest) (hrun : Running s'.pc) : Quitting s' := by
  apply hs.move h (fun _ => hrun)
  rw [hpc]
  exact fun _ => False.elim

def Looping : LoopPc → Prop
  | .waiting | .decrementing _ _ | .testing => True
  | _ => False

theorem quitAt_looping {s : MainProcess} {ws : List Pid} {pc : LoopPc} (hpc : Looping pc) :
    QuitAt s ws pc ↔ s.signalled = true ∧ s.killed = ws := by
  cases pc with
  | waiting => exact Iff.rfl
  | decrementing pid held => exact Iff.rfl
  | testing => exact Iff.rfl
  | _ => exact hpc.elim

theorem Looping.running {pc : LoopPc} (hpc : Looping pc) : Running pc := by
  cases pc with
  | waiting => trivial
  | decrementing pid held => trivial
  | testing => trivial
  | _ => exact hpc.elim

theorem Quitting.loops {s s' : MainProcess} (hs : Quitting s) (h : Unsignalled s s') {pc : LoopPc}
    (hpc : s.pc = pc) (hfrom : Looping pc) (hto : Looping s'.pc) : Quitting s' := by
  apply hs.move h (fun _ => hto.running)
  intro ws hat
  rw [hpc, quitAt_looping hfrom] at hat
  rwa [quitAt_looping hto, h.signalled, h.killed]

theorem Quitting.observed {s : MainProcess} (hs : Quitting s) (hpc : ¬ Running s.pc) : s.atQuit ≠ none :=
  fun hnone => hpc (hs.before hnone).2.2

theorem Quitting.stops {s s' : MainProcess} (hs : Quitting s) {pc : LoopPc} (hpc : s.pc = pc) (hrun : ¬ Running pc)
    (hquit : s'.atQuit = s.atQuit) (hexiting : s'.exiting = s.exiting)
    (hat : ∀ ws, QuitAt s ws pc → QuitAt s' ws s'.pc) : Quitting s' where
  before := fun hnone => absurd (hquit.symm.trans hnone) (hs.observed (hpc ▸ hrun))
  after := by
    intro ws hws
    rw [hquit] at hws
    obtain ⟨hset, hnodup, hfrom⟩ := hs.after ws hws
    exact ⟨hexiting.trans hset, hnodup, hat ws (hpc ▸ hfrom)⟩

theorem quitting_step {s s' : MainProcess} {e : MainEvent} (hs : Quitting s) (h : s.step e = .ok s') :
    Quitting s' := by
  cases step_stepped h with
  | quit =>
    refine ⟨hs.before, ?_⟩
    intro ws hws
    obtain ⟨-, hnodup, hat⟩ := hs.after ws hws
    exact ⟨rfl, hnodup, hat⟩
  | forkFailed f rest hpc => exact hs.spawns ⟨rfl, rfl, rfl, rfl⟩ hpc trivial
  | forked f rest pid hpc hroom hfresh =>
    refine hs.spawns ⟨rfl, rfl, rfl, rfl⟩ hpc ?_
    change Running s.pc
    rw [hpc]
    trivial
  | interrupted hpc => exact hs.loops ⟨rfl, rfl, rfl, rfl⟩ hpc trivial trivial
  | reaped pid held hpc hheld => exact hs.loops ⟨rfl, rfl, rfl, rfl⟩ hpc trivial trivial
  | unknown pid hpc hnone => exact hs.loops ⟨rfl, rfl, rfl, rfl⟩ hpc trivial trivial
  | decremented pid held stale f hpc hread => exact hs.loops ⟨rfl, rfl, rfl, rfl⟩ hpc trivial trivial
  | spawned hpc => exact hs.spawns ⟨rfl, rfl, rfl, rfl⟩ hpc trivial
  | filled f rest hpc hfull => exact hs.spawns ⟨rfl, rfl, rfl, rfl⟩ hpc trivial
  | respawns hpc hstays =>
    refine ⟨?_, ?_⟩
    · intro hnone
      obtain ⟨hnot, hkilled, -⟩ := hs.before hnone
      exact ⟨hnot, hkilled, trivial⟩
    · intro ws hws
      have hset := (hs.after ws hws).1
      rw [hstays] at hset
      exact absurd hset nofun
  | observed hpc hexiting hfirst =>
    have hnone : s.atQuit = none := by
      cases hws : s.atQuit with
      | none => rfl
      | some ws =>
        have hat := (hs.after ws hws).2.2
        rw [hpc] at hat
        exact absurd (hfirst.symm.trans hat.1) nofun
    refine ⟨nofun, ?_⟩
    intro ws hws
    cases hws
    refine ⟨hexiting, Std.ExtTreeMap.nodup_keys, ?_⟩
    change s.killed ++ s.workers.keys = s.workers.keys
    rw [(hs.before hnone).2.1, List.nil_append]
  | signalledBefore hpc hexiting hafter =>
    have hsome : s.atQuit ≠ none := by
      intro hnone
      have hnot := (hs.before hnone).1
      rw [hafter] at hnot
      exact absurd hnot nofun
    refine ⟨fun hnone => absurd hnone hsome, ?_⟩
    intro ws hws
    obtain ⟨hset, hnodup, hat⟩ := hs.after ws hws
    rw [hpc] at hat
    exact ⟨hset, hnodup, hat⟩
  | kills pid rest hpc =>
    refine hs.stops hpc id rfl rfl ?_
    intro ws hat
    change s.killed ++ [pid] ++ rest = ws
    rw [List.append_assoc]
    exact hat
  | allSignalled hpc =>
    refine hs.stops hpc id rfl rfl ?_
    intro ws hat
    exact ⟨rfl, (List.append_nil _).symm.trans hat⟩
  | finishes hpc hempty => exact hs.stops hpc id rfl rfl (fun ws hat => ⟨hat.1, hat.2, hempty⟩)
  | goesOn hpc hleft => exact hs.stops hpc id rfl rfl (fun ws hat => hat)

theorem observed_step {s s' : MainProcess} {e : MainEvent} (hs : Quitting s) {ws : List Pid}
    (hws : s.atQuit = some ws) (h : s.step e = .ok s') : s'.atQuit = some ws ∧ s'.forked = s.forked := by
  have hat := (hs.after ws hws).2.2
  cases step_stepped h with
  | forked f rest pid hpc hroom hfresh =>
    rw [hpc] at hat
    exact hat.elim
  | observed hpc hexiting hfirst =>
    rw [hpc] at hat
    exact absurd (hfirst.symm.trans hat.1) nofun
  | _ => exact ⟨hws, rfl⟩

/-- The list is that of the workers registered when `m_exiting` is first found set. -/
theorem first_observed {s s' : MainProcess} {e : MainEvent} (hnone : s.atQuit = none) {ws : List Pid}
    (hws : s'.atQuit = some ws) (h : s.step e = .ok s') :
    s.pc = .testing ∧ s.exiting = true ∧ ws = s.workers.keys ∧ s'.workers = s.workers := by
  cases step_stepped h with
  | observed hpc hexiting hfirst =>
    cases hws
    exact ⟨hpc, hexiting, rfl, rfl⟩
  | _ =>
    have hsame : s.atQuit = some ws := hws
    rw [hnone] at hsame
    cases hsame

theorem observed_run {s s' : MainProcess} {events : List MainEvent} (hs : Quitting s) {ws : List Pid}
    (hws : s.atQuit = some ws) (h : exec step s events = .ok s') : s'.atQuit = some ws ∧ s'.forked = s.forked := by
  have hkept : Quitting s' ∧ s'.atQuit = some ws ∧ s'.forked = s.forked := by
    refine exec_keeps (I := fun t => Quitting t ∧ t.atQuit = some ws ∧ t.forked = s.forked) ?_ ⟨hs, hws, rfl⟩ h
    intro t e t' ht hstep
    obtain ⟨hquit, hforked⟩ := observed_step ht.1 ht.2.1 hstep
    exact ⟨quitting_step ht.1 hstep, hquit, hforked.trans ht.2.2⟩
  exact hkept.2

theorem QuitAt.killed {s : MainProcess} {ws : List Pid} {pc : LoopPc} (h : QuitAt s ws pc) :
    s.killed <+: ws ∧ ((∀ rest, pc ≠ .signalling rest) → s.killed = ws) := by
  cases pc with
  | spawning rest => exact h.elim
  | signalling rest => exact ⟨⟨rest, h⟩, fun hne => absurd rfl (hne rest)⟩
  | finished => exact ⟨h.2.1 ▸ List.prefix_refl _, fun _ => h.2.1⟩
  | _ => exact ⟨h.2 ▸ List.prefix_refl _, fun _ => h.2⟩

theorem quits_cleanly (calls : List (WorkerFunction × UInt64)) (events later : List MainEvent) (s s' : MainProcess)
    (hexec : exec step (start calls) events = .ok s) (hlater : exec step s later = .ok s') :
    (∀ ws, s.atQuit = some ws → s'.forked = s.forked ∧ s'.atQuit = some ws) ∧
    (∀ ws, s.atQuit = some ws → ws.Nodup ∧ s.killed <+: ws ∧
      ((∀ rest, s.pc ≠ .signalling rest) → s.killed = ws)) ∧
    (s.pc = .finished → s.atQuit.isSome ∧ s.workers = ∅ ∧ s.children = []) ∧
    (s.exiting = false → s.pc ≠ .finished ∧ s.killed = []) ∧
    (∀ e next ws, s.step e = .ok next → s.atQuit = none → next.atQuit = some ws →
      s.pc = .testing ∧ s.exiting = true ∧ ws = s.workers.keys ∧ next.workers = s.workers) := by
  have hs : Quitting s := exec_keeps (fun _ _ _ hs hstep => quitting_step hs hstep) (quitting_start calls) hexec
  have hreg : Registered s :=
    exec_keeps (fun _ _ _ hs hstep => registered_step hs hstep) (registered_start calls) hexec
  refine ⟨?_, ?_, ?_, ?_, fun e next ws hstep hnone hws => first_observed hnone hws hstep⟩
  · intro ws hws
    exact (observed_run hs hws hlater).symm
  · intro ws hws
    obtain ⟨-, hnodup, hat⟩ := hs.after ws hws
    exact ⟨hnodup, hat.killed⟩
  · intro hpc
    have hquit := hs.observed (by rw [hpc]; exact id)
    obtain ⟨ws, hws⟩ := Option.ne_none_iff_exists'.mp hquit
    have hat := (hs.after ws hws).2.2
    rw [hpc] at hat
    have hempty : s.workers = ∅ := hat.2.2
    refine ⟨Option.isSome_iff_ne_none.mpr hquit, hempty, ?_⟩
    rw [List.eq_nil_iff_forall_not_mem]
    intro pid hpid
    have hin := (hreg.mem_iff pid).mpr hpid
    rw [hempty] at hin
    exact absurd hin Std.ExtTreeMap.not_mem_empty
  · intro hexiting
    cases hquit : s.atQuit with
    | none =>
      obtain ⟨-, hkilled, hrun⟩ := hs.before hquit
      refine ⟨?_, hkilled⟩
      intro hpc
      rw [hpc] at hrun
      exact hrun
    | some ws => exact absurd (hexiting.symm.trans (hs.after ws hquit).1) nofun

def noticedRun : List MainEvent := [.fork (some 10), .fork (some 11), .go, .go, .quit, .waitpid none, .go]

def finishedRun : List MainEvent :=
  [.go, .go, .go, .go, .waitpid (some 11), .decrement 1, .go, .go, .waitpid (some 10), .decrement 1, .go, .go]

theorem quits_cleanly_two_workers :
    ∃ s s', exec step (start [(1, 2)]) noticedRun = .ok s ∧ exec step s finishedRun = .ok s' ∧
      s.atQuit = some [10, 11] ∧ s'.pc = .finished ∧ s'.killed = [10, 11] ∧
      s'.forked = s.forked ∧ s'.atQuit = some [10, 11] := by
  obtain ⟨s, hexec, hquit⟩ : ∃ s, exec step (start [(1, 2)]) noticedRun = .ok s ∧ s.atQuit = some [10, 11] :=
    exec_map_ok (by decide +kernel)
  obtain ⟨s', hwhole, hend⟩ : ∃ s', exec step (start [(1, 2)]) (noticedRun ++ finishedRun) = .ok s' ∧
      (s'.pc, s'.killed) = (.finished, [10, 11]) :=
    exec_map_ok (by decide +kernel)
  obtain ⟨hpc, hkilled⟩ := Prod.mk.inj hend
  have hlater : exec step s finishedRun = .ok s' := (exec_append hexec).symm.trans hwhole
  have hclean := quits_cleanly [(1, 2)] noticedRun finishedRun s s' hexec hlater
  exact ⟨s, s', hexec, hlater, hquit, hpc, hkilled, hclean.1 [10, 11] hquit⟩

end FcgiAppserver.Main.MainProcess
