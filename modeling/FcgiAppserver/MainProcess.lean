import FcgiAppserver.FirstWins
import FcgiAppserver.MapEntries
import FcgiAppserver.SizeCounters
import FcgiAppserver.TransitionRuns

namespace FcgiAppserver.Main

abbrev Pid := ℕ

abbrev WorkerFunction := ℕ

abbrev WorkerPool := Std.ExtTreeMap Pid WorkerFunction

abbrev WorkerFunctions := Std.ExtTreeMap WorkerFunction (UInt64 × UInt64)

/-- Where `MainProcess::run` stands; `rest` is what an iteration has left. -/
inductive LoopPc
  | spawning (rest : List WorkerFunction)
  | waiting
  /-- Between `m_workers.erase(i)` and the use of `i->second`, which held `held`. -/
  | decrementing (pid : Pid) (held : WorkerFunction)
  | testing
  | signalling (rest : List Pid)
  | closing
  | finished
deriving DecidableEq

/-- The main process with its children, all pids that `fork` returned to it, those that it signalled and the
workers of the moment in which it first found `m_exiting` set. -/
structure MainProcess where
  pc : LoopPc
  exiting : Bool
  signalled : Bool
  workers : WorkerPool
  functions : WorkerFunctions
  children : List Pid
  forked : List Pid
  killed : List Pid
  atQuit : Option (List Pid)

inductive MainEvent
  | quit
  | fork (result : Option Pid)
  | waitpid (result : Option Pid)
  | decrement (stale : WorkerFunction)
  | go
deriving DecidableEq

inductive Stuck
  | notEnabled
deriving DecidableEq

namespace MainProcess

def addFunction (functions : WorkerFunctions) (fp : WorkerFunction) (minWorkers : UInt64) : WorkerFunctions :=
  functions.insertIfNew fp (0, minWorkers)

def addFunctions (calls : List (WorkerFunction × UInt64)) : WorkerFunctions :=
  calls.foldl (fun functions c => addFunction functions c.1 c.2) ∅

def start (calls : List (WorkerFunction × UInt64)) : MainProcess where
  pc := .spawning (addFunctions calls).keys
  exiting := false
  signalled := false
  workers := ∅
  functions := addFunctions calls
  children := []
  forked := []
  killed := []
  atQuit := none

def function (s : MainProcess) (f : WorkerFunction) : UInt64 × UInt64 := s.functions[f]?.getD (0, 0)

def setFirst (s : MainProcess) (f : WorkerFunction) (first : UInt64) : MainProcess :=
  { s with functions := s.functions.insert f (first, (s.function f).2) }

def fork (s : MainProcess) (result : Option Pid) : Except Stuck MainProcess :=
  match s.pc with
  | .spawning (f :: _) =>
    if (s.function f).1 < (s.function f).2 then
      match result with
      | none => .ok { s with pc := .waiting }
      | some pid =>
        -- the child runs i->first() and exits
        if pid = 0 ∨ pid ∈ s.children then .error .notEnabled
        else .ok (setFirst { s with
          children := s.children ++ [pid]
          forked := s.forked ++ [pid]
          workers := s.workers.insertIfNew pid f } f ((s.function f).1 + 1))
    else .error .notEnabled
  | _ => .error .notEnabled

def waitpid (s : MainProcess) (result : Option Pid) : Except Stuck MainProcess :=
  match s.pc, result with
  | .waiting, none => .ok { s with pc := .testing }
  | .waiting, some pid =>
    match s.workers[pid]? with
    | some held => .ok { s with
        children := s.children.erase pid
        workers := s.workers.erase pid
        pc := .decrementing pid held }
    | none => .ok { s with children := s.children.erase pid, pc := .testing }
  | _, _ => .error .notEnabled

/-- `m_functions[i->second].first--`, where `stale` is what is read if there is no entry behind `i` any more. -/
def decrement (s : MainProcess) (stale : WorkerFunction) : Except Stuck MainProcess :=
  match s.pc with
  | .decrementing pid _ =>
    let f := s.workers[pid]?.getD stale
    .ok { s.setFirst f ((s.function f).1 - 1) with pc := .testing }
  | _ => .error .notEnabled

def go (s : MainProcess) : Except Stuck MainProcess :=
  match s.pc with
  | .spawning [] => .ok { s with pc := .waiting }
  | .spawning (f :: rest) =>
    if (s.function f).1 < (s.function f).2 then .error .notEnabled
    else .ok { s with pc := .spawning rest }
  | .testing =>
    if s.exiting then
      if s.signalled then .ok { s with pc := .closing }
      else .ok { s with pc := .signalling s.workers.keys, atQuit := some s.workers.keys }
    else .ok { s with pc := .spawning s.functions.keys }
  | .signalling (pid :: rest) => .ok { s with killed := s.killed ++ [pid], pc := .signalling rest }
  | .signalling [] => .ok { s with signalled := true, pc := .closing }
  | .closing => .ok { s with pc := if s.workers.isEmpty then .finished else .waiting }
  | _ => .error .notEnabled

def step (s : MainProcess) : MainEvent → Except Stuck MainProcess
  | .quit => .ok { s with exiting := true }
  | .fork result => s.fork result
  | .waitpid result => s.waitpid result
  | .decrement stale => s.decrement stale
  | .go => s.go

inductive Stepped (s : MainProcess) : MainEvent → MainProcess → Prop
  | quit : Stepped s .quit { s with exiting := true }
  | forkFailed (f : WorkerFunction) (rest : List WorkerFunction) (hpc : s.pc = .spawning (f :: rest)) :
      Stepped s (.fork none) { s with pc := .waiting }
  | forked (f : WorkerFunction) (rest : List WorkerFunction) (pid : Pid) (hpc : s.pc = .spawning (f :: rest))
      (hroom : (s.function f).1 < (s.function f).2) (hfresh : pid ∉ s.children) :
      Stepped s (.fork (some pid)) (setFirst { s with
        children := s.children ++ [pid]
        forked := s.forked ++ [pid]
        workers := s.workers.insertIfNew pid f } f ((s.function f).1 + 1))
  | interrupted (hpc : s.pc = .waiting) : Stepped s (.waitpid none) { s with pc := .testing }
  | reaped (pid : Pid) (held : WorkerFunction) (hpc : s.pc = .waiting) (hheld : s.workers[pid]? = some held) :
      Stepped s (.waitpid (some pid)) { s with
        children := s.children.erase pid
        workers := s.workers.erase pid
        pc := .decrementing pid held }
  | unknown (pid : Pid) (hpc : s.pc = .waiting) (hnone : s.workers[pid]? = none) :
      Stepped s (.waitpid (some pid)) { s with children := s.children.erase pid, pc := .testing }
  | decremented (pid : Pid) (held stale f : WorkerFunction) (hpc : s.pc = .decrementing pid held)
      (hread : f = s.workers[pid]?.getD stale) :
      Stepped s (.decrement stale) { s.setFirst f ((s.function f).1 - 1) with pc := .testing }
  | spawned (hpc : s.pc = .spawning []) : Stepped s .go { s with pc := .waiting }
  | filled (f : WorkerFunction) (rest : List WorkerFunction) (hpc : s.pc = .spawning (f :: rest))
      (hfull : ¬ (s.function f).1 < (s.function f).2) : Stepped s .go { s with pc := .spawning rest }
  | respawns (hpc : s.pc = .testing) (hstays : s.exiting = false) :
      Stepped s .go { s with pc := .spawning s.functions.keys }
  | observed (hpc : s.pc = .testing) (hexiting : s.exiting = true) (hfirst : s.signalled = false) :
      Stepped s .go { s with pc := .signalling s.workers.keys, atQuit := some s.workers.keys }
  | signalledBefore (hpc : s.pc = .testing) (hexiting : s.exiting = true) (hafter : s.signalled = true) :
      Stepped s .go { s with pc := .closing }
  | kills (pid : Pid) (rest : List Pid) (hpc : s.pc = .signalling (pid :: rest)) :
      Stepped s .go { s with killed := s.killed ++ [pid], pc := .signalling rest }
  | allSignalled (hpc : s.pc = .signalling []) : Stepped s .go { s with signalled := true, pc := .closing }
  | finishes (hpc : s.pc = .closing) (hempty : s.workers = ∅) : Stepped s .go { s with pc := .finished }
  | goesOn (hpc : s.pc = .closing) (hleft : s.workers ≠ ∅) : Stepped s .go { s with pc := .waiting }

theorem step_stepped {s s' : MainProcess} {e : MainEvent} (h : s.step e = .ok s') : Stepped s e s' := by
  cases e with
  | quit =>
    cases h
    exact .quit
  | fork result =>
    simp only [step, fork] at h
    split at h
    · rename_i f rest hpc
      split at h
      · rename_i hroom
        split at h
        · cases h
          exact .forkFailed f rest hpc
        · rename_i pid
          split at h
          · cases h
          · rename_i hfresh
            cases h
            exact .forked f rest pid hpc hroom (fun hin => hfresh (Or.inr hin))
      · cases h
    · cases h
  | waitpid result =>
    simp only [step, waitpid] at h
    split at h
    · rename_i hpc
      cases h
      exact .interrupted hpc
    · rename_i pid hpc
      split at h
      · rename_i held hheld
        cases h
        exact .reaped pid held hpc hheld
      · rename_i hnone
        cases h
        exact .unknown pid hpc hnone
    · cases h
  | decrement stale =>
    simp only [step, decrement] at h
    split at h
    · rename_i pid held hpc
      cases h
      exact .decremented pid held stale _ hpc rfl
    · cases h
  | go =>
    simp only [step, go] at h
    split at h
    · rename_i hpc
      cases h
      exact .spawned hpc
    · rename_i f rest hpc
      split at h
      · cases h
      · rename_i hfull
        cases h
        exact .filled f rest hpc hfull
    · rename_i hpc
      split at h
      · rename_i hexiting
        split at h
        · rename_i hafter
          cases h
          exact .signalledBefore hpc hexiting hafter
        · rename_i hfirst
          cases h
          exact .observed hpc hexiting (Bool.eq_false_of_not_eq_true hfirst)
      · rename_i hstays
        cases h
        exact .respawns hpc (Bool.eq_false_of_not_eq_true hstays)
    · rename_i pid rest hpc
      cases h
      exact .kills pid rest hpc
    · rename_i hpc
      cases h
      exact .allSignalled hpc
    · rename_i hpc
      cases h
      split
      · rename_i hempty
        exact .finishes hpc (Std.ExtTreeMap.isEmpty_iff.mp hempty)
      · rename_i hleft
        exact .goesOn hpc (fun hempty => hleft (Std.ExtTreeMap.isEmpty_iff.mpr hempty))
    · cases h

@[simp] theorem setFirst_workers (s : MainProcess) (f : WorkerFunction) (first : UInt64) :
    (s.setFirst f first).workers = s.workers := rfl

theorem function_setFirst (s : MainProcess) (f g : WorkerFunction) (first : UInt64) :
    (s.setFirst f first).function g = if f = g then (first, (s.function f).2) else s.function g := by
  rw [function, setFirst, Std.ExtTreeMap.getElem?_insert]
  by_cases hg : f = g
  · simp [hg]
  · simp [hg, function]

structure Registered (s : MainProcess) : Prop where
  nodup : s.children.Nodup
  mem_iff : ∀ pid, pid ∈ s.workers ↔ pid ∈ s.children
  erased : ∀ pid held, s.pc = .decrementing pid held → pid ∉ s.workers

theorem registered_start (calls : List (WorkerFunction × UInt64)) : Registered (start calls) where
  nodup := List.nodup_nil
  mem_iff := by simp [start]
  erased := nofun

theorem Registered.move {s s' : MainProcess} (hs : Registered s) (hworkers : s'.workers = s.workers)
    (hchildren : s'.children = s.children) (hpc : ∀ pid held, s'.pc ≠ .decrementing pid held) :
    Registered s' where
  nodup := hchildren ▸ hs.nodup
  mem_iff := by
    rw [hworkers, hchildren]
    exact hs.mem_iff
  erased := fun pid held h => absurd h (hpc pid held)

theorem registered_step {s s' : MainProcess} {e : MainEvent} (hs : Registered s) (h : s.step e = .ok s') :
    Registered s' := by
  cases step_stepped h with
  | quit => exact ⟨hs.nodup, hs.mem_iff, hs.erased⟩
  | forked f rest pid hpc hroom hfresh =>
    refine ⟨?_, ?_, ?_⟩
    · exact hs.nodup.append (List.nodup_singleton pid) (List.disjoint_singleton.mpr hfresh)
    · intro p
      change p ∈ s.workers.insertIfNew pid f ↔ p ∈ s.children ++ [pid]
      rw [Std.ExtTreeMap.mem_insertIfNew, hs.mem_iff p, List.mem_append, List.mem_singleton]
      simp only [Std.compare_eq_iff_eq]
      tauto
    · intro p held hdec
      exact absurd (hpc.symm.trans hdec) nofun
  | reaped pid held hpc hheld =>
    refine ⟨hs.nodup.erase pid, ?_, ?_⟩
    · intro p
      change p ∈ s.workers.erase pid ↔ p ∈ s.children.erase pid
      rw [Std.ExtTreeMap.mem_erase, hs.mem_iff p, hs.nodup.mem_erase_iff]
      simp only [ne_eq, Std.compare_eq_iff_eq]
      tauto
    · intro p held' hdec
      cases hdec
      change pid ∉ s.workers.erase pid
      simp
  | unknown pid hpc hnone =>
    have hnot : pid ∉ s.children := by
      rw [← hs.mem_iff, Std.ExtTreeMap.mem_iff_isSome_getElem?, hnone]
      nofun
    exact hs.move rfl (List.erase_of_not_mem hnot) nofun
  | forkFailed f rest hpc => exact hs.move rfl rfl nofun
  | interrupted hpc => exact hs.move rfl rfl nofun
  | decremented pid held stale f hpc hread => exact hs.move rfl rfl nofun
  | spawned hpc => exact hs.move rfl rfl nofun
  | filled f rest hpc hfull => exact hs.move rfl rfl nofun
  | respawns hpc hstays => exact hs.move rfl rfl nofun
  | observed hpc hexiting hfirst => exact hs.move rfl rfl nofun
  | signalledBefore hpc hexiting hafter => exact hs.move rfl rfl nofun
  | kills pid rest hpc => exact hs.move rfl rfl nofun
  | allSignalled hpc => exact hs.move rfl rfl nofun
  | finishes hpc hempty => exact hs.move rfl rfl nofun
  | goesOn hpc hleft => exact hs.move rfl rfl nofun

end MainProcess

end FcgiAppserver.Main
