import FcgiAppserver.SizeCounters
import FcgiAppserver.TransitionRuns

namespace FcgiAppserver.Db

/-- `DBConn` objects, numbered in the order in which they are opened. -/
abbrev Conn := ℕ

/-- The pool with its callers: the calls of `get` that wait, those a signal has woken but that have not
got the lock back, and the connections handed out and not yet put back. -/
structure DBPool (τ : Type) where
  lockHeld : Bool
  allConnections : List Conn
  availableConnections : List Conn
  maxConnections : UInt64
  numConnections : UInt64
  numAvailable : UInt64
  lastUsed : Conn → ℤ
  waiting : List τ
  signalled : List τ
  checkedOut : List (τ × Conn)
  opened : ℕ
  deleted : List Conn

inductive Stuck
  | blocked
  | undefined
  | noMemory
  | notEnabled
deriving DecidableEq, Repr

inductive GetResult
  | got (conn : Conn)
  | waits
  | thrown
deriving DecidableEq, Repr

inductive PoolEvent (τ : Type)
  | get (t : τ) (connects : Bool) (now : ℤ)
  | resume (t : τ) (now : ℤ)
  | put (t : τ) (conn : Conn) (now : ℤ) (woken : τ)
  | maintenance (now : ℤ)

variable {τ : Type}

def newPool (maxConnections : UInt64) : DBPool τ where
  lockHeld := false
  allConnections := []
  availableConnections := []
  maxConnections := maxConnections
  numConnections := 0
  numAvailable := 0
  lastUsed := fun _ => 0
  waiting := []
  signalled := []
  checkedOut := []
  opened := 0
  deleted := []

namespace DBPool

def grow (s : DBPool τ) (now : ℤ) : Conn × DBPool τ :=
  (s.opened, { s with
    opened := s.opened + 1
    allConnections := s.allConnections ++ [s.opened]
    numConnections := s.numConnections + 1
    lastUsed := Function.update s.lastUsed s.opened now })

def handOut (s : DBPool τ) (t : τ) (conn : Conn) (now : ℤ) : DBPool τ :=
  { s with lastUsed := Function.update s.lastUsed conn now, checkedOut := s.checkedOut ++ [(t, conn)] }

def takeFront (s : DBPool τ) (t : τ) (now : ℤ) : Except Stuck (Conn × DBPool τ) :=
  match s.availableConnections with
  -- front() of an empty list
  | [] => .error .undefined
  | conn :: rest =>
    .ok (conn, handOut { s with availableConnections := rest, numAvailable := s.numAvailable - 1 } t conn now)

/-- `get` up to its return or its wait. `connects` tells whether a `DBConn` constructed in it connects. -/
def get (s : DBPool τ) (t : τ) (connects : Bool) (now : ℤ) : Except Stuck (GetResult × DBPool τ) :=
  if s.lockHeld then .error .blocked
  else if s.numAvailable = 0 ∧ s.numConnections < s.maxConnections then
    if connects then
      let (conn, s) := s.grow now
      .ok (.got conn, s.handOut t conn now)
    -- the exception leaves get between lock and unlock
    else .ok (.thrown, { s with lockHeld := true })
  else if s.availableConnections = [] then .ok (.waits, { s with waiting := s.waiting ++ [t] })
  else
    match s.takeFront t now with
    | .ok (conn, s) => .ok (.got conn, s)
    | .error e => .error e

variable [DecidableEq τ]

/-- `get` from the return of `pthread_cond_wait` on. -/
def resume (s : DBPool τ) (t : τ) (now : ℤ) : Except Stuck (Conn × DBPool τ) :=
  if s.lockHeld then .error .blocked
  else if t ∈ s.signalled then takeFront { s with signalled := s.signalled.erase t } t now
  else .error .notEnabled

def signal (s : DBPool τ) (woken : τ) : Except Stuck (DBPool τ) :=
  if s.waiting = [] then .ok s
  else if woken ∈ s.waiting then
    .ok { s with waiting := s.waiting.erase woken, signalled := s.signalled ++ [woken] }
  else .error .notEnabled

def put (s : DBPool τ) (t : τ) (conn : Conn) (now : ℤ) (woken : τ) : Except Stuck (DBPool τ) :=
  if s.lockHeld then .error .blocked
  -- a list of so many nodes has no place in memory
  else if 2 ^ 64 ≤ s.availableConnections.length + 1 then .error .noMemory
  else signal { s with
    availableConnections := s.availableConnections ++ [conn]
    numAvailable := s.numAvailable + 1
    lastUsed := Function.update s.lastUsed conn now
    checkedOut := s.checkedOut.erase (t, conn) } woken

omit [DecidableEq τ] in
def isIdle (s : DBPool τ) (now : ℤ) (conn : Conn) : Bool := 60 ≤ now - s.lastUsed conn

omit [DecidableEq τ] in
/-- One pass of `maintenance_thread_func` over the pool, with the deletion of what it removed. -/
def maintenance (s : DBPool τ) (now : ℤ) : Except Stuck (DBPool τ) :=
  if s.lockHeld then .error .blocked
  else
    match s.availableConnections.find? (s.isIdle now) with
    | none => .ok s
    | some conn => .ok { s with
        availableConnections := s.availableConnections.eraseP (s.isIdle now)
        numConnections := s.numConnections - 1
        numAvailable := s.numAvailable - 1
        deleted := s.deleted ++ [conn] }

omit [DecidableEq τ] in
def destroy (s : DBPool τ) : DBPool τ := { s with deleted := s.deleted ++ s.allConnections }

def step (s : DBPool τ) : PoolEvent τ → Except Stuck (DBPool τ)
  | .get t connects now => (s.get t connects now).map Prod.snd
  | .resume t now => (s.resume t now).map Prod.snd
  | .put t conn now woken => s.put t conn now woken
  | .maintenance now => s.maintenance now

inductive Stepped (s : DBPool τ) : PoolEvent τ → DBPool τ → Prop
  | grew (t : τ) (now : ℤ) (hfree : s.lockHeld = false) (hnone : s.numAvailable = 0)
      (hroom : s.numConnections < s.maxConnections) :
      Stepped s (.get t true now) ((s.grow now).2.handOut t s.opened now)
  | failed (t : τ) (now : ℤ) (hfree : s.lockHeld = false) (hnone : s.numAvailable = 0)
      (hroom : s.numConnections < s.maxConnections) :
      Stepped s (.get t false now) { s with lockHeld := true }
  | waits (t : τ) (connects : Bool) (now : ℤ) (hfree : s.lockHeld = false)
      (hgrow : ¬ (s.numAvailable = 0 ∧ s.numConnections < s.maxConnections))
      (hempty : s.availableConnections = []) :
      Stepped s (.get t connects now) { s with waiting := s.waiting ++ [t] }
  | took (t : τ) (connects : Bool) (now : ℤ) (conn : Conn) (rest : List Conn) (hfree : s.lockHeld = false)
      (hgrow : ¬ (s.numAvailable = 0 ∧ s.numConnections < s.maxConnections))
      (hfront : s.availableConnections = conn :: rest) :
      Stepped s (.get t connects now)
        (handOut { s with availableConnections := rest, numAvailable := s.numAvailable - 1 } t conn now)
  | resumed (t : τ) (now : ℤ) (conn : Conn) (rest : List Conn) (hfree : s.lockHeld = false)
      (hwoken : t ∈ s.signalled) (hfront : s.availableConnections = conn :: rest) :
      Stepped s (.resume t now)
        (handOut { s with
          signalled := s.signalled.erase t
          availableConnections := rest
          numAvailable := s.numAvailable - 1 } t conn now)
  | returned (t : τ) (conn : Conn) (now : ℤ) (woken : τ) (waiting signalled : List τ)
      (hfree : s.lockHeld = false) (hmemory : s.availableConnections.length + 1 < 2 ^ 64)
      (hsignal : s.waiting = [] ∧ waiting = s.waiting ∧ signalled = s.signalled ∨
        woken ∈ s.waiting ∧ waiting = s.waiting.erase woken ∧ signalled = s.signalled ++ [woken]) :
      Stepped s (.put t conn now woken)
        { s with
          availableConnections := s.availableConnections ++ [conn]
          numAvailable := s.numAvailable + 1
          lastUsed := Function.update s.lastUsed conn now
          checkedOut := s.checkedOut.erase (t, conn)
          waiting := waiting
          signalled := signalled }
  | kept (now : ℤ) (hfree : s.lockHeld = false) (hidle : ∀ conn ∈ s.availableConnections, s.isIdle now conn = false) :
      Stepped s (.maintenance now) s
  | evicted (now : ℤ) (conn : Conn) (before after : List Conn) (hfree : s.lockHeld = false)
      (hidle : s.isIdle now conn = true) (hfind : s.availableConnections = before ++ conn :: after) :
      Stepped s (.maintenance now)
        { s with
          availableConnections := before ++ after
          numConnections := s.numConnections - 1
          numAvailable := s.numAvailable - 1
          deleted := s.deleted ++ [conn] }

theorem get_stepped {s s' : DBPool τ} {t : τ} {connects : Bool} {now : ℤ}
    (h : s.step (.get t connects now) = .ok s') : Stepped s (.get t connects now) s' := by
  simp only [step, get] at h
  split at h
  · simp [Except.map] at h
  · rename_i hlock
    have hfree : s.lockHeld = false := by simpa using hlock
    split at h
    · rename_i hgrow
      cases connects with
      | true =>
        simp only [if_true, Except.map, Except.ok.injEq] at h
        exact h ▸ .grew t now hfree hgrow.1 hgrow.2
      | false =>
        simp only [Bool.false_eq_true, if_false, Except.map, Except.ok.injEq] at h
        exact h ▸ .failed t now hfree hgrow.1 hgrow.2
    · rename_i hgrow
      split at h
      · rename_i hempty
        simp only [Except.map, Except.ok.injEq] at h
        exact h ▸ .waits t connects now hfree hgrow hempty
      · rename_i hne
        obtain ⟨conn, rest, hfront⟩ := List.exists_cons_of_ne_nil hne
        simp only [takeFront, hfront, Except.map, Except.ok.injEq] at h
        exact h ▸ .took t connects now conn rest hfree hgrow hfront

theorem resume_stepped {s s' : DBPool τ} {t : τ} {now : ℤ} (h : s.step (.resume t now) = .ok s') :
    Stepped s (.resume t now) s' := by
  simp only [step, resume] at h
  split at h
  · simp [Except.map] at h
  · rename_i hlock
    have hfree : s.lockHeld = false := by simpa using hlock
    split at h
    · rename_i hwoken
      cases hfront : s.availableConnections with
      | nil => simp [takeFront, hfront, Except.map] at h
      | cons conn rest =>
        simp only [takeFront, hfront, Except.map, Except.ok.injEq] at h
        exact h ▸ .resumed t now conn rest hfree hwoken hfront
    · simp [Except.map] at h

theorem put_stepped {s s' : DBPool τ} {t : τ} {conn : Conn} {now : ℤ} {woken : τ}
    (h : s.step (.put t conn now woken) = .ok s') : Stepped s (.put t conn now woken) s' := by
  simp only [step, put, signal] at h
  split at h
  · simp at h
  · rename_i hlock
    have hfree : s.lockHeld = false := by simpa using hlock
    split at h
    · simp at h
    · rename_i hmemory
      split at h
      · rename_i hnone
        simp only [Except.ok.injEq] at h
        exact h ▸ .returned t conn now woken _ _ hfree (by omega) (Or.inl ⟨hnone, rfl, rfl⟩)
      · split at h
        · rename_i hwoken
          simp only [Except.ok.injEq] at h
          exact h ▸ .returned t conn now woken _ _ hfree (by omega) (Or.inr ⟨hwoken, rfl, rfl⟩)
        · simp at h

theorem maintenance_stepped {s s' : DBPool τ} {now : ℤ} (h : s.step (.maintenance now) = .ok s') :
    Stepped s (.maintenance now) s' := by
  simp only [step, maintenance] at h
  split at h
  · simp at h
  · rename_i hlock
    have hfree : s.lockHeld = false := by simpa using hlock
    cases hfind : s.availableConnections.find? (s.isIdle now) with
    | none =>
      simp only [hfind, Except.ok.injEq] at h
      exact h ▸ .kept now hfree (by simpa using List.find?_eq_none.mp hfind)
    | some conn =>
      simp only [hfind, Except.ok.injEq] at h
      obtain ⟨hidle, before, after, hsplit, hbefore⟩ := List.find?_eq_some_iff_append.mp hfind
      have herase : s.availableConnections.eraseP (s.isIdle now) = before ++ after := by
        rw [hsplit, List.eraseP_append_right _ (by simpa using hbefore), List.eraseP_cons_of_pos hidle]
      rw [herase] at h
      exact h ▸ .evicted now conn before after hfree hidle hsplit

theorem step_stepped {s s' : DBPool τ} {e : PoolEvent τ} (h : s.step e = .ok s') : Stepped s e s' := by
  cases e with
  | get t connects now => exact get_stepped h
  | resume t now => exact resume_stepped h
  | put t conn now woken => exact put_stepped h
  | maintenance now => exact maintenance_stepped h

end DBPool

end FcgiAppserver.Db
