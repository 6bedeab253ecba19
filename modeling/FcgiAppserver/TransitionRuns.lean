import Mathlib

/-!
Runs of a deterministic step that can get stuck, and conditions that hold at each of their steps.
-/

namespace FcgiAppserver.TransitionRuns

variable {σ ε α : Type*}

def exec (step : σ → ε → Except α σ) (s : σ) : List ε → Except α σ
  | [] => .ok s
  | e :: es =>
    match step s e with
    | .ok s' => exec step s' es
    | .error a => .error a

/-- `P` holds of the state and the event of every step the run gets to. -/
def Along (step : σ → ε → Except α σ) (P : σ → ε → Prop) (s : σ) : List ε → Prop
  | [] => True
  | e :: es => P s e ∧
    match step s e with
    | .ok s' => Along step P s' es
    | .error _ => True

variable {step : σ → ε → Except α σ} {P Q : σ → ε → Prop} {s s' : σ}

@[simp] theorem exec_nil : exec step s [] = .ok s := rfl

theorem exec_cons_ok {e : ε} {es : List ε} {s'' : σ} :
    exec step s (e :: es) = .ok s'' ↔ ∃ s', step s e = .ok s' ∧ exec step s' es = .ok s'' := by
  rw [exec]
  cases step s e with
  | ok s' => simp
  | error a => simp

theorem exec_map_ok {β : Type*} {f : σ → β} {es : List ε} {b : β} (h : (exec step s es).map f = .ok b) :
    ∃ s', exec step s es = .ok s' ∧ f s' = b := by
  cases hexec : exec step s es with
  | ok s' =>
    rw [hexec] at h
    exact ⟨s', rfl, Except.ok.inj h⟩
  | error a =>
    rw [hexec] at h
    cases h

theorem exec_append {es es' : List ε} (h : exec step s es = .ok s') :
    exec step s (es ++ es') = exec step s' es' := by
  induction es generalizing s with
  | nil =>
    simp only [exec_nil, Except.ok.injEq] at h
    rw [h, List.nil_append]
  | cons e es ih =>
    obtain ⟨s1, hs1, hrest⟩ := exec_cons_ok.mp h
    rw [List.cons_append, exec, hs1]
    exact ih hrest

theorem along_cons {e : ε} {es : List ε} :
    Along step P s (e :: es) ↔ P s e ∧ ∀ s', step s e = .ok s' → Along step P s' es := by
  rw [Along]
  cases step s e with
  | ok s' => simp
  | error a => simp

instance [∀ s e, Decidable (P s e)] (s : σ) (es : List ε) : Decidable (Along step P s es) :=
  go s es
where
  go (s : σ) : (es : List ε) → Decidable (Along step P s es)
    | [] => .isTrue trivial
    | e :: es =>
      match hs : step s e with
      | .ok s' =>
        have := go s' es
        decidable_of_iff (P s e ∧ Along step P s' es) (by rw [Along, hs])
      | .error _ => decidable_of_iff (P s e) (by simp only [Along, hs, and_true])

theorem along_true (s : σ) (es : List ε) : Along step (fun _ _ => True) s es := by
  induction es generalizing s with
  | nil => trivial
  | cons e es ih => exact along_cons.mpr ⟨trivial, fun s' _ => ih s'⟩

theorem Along.imp_of_mem {es : List ε} (hQ : ∀ e ∈ es, ∀ s, P s e → Q s e) (hP : Along step P s es) :
    Along step Q s es := by
  induction es generalizing s with
  | nil => trivial
  | cons e es ih =>
    rw [List.forall_mem_cons] at hQ
    obtain ⟨hPe, hPs⟩ := along_cons.mp hP
    exact along_cons.mpr ⟨hQ.1 s hPe, fun s' hs' => ih hQ.2 (hPs s' hs')⟩

theorem exec_invariant {I : σ → Prop} (hstep : ∀ s e s', I s → P s e → step s e = .ok s' → I s')
    {es : List ε} (hs : I s) (hP : Along step P s es) (hexec : exec step s es = .ok s') : I s' := by
  induction es generalizing s with
  | nil =>
    simp only [exec_nil, Except.ok.injEq] at hexec
    exact hexec ▸ hs
  | cons e es ih =>
    obtain ⟨s1, hs1, hrest⟩ := exec_cons_ok.mp hexec
    obtain ⟨hPe, hPs⟩ := along_cons.mp hP
    exact ih (hstep s e s1 hs hPe hs1) (hPs s1 hs1) hrest

theorem Along.imp_of_invariant {I : σ → Prop} (hQ : ∀ s e, I s → P s e → Q s e)
    (hstep : ∀ s e s', I s → P s e → step s e = .ok s' → I s') {es : List ε} (hs : I s)
    (hP : Along step P s es) : Along step Q s es := by
  induction es generalizing s with
  | nil => trivial
  | cons e es ih =>
    obtain ⟨hPe, hPs⟩ := along_cons.mp hP
    refine along_cons.mpr ⟨hQ s e hs hPe, ?_⟩
    intro s' hs'
    exact ih (hstep s e s' hs hPe hs') (hPs s' hs')

theorem Along.of_append {es es' : List ε} (h : Along step P s (es ++ es')) : Along step P s es := by
  induction es generalizing s with
  | nil => trivial
  | cons e es ih =>
    obtain ⟨hPe, hPs⟩ := along_cons.mp h
    exact along_cons.mpr ⟨hPe, fun s' hs' => ih (hPs s' hs')⟩

theorem exec_keeps {I : σ → Prop} (hstep : ∀ s e s', I s → step s e = .ok s' → I s') {es : List ε}
    (hs : I s) (hexec : exec step s es = .ok s') : I s' :=
  exec_invariant (fun s e s' hI _ => hstep s e s' hI) hs (along_true s es) hexec

theorem exec_ne_error {I : σ → Prop} {a : α} (hstep : ∀ s e s', I s → P s e → step s e = .ok s' → I s')
    (hno : ∀ s e, I s → step s e ≠ .error a) {es : List ε} (hs : I s) (hP : Along step P s es) :
    exec step s es ≠ .error a := by
  induction es generalizing s with
  | nil => simp
  | cons e es ih =>
    obtain ⟨hPe, hPs⟩ := along_cons.mp hP
    rw [exec]
    cases hnext : step s e with
    | ok s1 => exact ih (hstep s e s1 hs hPe hnext) (hPs s1 hnext)
    | error b =>
      intro h
      exact hno s e hs (hnext.trans h)

/-- If `P` is what keeps `I` over a step, it holds all along exactly when `I` holds at every stage. -/
theorem along_iff_prefixes {I J : σ → Prop} (hJ : ∀ s e s', J s → step s e = .ok s' → J s')
    (hP : ∀ s e, J s → I s → (P s e ↔ ∀ s', step s e = .ok s' → I s')) {es : List ε} (hs : J s) (hI : I s) :
    Along step P s es ↔ ∀ before s', before <+: es → exec step s before = .ok s' → I s' := by
  induction es generalizing s with
  | nil =>
    apply iff_of_true trivial
    intro before s' hbefore hexec
    rw [List.prefix_nil.mp hbefore, exec_nil, Except.ok.injEq] at hexec
    exact hexec ▸ hI
  | cons e es ih =>
    rw [along_cons, hP s e hs hI]
    constructor
    · rintro ⟨hfirst, hrest⟩ before s' hbefore hexec
      cases before with
      | nil =>
        rw [exec_nil, Except.ok.injEq] at hexec
        exact hexec ▸ hI
      | cons e' before =>
        obtain ⟨rfl, htail⟩ := List.cons_prefix_cons.mp hbefore
        obtain ⟨s1, hs1, hlater⟩ := exec_cons_ok.mp hexec
        exact (ih (hJ _ _ _ hs hs1) (hfirst s1 hs1)).mp (hrest s1 hs1) before s' htail hlater
    · intro h
      have hfirst : ∀ s', step s e = .ok s' → I s' := by
        intro s' hs'
        exact h [e] s' (by simp) (exec_cons_ok.mpr ⟨s', hs', exec_nil⟩)
      refine ⟨hfirst, ?_⟩
      intro s' hs'
      rw [ih (hJ s e s' hs hs') (hfirst s' hs')]
      intro before s'' hbefore hexec
      exact h (e :: before) s'' (List.cons_prefix_cons.mpr ⟨rfl, hbefore⟩) (exec_cons_ok.mpr ⟨s', hs', hexec⟩)

/-- A condition that fails exactly where a quantity grows held all along if the quantity is unchanged. -/
theorem along_iff_unchanged {f : σ → ℕ} (hle : ∀ s e s', step s e = .ok s' → f s ≤ f s')
    (hP : ∀ s e s', step s e = .ok s' → (P s e ↔ f s' = f s)) {es : List ε}
    (hexec : exec step s es = .ok s') : Along step P s es ↔ f s' = f s := by
  have hmono : ∀ {es s}, exec step s es = .ok s' → f s ≤ f s' := by
    intro es
    induction es with
    | nil =>
      intro s h
      simp only [exec_nil, Except.ok.injEq] at h
      rw [h]
    | cons e es ih =>
      intro s h
      obtain ⟨s1, hs1, hrest⟩ := exec_cons_ok.mp h
      exact (hle s e s1 hs1).trans (ih hrest)
  induction es generalizing s with
  | nil =>
    simp only [exec_nil, Except.ok.injEq] at hexec
    simp [Along, hexec]
  | cons e es ih =>
    obtain ⟨s1, hs1, hrest⟩ := exec_cons_ok.mp hexec
    have htail := ih hrest
    have hfirst := hle s e s1 hs1
    have hlater := hmono hrest
    rw [along_cons]
    constructor
    · rintro ⟨hPe, hPs⟩
      have h1 := (hP s e s1 hs1).mp hPe
      have h2 := htail.mp (hPs s1 hs1)
      omega
    · intro h
      refine ⟨(hP s e s1 hs1).mpr (by omega), ?_⟩
      intro s2 hs2
      rw [hs1, Except.ok.injEq] at hs2
      exact hs2 ▸ htail.mpr (by omega)

theorem Along.append {es es' : List ε} (hes : Along step P s es)
    (hes' : ∀ s', exec step s es = .ok s' → Along step P s' es') : Along step P s (es ++ es') := by
  induction es generalizing s with
  | nil => exact hes' s exec_nil
  | cons e es ih =>
    obtain ⟨hPe, hPs⟩ := along_cons.mp hes
    refine along_cons.mpr ⟨hPe, ?_⟩
    intro s1 hs1
    apply ih (hPs s1 hs1)
    intro s' hexec
    exact hes' s' (exec_cons_ok.mpr ⟨s1, hs1, hexec⟩)

/-- The events of a part of the state in a run, where `part` gives those of one step. -/
def projected {ε' : Type*} (step : σ → ε → Except α σ) (part : σ → ε → List ε') (s : σ) : List ε → List ε'
  | [] => []
  | e :: es => part s e ++
    match step s e with
    | .ok s' => projected step part s' es
    | .error _ => []

/-- A run whose steps are runs of a part of the state is a run of that part. -/
theorem exec_projects {σ' ε' α' : Type*} {step' : σ' → ε' → Except α' σ'} {P' : σ' → ε' → Prop} {f : σ → σ'}
    {part : σ → ε → List ε'} {I : σ → Prop} (hI : ∀ s e s', I s → step s e = .ok s' → I s')
    (hstep : ∀ s e s', I s → step s e = .ok s' →
      Along step' P' (f s) (part s e) ∧ exec step' (f s) (part s e) = .ok (f s')) {es : List ε} (hs : I s)
    (hexec : exec step s es = .ok s') :
    Along step' P' (f s) (projected step part s es) ∧ exec step' (f s) (projected step part s es) = .ok (f s') := by
  induction es generalizing s with
  | nil =>
    rw [exec_nil, Except.ok.injEq] at hexec
    exact ⟨trivial, hexec ▸ exec_nil⟩
  | cons e es ih =>
    obtain ⟨s1, hs1, hrest⟩ := exec_cons_ok.mp hexec
    obtain ⟨halong, hfirst⟩ := hstep s e s1 hs hs1
    obtain ⟨halong', hlater⟩ := ih (hI s e s1 hs hs1) hrest
    rw [projected, hs1]
    refine ⟨halong.append ?_, (exec_append hfirst).trans hlater⟩
    intro s2 hs2
    rw [hfirst, Except.ok.injEq] at hs2
    exact hs2 ▸ halong'

end FcgiAppserver.TransitionRuns
