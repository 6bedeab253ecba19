import FcgiAppserver.ScopedEffects
import FcgiAppserver.TransitionRuns

/-!
Pre- and postconditions of a computation for a monitor that follows what it writes, and maps of what it writes.
-/

namespace FcgiAppserver.ScopedEffects.Act

open TransitionRuns

variable {ω ω' ε δ α β ρ σ κ : Type}

/-- A block with a local: `opens` is written as it is entered, and `closes` as it is left, by an exception too. -/
def bracket (opens closes : ω) (x : Act ω ε δ α) : Act ω ε δ α :=
  match x.ending with
  | .dead d => ⟨opens :: x.out, .dead d⟩
  | ending => ⟨opens :: x.out ++ [closes], ending⟩

theorem catching_some {x y : Act ω ε δ α} {e : ε} {handler : ε → Option (Act ω ε δ α)} (hend : x.ending = .thrown e)
    (hsome : handler e = some y) : x.catching handler = ⟨x.out ++ y.out, y.ending⟩ := by
  rw [catching, hend]
  simp only [hsome]

theorem catching_cases (x : Act ω ε δ α) (handler : ε → Option (Act ω ε δ α)) :
    (∃ e y, x.ending = .thrown e ∧ handler e = some y ∧ x.catching handler = ⟨x.out ++ y.out, y.ending⟩) ∨
      ((∀ e, x.ending = .thrown e → handler e = none) ∧ x.catching handler = x) := by
  by_cases h : ∀ e, x.ending = .thrown e → handler e = none
  · exact Or.inr ⟨h, catching_other h⟩
  · push Not at h
    obtain ⟨e, hend, hsome⟩ := h
    obtain ⟨y, hy⟩ := Option.ne_none_iff_exists'.mp hsome
    exact Or.inl ⟨e, y, hend, hy, catching_some hend hy⟩

theorem prefix_bracket (opens closes : ω) (x : Act ω ε δ α) : opens :: x.out <+: (bracket opens closes x).out := by
  obtain ⟨out, ending⟩ := x
  cases ending with
  | done a => exact List.prefix_append (opens :: out) [closes]
  | thrown e => exact List.prefix_append (opens :: out) [closes]
  | dead d => exact List.prefix_rfl

theorem prefix_bind (x : Act ω ε δ α) (f : α → Act ω ε δ β) : x.out <+: (x >>= f).out := by
  cases hend : x.ending with
  | done a =>
    rw [bind_done hend]
    exact List.prefix_append _ _
  | thrown e => rw [bind_thrown hend]
  | dead d => rw [bind_dead hend]

theorem prefix_catching (x : Act ω ε δ α) (handler : ε → Option (Act ω ε δ α)) : x.out <+: (x.catching handler).out := by
  rcases catching_cases x handler with ⟨e, y, -, -, hcaught⟩ | ⟨-, hcaught⟩
  · rw [hcaught]
    exact List.prefix_append _ _
  · rw [hcaught]

def mapOut (f : ω → List ω') (x : Act ω ε δ α) : Act ω' ε δ α := ⟨x.out.flatMap f, x.ending⟩

section

variable {f : ω → List ω'} {x : Act ω ε δ α}

@[simp] theorem mapOut_ending : (x.mapOut f).ending = x.ending := rfl

@[simp] theorem mapOut_pure (a : α) : (pure a : Act ω ε δ α).mapOut f = pure a := rfl

@[simp] theorem mapOut_raise (e : ε) : (raise e : Act ω ε δ α).mapOut f = raise e := rfl

@[simp] theorem mapOut_ofExcept (r : Except (ε ⊕ δ) α) : (ofExcept r : Act ω ε δ α).mapOut f = ofExcept r := by
  rcases r with (e | d) | a <;> rfl

@[simp] theorem mapOut_failing (e : Option ε) : (failing e : Act ω ε δ Unit).mapOut f = failing e := by
  cases e <;> rfl

theorem mapOut_bind {g : α → Act ω ε δ β} : (x >>= g).mapOut f = x.mapOut f >>= fun a => (g a).mapOut f := by
  cases hx : x.ending with
  | done a =>
    rw [bind_done hx, bind_done (x := x.mapOut f) hx, mapOut, List.flatMap_append]
    rfl
  | thrown e => rw [bind_thrown hx, bind_thrown (x := x.mapOut f) hx]; rfl
  | dead d => rw [bind_dead hx, bind_dead (x := x.mapOut f) hx]; rfl

theorem mapOut_catching {handler : ε → Option (Act ω ε δ α)} :
    (x.catching handler).mapOut f = (x.mapOut f).catching fun e => (handler e).map (mapOut f) := by
  rcases catching_cases x handler with ⟨e, y, hend, hsome, hcaught⟩ | ⟨hnone, hcaught⟩
  · rw [hcaught, catching_some (x := x.mapOut f) hend (congrArg (Option.map (mapOut f)) hsome), mapOut, List.flatMap_append]
    rfl
  · rw [hcaught, catching_other]
    intro e he
    rw [hnone e he, Option.map_none]

theorem mapOut_inScope {close : Option ε} {terminated : δ} :
    (inScope close terminated x).mapOut f = inScope close terminated (x.mapOut f) := by
  unfold inScope
  rw [mapOut_ending]
  cases x.ending <;> cases close <;> rfl

theorem mapOut_killed {kills : Bool} {d : δ} : (killed kills d x).mapOut f = killed kills d (x.mapOut f) := by
  unfold killed
  rw [mapOut_ending]
  cases x.ending <;> cases kills <;> rfl

theorem mapOut_bracket {opens closes : ω} (hopens : f opens = []) (hcloses : f closes = []) :
    (bracket opens closes x).mapOut f = x.mapOut f := by
  obtain ⟨out, ending⟩ := x
  cases ending <;> simp [bracket, mapOut, hopens, hcloses]

theorem mapOut_foldlM {step : β → ρ → Act ω ε δ β} (l : List ρ) (b : β) :
    (l.foldlM step b).mapOut f = l.foldlM (fun b r => (step b r).mapOut f) b := by
  induction l generalizing b with
  | nil => rfl
  | cons r l ih =>
    rw [List.foldlM_cons, List.foldlM_cons, mapOut_bind]
    congr 1
    funext b'
    exact ih b'

theorem mapOut_mapOut {ω'' : Type} {g : ω' → List ω''} :
    (x.mapOut f).mapOut g = x.mapOut (fun w => (f w).flatMap g) := by
  rw [mapOut, mapOut, mapOut, List.flatMap_assoc]

theorem mapOut_singleton : x.mapOut (fun w => [w]) = x := by
  obtain ⟨out, ending⟩ := x
  rw [mapOut, List.flatMap_singleton' out]

end

/-- From a state in `P` the monitor follows all that `x` writes, to a state in `Q` or, by an exception, in `E`. -/
def Triple (step : σ → ω → Except κ σ) (P : σ → Prop) (x : Act ω ε δ α) (Q : α → σ → Prop) (E : σ → Prop) : Prop :=
  ∀ s, P s → ∃ s', exec step s x.out = .ok s' ∧ (∀ a, x.ending = .done a → Q a s') ∧ (x.Throws → E s')

section

variable {step : σ → ω → Except κ σ} {P R : σ → Prop} {Q : α → σ → Prop} {E : σ → Prop} {x : Act ω ε δ α}

theorem triple_done {a : α} (hx : x.ending = .done a) :
    Triple step P x Q E ↔ ∀ s, P s → ∃ s', exec step s x.out = .ok s' ∧ Q a s' := by
  simp [Triple, hx, Throws]

theorem triple_thrown {e : ε} (hx : x.ending = .thrown e) :
    Triple step P x Q E ↔ ∀ s, P s → ∃ s', exec step s x.out = .ok s' ∧ E s' := by
  simp [Triple, hx, Throws]

theorem triple_dead {d : δ} (hx : x.ending = .dead d) :
    Triple step P x Q E ↔ ∀ s, P s → ∃ s', exec step s x.out = .ok s' := by
  simp [Triple, hx, Throws]

theorem triple_pure {a : α} (h : ∀ s, P s → Q a s) : Triple step P (pure a : Act ω ε δ α) Q E :=
  (triple_done rfl).mpr fun s hs => ⟨s, rfl, h s hs⟩

theorem triple_raise {e : ε} (h : ∀ s, P s → E s) : Triple step P (raise e : Act ω ε δ α) Q E :=
  (triple_thrown rfl).mpr fun s hs => ⟨s, rfl, h s hs⟩

theorem triple_write {Q : Unit → σ → Prop} {w : ω} (h : ∀ s, P s → ∃ s', step s w = .ok s' ∧ Q () s') :
    Triple step P (write w : Act ω ε δ Unit) Q E := by
  apply (triple_done rfl).mpr
  intro s hs
  obtain ⟨s', hstep, hQ⟩ := h s hs
  exact ⟨s', exec_cons_ok.mpr ⟨s', hstep, exec_nil⟩, hQ⟩

theorem triple_failing {Q : Unit → σ → Prop} {e : Option ε} (hdone : e = none → ∀ s, P s → Q () s)
    (hthrown : e ≠ none → ∀ s, P s → E s) : Triple step P (failing e : Act ω ε δ Unit) Q E := by
  cases e with
  | none => exact triple_pure (hdone rfl)
  | some e => exact triple_raise (hthrown (Option.some_ne_none e))

theorem triple_imp {P' : σ → Prop} {Q' : α → σ → Prop} {E' : σ → Prop} (h : Triple step P' x Q' E')
    (hP : ∀ s, P s → P' s) (hQ : ∀ a s, Q' a s → Q a s) (hE : ∀ s, E' s → E s) : Triple step P x Q E := by
  intro s hs
  obtain ⟨s', hexec, hdone, hthrown⟩ := h s (hP s hs)
  exact ⟨s', hexec, fun a ha => hQ a s' (hdone a ha), fun ht => hE s' (hthrown ht)⟩

theorem triple_bind {R : β → σ → Prop} {y : Act ω ε δ β} {f : β → Act ω ε δ α} (hy : Triple step P y R E)
    (hf : ∀ b, Triple step (R b) (f b) Q E) : Triple step P (y >>= f) Q E := by
  cases hend : y.ending with
  | done b =>
    intro s hs
    obtain ⟨s', hexec, hR⟩ := (triple_done hend).mp hy s hs
    obtain ⟨s'', hexec', hpost⟩ := hf b s' hR
    rw [bind_done hend]
    exact ⟨s'', (exec_append hexec).trans hexec', hpost⟩
  | thrown e =>
    rw [bind_thrown hend]
    exact (triple_thrown rfl).mpr ((triple_thrown hend).mp hy)
  | dead d =>
    rw [bind_dead hend]
    exact (triple_dead rfl).mpr ((triple_dead hend).mp hy)

theorem triple_catching {handler : ε → Option (Act ω ε δ α)} (hx : Triple step P x Q E)
    (hhandler : ∀ e y, handler e = some y → Triple step E y Q E) : Triple step P (x.catching handler) Q E := by
  rcases catching_cases x handler with ⟨e, y, hend, hsome, hcaught⟩ | ⟨-, hcaught⟩
  · rw [hcaught]
    intro s hs
    obtain ⟨s', hexec, hE⟩ := (triple_thrown hend).mp hx s hs
    obtain ⟨s'', hexec', hpost⟩ := hhandler e y hsome s' hE
    exact ⟨s'', (exec_append hexec).trans hexec', hpost⟩
  · rw [hcaught]
    exact hx

theorem triple_inScope {close : Option ε} {terminated : δ} (hx : Triple step P x Q E)
    (hclose : close ≠ none → ∀ a s, Q a s → E s) : Triple step P (inScope close terminated x) Q E := by
  cases close with
  | none =>
    rw [inScope_none]
    exact hx
  | some e =>
    have hQE := hclose (Option.some_ne_none e)
    unfold inScope
    cases hend : x.ending with
    | done a =>
      apply (triple_thrown rfl).mpr
      intro s hs
      obtain ⟨s', hexec, hQ⟩ := (triple_done hend).mp hx s hs
      exact ⟨s', hexec, hQE a s' hQ⟩
    | thrown e =>
      apply (triple_dead rfl).mpr
      intro s hs
      obtain ⟨s', hexec, -⟩ := (triple_thrown hend).mp hx s hs
      exact ⟨s', hexec⟩
    | dead d => exact hx

theorem triple_killed {kills : Bool} {d : δ} (hx : Triple step P x Q E) : Triple step P (killed kills d x) Q E := by
  cases kills with
  | false =>
    rw [killed_false]
    exact hx
  | true =>
    intro s hs
    obtain ⟨s', hexec, -⟩ := hx s hs
    refine ⟨s', ?_, fun a ha => absurd ha (killed_true_ne_done a), ?_⟩
    · rw [killed_out]
      exact hexec
    · intro hthrows
      cases (throws_killed.mp hthrows).1

theorem triple_bracket {P' : σ → Prop} {Q' : α → σ → Prop} {E' : σ → Prop} {opens closes : ω}
    (hx : Triple step P' x Q' E') (hopens : ∀ s, P s → ∃ s', step s opens = .ok s' ∧ P' s')
    (hdone : ∀ a s, Q' a s → ∃ s', step s closes = .ok s' ∧ Q a s')
    (hthrown : ∀ s, E' s → ∃ s', step s closes = .ok s' ∧ E s') :
    Triple step P (bracket opens closes x) Q E := by
  have hclosed : ∀ {s s' s'' s3 : σ}, step s opens = .ok s' → exec step s' x.out = .ok s'' →
      step s'' closes = .ok s3 → exec step s (opens :: x.out ++ [closes]) = .ok s3 := by
    intro s s' s'' s3 hopen hexec hclose
    rw [List.cons_append]
    apply exec_cons_ok.mpr
    exact ⟨s', hopen, (exec_append hexec).trans (exec_cons_ok.mpr ⟨s3, hclose, exec_nil⟩)⟩
  unfold bracket
  cases hend : x.ending with
  | done a =>
    apply (triple_done rfl).mpr
    intro s hs
    obtain ⟨s', hopen, hs'⟩ := hopens s hs
    obtain ⟨s'', hexec, hQ⟩ := (triple_done hend).mp hx s' hs'
    obtain ⟨s3, hclose, hs3⟩ := hdone a s'' hQ
    exact ⟨s3, hclosed hopen hexec hclose, hs3⟩
  | thrown e =>
    apply (triple_thrown rfl).mpr
    intro s hs
    obtain ⟨s', hopen, hs'⟩ := hopens s hs
    obtain ⟨s'', hexec, hE⟩ := (triple_thrown hend).mp hx s' hs'
    obtain ⟨s3, hclose, hs3⟩ := hthrown s'' hE
    exact ⟨s3, hclosed hopen hexec hclose, hs3⟩
  | dead d =>
    apply (triple_dead rfl).mpr
    intro s hs
    obtain ⟨s', hopen, hs'⟩ := hopens s hs
    obtain ⟨s'', hexec⟩ := (triple_dead hend).mp hx s' hs'
    exact ⟨s'', exec_cons_ok.mpr ⟨s', hopen, hexec⟩⟩

theorem triple_foldlM {fold : β → ρ → Act ω ε δ β} (h : ∀ b r, Triple step P (fold b r) (fun _ => P) E) (l : List ρ)
    (b : β) : Triple step P (l.foldlM fold b) (fun _ => P) E := by
  induction l generalizing b with
  | nil => exact triple_pure (fun _ hs => hs)
  | cons r l ih =>
    rw [List.foldlM_cons]
    exact triple_bind (h b r) ih

theorem exec_ignored {out : List ω} (h : ∀ w ∈ out, ∀ s, step s w = .ok s) (s : σ) : exec step s out = .ok s := by
  induction out with
  | nil => rfl
  | cons w out ih =>
    rw [List.forall_mem_cons] at h
    exact exec_cons_ok.mpr ⟨s, h.1 s, ih h.2⟩

/-- What the monitor passes over may be written anywhere. -/
theorem triple_ignored (hx : ∀ w ∈ x.out, ∀ s, step s w = .ok s) : Triple step P x (fun _ => P) P := by
  intro s hs
  exact ⟨s, exec_ignored hx s, fun _ _ => hs, fun _ => hs⟩

end

end FcgiAppserver.ScopedEffects.Act
