import Mathlib

/-!
Computations that write, may throw, and run destructors where a scope ends.
-/

namespace FcgiAppserver.ScopedEffects

variable {ω ε δ α β ρ : Type}

inductive Ending (ε δ α : Type)
  | done (a : α)
  | thrown (e : ε)
  -- nothing runs after it, not even a handler
  | dead (d : δ)
deriving DecidableEq

structure Act (ω ε δ α : Type) where
  out : List ω
  ending : Ending ε δ α
deriving DecidableEq

namespace Act

def andThen (x : Act ω ε δ α) (f : α → Act ω ε δ β) : Act ω ε δ β :=
  match x.ending with
  | .done a => ⟨x.out ++ (f a).out, (f a).ending⟩
  | .thrown e => ⟨x.out, .thrown e⟩
  | .dead d => ⟨x.out, .dead d⟩

instance : Monad (Act ω ε δ) where
  pure a := ⟨[], .done a⟩
  bind := andThen

def write (w : ω) : Act ω ε δ Unit := ⟨[w], .done ()⟩

def raise (e : ε) : Act ω ε δ α := ⟨[], .thrown e⟩

def die (d : δ) : Act ω ε δ α := ⟨[], .dead d⟩

/-- A value, an exception, or the death of the computation. -/
def ofExcept : Except (ε ⊕ δ) α → Act ω ε δ α
  | .ok a => pure a
  | .error (.inl e) => raise e
  | .error (.inr d) => die d

/-- A call that has no result but may throw. -/
def failing : Option ε → Act ω ε δ Unit
  | none => pure ()
  | some e => raise e

/-- `try` with a handler for some of the exceptions. -/
def catching (x : Act ω ε δ α) (handler : ε → Option (Act ω ε δ α)) : Act ω ε δ α :=
  match x.ending with
  | .thrown e =>
    match handler e with
    | some y => ⟨x.out ++ y.out, y.ending⟩
    | none => x
  | _ => x

/-- A scope with a local whose destructor throws `close`, if anything; a second exception on the way out of
the scope terminates. As in C++98, an exception may leave a destructor: none is `noexcept`. -/
def inScope (close : Option ε) (terminated : δ) (x : Act ω ε δ α) : Act ω ε δ α :=
  match x.ending, close with
  | .done _, some e => ⟨x.out, .thrown e⟩
  | .thrown _, some _ => ⟨x.out, .dead terminated⟩
  | _, _ => x

/-- A scope whose end kills the computation, unless it is dead already. -/
def killed (kills : Bool) (d : δ) (x : Act ω ε δ α) : Act ω ε δ α :=
  match x.ending, kills with
  | .done _, true => ⟨x.out, .dead d⟩
  | .thrown _, true => ⟨x.out, .dead d⟩
  | _, _ => x

def Completes (x : Act ω ε δ α) : Prop := ∃ a, x.ending = .done a

def Throws (x : Act ω ε δ α) : Prop := ∃ e, x.ending = .thrown e

def Silent (x : Act ω ε δ α) : Prop := x.out = []

theorem pure_eq (a : α) : (pure a : Act ω ε δ α) = ⟨[], .done a⟩ := rfl

variable {x : Act ω ε δ α} {f : α → Act ω ε δ β}

theorem bind_done {a : α} (h : x.ending = .done a) : x >>= f = ⟨x.out ++ (f a).out, (f a).ending⟩ := by
  change andThen x f = _
  rw [andThen, h]

theorem bind_thrown {e : ε} (h : x.ending = .thrown e) : x >>= f = ⟨x.out, .thrown e⟩ := by
  change andThen x f = _
  rw [andThen, h]

theorem bind_dead {d : δ} (h : x.ending = .dead d) : x >>= f = ⟨x.out, .dead d⟩ := by
  change andThen x f = _
  rw [andThen, h]

theorem bind_ending_done {b : β} :
    (x >>= f).ending = .done b ↔ ∃ a, x.ending = .done a ∧ (f a).ending = .done b := by
  cases hx : x.ending with
  | done a => simp [bind_done hx]
  | thrown e => simp [bind_thrown hx]
  | dead d => simp [bind_dead hx]

theorem bind_ending_thrown {e : ε} : (x >>= f).ending = .thrown e ↔
    x.ending = .thrown e ∨ ∃ a, x.ending = .done a ∧ (f a).ending = .thrown e := by
  cases hx : x.ending with
  | done a => simp [bind_done hx]
  | thrown e => simp [bind_thrown hx]
  | dead d => simp [bind_dead hx]

theorem act_pure_bind (a : α) (f : α → Act ω ε δ β) : (pure a >>= f) = f a := bind_done rfl

theorem act_bind_assoc {γ : Type} (x : Act ω ε δ α) (f : α → Act ω ε δ β) (g : β → Act ω ε δ γ) :
    x >>= f >>= g = x >>= fun a => f a >>= g := by
  cases hx : x.ending with
  | thrown e => rw [bind_thrown hx, bind_thrown hx, bind_thrown rfl]
  | dead d => rw [bind_dead hx, bind_dead hx, bind_dead rfl]
  | done a =>
    rw [bind_done hx, bind_done hx]
    cases hf : (f a).ending with
    | thrown e => rw [bind_thrown rfl, bind_thrown hf]
    | dead d => rw [bind_dead rfl, bind_dead hf]
    | done b => rw [bind_done rfl, bind_done hf, List.append_assoc]

theorem act_id_map (x : Act ω ε δ α) : id <$> x = x := by
  change andThen x (fun a => pure a) = x
  rw [andThen]
  cases hx : x.ending <;> simp [pure_eq, ← hx]

instance : LawfulMonad (Act ω ε δ) := LawfulMonad.mk' _ act_id_map act_pure_bind act_bind_assoc

@[simp] theorem completes_pure (a : α) : (pure a : Act ω ε δ α).Completes := ⟨a, rfl⟩

@[simp] theorem not_throws_pure (a : α) : ¬ (pure a : Act ω ε δ α).Throws := nofun

@[simp] theorem not_completes_raise (e : ε) : ¬ (raise e : Act ω ε δ α).Completes := nofun

@[simp] theorem throws_raise (e : ε) : (raise e : Act ω ε δ α).Throws := ⟨e, rfl⟩

@[simp] theorem not_completes_die (d : δ) : ¬ (die d : Act ω ε δ α).Completes := nofun

@[simp] theorem not_throws_die (d : δ) : ¬ (die d : Act ω ε δ α).Throws := nofun

theorem completes_bind : (x >>= f).Completes ↔ ∃ a, x.ending = .done a ∧ (f a).Completes := by
  simp only [Completes, bind_ending_done]
  constructor
  · rintro ⟨b, a, hx, hf⟩
    exact ⟨a, hx, b, hf⟩
  · rintro ⟨a, hx, b, hf⟩
    exact ⟨b, a, hx, hf⟩

theorem throws_bind : (x >>= f).Throws ↔ x.Throws ∨ ∃ a, x.ending = .done a ∧ (f a).Throws := by
  simp only [Throws, bind_ending_thrown]
  constructor
  · rintro ⟨e, hx | ⟨a, hx, hf⟩⟩
    · exact Or.inl ⟨e, hx⟩
    · exact Or.inr ⟨a, hx, e, hf⟩
  · rintro (⟨e, hx⟩ | ⟨a, hx, e, hf⟩)
    · exact ⟨e, Or.inl hx⟩
    · exact ⟨e, Or.inr ⟨a, hx, hf⟩⟩

theorem completes_bind_when {P : Prop} (h : ∀ a, x.ending = .done a → ((f a).Completes ↔ P)) :
    (x >>= f).Completes ↔ x.Completes ∧ P := by
  rw [completes_bind]
  constructor
  · rintro ⟨a, hx, hf⟩
    exact ⟨⟨a, hx⟩, (h a hx).mp hf⟩
  · rintro ⟨⟨a, hx⟩, hP⟩
    exact ⟨a, hx, (h a hx).mpr hP⟩

theorem throws_bind_when {P : Prop} (h : ∀ a, x.ending = .done a → ((f a).Throws ↔ P)) :
    (x >>= f).Throws ↔ x.Throws ∨ (x.Completes ∧ P) := by
  rw [throws_bind]
  apply or_congr_right
  constructor
  · rintro ⟨a, hx, hf⟩
    exact ⟨⟨a, hx⟩, (h a hx).mp hf⟩
  · rintro ⟨⟨a, hx⟩, hP⟩
    exact ⟨a, hx, (h a hx).mpr hP⟩

theorem completes_bind_of {P : Prop} (h : ∀ a, (f a).Completes ↔ P) : (x >>= f).Completes ↔ x.Completes ∧ P :=
  completes_bind_when (fun a _ => h a)

theorem throws_bind_of {P : Prop} (h : ∀ a, (f a).Throws ↔ P) :
    (x >>= f).Throws ↔ x.Throws ∨ (x.Completes ∧ P) :=
  throws_bind_when (fun a _ => h a)

theorem silent_pure (a : α) : (pure a : Act ω ε δ α).Silent := rfl

theorem silent_die (d : δ) : (die d : Act ω ε δ α).Silent := rfl

theorem silent_ofExcept (r : Except (ε ⊕ δ) α) : (ofExcept r : Act ω ε δ α).Silent := by
  rcases r with (e | d) | a <;> rfl

theorem silent_failing (e : Option ε) : (failing e : Act ω ε δ Unit).Silent := by
  cases e <;> rfl

theorem completes_failing {e : Option ε} : (failing e : Act ω ε δ Unit).Completes ↔ e = none := by
  cases e <;> simp [failing]

theorem throws_failing {e : Option ε} : (failing e : Act ω ε δ Unit).Throws ↔ e ≠ none := by
  cases e <;> simp [failing]

theorem completes_ofExcept {r : Except (ε ⊕ δ) α} : (ofExcept r : Act ω ε δ α).Completes ↔ ∃ a, r = .ok a := by
  rcases r with (e | d) | a <;> simp [ofExcept]

theorem throws_ofExcept {r : Except (ε ⊕ δ) α} : (ofExcept r : Act ω ε δ α).Throws ↔ ∃ e, r = .error (.inl e) := by
  rcases r with (e | d) | a <;> simp [ofExcept]

theorem ofExcept_done {r : Except (ε ⊕ δ) α} {a : α} (h : (ofExcept r : Act ω ε δ α).ending = .done a) : r = .ok a := by
  obtain ⟨b, rfl⟩ := completes_ofExcept.mp ⟨a, h⟩
  cases h
  rfl

theorem bind_ok {r : Except ε α} {g : α → Except ε β} {b : β} (h : r >>= g = .ok b) :
    ∃ a, r = .ok a ∧ g a = .ok b := by
  cases r with
  | error e => cases h
  | ok a => exact ⟨a, rfl, h⟩

theorem ofExcept_bind_ok (a : α) (f : α → Act ω ε δ β) : (ofExcept (.ok a) >>= f) = f a := rfl

theorem ofExcept_bind_error (e : ε) (f : α → Act ω ε δ β) : (ofExcept (.error (.inl e)) >>= f) = raise e := rfl

theorem ofExcept_bind_dead (d : δ) (f : α → Act ω ε δ β) : (ofExcept (.error (.inr d)) >>= f) = die d := rfl

theorem silent_bind (hx : x.Silent) (hf : ∀ a, (f a).Silent) : (x >>= f).Silent := by
  cases hend : x.ending with
  | done a => rw [bind_done hend, Silent, hx, hf a, List.nil_append]
  | thrown e => rw [bind_thrown hend, Silent, hx]
  | dead d => rw [bind_dead hend, Silent, hx]

theorem catching_other {handler : ε → Option (Act ω ε δ α)}
    (h : ∀ e, x.ending = .thrown e → handler e = none) : x.catching handler = x := by
  unfold catching
  split
  · rename_i e he
    simp only [h e he]
  · rfl

variable {close : Option ε} {terminated : δ}

theorem inScope_out : (inScope close terminated x).out = x.out := by
  unfold inScope
  split <;> rfl

theorem silent_inScope (hx : x.Silent) : (inScope close terminated x).Silent := inScope_out.trans hx

theorem inScope_none : inScope none terminated x = x := by
  unfold inScope
  split
  · rename_i hclose
    cases hclose
  · rename_i hclose
    cases hclose
  · rfl

theorem inScope_dead {d : δ} (h : x.ending = .dead d) : (inScope close terminated x).ending = .dead d := by
  simp [inScope, h]

theorem completes_inScope : (inScope close terminated x).Completes ↔ close = none ∧ x.Completes := by
  cases close with
  | none => simp [inScope_none]
  | some e =>
    simp only [Completes, inScope]
    cases hx : x.ending <;> simp [hx]

theorem inScope_some_ne_done (e : ε) (a : α) : (inScope (some e) terminated x).ending ≠ .done a := by
  intro h
  cases (completes_inScope.mp ⟨a, h⟩).1

theorem inScope_done {a : α} (h : (inScope close terminated x).ending = .done a) : x.ending = .done a := by
  cases close with
  | none =>
    rw [inScope_none] at h
    exact h
  | some e => exact absurd h (inScope_some_ne_done e a)

theorem throws_inScope :
    (inScope close terminated x).Throws ↔ (close = none ∧ x.Throws) ∨ (close ≠ none ∧ x.Completes) := by
  cases close with
  | none => simp [inScope_none]
  | some e =>
    simp only [Throws, Completes, inScope]
    cases hx : x.ending <;> simp [hx]

variable {kills : Bool} {d : δ}

theorem killed_out : (killed kills d x).out = x.out := by
  unfold killed
  split <;> rfl

@[simp] theorem killed_false : killed false d x = x := by
  unfold killed
  split
  · rename_i hkills
    cases hkills
  · rename_i hkills
    cases hkills
  · rfl

theorem killed_true_dead : ∃ d', (killed true d x).ending = .dead d' := by
  unfold killed
  cases hend : x.ending with
  | done a => exact ⟨d, rfl⟩
  | thrown e => exact ⟨d, rfl⟩
  | dead d' => exact ⟨d', hend⟩

theorem completes_killed : (killed kills d x).Completes ↔ kills = false ∧ x.Completes := by
  cases kills with
  | false => simp
  | true =>
    simp only [Completes, killed]
    cases hx : x.ending <;> simp [hx]

theorem killed_true_ne_done (a : α) : (killed true d x).ending ≠ .done a := by
  intro h
  cases (completes_killed.mp ⟨a, h⟩).1

theorem throws_killed : (killed kills d x).Throws ↔ kills = false ∧ x.Throws := by
  cases kills with
  | false => simp
  | true =>
    simp only [Throws, killed]
    cases hx : x.ending <;> simp [hx]

theorem killed_done {a : α} (h : (killed kills d x).ending = .done a) : x.ending = .done a := by
  cases kills with
  | false => simpa using h
  | true => exact absurd h (killed_true_ne_done a)

/-- The first element that is not `Good` is `Bad`. -/
def StopsAt (Good Bad : ρ → Prop) (l : List ρ) : Prop :=
  ∃ before r after, l = before ++ r :: after ∧ (∀ x ∈ before, Good x) ∧ Bad r

theorem stopsAt_nil {Good Bad : ρ → Prop} : ¬ StopsAt Good Bad [] := by
  rintro ⟨before, r, after, h, -, -⟩
  simp at h

theorem stopsAt_cons {Good Bad : ρ → Prop} {r : ρ} {l : List ρ} :
    StopsAt Good Bad (r :: l) ↔ Bad r ∨ (Good r ∧ StopsAt Good Bad l) := by
  constructor
  · rintro ⟨before, r', after, h, hgood, hbad⟩
    cases before with
    | nil =>
      cases h
      exact Or.inl hbad
    | cons b before =>
      cases h
      exact Or.inr ⟨hgood _ List.mem_cons_self, before, r', after, rfl,
        fun x hx => hgood x (List.mem_cons_of_mem _ hx), hbad⟩
  · rintro (hbad | ⟨hr, before, r', after, rfl, hgood, hbad⟩)
    · exact ⟨[], r, l, rfl, List.forall_mem_nil _, hbad⟩
    · exact ⟨r :: before, r', after, rfl, List.forall_mem_cons.mpr ⟨hr, hgood⟩, hbad⟩

variable {step : β → ρ → Act ω ε δ β} {Good Bad : ρ → Prop}

theorem silent_foldlM (h : ∀ b r, (step b r).Silent) (l : List ρ) (b : β) : (l.foldlM step b).Silent := by
  induction l generalizing b with
  | nil => exact silent_pure b
  | cons r l ih =>
    rw [List.foldlM_cons]
    exact silent_bind (h b r) ih

theorem completes_foldlM (hgood : ∀ b r, (step b r).Completes ↔ Good r) (l : List ρ) (b : β) :
    (l.foldlM step b).Completes ↔ ∀ r ∈ l, Good r := by
  induction l generalizing b with
  | nil => simp
  | cons r l ih => rw [List.foldlM_cons, completes_bind_of ih, hgood, List.forall_mem_cons]

theorem foldlM_done {g : β → ρ → β} (h : ∀ b r b', (step b r).ending = .done b' → b' = g b r) {l : List ρ} {b b' : β}
    (hdone : (l.foldlM step b).ending = .done b') : b' = l.foldl g b := by
  induction l generalizing b with
  | nil =>
    cases hdone
    rfl
  | cons r l ih =>
    rw [List.foldlM_cons] at hdone
    obtain ⟨b₁, hstep, hrest⟩ := bind_ending_done.mp hdone
    rw [List.foldl_cons, ← h b r b₁ hstep]
    exact ih hrest

theorem throws_foldlM (hgood : ∀ b r, (step b r).Completes ↔ Good r) (hbad : ∀ b r, (step b r).Throws ↔ Bad r)
    (l : List ρ) (b : β) : (l.foldlM step b).Throws ↔ StopsAt Good Bad l := by
  induction l generalizing b with
  | nil => simp [stopsAt_nil]
  | cons r l ih => rw [List.foldlM_cons, throws_bind_of ih, hgood, hbad, stopsAt_cons]

end Act

end FcgiAppserver.ScopedEffects
