import FcgiAppserver.ScopedEffects

/-!
Computations of a scope that count how often they use its local.
-/

namespace FcgiAppserver.ScopedEffects

variable {ω ε δ α β ρ : Type}

@[ext] structure Counted (ω ε δ α : Type) where
  act : Act ω ε δ α
  count : ℕ

namespace Counted

open Act

def andThen (x : Counted ω ε δ α) (f : α → Counted ω ε δ β) : Counted ω ε δ β :=
  match x.act.ending with
  | .done a => ⟨x.act >>= fun a => (f a).act, x.count + (f a).count⟩
  | _ => ⟨x.act >>= fun a => (f a).act, x.count⟩

instance : Monad (Counted ω ε δ) where
  pure a := ⟨pure a, 0⟩
  bind := andThen

instance : MonadLift (Act ω ε δ) (Counted ω ε δ) where
  monadLift x := ⟨x, 0⟩

def tick : Counted ω ε δ Unit := ⟨pure (), 1⟩

@[simp] theorem act_lift (x : Act ω ε δ α) : (liftM x : Counted ω ε δ α).act = x := rfl

@[simp] theorem count_lift (x : Act ω ε δ α) : (liftM x : Counted ω ε δ α).count = 0 := rfl

@[simp] theorem act_tick : (tick : Counted ω ε δ Unit).act = pure () := rfl

variable {x : Counted ω ε δ α} {f : α → Counted ω ε δ β}

@[simp] theorem act_bind : (x >>= f).act = x.act >>= fun a => (f a).act := by
  change (andThen x f).act = _
  unfold andThen
  split <;> rfl

theorem count_bind_done {a : α} (h : x.act.ending = .done a) : (x >>= f).count = x.count + (f a).count := by
  change (andThen x f).count = _
  rw [andThen, h]

theorem count_bind_not (h : ¬ x.act.Completes) : (x >>= f).count = x.count := by
  change (andThen x f).count = _
  unfold andThen
  split
  · rename_i a ha
    exact absurd ⟨a, ha⟩ h
  · rfl

/-- What follows the last use does not matter. -/
theorem count_bind_unused (h : ∀ a, (f a).count = 0) : (x >>= f).count = x.count := by
  by_cases hx : x.act.Completes
  · obtain ⟨a, ha⟩ := hx
    rw [count_bind_done ha, h a, Nat.add_zero]
  · exact count_bind_not hx

theorem counted_pure_bind (a : α) (f : α → Counted ω ε δ β) : (pure a >>= f) = f a := by
  change andThen (pure a) f = f a
  rw [andThen]
  change (⟨pure a >>= fun a => (f a).act, 0 + (f a).count⟩ : Counted ω ε δ β) = f a
  rw [pure_bind, Nat.zero_add]

theorem counted_bind_assoc {γ : Type} (x : Counted ω ε δ α) (f : α → Counted ω ε δ β) (g : β → Counted ω ε δ γ) :
    x >>= f >>= g = x >>= fun a => f a >>= g := by
  have hact : (x >>= f >>= g).act = (x >>= fun a => f a >>= g).act := by simp only [act_bind, bind_assoc]
  have hcount : (x >>= f >>= g).count = (x >>= fun a => f a >>= g).count := by
    by_cases hx : x.act.Completes
    · obtain ⟨a, ha⟩ := hx
      rw [count_bind_done ha]
      by_cases hf : (f a).act.Completes
      · obtain ⟨b, hb⟩ := hf
        have hxf : (x >>= f).act.ending = .done b := by
          rw [act_bind]
          exact bind_ending_done.mpr ⟨a, ha, hb⟩
        rw [count_bind_done hxf, count_bind_done ha, count_bind_done hb, Nat.add_assoc]
      · have hxf : ¬ (x >>= f).act.Completes := by
          rw [act_bind, completes_bind]
          rintro ⟨a', ha', hf'⟩
          cases ha.symm.trans ha'
          exact hf hf'
        rw [count_bind_not hxf, count_bind_done ha, count_bind_not hf]
    · have hxf : ¬ (x >>= f).act.Completes := by
        rw [act_bind, completes_bind]
        rintro ⟨a, ha, -⟩
        exact hx ⟨a, ha⟩
      rw [count_bind_not hxf, count_bind_not hx, count_bind_not hx]
  exact Counted.ext hact hcount

theorem counted_id_map (x : Counted ω ε δ α) : id <$> x = x := by
  have hact : (id <$> x).act = x.act := by
    change (x >>= fun a => pure (id a)).act = x.act
    rw [act_bind]
    exact act_id_map x.act
  have hcount : (id <$> x).count = x.count := count_bind_unused (fun _ => rfl)
  exact Counted.ext hact hcount

instance : LawfulMonad (Counted ω ε δ) := LawfulMonad.mk' _ counted_id_map counted_pure_bind counted_bind_assoc

@[simp] theorem act_foldlM (step : β → ρ → Counted ω ε δ β) (l : List ρ) (b : β) :
    (l.foldlM step b).act = l.foldlM (fun b r => (step b r).act) b := by
  induction l generalizing b with
  | nil => rfl
  | cons r l ih => simp only [List.foldlM_cons, act_bind, ih]

end Counted

end FcgiAppserver.ScopedEffects
