import Mathlib

/-!
Computations that list the accesses they make, in order.
-/

namespace FcgiAppserver.TracedAccesses

structure Traced (ε α : Type) where
  trace : List ε
  value : α

namespace Traced

variable {ε α β : Type}

instance : Monad (Traced ε) where
  pure a := ⟨[], a⟩
  bind x f := ⟨x.trace ++ (f x.value).trace, (f x.value).value⟩

def emit (e : ε) : Traced ε Unit := ⟨[e], ()⟩

@[simp] theorem pure_value (a : α) : (pure a : Traced ε α).value = a := rfl

@[simp] theorem bind_value (x : Traced ε α) (f : α → Traced ε β) : (x >>= f).value = (f x.value).value := rfl

@[simp] theorem ite_value (c : Prop) [Decidable c] (x y : Traced ε α) :
    (if c then x else y).value = if c then x.value else y.value :=
  apply_ite value c x y

def Always (P : ε → Prop) (x : Traced ε α) : Prop := ∀ e ∈ x.trace, P e

variable {P : ε → Prop}

theorem always_pure (a : α) : Always P (pure a) := List.forall_mem_nil P

theorem always_emit {e : ε} : Always P (emit e) ↔ P e := List.forall_mem_singleton

theorem always_bind {x : Traced ε α} {f : α → Traced ε β} : Always P (x >>= f) ↔ Always P x ∧ Always P (f x.value) :=
  List.forall_mem_append

theorem Always.bind {x : Traced ε α} {f : α → Traced ε β} (hx : Always P x) (hf : Always P (f x.value)) :
    Always P (x >>= f) :=
  always_bind.mpr ⟨hx, hf⟩

theorem Always.ite {c : Prop} [Decidable c] {x y : Traced ε α} (hx : c → Always P x) (hy : ¬c → Always P y) :
    Always P (if c then x else y) := by
  split
  · exact hx ‹c›
  · exact hy ‹¬c›

section

variable {κ : Type} {x : ExceptT κ (Traced ε) α} {f : α → ExceptT κ (Traced ε) β}

theorem run_bind_value : (x >>= f).run.value = x.run.value.bind (fun a => (f a).run.value) := by
  change (x.run >>= ExceptT.bindCont f).value = _
  rw [bind_value]
  cases x.run.value with
  | ok a => rfl
  | error e => rfl

theorem Always.run_bind (hx : Always P x.run) (hf : ∀ a, x.run.value = .ok a → Always P (f a).run) :
    Always P (x >>= f).run := by
  apply Always.bind hx
  cases hvalue : x.run.value with
  | ok a => exact hf a hvalue
  | error e => exact always_pure _

end

end Traced

end FcgiAppserver.TracedAccesses
