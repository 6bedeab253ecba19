import Mathlib

/-!
Relations that get an edge, and the walks along them that come to an end.
-/

namespace FcgiAppserver.GrowingRelations

open Relation

variable {α : Type*} {r r' : α → α → Prop} {a b x : α}

theorem acc_below (h : Acc (Function.swap r) a) (hb : ReflTransGen r a b) : Acc (Function.swap r) b := by
  induction hb with
  | refl => exact h
  | tail _ hedge ih => exact ih.inv hedge

theorem not_acc_cycle (h : TransGen r a a) : ¬ Acc (Function.swap r) a := by
  intro hacc
  induction hacc with
  | intro c _ ih =>
    obtain ⟨d, hedge, hback⟩ := TransGen.head'_iff.mp h
    exact ih d hedge (TransGen.tail' hback hedge)

/-- What does not reach the new edge is not touched by it. -/
theorem acc_away (hnew : ∀ x y, r' x y → r x y ∨ (x = a ∧ y = b)) (hx : Acc (Function.swap r) x)
    (haway : ¬ ReflTransGen r x a) : Acc (Function.swap r') x := by
  induction hx with
  | intro x _ ih =>
    apply Acc.intro
    intro y hedge
    rcases hnew x y hedge with hold | ⟨rfl, -⟩
    · exact ih y hold (fun hreach => haway (ReflTransGen.head hold hreach))
    · exact absurd ReflTransGen.refl haway

theorem wellFounded_edge (hnew : ∀ x y, r' x y → r x y ∨ (x = a ∧ y = b)) (hr : WellFounded (Function.swap r))
    (hback : ¬ ReflTransGen r b a) : WellFounded (Function.swap r') := by
  constructor
  intro x
  induction x using hr.induction with
  | _ x ih =>
    apply Acc.intro
    intro y hedge
    rcases hnew x y hedge with hold | ⟨-, rfl⟩
    · exact ih y hold
    · exact acc_away hnew (hr.apply y) hback

end FcgiAppserver.GrowingRelations
