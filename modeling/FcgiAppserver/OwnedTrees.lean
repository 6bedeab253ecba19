import Mathlib

/-!
Trees given by the children of their nodes, where a node has one parent, and the walk that visits a node after its children.
-/

namespace FcgiAppserver.OwnedTrees

open Relation

variable {α : Type*} {children : α → List α} {height : α → ℕ}

def postorder (children : α → List α) : ℕ → α → List α
  | 0, _ => []
  | depth + 1, a => (children a).flatMap (postorder children depth) ++ [a]

def Below (children : α → List α) : α → α → Prop := ReflTransGen (fun parent child => child ∈ children parent)

structure Owned (children : α → List α) (height : α → ℕ) : Prop where
  lower : ∀ parent, ∀ child ∈ children parent, height child < height parent
  owner : ∀ parent parent' child, child ∈ children parent → child ∈ children parent' → parent = parent'
  distinct : ∀ parent, (children parent).Nodup

theorem Owned.height_le (h : Owned children height) {a b : α} (hb : Below children a b) : height b ≤ height a := by
  induction hb with
  | refl => exact le_refl _
  | tail _ hchild ih => exact (h.lower _ _ hchild).le.trans ih

-- what two nodes both reach lies below one of them, as the way up is one
theorem Owned.comparable (h : Owned children height) {a b c : α} (ha : Below children a c) (hb : Below children b c) :
    Below children a b ∨ Below children b a := by
  have hunique : Relator.RightUnique (Function.swap (fun parent child => child ∈ children parent)) :=
    fun child parent parent' hparent hparent' => h.owner parent parent' child hparent hparent'
  rcases ReflTransGen.total_of_right_unique hunique ha.swap hb.swap with hup | hup
  · exact Or.inr hup.swap
  · exact Or.inl hup.swap

theorem Owned.siblings (h : Owned children height) {a c c' : α} (hc : c ∈ children a) (hc' : c' ∈ children a)
    (hb : Below children c c') : c = c' := by
  rcases ReflTransGen.cases_tail hb with heq | ⟨parent, hparent, hchild⟩
  · exact heq.symm
  · obtain rfl := h.owner parent a c' hchild hc'
    have hle := h.height_le hparent
    exact absurd hle (Nat.not_le_of_gt (h.lower _ c hc))

theorem Owned.disjoint (h : Owned children height) {a c c' b : α} (hc : c ∈ children a) (hc' : c' ∈ children a)
    (hb : Below children c b) (hb' : Below children c' b) : c = c' := by
  rcases h.comparable hb hb' with hbelow | hbelow
  · exact h.siblings hc hc' hbelow
  · exact (h.siblings hc' hc hbelow).symm

theorem Owned.mem_postorder (h : Owned children height) {depth : ℕ} {a : α} (ha : height a < depth) {b : α} :
    b ∈ postorder children depth a ↔ Below children a b := by
  induction depth generalizing a with
  | zero => exact absurd ha (Nat.not_lt_zero _)
  | succ depth ih =>
    have hsub : ∀ c ∈ children a, b ∈ postorder children depth c ↔ Below children c b := by
      intro c hc
      exact ih ((h.lower a c hc).trans_le (Nat.le_of_lt_succ ha))
    rw [postorder, List.mem_append, List.mem_flatMap, List.mem_singleton]
    constructor
    · rintro (⟨c, hc, hb⟩ | rfl)
      · exact ReflTransGen.head hc ((hsub c hc).mp hb)
      · exact ReflTransGen.refl
    · intro hb
      rcases ReflTransGen.cases_head hb with heq | ⟨c, hc, hrest⟩
      · exact Or.inr heq.symm
      · exact Or.inl ⟨c, hc, (hsub c hc).mpr hrest⟩

/-- The walk visits no node twice, and no node after its parent. -/
theorem Owned.postorder_ordered (h : Owned children height) {depth : ℕ} {a : α} (ha : height a < depth) :
    (postorder children depth a).Pairwise (fun before after => before ≠ after ∧ after ∉ children before) := by
  induction depth generalizing a with
  | zero => exact List.Pairwise.nil
  | succ depth ih =>
    have hdepth : ∀ c ∈ children a, height c < depth :=
      fun c hc => (h.lower a c hc).trans_le (Nat.le_of_lt_succ ha)
    rw [postorder, List.pairwise_append]
    refine ⟨List.pairwise_flatMap.mpr ⟨fun c hc => ih (hdepth c hc), ?_⟩, List.pairwise_singleton _ _, ?_⟩
    · apply (h.distinct a).imp_of_mem
      intro c c' hc hc' hne x hx y hy
      have hbelow := (h.mem_postorder (hdepth c hc)).mp hx
      have hbelow' := (h.mem_postorder (hdepth c' hc')).mp hy
      constructor
      · rintro rfl
        exact hne (h.disjoint hc hc' hbelow hbelow')
      · intro hchild
        exact hne (h.disjoint hc hc' (hbelow.tail hchild) hbelow')
    · intro x hx y hy
      obtain rfl := List.mem_singleton.mp hy
      obtain ⟨c, hc, hin⟩ := List.mem_flatMap.mp hx
      have hlow := (h.height_le ((h.mem_postorder (hdepth c hc)).mp hin)).trans_lt (h.lower _ c hc)
      constructor
      · rintro rfl
        exact Nat.lt_irrefl _ hlow
      · intro hchild
        exact Nat.lt_asymm hlow (h.lower _ _ hchild)

theorem Owned.postorder_nodup (h : Owned children height) {depth : ℕ} {a : α} (ha : height a < depth) :
    (postorder children depth a).Nodup :=
  (h.postorder_ordered ha).imp (fun hab => hab.1)

end FcgiAppserver.OwnedTrees
