import Mathlib

/-!
Ordered maps filled by insertions that keep the value of a key already present.
-/

namespace FcgiAppserver.FirstWins

variable {κ ν : Type*} {cmp : κ → κ → Ordering} [Std.TransCmp cmp]

def insertAll (m : Std.ExtTreeMap κ ν cmp) (l : List (κ × ν)) : Std.ExtTreeMap κ ν cmp :=
  l.foldl (fun m p => m.insertIfNew p.1 p.2) m

def firstWins (l : List (κ × ν)) : Std.ExtTreeMap κ ν cmp := insertAll ∅ l

@[simp] theorem insertAll_nil (m : Std.ExtTreeMap κ ν cmp) : insertAll m [] = m := rfl

@[simp] theorem insertAll_cons (m : Std.ExtTreeMap κ ν cmp) (p : κ × ν) (l : List (κ × ν)) :
    insertAll m (p :: l) = insertAll (m.insertIfNew p.1 p.2) l := rfl

@[simp] theorem insertAll_append (m : Std.ExtTreeMap κ ν cmp) (l l' : List (κ × ν)) :
    insertAll m (l ++ l') = insertAll (insertAll m l) l' := List.foldl_append

variable [Std.LawfulEqCmp cmp] [BEq κ] [LawfulBEq κ]

theorem getElem?_insertAll (m : Std.ExtTreeMap κ ν cmp) (l : List (κ × ν)) (k : κ) :
    (insertAll m l)[k]? = m[k]?.or (l.lookup k) := by
  induction l generalizing m with
  | nil => simp
  | cons p l ih =>
    obtain ⟨key, value⟩ := p
    rw [insertAll_cons, ih, Std.ExtTreeMap.getElem?_insertIfNew]
    by_cases hk : k = key
    · subst hk
      by_cases hm : k ∈ m
      · simp [hm]
      · simp [hm]
    · have hb : (k == key) = false := by simpa using hk
      simp [List.lookup_cons, Ne.symm hk, hb]

theorem getElem?_firstWins (l : List (κ × ν)) (k : κ) :
    (firstWins l : Std.ExtTreeMap κ ν cmp)[k]? = l.lookup k := by
  simp [firstWins, getElem?_insertAll]

theorem firstWins_eq_iff (l l' : List (κ × ν)) :
    (firstWins l : Std.ExtTreeMap κ ν cmp) = firstWins l' ↔ ∀ k, l.lookup k = l'.lookup k := by
  constructor
  · intro h k
    have hk := congrArg (fun m => m[k]?) h
    simpa only [getElem?_firstWins] using hk
  · intro h
    apply Std.ExtTreeMap.ext_getElem?
    intro k
    rw [getElem?_firstWins, getElem?_firstWins, h k]

theorem firstWins_cons_eq_iff (key : κ) (value : ν) (l l' : List (κ × ν)) :
    (firstWins ((key, value) :: l) : Std.ExtTreeMap κ ν cmp) = firstWins ((key, value) :: l') ↔
      ∀ k, k ≠ key → l.lookup k = l'.lookup k := by
  rw [firstWins_eq_iff]
  apply forall_congr'
  intro k
  by_cases hk : k = key
  · simp [hk]
  · have hb : (k == key) = false := by simpa using hk
    simp [List.lookup_cons, hk, hb]

theorem mem_of_lookup {l : List (κ × ν)} {k : κ} {v : ν} (h : l.lookup k = some v) : (k, v) ∈ l := by
  induction l with
  | nil => simp at h
  | cons p l ih =>
    obtain ⟨key, value⟩ := p
    by_cases hk : k = key
    · have hv : value = v := by simpa [List.lookup_cons, hk] using h
      rw [hk, hv]
      exact List.mem_cons_self
    · have hb : (k == key) = false := by simpa using hk
      rw [List.lookup_cons, hb] at h
      exact List.mem_cons_of_mem _ (ih h)

theorem lookup_first {before after : List (κ × ν)} {k : κ} {v : ν} (h : ∀ p ∈ before, p.1 ≠ k) :
    (before ++ (k, v) :: after).lookup k = some v := by
  induction before with
  | nil => exact List.lookup_cons_self
  | cons p before ih =>
    have hb : (k == p.1) = false := by simpa using (h p List.mem_cons_self).symm
    rw [List.cons_append, List.lookup_cons, hb]
    exact ih (fun q hq => h q (List.mem_cons_of_mem _ hq))

/-- Two ways to value a list give the same map if they agree wherever a key comes up first. -/
theorem firstWins_map_eq_iff {ι : Type*} (l : List ι) (key : ι → κ) (f g : ι → ν) :
    (firstWins (l.map (fun x => (key x, f x))) : Std.ExtTreeMap κ ν cmp) = firstWins (l.map (fun x => (key x, g x))) ↔
      ∀ a x b, l = a ++ x :: b → (∀ y ∈ a, key y ≠ key x) → f x = g x := by
  classical
  have hfirst : ∀ (h : ι → ν) a x b, (∀ y ∈ a, key y ≠ key x) →
      ((a ++ x :: b).map (fun x => (key x, h x))).lookup (key x) = some (h x) := by
    intro h a x b hx
    rw [List.map_append, List.map_cons]
    apply lookup_first
    simpa using hx
  rw [firstWins_eq_iff]
  constructor
  · rintro h a x b rfl hx
    have hk := h (key x)
    rw [hfirst f a x b hx, hfirst g a x b hx] at hk
    exact Option.some.inj hk
  · intro h k
    cases hfind : l.find? (fun x => decide (key x = k)) with
    | none =>
      have hno : ∀ x ∈ l, key x ≠ k := by simpa using List.find?_eq_none.mp hfind
      rw [List.lookup_eq_none_iff.mpr, List.lookup_eq_none_iff.mpr]
      · simpa using fun x hx => (hno x hx).symm
      · simpa using fun x hx => (hno x hx).symm
    | some x =>
      obtain ⟨hx, a, b, rfl, ha⟩ := List.find?_eq_some_iff_append.mp hfind
      have hk : key x = k := by simpa using hx
      have hnot : ∀ y ∈ a, key y ≠ key x := by
        rw [hk]
        simpa using ha
      rw [← hk, hfirst f a x b hnot, hfirst g a x b hnot, h a x b rfl hnot]

end FcgiAppserver.FirstWins
