import Mathlib

/-!
Multimaps as key-sorted lists in which entries under one key keep their order of insertion.
-/

namespace FcgiAppserver

structure SortedMultimap (κ ν : Type*) [Ord κ] where
  entries : List (κ × ν)
  sorted : entries.Pairwise (fun a b => (compare a.1 b.1).isLE)

namespace SortedMultimap

variable {κ ν : Type*} [Ord κ]

def empty : SortedMultimap κ ν := ⟨[], List.Pairwise.nil⟩

def insertEntry (k : κ) (v : ν) : List (κ × ν) → List (κ × ν)
  | [] => [(k, v)]
  | e :: l => if (compare e.1 k).isLE then e :: insertEntry k v l else (k, v) :: e :: l

def equalRange (m : SortedMultimap κ ν) (k : κ) : List (κ × ν) :=
  (m.entries.dropWhile (fun e => (compare e.1 k).isLT)).takeWhile (fun e => (compare e.1 k).isLE)

theorem mem_insertEntry {k : κ} {v : ν} {e : κ × ν} {l : List (κ × ν)} :
    e ∈ insertEntry k v l ↔ e = (k, v) ∨ e ∈ l := by
  induction l with
  | nil => simp [insertEntry]
  | cons e' l ih =>
    rw [insertEntry]
    split
    · simp only [List.mem_cons, ih]
      tauto
    · simp only [List.mem_cons]

variable [Std.TransOrd κ]

theorem sorted_insertEntry (k : κ) (v : ν) {l : List (κ × ν)}
    (h : l.Pairwise (fun a b => (compare a.1 b.1).isLE)) :
    (insertEntry k v l).Pairwise (fun a b => (compare a.1 b.1).isLE) := by
  induction l with
  | nil => simp [insertEntry]
  | cons e l ih =>
    obtain ⟨he, hl⟩ := List.pairwise_cons.mp h
    rw [insertEntry]
    split
    · rename_i hle
      refine List.pairwise_cons.mpr ⟨?_, ih hl⟩
      intro a ha
      rcases mem_insertEntry.mp ha with rfl | ha
      · exact hle
      · exact he a ha
    · rename_i hnle
      have hlt : (compare k e.1).isLE := by
        rw [Std.OrientedOrd.eq_swap (a := k)]
        cases hc : compare e.1 k <;> simp_all
      refine List.pairwise_cons.mpr ⟨?_, h⟩
      intro a ha
      rcases List.mem_cons.mp ha with rfl | ha
      · exact hlt
      · exact Std.TransCmp.isLE_trans hlt (he a ha)

def insert (m : SortedMultimap κ ν) (k : κ) (v : ν) : SortedMultimap κ ν :=
  ⟨insertEntry k v m.entries, sorted_insertEntry k v m.sorted⟩

def insertAll (l : List (κ × ν)) : SortedMultimap κ ν :=
  l.foldl (fun m e => m.insert e.1 e.2) empty

variable [Std.LawfulEqOrd κ] [DecidableEq κ]

omit [Std.TransOrd κ] in
theorem filter_eq_nil_of_gt {k : κ} {e : κ × ν} {l : List (κ × ν)} (hk : compare e.1 k = .gt)
    (h : (e :: l).Pairwise (fun a b => (compare a.1 b.1).isLE)) :
    (e :: l).filter (fun a => a.1 = k) = [] := by
  rw [List.filter_eq_nil_iff]
  intro a ha
  simp only [decide_eq_true_eq]
  rintro rfl
  rcases List.mem_cons.mp ha with rfl | ha
  · simp at hk
  · have hle := (List.pairwise_cons.mp h).1 a ha
    simp [hk] at hle

omit [Std.TransOrd κ] in
theorem filter_insertEntry (k k' : κ) (v : ν) {l : List (κ × ν)}
    (h : l.Pairwise (fun a b => (compare a.1 b.1).isLE)) :
    (insertEntry k v l).filter (fun e => e.1 = k') = (l ++ [(k, v)]).filter (fun e => e.1 = k') := by
  induction l with
  | nil => rfl
  | cons e l ih =>
    rw [insertEntry]
    split
    · rw [List.filter_cons, ih (List.pairwise_cons.mp h).2, List.cons_append, List.filter_cons]
    · rename_i hnle
      have hgt : compare e.1 k = .gt := by
        cases hc : compare e.1 k <;> simp_all
      rw [List.filter_append, List.filter_cons]
      by_cases hk : k = k'
      · rw [hk] at hgt
        rw [filter_eq_nil_of_gt hgt h]
        simp [hk]
      · simp [hk]

theorem takeWhile_isLE {k : κ} {l : List (κ × ν)}
    (h : l.Pairwise (fun a b => (compare a.1 b.1).isLE)) (hk : ∀ e ∈ l, (compare k e.1).isLE) :
    l.takeWhile (fun e => (compare e.1 k).isLE) = l.filter (fun e => e.1 = k) := by
  induction l with
  | nil => rfl
  | cons e l ih =>
    have hl := List.pairwise_cons.mp h
    cases hc : compare e.1 k with
    | lt =>
      have hge := hk e List.mem_cons_self
      rw [Std.OrientedOrd.eq_swap, hc] at hge
      simp at hge
    | eq =>
      have hek : e.1 = k := Std.LawfulEqCmp.eq_of_compare hc
      rw [List.takeWhile_cons, List.filter_cons, ih hl.2 (fun a ha => hk a (List.mem_cons_of_mem _ ha))]
      simp [hek]
    | gt =>
      rw [List.takeWhile_cons, filter_eq_nil_of_gt hc h]
      simp [hc]

theorem equalRange_eq_filter (m : SortedMultimap κ ν) (k : κ) :
    m.equalRange k = m.entries.filter (fun e => e.1 = k) := by
  obtain ⟨l, h⟩ := m
  induction l with
  | nil => rfl
  | cons e l ih =>
    have hl := List.pairwise_cons.mp h
    simp only [equalRange] at ih ⊢
    cases hc : compare e.1 k with
    | lt =>
      have hne : e.1 ≠ k := by
        rintro rfl
        simp at hc
      rw [List.dropWhile_cons, List.filter_cons]
      simp only [hc, Ordering.isLT_lt, if_true, hne, decide_false, Bool.false_eq_true, if_false]
      exact ih hl.2
    | eq =>
      have hek : e.1 = k := Std.LawfulEqCmp.eq_of_compare hc
      rw [List.dropWhile_cons]
      simp only [hc, Ordering.isLT_eq, Bool.false_eq_true, if_false]
      apply takeWhile_isLE h
      intro a ha
      rcases List.mem_cons.mp ha with rfl | ha
      · simp [hek]
      · exact hek ▸ hl.1 a ha
    | gt =>
      rw [List.dropWhile_cons, filter_eq_nil_of_gt hc h]
      simp [hc]

theorem filter_insertAll (l : List (κ × ν)) (k : κ) :
    (insertAll l).entries.filter (fun e => e.1 = k) = l.filter (fun e => e.1 = k) := by
  induction l using List.reverseRecOn with
  | nil => rfl
  | append_singleton l e ih =>
    rw [insertAll, List.foldl_append, ← insertAll]
    change (insertEntry e.1 e.2 (insertAll l).entries).filter _ = _
    rw [filter_insertEntry _ _ _ (insertAll l).sorted, List.filter_append, List.filter_append, ih]

theorem mem_insertAll {l : List (κ × ν)} {e : κ × ν} : e ∈ (insertAll l).entries ↔ e ∈ l := by
  have hfilter := filter_insertAll l e.1
  have hmem : ∀ l' : List (κ × ν), e ∈ l' ↔ e ∈ l'.filter (fun a => a.1 = e.1) := by simp
  rw [hmem, hfilter, ← hmem]

end SortedMultimap

theorem compare_lt_of_prefix {α : Type*} [Ord α] [Std.ReflOrd α] {a b : List α} (h : a <+: b)
    (hne : a ≠ b) : compare a b = .lt := by
  induction a generalizing b with
  | nil =>
    cases b with
    | nil => exact absurd rfl hne
    | cons y b => rfl
  | cons x a ih =>
    obtain ⟨t, rfl⟩ := h
    have htail := ih (List.prefix_append a t) (fun heq => hne (congrArg (x :: ·) heq))
    rw [List.cons_append, List.compare_cons_cons, htail]
    simp

theorem foldl_last_some {α ν : Type*} (p : α → Bool) (f : α → Option ν) (l : List α) :
    l.foldl (fun last a => if p a then f a else last) none = (l.filter p).getLast?.bind f := by
  induction l using List.reverseRecOn with
  | nil => rfl
  | append_singleton l a ih =>
    rw [List.foldl_append, List.foldl_cons, List.foldl_nil, ih, List.filter_append]
    cases hp : p a <;> simp [hp]

end FcgiAppserver
