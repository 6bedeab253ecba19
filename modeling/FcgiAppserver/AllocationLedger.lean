import Mathlib

/-!
Buffers as the numbers of their allocations, and which of them are still to be freed.
-/

namespace FcgiAppserver.AllocationLedger

structure Heap where
  allocated : List ℕ
  freed : List ℕ
deriving DecidableEq, Repr

namespace Heap

def empty : Heap := ⟨[], []⟩

def new (h : Heap) (size : ℕ) : ℕ × Heap :=
  (h.allocated.length, { h with allocated := h.allocated ++ [size] })

def delete (h : Heap) : Option ℕ → Heap
  | none => h
  | some b => { h with freed := h.freed ++ [b] }

def deleteAll (h : Heap) (l : List (Option ℕ)) : Heap := l.foldl delete h

def Live (h : Heap) (b : ℕ) : Prop := b < h.allocated.length ∧ b ∉ h.freed

/-- Each buffer was freed once or is on the list once. -/
def Owns (h : Heap) (l : List ℕ) : Prop := (l ++ h.freed).Perm (List.range h.allocated.length)

def FreedOnce (h : Heap) : Prop := ∀ b < h.allocated.length, h.freed.count b = 1

theorem allocated_mono {h h' : Heap} (hmore : h.allocated <+: h'.allocated) {b size : ℕ}
    (hb : h.allocated[b]? = some size) : h'.allocated[b]? = some size := by
  obtain ⟨more, hmore⟩ := hmore
  have hlt := (List.getElem?_eq_some_iff.mp hb).1
  rw [← hmore, List.getElem?_append_left hlt]
  exact hb

theorem new_allocated (h : Heap) (size : ℕ) : (h.new size).2.allocated[(h.new size).1]? = some size :=
  List.getElem?_concat_length

theorem delete_allocated (h : Heap) (b : Option ℕ) : (h.delete b).allocated = h.allocated := by
  cases b <;> rfl

variable {h : Heap} {l l' : List ℕ}

theorem owns_empty : Owns empty [] := List.Perm.refl _

theorem Owns.perm (hl : l.Perm l') (ho : Owns h l) : Owns h l' :=
  (hl.symm.append_right h.freed).trans ho

theorem Owns.new (ho : Owns h l) (size : ℕ) : Owns (h.new size).2 (l ++ [(h.new size).1]) := by
  change (l ++ [h.allocated.length] ++ h.freed).Perm (List.range (h.allocated ++ [size]).length)
  rw [List.length_append, List.length_singleton, List.range_succ, List.append_assoc]
  refine List.Perm.trans ?_ (ho.append_right [h.allocated.length])
  rw [List.append_assoc]
  exact List.perm_append_comm.append_left l

theorem Owns.delete {b : Option ℕ} (ho : Owns h (l ++ b.toList)) : Owns (h.delete b) l := by
  cases b with
  | none => simpa [Heap.delete] using ho
  | some b =>
    refine List.Perm.trans ?_ ho
    change (l ++ (h.freed ++ [b])).Perm (l ++ [b] ++ h.freed)
    rw [List.append_assoc]
    exact List.perm_append_comm.append_left l

theorem Owns.live (ho : Owns h l) {b : ℕ} (hb : b ∈ l) : Live h b := by
  constructor
  · rw [← List.mem_range, ← ho.mem_iff]
    exact List.mem_append_left _ hb
  · intro hfreed
    have hnodup := ho.nodup_iff.mpr List.nodup_range
    exact (List.nodup_append.mp hnodup).2.2 b hb b hfreed rfl

theorem deleteAll_eq (h : Heap) (l : List (Option ℕ)) :
    h.deleteAll l = { h with freed := h.freed ++ l.filterMap id } := by
  induction l generalizing h with
  | nil => simp [deleteAll]
  | cons b l ih =>
    rw [deleteAll, List.foldl_cons, ← deleteAll, ih]
    cases b <;> simp [delete]

theorem Owns.freedOnce {bs : List (Option ℕ)} (ho : Owns h (bs.filterMap id)) : FreedOnce (h.deleteAll bs) := by
  intro b hb
  rw [deleteAll_eq] at hb ⊢
  have hcount := (List.perm_append_comm.trans ho).count_eq b
  rw [hcount]
  exact List.count_eq_one_of_mem List.nodup_range (List.mem_range.mpr hb)

end Heap

end FcgiAppserver.AllocationLedger
