import Mathlib

/-!
Blocks of lines, each ended by two symbols, that an empty line closes.
-/

namespace FcgiAppserver.TerminatedLines

variable {α : Type*} {c l : α}

def line (c l : α) (s : List α) : List α := s ++ [c, l]

theorem length_lines (lines : List (List α)) : lines.length ≤ (lines.flatMap (line c l)).length := by
  induction lines with
  | nil => exact le_refl 0
  | cons s lines ih =>
    rw [List.flatMap_cons, List.length_append, List.length_cons, line, List.length_append]
    simp only [List.length_cons, List.length_nil]
    omega

variable [DecidableEq α]

/-- The text before the first `c` that `l` follows, and the text after the two. -/
def cutLine (c l : α) : List α → Option (List α × List α)
  | x :: y :: s =>
    if x = c ∧ y = l then some ([], s) else (cutLine c l (y :: s)).map fun cut => (x :: cut.1, cut.2)
  | _ => none

/-- The lines up to an empty one, at most `n` of them. -/
def readBlock (c l : α) : ℕ → List α → Option (List (List α) × List α)
  | 0, _ => none
  | n + 1, s => do
    let cut ← cutLine c l s
    if cut.1 = [] then return ([], cut.2)
    else
      let block ← readBlock c l n cut.2
      return (cut.1 :: block.1, block.2)

theorem cutLine_line {s : List α} (hs : c ∉ s) (rest : List α) : cutLine c l (line c l s ++ rest) = some (s, rest) := by
  induction s with
  | nil =>
    change cutLine c l (c :: l :: rest) = _
    rw [cutLine, if_pos ⟨rfl, rfl⟩]
  | cons x s ih =>
    rw [List.mem_cons, not_or] at hs
    obtain ⟨y, t, hy⟩ : ∃ y t, line c l s ++ rest = y :: t := by
      cases s with
      | nil => exact ⟨c, l :: rest, rfl⟩
      | cons z s => exact ⟨z, line c l s ++ rest, rfl⟩
    have hcut := ih hs.2
    rw [hy] at hcut
    have hcons : line c l (x :: s) ++ rest = x :: y :: t := congrArg (x :: ·) hy
    rw [hcons, cutLine, if_neg (fun h => hs.1 h.1.symm), hcut]
    rfl

theorem readBlock_lines {lines : List (List α)} (hlines : ∀ s ∈ lines, c ∉ s ∧ s ≠ []) {n : ℕ} (hn : lines.length < n)
    (rest : List α) : readBlock c l n (lines.flatMap (line c l) ++ line c l [] ++ rest) = some (lines, rest) := by
  induction lines generalizing n with
  | nil =>
    obtain ⟨n, rfl⟩ := Nat.exists_eq_succ_of_ne_zero (Nat.ne_of_gt hn)
    have hcut : cutLine c l (line c l [] ++ rest) = some ([], rest) := cutLine_line (List.not_mem_nil) rest
    rw [List.flatMap_nil, List.nil_append, readBlock, hcut]
    rfl
  | cons s lines ih =>
    obtain ⟨n, rfl⟩ := Nat.exists_eq_succ_of_ne_zero (Nat.ne_of_gt (Nat.zero_lt_of_lt hn))
    rw [List.forall_mem_cons] at hlines
    have hrest := ih hlines.2 (Nat.lt_of_succ_lt_succ hn)
    rw [List.append_assoc] at hrest
    rw [List.flatMap_cons, List.append_assoc, List.append_assoc, readBlock, cutLine_line hlines.1.1]
    simp [hrest, hlines.1.2]

end FcgiAppserver.TerminatedLines
