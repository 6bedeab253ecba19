import Mathlib

/-!
Counters of 64 bits that do not leave their range.
-/

namespace FcgiAppserver.SizeCounters

theorem toNat_pred {n : UInt64} {k : ℕ} (h : n.toNat = k + 1) : (n - 1).toNat = k := by
  have hle : (1 : UInt64) ≤ n := by
    rw [UInt64.le_iff_toNat_le, h]
    simp
  rw [UInt64.toNat_sub_of_le _ _ hle, h]
  rfl

theorem toNat_succ {n : UInt64} (h : n.toNat + 1 < 2 ^ 64) : (n + 1).toNat = n.toNat + 1 := by
  rw [UInt64.toNat_add, UInt64.toNat_one, Nat.mod_eq_of_lt h]

theorem toNat_succ_of_lt {n m : UInt64} (h : n < m) : (n + 1).toNat = n.toNat + 1 := by
  have hlt := UInt64.lt_iff_toNat_lt.mp h
  have hm := m.toNat_lt
  apply toNat_succ
  omega

end FcgiAppserver.SizeCounters
