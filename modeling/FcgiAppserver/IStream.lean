import FcgiAppserver.ByteStrings

/-!
The part of the `std::istream` contract that unformatted reading rests on: `data` is what the stream
has still to deliver, `gcount` what the last call extracted.
-/

namespace FcgiAppserver

open ByteStrings

structure IStream where
  data : Bytes
  eofbit : Bool
  failbit : Bool
  gcount : ℕ

namespace IStream

def good (s : IStream) : Bool := !s.eofbit && !s.failbit

def refused (s : IStream) : IStream := { s with failbit := true, gcount := 0 }

def read (s : IStream) (n : ℕ) : Bytes × IStream :=
  if s.good then
    let short := decide (s.data.length < n)
    (s.data.take n, ⟨s.data.drop n, short, short, (s.data.take n).length⟩)
  else ([], s.refused)

def ignore (s : IStream) (n : ℕ) : IStream :=
  if s.good then ⟨s.data.drop n, decide (s.data.length < n), false, (s.data.take n).length⟩
  else s.refused

theorem read_good {s : IStream} {n : ℕ} (h : (s.read n).2.good = true) :
    s.good = true ∧ n ≤ s.data.length ∧ (s.read n).2.gcount = n ∧ (s.read n).2.data = s.data.drop n := by
  unfold read at h ⊢
  split at h
  · rename_i hg
    simp only [good, Bool.and_self, Bool.not_eq_true', decide_eq_false_iff_not, not_lt] at h
    simp [hg, h]
  · simp [refused, good] at h

theorem read_bytes {s : IStream} (n : ℕ) (h : s.good = true) :
    (s.read n).1 ++ (s.read n).2.data = s.data ∧ (s.read n).2.gcount = (s.read n).1.length ∧
      (s.read n).1.length ≤ n := by
  simp [read, h]

theorem read_short {s : IStream} {n : ℕ} (h : s.good = true) (hr : (s.read n).2.good = false) :
    (s.read n).2.data = [] := by
  rw [read, if_pos h] at hr ⊢
  simp only [good, Bool.and_self, Bool.not_eq_false', decide_eq_true_eq] at hr
  exact List.drop_eq_nil_of_le (by omega)

theorem ignore_gcount {s : IStream} {n : ℕ} (hn : 0 < n) (h : (s.ignore n).gcount = n) :
    (s.ignore n).data = s.data.drop n ∧ n ≤ s.data.length := by
  unfold ignore at h ⊢
  split at h
  · rename_i hg
    simp only [List.length_take] at h
    exact ⟨by simp [hg], by omega⟩
  · simp only [refused] at h
    omega

end IStream

end FcgiAppserver
