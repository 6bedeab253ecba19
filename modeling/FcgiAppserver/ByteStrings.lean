import Mathlib

/-!
Byte strings as `std::string` and the C string functions see them. A C string ends at its first
NUL or at the end of the list.
-/

namespace FcgiAppserver.ByteStrings

abbrev Byte := UInt8
abbrev Bytes := List Byte

-- decided along the string: the instance found otherwise goes through all 256 bytes
instance (p : Byte → Prop) [DecidablePred p] (s : Bytes) : Decidable (∀ b ∈ s, p b) := List.decidableBAll p s

/-- `std::string::npos`, the largest value of a 64-bit `size_t`. -/
def npos : ℕ := 2 ^ 64 - 1

def sizeAdd (a b : ℕ) : ℕ := (a + b) % 2 ^ 64

def sizeSub (a b : ℕ) : ℕ := (a + 2 ^ 64 - b) % 2 ^ 64

structure StdString where
  bytes : Bytes
  -- max_size() lies below npos
  length_lt : bytes.length < npos

structure OutOfRange where
  pos : ℕ
  size : ℕ
deriving DecidableEq, Repr

def ascii (s : String) : Bytes := s.toList.map (fun c => c.toNat.toUInt8)

def findFirstOf (s : Bytes) (c : Byte) (pos : ℕ) : ℕ :=
  match (s.drop pos).idxOf? c with
  | some i => pos + i
  | none => npos

/-- The `std::string(s, pos, n)` constructor and `s.substr(pos, n)`. -/
def substr (s : Bytes) (pos n : ℕ) : Except OutOfRange Bytes :=
  if pos ≤ s.length then .ok ((s.drop pos).take n) else .error ⟨pos, s.length⟩

def indexOf? (pat : Bytes) : Bytes → Option ℕ
  | [] => if pat = [] then some 0 else none
  | b :: s => if pat.isPrefixOf (b :: s) then some 0 else (indexOf? pat s).map (· + 1)

def find (s pat : Bytes) (pos : ℕ) : ℕ :=
  if pos ≤ s.length then
    match indexOf? pat (s.drop pos) with
    | some i => pos + i
    | none => npos
  else npos

def cString (s : Bytes) : Bytes := s.takeWhile (· != 0)

def strchr (s : Bytes) (c : Byte) : Option ℕ := (cString s).idxOf? c

def strstr (s pat : Bytes) : Option ℕ := indexOf? pat (cString s)

def strspn (s accept : Bytes) : ℕ := ((cString s).takeWhile (fun b => accept.contains b)).length

def strcspn (s reject : Bytes) : ℕ := ((cString s).takeWhile (fun b => !reject.contains b)).length

def toLower (b : Byte) : Byte := if 65 ≤ b ∧ b ≤ 90 then b + 32 else b

def strncasecmp : Bytes → Bytes → ℕ → ℤ
  | _, _, 0 => 0
  | s, t, n + 1 =>
    let a := toLower (s.headD 0)
    let b := toLower (t.headD 0)
    if a ≠ b then (a.toNat : ℤ) - b.toNat
    else if a = 0 then 0
    else strncasecmp s.tail t.tail n

def isSpace (b : Byte) : Bool := b == 32 || (9 ≤ b && b ≤ 13)

def isDigit (b : Byte) : Bool := 48 ≤ b && b ≤ 57

/-- `strtol(s, NULL, 10)` for a 64-bit `long`. -/
def strtol (s : Bytes) : ℤ :=
  let s := (cString s).dropWhile isSpace
  let digits := if s.head? = some 43 ∨ s.head? = some 45 then s.tail else s
  let value : ℕ := (digits.takeWhile isDigit).foldl (fun n b => 10 * n + (b.toNat - 48)) 0
  if s.head? = some 45 then max (-2 ^ 63) (-value) else min (2 ^ 63 - 1) value

example : strtol (ascii " -12x") = -12 ∧ strtol (ascii "+99999999999999999999") = 2 ^ 63 - 1 ∧
    strtol (ascii "x1") = 0 := by decide

theorem strtol_bounds (s : Bytes) : -2 ^ 63 ≤ strtol s ∧ strtol s < 2 ^ 63 := by
  unfold strtol
  dsimp only
  split <;> omega

theorem sizeSub_of_le {a b : ℕ} (hb : b ≤ a) (ha : a < 2 ^ 64) : sizeSub a b = a - b := by
  rw [sizeSub, show a + 2 ^ 64 - b = (a - b) + 2 ^ 64 by omega, Nat.add_mod_right,
    Nat.mod_eq_of_lt (by omega)]

theorem substr_of_le {s : Bytes} {pos : ℕ} (n : ℕ) (h : pos ≤ s.length) :
    substr s pos n = .ok ((s.drop pos).take n) := if_pos h

theorem ne_of_not_mem {s : Bytes} {c : Byte} (h : c ∉ s) : ∀ b ∈ s, (b != c) = true := by
  intro b hb
  simp only [bne_iff_ne]
  rintro rfl
  exact h hb

theorem takeWhile_ne_append {s : Bytes} {c : Byte} (t : Bytes) (h : c ∉ s) :
    (s ++ c :: t).takeWhile (· != c) = s := by
  simp [List.takeWhile_append_of_pos (ne_of_not_mem h)]

theorem dropWhile_ne_append {s : Bytes} {c : Byte} (t : Bytes) (h : c ∉ s) :
    (s ++ c :: t).dropWhile (· != c) = c :: t := by
  simp [List.dropWhile_append_of_pos (ne_of_not_mem h)]

theorem not_mem_takeWhile_ne (s : Bytes) (c : Byte) : c ∉ s.takeWhile (· != c) := by
  intro hm
  simpa using List.mem_takeWhile_imp hm

theorem cut_at_first {s : Bytes} {c : Byte} (h : c ∈ s) :
    s = s.takeWhile (· != c) ++ c :: (s.dropWhile (· != c)).tail := by
  obtain ⟨seg, rest, hs, hseg⟩ := List.eq_append_cons_of_mem h
  rw [hs, takeWhile_ne_append rest hseg, dropWhile_ne_append rest hseg]
  rfl

theorem findFirstOf_of_not_mem {s : Bytes} {c : Byte} {pos : ℕ} (h : c ∉ s.drop pos) :
    findFirstOf s c pos = npos := by
  simp [findFirstOf, List.idxOf?_eq_none_iff.mpr h]

theorem findFirstOf_of_mem {s : Bytes} {c : Byte} {pos : ℕ} (h : c ∈ s.drop pos) :
    ∃ seg rest, s.drop pos = seg ++ c :: rest ∧ c ∉ seg ∧ findFirstOf s c pos = pos + seg.length := by
  obtain ⟨i, hi⟩ := Option.isSome_iff_exists.mp (by simpa using h : ((s.drop pos).idxOf? c).isSome)
  obtain ⟨hlt, hc, hfirst⟩ := List.idxOf?_eq_some_iff.mp hi
  refine ⟨(s.drop pos).take i, (s.drop pos).drop (i + 1), ?_, ?_, ?_⟩
  · have hcons := List.drop_eq_getElem_cons hlt
    rw [hc] at hcons
    rw [← hcons, List.take_append_drop]
  · intro hm
    obtain ⟨j, hj, hjc⟩ := List.getElem_of_mem hm
    simp only [List.length_take] at hj
    exact hfirst j (by omega) (by simpa using hjc)
  · simp only [findFirstOf, hi, List.length_take]
    omega

theorem findFirstOf_bounds {s : Bytes} {c : Byte} {pos : ℕ} (h : findFirstOf s c pos ≠ npos) :
    pos ≤ findFirstOf s c pos ∧ findFirstOf s c pos < s.length := by
  by_cases hm : c ∈ s.drop pos
  · obtain ⟨seg, rest, hs, -, hf⟩ := findFirstOf_of_mem hm
    have hl := congrArg List.length hs
    simp only [List.length_drop, List.length_append, List.length_cons] at hl
    omega
  · exact absurd (findFirstOf_of_not_mem hm) h

theorem strncasecmp_append (s t t' : Bytes) : strncasecmp (s ++ t) (s ++ t') s.length = 0 := by
  induction s with
  | nil => rfl
  | cons b s ih =>
    simp only [List.length_cons, strncasecmp, List.cons_append, List.headD_cons, ne_eq, not_true_eq_false,
      if_false, List.tail_cons, ih, ite_self]

theorem strncasecmp_prefix (s t : Bytes) : strncasecmp s (s ++ t) s.length = 0 := by
  simpa using strncasecmp_append s [] t

theorem strncasecmp_of_prefix (s t : Bytes) : strncasecmp (s ++ t) s s.length = 0 := by
  simpa using strncasecmp_append s t []

theorem indexOf?_append {x : Byte} {p u : Bytes} (t : Bytes) (hp : p.head? = some x) (hu : x ∉ u) :
    indexOf? p (u ++ (p ++ t)) = some u.length := by
  obtain ⟨xs, rfl⟩ := List.head?_eq_some_iff.mp hp
  induction u with
  | nil =>
    have hpre : (x :: xs).isPrefixOf (x :: xs ++ t) = true :=
      List.isPrefixOf_iff_prefix.mpr (List.prefix_append (x :: xs) t)
    simp only [List.cons_append] at hpre
    simp [indexOf?, hpre]
  | cons b u ih =>
    simp only [List.mem_cons, not_or] at hu
    have hne : (x :: xs).isPrefixOf (b :: (u ++ (x :: xs ++ t))) = false := by
      simp [List.isPrefixOf, hu.1]
    rw [List.cons_append, indexOf?, hne, ih hu.2]
    simp

theorem cString_of_ne_zero {s : Bytes} (h : ∀ b ∈ s, b ≠ 0) : cString s = s := by
  rw [cString, List.takeWhile_eq_self_iff]
  simpa using h

theorem idxOf?_append {c : Byte} {u : Bytes} (t : Bytes) (hu : c ∉ u) :
    (u ++ c :: t).idxOf? c = some u.length := by
  induction u with
  | nil => simp [List.idxOf?_cons]
  | cons b u ih =>
    simp only [List.mem_cons, not_or] at hu
    simp [List.idxOf?_cons, Ne.symm hu.1, ih hu.2]

theorem strcspn_append {u reject : Bytes} {c : Byte} (t : Bytes) (hz : ∀ b ∈ u ++ c :: t, b ≠ 0)
    (hu : ∀ b ∈ u, b ∉ reject) (hc : c ∈ reject) : strcspn (u ++ c :: t) reject = u.length := by
  rw [strcspn, cString_of_ne_zero hz, List.takeWhile_append_of_pos (by simpa using hu)]
  simp [hc]

theorem strcspn_self {u reject : Bytes} (hz : ∀ b ∈ u, b ≠ 0) (hu : ∀ b ∈ u, b ∉ reject) :
    strcspn u reject = u.length := by
  rw [strcspn, cString_of_ne_zero hz, List.takeWhile_eq_self_iff.mpr (by simpa using hu)]

theorem cString_length_le (s : Bytes) : (cString s).length ≤ s.length := (List.takeWhile_sublist _).length_le

theorem strspn_le (s accept : Bytes) : strspn s accept ≤ s.length :=
  (List.takeWhile_sublist _).length_le.trans (cString_length_le s)

theorem strcspn_le (s reject : Bytes) : strcspn s reject ≤ s.length :=
  (List.takeWhile_sublist _).length_le.trans (cString_length_le s)

theorem mem_take_strcspn {s reject : Bytes} {b : Byte} (h : b ∈ s.take (strcspn s reject)) : b ≠ 0 ∧ b ∉ reject := by
  have hprefix : (cString s).takeWhile (fun b => !reject.contains b) <+: s :=
    (List.takeWhile_prefix _).trans (List.takeWhile_prefix _)
  have htake : s.take (strcspn s reject) = (cString s).takeWhile (fun b => !reject.contains b) :=
    (List.prefix_iff_eq_take.mp hprefix).symm
  rw [htake] at h
  have hzero := List.mem_takeWhile_imp ((List.takeWhile_prefix _).subset h)
  have hplain := List.mem_takeWhile_imp h
  exact ⟨by simpa using hzero, by simpa using hplain⟩

theorem indexOf?_some {pat s : Bytes} {i : ℕ} (h : indexOf? pat s = some i) :
    (∃ u t, s = u ++ (pat ++ t) ∧ u.length = i) ∧ ∀ j < i, ¬ pat <+: s.drop j := by
  induction s generalizing i with
  | nil =>
    rw [indexOf?] at h
    split at h
    · rename_i hpat
      cases h
      exact ⟨⟨[], [], by simp [hpat], rfl⟩, by omega⟩
    · cases h
  | cons b s ih =>
    rw [indexOf?] at h
    split at h
    · rename_i hpre
      cases h
      obtain ⟨t, ht⟩ := List.isPrefixOf_iff_prefix.mp hpre
      exact ⟨⟨[], t, ht.symm, rfl⟩, by omega⟩
    · rename_i hpre
      obtain ⟨j, hj, rfl⟩ := Option.map_eq_some_iff.mp h
      obtain ⟨⟨u, t, hs, hu⟩, hfirst⟩ := ih hj
      refine ⟨⟨b :: u, t, by rw [hs, List.cons_append], by simp [hu]⟩, ?_⟩
      intro k hk
      cases k with
      | zero => simpa using hpre
      | succ k => exact hfirst k (by omega)

theorem indexOf?_none {pat s : Bytes} (h : indexOf? pat s = none) (j : ℕ) : ¬ pat <+: s.drop j := by
  induction s generalizing j with
  | nil =>
    rw [indexOf?] at h
    split at h
    · cases h
    · rename_i hpat
      rw [List.drop_nil, List.prefix_nil]
      exact hpat
  | cons b s ih =>
    rw [indexOf?] at h
    split at h
    · cases h
    · rename_i hpre
      cases j with
      | zero => simpa using hpre
      | succ j => exact ih (Option.map_eq_none_iff.mp h) j

theorem first_occurrence {pat s : Bytes} (h : pat <:+: s) :
    ∃ u t, s = u ++ (pat ++ t) ∧ ∀ j < u.length, ¬ pat <+: s.drop j := by
  cases hfound : indexOf? pat s with
  | none =>
    obtain ⟨u, t, rfl⟩ := h
    have hstands : pat <+: (u ++ pat ++ t).drop u.length := by
      rw [List.append_assoc, List.drop_left]
      exact List.prefix_append _ _
    exact absurd hstands (indexOf?_none hfound u.length)
  | some i =>
    obtain ⟨⟨u, t, hs, rfl⟩, hfirst⟩ := indexOf?_some hfound
    exact ⟨u, t, hs, hfirst⟩

theorem indexOf?_absent {pat s : Bytes} (h : ¬ pat <:+: s) : indexOf? pat s = none := by
  cases hfound : indexOf? pat s with
  | none => rfl
  | some i =>
    obtain ⟨⟨u, t, hs, -⟩, -⟩ := indexOf?_some hfound
    rw [← List.append_assoc] at hs
    exact absurd ⟨u, t, hs.symm⟩ h

theorem indexOf?_drop {pat s : Bytes} {n : ℕ} (hn : n ≤ s.length) (h : ∀ j < n, ¬ pat <+: s.drop j) :
    indexOf? pat s = (indexOf? pat (s.drop n)).map (· + n) := by
  induction n generalizing s with
  | zero => simp
  | succ n ih =>
    cases s with
    | nil => simp at hn
    | cons b s =>
      have hhead : pat.isPrefixOf (b :: s) = false := by
        rw [Bool.eq_false_iff, ne_eq, List.isPrefixOf_iff_prefix]
        exact h 0 (Nat.succ_pos n)
      have hrest := ih (s := s) (Nat.le_of_succ_le_succ hn) (fun j hj => h (j + 1) (by omega))
      rw [indexOf?, hhead, hrest, List.drop_succ_cons, Option.map_map]
      rfl

theorem suffix_after {s t : Bytes} {c : Byte} (u : Bytes) (hc : c ∉ s) : s <:+ u ++ c :: t ↔ s <:+ t := by
  have htail : c :: t <:+ u ++ c :: t := List.suffix_append u (c :: t)
  constructor
  · intro h
    by_cases hlen : s.length ≤ t.length
    · exact List.suffix_of_suffix_length_le h ((List.suffix_cons c t).trans htail) hlen
    · have hlong : c :: t <:+ s := List.suffix_of_suffix_length_le htail h (by rw [List.length_cons]; omega)
      exact absurd (hlong.subset List.mem_cons_self) hc
  · intro h
    exact (h.trans (List.suffix_cons c t)).trans htail

/-- A pattern that ends in its only `q` is not found before a `q` that its other bytes do not precede. -/
theorem indexOf?_skip {pat s : Bytes} {q : Byte} (t : Bytes) (hpat : q ∉ pat) (hs : q ∉ s) (hend : ¬ pat <:+ s) :
    indexOf? (pat ++ [q]) (s ++ q :: t) = (indexOf? (pat ++ [q]) t).map (· + (s.length + 1)) := by
  have hlater : (s ++ q :: t).drop (s.length + 1) = t := by simp
  rw [indexOf?_drop (n := s.length + 1) (by simp), hlater]
  rintro j hj ⟨w, hw⟩
  rw [List.drop_append_of_le_length (by omega), List.append_assoc, List.singleton_append] at hw
  have hq : q ∉ s.drop j := fun h => hs (List.mem_of_mem_drop h)
  have heq := congrArg (List.takeWhile (· != q)) hw
  rw [takeWhile_ne_append w hpat, takeWhile_ne_append t hq] at heq
  exact hend (heq ▸ List.drop_suffix j s)

theorem indexOf?_of_prefix {pat s : Bytes} (h : pat <+: s) : indexOf? pat s = some 0 := by
  cases s with
  | nil => rw [indexOf?, if_pos (List.prefix_nil.mp h)]
  | cons b s => rw [indexOf?, if_pos (List.isPrefixOf_iff_prefix.mpr h)]

theorem indexOf?_hit {pat u : Bytes} {q : Byte} (t : Bytes) (hpat : q ∉ pat) (hu : q ∉ u) :
    indexOf? (pat ++ [q]) (u ++ (pat ++ q :: t)) = some u.length := by
  have hlater : pat ++ [q] <+: (u ++ (pat ++ q :: t)).drop u.length := ⟨t, by simp⟩
  rw [indexOf?_drop (n := u.length) (by simp), indexOf?_of_prefix hlater]
  · rw [Option.map_some, Nat.zero_add]
  · rintro j hj ⟨w, hw⟩
    rw [List.drop_append_of_le_length (by omega), List.append_assoc, List.singleton_append, ← List.append_assoc] at hw
    have hq : q ∉ u.drop j ++ pat := by
      rw [List.mem_append]
      exact fun h => h.elim (fun h => hu (List.mem_of_mem_drop h)) hpat
    have heq := congrArg (List.takeWhile (· != q)) hw
    rw [takeWhile_ne_append w hpat, takeWhile_ne_append t hq] at heq
    have hlen := congrArg List.length heq
    rw [List.length_append, List.length_drop] at hlen
    omega

theorem strstr_le {s pat : Bytes} {i : ℕ} (h : strstr s pat = some i) : i + pat.length ≤ s.length := by
  obtain ⟨⟨u, t, hs, hu⟩, -⟩ := indexOf?_some h
  have hlen := cString_length_le s
  rw [hs, List.length_append, List.length_append] at hlen
  omega

theorem toLower_ne_zero {b : Byte} (h : b ≠ 0) : toLower b ≠ 0 := by
  unfold toLower
  split
  · rename_i hb
    intro hz
    have h1 := UInt8.le_iff_toNat_le.mp hb.1
    have h2 := UInt8.le_iff_toNat_le.mp hb.2
    have h3 := congrArg UInt8.toNat hz
    simp only [UInt8.toNat_add] at h1 h2 h3
    simp at h1 h2 h3
    omega
  · exact h

theorem strncasecmp_cons {b : Byte} {s t : Bytes} {n : ℕ} (hb : b ≠ 0) (h : strncasecmp (b :: s) t (n + 1) = 0) :
    toLower b = toLower (t.headD 0) ∧ strncasecmp s t.tail n = 0 := by
  change (if toLower b ≠ toLower (t.headD 0) then ((toLower b).toNat : ℤ) - (toLower (t.headD 0)).toNat
    else if toLower b = 0 then 0 else strncasecmp s t.tail n) = 0 at h
  rw [if_neg (toLower_ne_zero hb)] at h
  split at h
  · rename_i hne
    exact absurd (UInt8.toNat_inj.mp (Int.ofNat_inj.mp (sub_eq_zero.mp h))) hne
  · rename_i heq
    exact ⟨not_not.mp heq, h⟩

theorem strncasecmp_le {s t : Bytes} (hs : ∀ b ∈ s, b ≠ 0) (h : strncasecmp s t s.length = 0) :
    s.length ≤ t.length := by
  induction s generalizing t with
  | nil => exact Nat.zero_le _
  | cons b s ih =>
    have hb := hs b List.mem_cons_self
    obtain ⟨heq, hrest⟩ := strncasecmp_cons hb h
    cases t with
    | nil => exact absurd heq (toLower_ne_zero hb)
    | cons c t => exact Nat.succ_le_succ (ih (fun b hb => hs b (List.mem_cons_of_mem _ hb)) hrest)

end FcgiAppserver.ByteStrings
