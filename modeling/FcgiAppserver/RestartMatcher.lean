import Mathlib

/-!
Matching a pattern without a failure table. When the first symbol of the pattern does not recur in it,
starting over at a mismatch loses nothing.
-/

namespace FcgiAppserver.RestartMatcher

variable {α : Type*}

def restart [DecidableEq α] (pat : List α) (m : ℕ) (c : α) : ℕ :=
  if pat[m]? = some c then m + 1 else if pat.head? = some c then 1 else 0

/-- `m` is the length of the longest suffix of the text that is a prefix of the pattern. -/
structure Matched (pat text : List α) (m : ℕ) : Prop where
  le_length : m ≤ pat.length
  suffix : pat.take m <:+ text
  longest : ∀ k ≤ pat.length, pat.take k <:+ text → k ≤ m

theorem matched_nil (pat : List α) : Matched pat [] 0 where
  le_length := Nat.zero_le _
  suffix := by simp
  longest k hk hs := by
    have hlen := congrArg List.length (List.suffix_nil.mp hs)
    simp only [List.length_take, List.length_nil] at hlen
    omega

theorem Matched.length_iff {pat text : List α} {m : ℕ} (h : Matched pat text m) :
    m = pat.length ↔ pat <:+ text := by
  constructor
  · intro hm
    simpa [hm] using h.suffix
  · intro hs
    exact Nat.le_antisymm h.le_length (h.longest pat.length (le_refl _) (by simpa using hs))

theorem suffix_concat {a b : List α} {x y : α} : a ++ [x] <:+ b ++ [y] ↔ x = y ∧ a <:+ b := by
  constructor
  · rintro ⟨t, ht⟩
    rw [← List.append_assoc] at ht
    obtain ⟨hb, hy⟩ := List.append_inj' ht rfl
    exact ⟨by simpa using hy, t, hb⟩
  · rintro ⟨rfl, t, rfl⟩
    exact ⟨t, by simp⟩

theorem take_succ_suffix {pat text : List α} {k : ℕ} {c : α} (hk : k < pat.length) :
    pat.take (k + 1) <:+ text ++ [c] ↔ pat[k]? = some c ∧ pat.take k <:+ text := by
  rw [List.take_succ_eq_append_getElem hk, suffix_concat, List.getElem?_eq_getElem hk, Option.some.injEq]

theorem prefix_lengths_eq {x : α} {xs text : List α} (hx : x ∉ xs) {k m : ℕ} (hk : 0 < k) (hkm : k ≤ m)
    (hm : m ≤ (x :: xs).length) (hks : (x :: xs).take k <:+ text) (hms : (x :: xs).take m <:+ text) :
    k = m := by
  have hlen : ((x :: xs).take k).length ≤ ((x :: xs).take m).length := by
    simp only [List.length_take]; omega
  have hsuf := List.suffix_of_suffix_length_le hks hms hlen
  obtain ⟨k, rfl⟩ : ∃ j, k = j + 1 := ⟨k - 1, by omega⟩
  obtain ⟨m, rfl⟩ : ∃ j, m = j + 1 := ⟨m - 1, by omega⟩
  rw [List.take_succ_cons, List.take_succ_cons] at hsuf
  rcases List.suffix_cons_iff.mp hsuf with heq | hin
  · have hl := congrArg List.length heq
    simp only [List.length_cons, List.length_take] at hl hm
    omega
  · exact absurd (List.mem_of_mem_take (hin.subset List.mem_cons_self)) hx

theorem Matched.of_suffix {x : α} {xs text : List α} (hx : x ∉ xs) {m : ℕ} (hm : 0 < m) (hle : m ≤ (x :: xs).length)
    (hs : (x :: xs).take m <:+ text) : Matched (x :: xs) text m where
  le_length := hle
  suffix := hs
  longest k hk hks := by
    by_contra hlt
    have heq := prefix_lengths_eq hx hm (Nat.le_of_not_le hlt) hk hs hks
    omega

theorem Matched.step [DecidableEq α] {x c : α} {xs text : List α} {m : ℕ} (hx : x ∉ xs)
    (h : Matched (x :: xs) text m) :
    Matched (x :: xs) (text ++ [c]) (restart (x :: xs) m c) := by
  have hgrow : ∀ k, k + 1 ≤ (x :: xs).length → (x :: xs).take (k + 1) <:+ text ++ [c] →
      (x :: xs)[k]? = some c ∧ (k = 0 ∨ k = m) := by
    intro k hk hs
    obtain ⟨hc, hs⟩ := (take_succ_suffix (by omega)).mp hs
    refine ⟨hc, ?_⟩
    by_cases hz : k = 0
    · exact Or.inl hz
    · exact Or.inr (prefix_lengths_eq hx (by omega) (h.longest k (by omega) hs) h.le_length hs h.suffix)
  unfold restart
  split
  · rename_i hc
    have hlt : m < (x :: xs).length := (List.getElem?_eq_some_iff.mp hc).1
    refine ⟨hlt, (take_succ_suffix hlt).mpr ⟨hc, h.suffix⟩, ?_⟩
    intro k hk hs
    cases k with
    | zero => omega
    | succ k =>
      have := (hgrow k hk hs).2
      omega
  · rename_i hne
    split
    · rename_i hhead
      simp only [List.head?_cons, Option.some.injEq] at hhead
      refine ⟨by simp, by simp [hhead], ?_⟩
      intro k hk hs
      cases k with
      | zero => omega
      | succ k =>
        obtain ⟨hc, rfl | rfl⟩ := hgrow k hk hs
        · omega
        · exact absurd hc hne
    · rename_i hhead
      refine ⟨by omega, by simp, ?_⟩
      intro k hk hs
      cases k with
      | zero => omega
      | succ k =>
        obtain ⟨hc, rfl | rfl⟩ := hgrow k hk hs
        · exact absurd hc hhead
        · exact absurd hc hne

theorem overlap_symbol {x d v t : List α} (hp : x ++ d <+: v ++ t) (hx : x.length ≤ v.length)
    (hd : v.length < x.length + d.length) : t[0]? = d[v.length - x.length]? := by
  obtain ⟨y, hy⟩ := hp
  have hget := congrArg (fun l => l[v.length]?) hy
  simp only [List.getElem?_append_right (le_refl v.length), Nat.sub_self] at hget
  rw [← hget, List.getElem?_append_left (by simpa using hd), List.getElem?_append_right hx]

/-- A text that the pattern does not begin leaves it at some symbol. -/
theorem first_mismatch [DecidableEq α] {p t : List α} (h : ¬ p <+: t) :
    t <+: p ∨ ∃ k c rest, k < p.length ∧ t = p.take k ++ c :: rest ∧ p[k]? ≠ some c := by
  induction p generalizing t with
  | nil => exact absurd (List.nil_prefix) h
  | cons a p ih =>
    cases t with
    | nil => exact Or.inl List.nil_prefix
    | cons c t =>
      by_cases hc : a = c
      · subst hc
        rw [List.cons_prefix_cons] at h
        rcases ih (fun hp => h ⟨rfl, hp⟩) with hpre | ⟨k, c, rest, hk, rfl, hne⟩
        · exact Or.inl (List.cons_prefix_cons.mpr ⟨rfl, hpre⟩)
        · exact Or.inr ⟨k + 1, c, rest, Nat.succ_lt_succ hk, rfl, hne⟩
      · exact Or.inr ⟨0, c, t, Nat.zero_lt_succ _, rfl, by simpa using hc⟩

end FcgiAppserver.RestartMatcher
