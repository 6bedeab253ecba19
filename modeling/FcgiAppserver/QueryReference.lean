import FcgiAppserver.QueryArgs

namespace FcgiAppserver.QueryArgs

open ByteStrings FirstWins

def cutArg (seg : Bytes) : Bytes × Bytes :=
  (seg.takeWhile (· != equals), (seg.dropWhile (· != equals)).tail)

def argsOf (segs : List Bytes) : List (Bytes × Bytes) := (segs.filter (· ≠ [])).map cutArg

/-- What a query string means: cut at every `'&'`, then each non-empty piece at its first `'='`. -/
def referenceParse (q : Bytes) : Params := firstWins (argsOf (q.splitOn ampersand))

def joinArgs (args : List (Bytes × Bytes)) : Bytes :=
  [ampersand].intercalate (args.map (fun p => p.1 ++ equals :: p.2))

def firstSegment (q : Bytes) : Bytes := q.takeWhile (· != ampersand)

def afterFirst (q : Bytes) : Bytes := (q.dropWhile (· != ampersand)).tail

@[simp] theorem argsOf_nil : argsOf [] = [] := rfl

@[simp] theorem argsOf_cons_nil (segs : List Bytes) : argsOf ([] :: segs) = argsOf segs := by
  simp [argsOf]

@[simp] theorem argsOf_cons {seg : Bytes} (segs : List Bytes) (h : seg ≠ []) :
    argsOf (seg :: segs) = cutArg seg :: argsOf segs := by
  simp [argsOf, h]

theorem argsOf_append (segs segs' : List Bytes) : argsOf (segs ++ segs') = argsOf segs ++ argsOf segs' := by
  simp [argsOf]

theorem cutArg_append {name : Bytes} (value : Bytes) (h : equals ∉ name) :
    cutArg (name ++ equals :: value) = (name, value) := by
  simp [cutArg, takeWhile_ne_append value h, dropWhile_ne_append value h]

theorem cutArg_of_not_mem {seg : Bytes} (h : equals ∉ seg) : cutArg seg = (seg, []) := by
  have hne := ne_of_not_mem h
  simp [cutArg, List.takeWhile_eq_self_iff.mpr hne, List.dropWhile_eq_nil_iff.mpr hne]

theorem insertArg_eq (params : Params) (arg : Bytes) (first last : ℕ)
    (h : arg.length ≤ sizeSub last first) :
    insertArg params arg first last = .ok (insertAll params (argsOf [arg])) := by
  have hlt : sizeSub last first < 2 ^ 64 := Nat.mod_lt _ (by norm_num)
  by_cases hm : equals ∈ arg
  · obtain ⟨name, value, harg, hname, hdelim⟩ := @findFirstOf_of_mem arg equals 0 hm
    rw [List.drop_zero] at harg
    rw [Nat.zero_add] at hdelim
    have hlen : arg.length = name.length + value.length + 1 := by simp [harg]; omega
    have hfound : name.length ≠ npos := by simp only [npos]; omega
    have hne : arg ≠ [] := by simp [harg]
    have hcount : value.take (sizeSub (sizeSub last first) name.length) = value := by
      rw [sizeSub_of_le (by omega) hlt]
      exact List.take_of_length_le (by omega)
    have hn : substr arg 0 name.length = .ok name := by
      simp [substr, harg]
    have hv : substr arg (name.length + 1) (sizeSub (sizeSub last first) name.length) = .ok value := by
      rw [substr_of_le _ (by omega), harg, List.drop_append, List.drop_of_length_le (by omega)]
      simp [hcount]
    simp only [insertArg, hdelim, hfound, ne_eq, not_false_eq_true, if_true, hn, hv]
    rw [argsOf_cons [] hne, harg, cutArg_append value hname]
    rfl
  · have hnot : findFirstOf arg equals 0 = npos := findFirstOf_of_not_mem (by simpa using hm)
    cases arg with
    | nil => simp [insertArg, hnot]; rfl
    | cons b arg =>
      simp only [insertArg, hnot, ne_eq, not_true_eq_false, if_false]
      rw [argsOf_cons [] (by simp), cutArg_of_not_mem hm]
      rfl

theorem drop_of_append {s seg rest : Bytes} {c : Byte} {pos : ℕ} (h : s.drop pos = seg ++ c :: rest) :
    s.drop (pos + seg.length + 1) = rest := by
  rw [Nat.add_assoc, ← List.drop_drop, h]
  simp

theorem loop_turn (q : StdString) (c : Byte) (first : ℕ) (params : Params)
    (hc : c ∈ q.bytes.drop first) :
    ∃ seg rest last, q.bytes.drop first = seg ++ c :: rest ∧ c ∉ seg ∧
      q.bytes.drop (last + 1) = rest ∧ last + 1 ≤ q.bytes.length ∧ first ≤ last ∧
      parseQueryArgsLoop q.bytes first (findFirstOf q.bytes c first) params =
        parseQueryArgsLoop q.bytes (last + 1) (findFirstOf q.bytes letterC (last + 1))
          (insertAll params (argsOf [seg])) := by
  obtain ⟨seg, rest, hq, hseg, hlast⟩ := findFirstOf_of_mem hc
  have hfit := q.length_lt
  have hlen := congrArg List.length hq
  simp only [List.length_drop, List.length_append, List.length_cons] at hlen
  simp only [npos] at hfit
  refine ⟨seg, rest, first + seg.length, hq, hseg, drop_of_append hq, by omega, by omega, ?_⟩
  have hne : first + seg.length ≠ npos := by simp only [npos]; omega
  have hsub : sizeSub (first + seg.length) first = seg.length := by
    rw [sizeSub_of_le (by omega) (by omega)]
    omega
  have harg : substr q.bytes first (sizeSub (first + seg.length) first) = .ok seg := by
    rw [substr_of_le _ (by omega), hq, hsub, List.take_left']
    rfl
  have hins := insertArg_eq params seg first (first + seg.length) (by omega)
  rw [hlast, parseQueryArgsLoop]
  simp only [hne, ne_eq, not_false_eq_true, if_true, harg]
  change (insertArg params seg first (first + seg.length)).bind _ = _
  rw [hins]
  rfl

theorem loop_last (q : StdString) (c : Byte) (first : ℕ) (params : Params)
    (hfirst : first ≤ q.bytes.length) (hc : c ∉ q.bytes.drop first) :
    parseQueryArgsLoop q.bytes first (findFirstOf q.bytes c first) params =
      .ok (insertAll params (argsOf [q.bytes.drop first])) := by
  have hfit := q.length_lt
  have hrest : substr q.bytes first npos = .ok (q.bytes.drop first) := by
    rw [substr_of_le _ hfirst, List.take_of_length_le]
    simp only [List.length_drop]
    omega
  have hins := insertArg_eq params (q.bytes.drop first) first npos (by
    rw [sizeSub_of_le (by omega) (by simp [npos]), List.length_drop]
    omega)
  rw [findFirstOf_of_not_mem hc, parseQueryArgsLoop]
  simp only [ne_eq, not_true_eq_false, if_false, hrest]
  exact hins

theorem loop_eq (q : StdString) (first : ℕ) (params : Params) (hfirst : first ≤ q.bytes.length) :
    parseQueryArgsLoop q.bytes first (findFirstOf q.bytes letterC first) params =
      .ok (insertAll params (argsOf ((q.bytes.drop first).splitOn letterC))) := by
  by_cases hc : letterC ∈ q.bytes.drop first
  · obtain ⟨seg, rest, last, hq, hseg, hrest, hle, hlt, hturn⟩ := loop_turn q letterC first params hc
    rw [hturn, loop_eq q (last + 1) _ hle, hq, hrest,
      List.splitOn_append_cons_self_of_not_mem hseg, ← insertAll_append, ← argsOf_append]
    rfl
  · rw [loop_last q letterC first params hfirst hc, List.splitOn_eq_singleton hc]
termination_by q.bytes.length - first
decreasing_by omega

theorem parseQueryArgs_single (q : StdString) (h : ampersand ∉ q.bytes) :
    parseQueryArgs q.bytes = .ok (firstWins (argsOf [q.bytes])) :=
  loop_last q ampersand 0 ∅ (Nat.zero_le _) h

theorem parseQueryArgs_cut (q : StdString) (h : ampersand ∈ q.bytes) :
    parseQueryArgs q.bytes = .ok (firstWins
      (argsOf (firstSegment q.bytes :: (afterFirst q.bytes).splitOn letterC))) := by
  obtain ⟨seg, rest, last, hq, hseg, hrest, hle, -, hturn⟩ := loop_turn q ampersand 0 ∅ (by simpa using h)
  rw [List.drop_zero] at hq
  have hs : firstSegment q.bytes = seg := by rw [hq]; exact takeWhile_ne_append rest hseg
  have ht : afterFirst q.bytes = rest := by rw [hq, afterFirst, dropWhile_ne_append rest hseg]; rfl
  rw [parseQueryArgs, hturn, loop_eq q (last + 1) _ hle, hrest, hs, ht, ← insertAll_append, ← argsOf_append]
  rfl

theorem referenceParse_cut {q : Bytes} (h : ampersand ∈ q) :
    referenceParse q = firstWins (argsOf (firstSegment q :: (afterFirst q).splitOn ampersand)) := by
  rw [referenceParse]
  conv_lhs => rw [cut_at_first h]
  rw [List.splitOn_append_cons_self_of_not_mem (not_mem_takeWhile_ne q ampersand)]
  rfl

/-- When the wrong separator does no harm: nothing is left to cut behind the first `'&'`, or what
follows starts by repeating the first name and both cuts agree on all other names. -/
def CutsAgree (q : Bytes) : Prop :=
  ampersand ∉ q ∨ (ampersand ∉ afterFirst q ∧ letterC ∉ afterFirst q) ∨
    (firstSegment q ≠ [] ∧
      (cutArg (firstSegment (afterFirst q))).1 = (cutArg (firstSegment q)).1 ∧
      ∀ name, name ≠ (cutArg (firstSegment q)).1 →
        (argsOf ((afterFirst q).splitOn ampersand)).lookup name =
          (argsOf ((afterFirst q).splitOn letterC)).lookup name)

theorem not_mem_of_mem_splitOn {c : Byte} {s seg : Bytes} (h : seg ∈ s.splitOn c) : c ∉ seg := by
  induction s generalizing seg with
  | nil => simp only [List.splitOn_nil, List.mem_singleton] at h; simp [h]
  | cons b s ih =>
    rw [List.splitOn_cons_eq_if_modifyHead] at h
    obtain ⟨seg', segs, hs⟩ := List.exists_cons_of_ne_nil (List.splitOn_ne_nil c s)
    rw [hs] at h ih
    by_cases hb : b = c
    · simp only [hb, beq_self_eq_true, if_true, List.mem_cons] at h
      rcases h with rfl | h
      · simp
      · exact ih (by simpa using h)
    · simp only [beq_iff_eq, hb, if_false, List.modifyHead_cons, List.mem_cons] at h
      rcases h with rfl | h
      · simpa [Ne.symm hb] using ih (List.mem_cons_self)
      · exact ih (by simp [h])

theorem splitOn_head (c : Byte) (s : Bytes) :
    ∃ segs, s.splitOn c = s.takeWhile (· != c) :: segs := by
  induction s with
  | nil => exact ⟨[], rfl⟩
  | cons b s ih =>
    obtain ⟨segs, hs⟩ := ih
    rw [List.splitOn_cons_eq_if_modifyHead, hs]
    by_cases hb : b = c <;> simp [hb]

theorem mem_cutArg {b : Byte} {seg : Bytes} (hb : b ≠ equals) :
    b ∈ seg ↔ b ∈ (cutArg seg).1 ∨ b ∈ (cutArg seg).2 := by
  by_cases hm : equals ∈ seg
  · conv_lhs => rw [cut_at_first hm]
    simp [cutArg, hb]
  · simp [cutArg_of_not_mem hm]

theorem mem_argsOf {name value : Bytes} {segs : List Bytes} (h : (name, value) ∈ argsOf segs) :
    ∃ seg ∈ segs, cutArg seg = (name, value) := by
  obtain ⟨seg, hs, hcut⟩ := List.mem_map.mp h
  exact ⟨seg, List.mem_of_mem_filter hs, hcut⟩

theorem lookup_argsOf_first {s name : Bytes} (segs : List Bytes)
    (h : ¬ (s ≠ [] ∧ name = (cutArg s).1)) :
    (argsOf (s :: segs)).lookup name = (argsOf segs).lookup name := by
  by_cases hs : s = []
  · simp [hs]
  · have hname : (name == (cutArg s).1) = false := by simpa [hs] using h
    rw [argsOf_cons segs hs, List.lookup_cons, hname]

theorem first_name_repeats {s seg : Bytes} {more others : List Bytes} {b : Byte} (hb : b ≠ equals)
    (hseg : b ∈ seg) (hothers : ∀ piece ∈ others, b ∉ piece)
    (h : ∀ name, (argsOf (s :: seg :: more)).lookup name = (argsOf (s :: others)).lookup name) :
    s ≠ [] ∧ (cutArg seg).1 = (cutArg s).1 := by
  by_contra hfirst
  have hname := h (cutArg seg).1
  have hne : seg ≠ [] := List.ne_nil_of_mem hseg
  rw [lookup_argsOf_first _ hfirst, lookup_argsOf_first _ hfirst, argsOf_cons more hne,
    List.lookup_cons_self] at hname
  obtain ⟨piece, hp, hcut⟩ := mem_argsOf (mem_of_lookup hname.symm)
  have hmem := (mem_cutArg hb).mp hseg
  exact hothers piece hp ((mem_cutArg hb).mpr (by simpa [hcut] using hmem))

theorem cutArg_name_append {seg rest : Bytes} {b : Byte} (hb : b ≠ equals)
    (h : b ∉ (cutArg (seg ++ b :: rest)).1) : (cutArg (seg ++ b :: rest)).1 = (cutArg seg).1 := by
  by_cases he : equals ∈ seg
  · obtain ⟨name, value, rfl, hname⟩ := List.eq_append_cons_of_mem he
    rw [List.append_assoc, List.cons_append, cutArg_append _ hname, cutArg_append _ hname]
  · refine absurd ?_ h
    simp [cutArg, List.takeWhile_append_of_pos (ne_of_not_mem he), hb]

theorem repeats_of_cuts_equal {s t : Bytes} (hs : ampersand ∉ s)
    (hdirty : ¬ (ampersand ∉ t ∧ letterC ∉ t))
    (h : ∀ name, (argsOf (s :: t.splitOn ampersand)).lookup name =
      (argsOf (s :: t.splitOn letterC)).lookup name) :
    s ≠ [] ∧ (cutArg (firstSegment t)).1 = (cutArg s).1 := by
  obtain ⟨more, hmore⟩ := splitOn_head ampersand t
  obtain ⟨more', hmore'⟩ := splitOn_head letterC t
  by_cases hc : letterC ∈ firstSegment t
  · rw [hmore] at h
    exact first_name_repeats (by decide) hc (fun _ hp => not_mem_of_mem_splitOn hp) h
  · have hamp : ampersand ∈ t := by
      by_contra hamp
      have hall : firstSegment t = t := List.takeWhile_eq_self_iff.mpr (ne_of_not_mem hamp)
      exact hdirty ⟨hamp, hall ▸ hc⟩
    have ht : t = firstSegment t ++ ampersand :: afterFirst t := cut_at_first hamp
    have hpiece : t.takeWhile (· != letterC) =
        firstSegment t ++ ampersand :: (afterFirst t).takeWhile (· != letterC) := by
      conv_lhs => rw [ht]
      rw [List.takeWhile_append_of_pos (ne_of_not_mem hc)]
      rfl
    rw [hmore', hpiece] at h
    have hrep := first_name_repeats (b := ampersand) (by decide) (by simp)
      (fun _ hp => not_mem_of_mem_splitOn hp) (fun name => (h name).symm)
    refine ⟨hrep.1, ?_⟩
    have hname : ampersand ∉ (cutArg s).1 := fun hm => hs ((mem_cutArg (by decide)).mpr (Or.inl hm))
    rw [← hrep.2] at hname ⊢
    exact (cutArg_name_append (by decide) hname).symm

theorem parseQueryArgs_eq_reference_iff (q : StdString) :
    parseQueryArgs q.bytes = .ok (referenceParse q.bytes) ↔ CutsAgree q.bytes := by
  by_cases hamp : ampersand ∈ q.bytes
  · rw [parseQueryArgs_cut q hamp, referenceParse_cut hamp, Except.ok.injEq, CutsAgree]
    simp only [hamp, not_true_eq_false, false_or]
    set s := firstSegment q.bytes
    set t := afterFirst q.bytes
    constructor
    · intro h
      by_cases hclean : ampersand ∉ t ∧ letterC ∉ t
      · exact Or.inl hclean
      · have hlook := (firstWins_eq_iff _ _).mp h.symm
        have hfirst : ampersand ∉ s := not_mem_takeWhile_ne q.bytes ampersand
        obtain ⟨hs, hname⟩ := repeats_of_cuts_equal hfirst hclean hlook
        rw [argsOf_cons _ hs, argsOf_cons _ hs] at h
        exact Or.inr ⟨hs, hname, (firstWins_cons_eq_iff _ _ _ _).mp h.symm⟩
    · rintro (⟨ha, hc⟩ | ⟨hs, -, hagree⟩)
      · rw [List.splitOn_eq_singleton ha, List.splitOn_eq_singleton hc]
      · rw [argsOf_cons _ hs, argsOf_cons _ hs]
        exact ((firstWins_cons_eq_iff _ _ _ _).mpr hagree).symm
  · rw [parseQueryArgs_single q hamp, referenceParse, List.splitOn_eq_singleton hamp]
    simp [CutsAgree, hamp]

theorem referenceParse_joinArgs {args : List (Bytes × Bytes)}
    (h : ∀ p ∈ args, ampersand ∉ p.1 ∧ equals ∉ p.1 ∧ ampersand ∉ p.2) :
    referenceParse (joinArgs args) = firstWins args := by
  by_cases hnil : args = []
  · simp [hnil, joinArgs, referenceParse]
  · have hcut : ∀ seg ∈ args.map (fun p => p.1 ++ equals :: p.2), ampersand ∉ seg := by
      intro seg hseg
      obtain ⟨p, hp, rfl⟩ := List.mem_map.mp hseg
      simpa [(h p hp).1, (h p hp).2.2] using (by decide : ampersand ≠ equals)
    have hargs : argsOf (args.map (fun p => p.1 ++ equals :: p.2)) = args := by
      have hne : ∀ seg ∈ args.map (fun p => p.1 ++ equals :: p.2), decide (seg ≠ []) = true := by
        simp only [List.mem_map, forall_exists_index, and_imp]
        rintro seg p - rfl
        simp
      rw [argsOf, List.filter_eq_self.mpr hne, List.map_map]
      conv_rhs => rw [← List.map_id args]
      apply List.map_congr_left
      intro p hp
      exact cutArg_append p.2 (h p hp).2.1
    rw [referenceParse, joinArgs, List.splitOn_intercalate _ hcut (by simpa using hnil), hargs]

theorem parseQueryArgs_correct_iff (q : StdString) :
    (parseQueryArgs q.bytes = .ok (referenceParse q.bytes) ↔ CutsAgree q.bytes) ∧
      ∀ args : List (Bytes × Bytes),
        (∀ p ∈ args, ampersand ∉ p.1 ∧ equals ∉ p.1 ∧ ampersand ∉ p.2) → q.bytes = joinArgs args →
        (parseQueryArgs q.bytes = .ok (firstWins args) ↔ CutsAgree q.bytes) := by
  refine ⟨parseQueryArgs_eq_reference_iff q, ?_⟩
  intro args hargs hq
  rw [← parseQueryArgs_eq_reference_iff q, ← referenceParse_joinArgs hargs, hq]

theorem parseQueryArgs_correct_two :
    parseQueryArgs (ascii "a=1&b=2") =
      .ok (firstWins [(ascii "a", ascii "1"), (ascii "b", ascii "2")]) :=
  ((parseQueryArgs_correct_iff ⟨ascii "a=1&b=2", by decide⟩).2 [(ascii "a", ascii "1"), (ascii "b", ascii "2")]
    (by decide) (by decide)).mpr (Or.inr (Or.inl ⟨by decide, by decide⟩))

theorem parseQueryArgs_three_args :
    parseQueryArgs (ascii "a=1&b=2&d=3") =
        .ok (firstWins [(ascii "a", ascii "1"), (ascii "b", ascii "2&d=3")]) ∧
      parseQueryArgs (ascii "a=1&b=2&d=3") ≠ .ok (referenceParse (ascii "a=1&b=2&d=3")) := by
  decide +kernel

end FcgiAppserver.QueryArgs
