import FcgiAppserver.HandlerDispatch

namespace FcgiAppserver.Dispatch

open ByteStrings QueryArgs

variable {H : Type} {mappings : List (Bytes × Option H)}

/-- The handler `h` under location `l` is the one for `uri`: added last under the longest location. -/
structure Selected (mappings : List (Bytes × Option H)) (uri l : Bytes) (h : H) : Prop where
  ne_nil : l ≠ []
  isPrefix : l <+: uri
  last : (mappings.filter (fun m => m.1 = l ∧ m.2.isSome)).getLast? = some (l, some h)
  longest : ∀ m ∈ mappings, m.1 <+: uri → m.2.isSome → m.1.length ≤ l.length

theorem Selected.mem {uri l : Bytes} {h : H} (hs : Selected mappings uri l h) : (l, some h) ∈ mappings :=
  List.mem_of_mem_filter (List.mem_of_getLast? hs.last)

theorem Selected.unique {uri l l' : Bytes} {h h' : H} (hs : Selected mappings uri l h)
    (hs' : Selected mappings uri l' h') : l = l' ∧ h = h' := by
  have hlen : l.length = l'.length :=
    Nat.le_antisymm (hs'.longest _ hs.mem hs.isPrefix rfl) (hs.longest _ hs'.mem hs'.isPrefix rfl)
  have hl : l = l' :=
    (List.prefix_of_prefix_length_le hs.isPrefix hs'.isPrefix (Nat.le_of_eq hlen)).eq_of_length hlen
  have hlast := hs'.last
  rw [← hl, hs.last] at hlast
  simp only [Option.some.injEq, Prod.mk.injEq] at hlast
  exact ⟨hl, hlast.2⟩

def candidate (uri : Bytes) (m : Bytes × Option H) : Bool :=
  decide (m.1 <+: uri ∧ m.2.isSome ∧ m.1 ≠ [])

theorem prefixHandler_eq (s : FcgiServer H) (uri : Bytes) :
    prefixHandler s uri = (s.locationsMap.entries.filter (candidate uri)).getLast?.bind Prod.snd := by
  rw [← foldl_last_some, prefixHandler]
  congr 1
  funext handlerToFire i
  simp only [candidate, find_zero_iff, List.length_nil, List.length_pos_iff]
  by_cases h1 : i.1 <+: uri <;> by_cases h2 : i.2.isSome <;> by_cases h3 : i.1 = [] <;> simp [h1, h2, h3]

theorem last_candidate_selected {m : SortedMultimap Bytes (Option H)} {uri l : Bytes} {h : H}
    (hlast : (m.entries.filter (candidate uri)).getLast? = some (l, some h)) : Selected m.entries uri l h := by
  obtain ⟨before, hbefore⟩ := List.getLast?_eq_some_iff.mp hlast
  have hcand : candidate uri (l, some h) = true :=
    (List.mem_filter.mp (List.mem_of_getLast? hlast)).2
  simp only [candidate, Option.isSome_some, true_and, decide_eq_true_eq] at hcand
  refine ⟨hcand.2, hcand.1, ?_, ?_⟩
  · have hkey : m.entries.filter (fun e => e.1 = l ∧ e.2.isSome) =
        (m.entries.filter (candidate uri)).filter (fun e => e.1 = l) := by
      rw [List.filter_filter]
      apply List.filter_congr
      intro e _
      by_cases hl : e.1 = l
      · simp [candidate, hl, hcand.1, hcand.2]
      · simp [hl]
    rw [hkey, hbefore, List.filter_append]
    simp
  · intro e he hpre hsome
    by_cases hnil : e.1 = []
    · simp [hnil]
    · have hmem : e ∈ m.entries.filter (candidate uri) :=
        List.mem_filter.mpr ⟨he, by simp [candidate, hpre, hsome, hnil]⟩
      have hsorted := m.sorted.sublist (List.filter_sublist (p := candidate uri))
      rw [hbefore] at hmem hsorted
      rcases List.mem_append.mp hmem with hin | hin
      -- prefixes of one URI come in order of length
      · by_contra hlen
        have hle := (List.pairwise_append.mp hsorted).2.2 e hin _ List.mem_cons_self
        have hprefix : l <+: e.1 := List.prefix_of_prefix_length_le hcand.1 hpre (by omega)
        have hlt : compare l e.1 = .lt := compare_lt_of_prefix hprefix (by rintro rfl; omega)
        rw [Std.OrientedOrd.eq_swap, hlt] at hle
        simp at hle
      · simp only [List.mem_singleton] at hin
        simp [hin]

theorem selected_congr {mappings mappings' : List (Bytes × Option H)}
    (h : ∀ l, mappings.filter (fun m => m.1 = l) = mappings'.filter (fun m => m.1 = l)) {uri l : Bytes} {x : H}
    (hs : Selected mappings uri l x) : Selected mappings' uri l x := by
  have hmem : ∀ m, m ∈ mappings' → m ∈ mappings := by
    intro m hm
    have hin : m ∈ mappings'.filter (fun e => e.1 = m.1) := by simpa using hm
    rw [← h m.1] at hin
    exact List.mem_of_mem_filter hin
  refine ⟨hs.ne_nil, hs.isPrefix, ?_, fun m hm => hs.longest m (hmem m hm)⟩
  have hlast := hs.last
  have hsplit : ∀ ms : List (Bytes × Option H), ms.filter (fun m => m.1 = l ∧ m.2.isSome) =
      (ms.filter (fun m => m.1 = l)).filter (fun m => m.2.isSome) := by
    intro ms
    rw [List.filter_filter]
    apply List.filter_congr
    intro m _
    simp [Bool.and_comm]
  rw [hsplit, ← h l, ← hsplit, hlast]

theorem last_isSome {l : List (Bytes × Option H)} {e : Bytes × Option H} (he : e ∈ l)
    (hl : ∀ a ∈ l, a.2.isSome) : ∃ x, l.getLast?.bind Prod.snd = some x := by
  obtain ⟨a, ha⟩ := Option.isSome_iff_exists.mp (List.getLast?_isSome.mpr (List.ne_nil_of_mem he))
  obtain ⟨x, hx⟩ := Option.isSome_iff_exists.mp (hl a (List.mem_of_getLast? ha))
  exact ⟨x, by rw [ha]; exact hx⟩

theorem prefixHandler_found {s : FcgiServer H} (hs : s.locationsMap = .insertAll mappings) {uri l : Bytes} {h : H}
    (hne : l ≠ []) (hpre : l <+: uri) (hmem : (l, some h) ∈ mappings) : ∃ x, prefixHandler s uri = some x := by
  rw [prefixHandler_eq]
  apply last_isSome (e := (l, some h))
  · rw [hs, List.mem_filter, SortedMultimap.mem_insertAll]
    exact ⟨hmem, by simp [candidate, hpre, hne]⟩
  · intro a ha
    have hcand := (List.mem_filter.mp ha).2
    simp only [candidate, decide_eq_true_eq] at hcand
    exact hcand.2.1

theorem prefixHandler_selected {s : FcgiServer H} (hs : s.locationsMap = .insertAll mappings) {uri : Bytes} {h : H}
    (hfire : prefixHandler s uri = some h) : ∃ l, Selected mappings uri l h := by
  have hfilter : ∀ l, s.locationsMap.entries.filter (fun m => m.1 = l) = mappings.filter (fun m => m.1 = l) := by
    intro l
    rw [hs]
    exact SortedMultimap.filter_insertAll mappings l
  rw [prefixHandler_eq, Option.bind_eq_some_iff] at hfire
  obtain ⟨⟨l, _⟩, hlast, rfl⟩ := hfire
  exact ⟨l, selected_congr hfilter (last_candidate_selected hlast)⟩

theorem prefixHandler_iff {s : FcgiServer H} (hs : s.locationsMap = .insertAll mappings) (uri : Bytes) (h : H) :
    prefixHandler s uri = some h ↔ ∃ l, Selected mappings uri l h := by
  constructor
  · exact prefixHandler_selected hs
  · rintro ⟨l, hsel⟩
    obtain ⟨x, hx⟩ := prefixHandler_found hs hsel.ne_nil hsel.isPrefix hsel.mem
    obtain ⟨l', hsel'⟩ := prefixHandler_selected hs hx
    rw [hx, (hsel.unique hsel').2]

theorem prefixHandler_none_iff {s : FcgiServer H} (hs : s.locationsMap = .insertAll mappings) (uri : Bytes) :
    prefixHandler s uri = none ↔ ¬ ∃ l h, l ≠ [] ∧ l <+: uri ∧ (l, some h) ∈ mappings := by
  constructor
  · rintro hnone ⟨l, h, hne, hpre, hmem⟩
    obtain ⟨x, hx⟩ := prefixHandler_found hs hne hpre hmem
    rw [hnone] at hx
    exact absurd hx (by simp)
  · intro hno
    cases hfire : prefixHandler s uri with
    | none => rfl
    | some h =>
      obtain ⟨l, hsel⟩ := prefixHandler_selected hs hfire
      exact absurd ⟨l, h, hsel.ne_nil, hsel.isPrefix, hsel.mem⟩ hno

theorem prefixMappings_eq (h : ∀ m ∈ mappings, m.1.head? ≠ some equals) : prefixMappings mappings = mappings := by
  apply List.filter_eq_self.mpr
  simpa using h

theorem exactEntries_eq_nil (h : ∀ m ∈ mappings, m.1.head? ≠ some equals) : exactEntries mappings = [] := by
  rw [exactEntries, List.map_eq_nil_iff, List.filter_eq_nil_iff]
  intro m hm
  simp [h m hm]

theorem calls_without_exact (h : ∀ m ∈ mappings, m.1.head? ≠ some equals) (uri : Bytes) :
    calls (addHandlerMappings mappings) uri =
      (prefixHandler (addHandlerMappings mappings) uri).elim (.error (noHandlers uri), [])
        (fun h => (.ok (), [h])) := by
  have hexact : exactHandler (addHandlerMappings mappings) uri = none := by
    rw [addHandlerMappings_eq, exactEntries_eq_nil h]
    rfl
  rw [calls_eq, hexact, Option.none_or]

theorem invokeHandler_longest (mappings : List (Bytes × Option H))
    (hplain : ∀ m ∈ mappings, m.1.head? ≠ some equals) (uri : Bytes) :
    ((∃ l h, l ≠ [] ∧ l <+: uri ∧ (l, some h) ∈ mappings) →
      ∃ l h, Selected mappings uri l h ∧ calls (addHandlerMappings mappings) uri = (.ok (), [h])) ∧
    (calls (addHandlerMappings mappings) uri = (.error (noHandlers uri), []) ↔
      ¬ ∃ l h, l ≠ [] ∧ l <+: uri ∧ (l, some h) ∈ mappings) ∧
    ∀ mappings', (∀ l, mappings'.filter (fun m => m.1 = l) = mappings.filter (fun m => m.1 = l)) →
      calls (addHandlerMappings mappings') uri = calls (addHandlerMappings mappings) uri := by
  have hmap : ∀ ms : List (Bytes × Option H), (∀ m ∈ ms, m.1.head? ≠ some equals) →
      (addHandlerMappings ms).locationsMap = .insertAll ms := by
    intro ms hms
    rw [addHandlerMappings_eq, prefixMappings_eq hms]
  have hnone := prefixHandler_none_iff (hmap mappings hplain) uri
  refine ⟨?_, ?_, ?_⟩
  · rintro ⟨l, h, hne, hpre, hmem⟩
    obtain ⟨x, hx⟩ := prefixHandler_found (hmap mappings hplain) hne hpre hmem
    obtain ⟨l', hsel⟩ := prefixHandler_selected (hmap mappings hplain) hx
    exact ⟨l', x, hsel, by rw [calls_without_exact hplain, hx]; rfl⟩
  · rw [← hnone, calls_without_exact hplain]
    cases prefixHandler (addHandlerMappings mappings) uri <;> simp
  · intro mappings' hsame
    have hplain' : ∀ m ∈ mappings', m.1.head? ≠ some equals := by
      intro m hm
      have hin : m ∈ mappings'.filter (fun e => e.1 = m.1) := by simpa using hm
      rw [hsame] at hin
      exact hplain m (List.mem_of_mem_filter hin)
    rw [calls_without_exact hplain, calls_without_exact hplain']
    congr 1
    apply Option.ext
    intro x
    rw [prefixHandler_iff (hmap mappings hplain), prefixHandler_iff (hmap mappings' hplain')]
    constructor
    · rintro ⟨l, hsel⟩
      exact ⟨l, selected_congr hsame hsel⟩
    · rintro ⟨l, hsel⟩
      exact ⟨l, selected_congr (fun k => (hsame k).symm) hsel⟩

theorem invokeHandler_longest_two :
    ∃ l h, Selected [(ascii "/a/b", some 2), (ascii "/a", some 1), (ascii "/a/b", none)] (ascii "/a/b/c") l h ∧
      calls (addHandlerMappings [(ascii "/a/b", some 2), (ascii "/a", some 1), (ascii "/a/b", none)])
        (ascii "/a/b/c") = (.ok (), [h]) :=
  (invokeHandler_longest _ (by decide) (ascii "/a/b/c")).1 ⟨ascii "/a", 1, by decide, by decide, by decide⟩

end FcgiAppserver.Dispatch
