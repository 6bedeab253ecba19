import FcgiAppserver.LongestPrefix

namespace FcgiAppserver.Dispatch

open ByteStrings QueryArgs Formdata

variable {H : Type} {mappings : List (Bytes × Option H)}

theorem exactHandler_eq (s : FcgiServer H) (uri : Bytes) :
    exactHandler s uri = ((s.exactLocationsMap.entries.filter (fun e => e.1 = uri)).filter
      (fun e => decide (e.2.isSome ∧ e.1 ≠ []))).getLast?.bind Prod.snd := by
  rw [← foldl_last_some, exactHandler, SortedMultimap.equalRange_eq_filter]
  congr 1
  funext handlerToFire i
  simp only [List.length_nil, List.length_pos_iff]
  by_cases h1 : i.2.isSome <;> by_cases h2 : i.1 = [] <;> simp [h1, h2]

theorem exactHandler_mem {s : FcgiServer H} (hs : s.exactLocationsMap = .insertAll mappings) {uri : Bytes} {h : H}
    (hfire : exactHandler s uri = some h) : uri ≠ [] ∧ (uri, some h) ∈ mappings := by
  rw [exactHandler_eq, Option.bind_eq_some_iff] at hfire
  obtain ⟨⟨l, _⟩, hlast, rfl⟩ := hfire
  have hmem := List.mem_of_getLast? hlast
  simp only [List.mem_filter, decide_eq_true_eq] at hmem
  obtain ⟨⟨hin, rfl⟩, -, hne⟩ := hmem
  rw [hs, SortedMultimap.mem_insertAll] at hin
  exact ⟨hne, hin⟩

theorem exactHandler_found {s : FcgiServer H} (hs : s.exactLocationsMap = .insertAll mappings) {uri : Bytes} {h : H}
    (hne : uri ≠ []) (hmem : (uri, some h) ∈ mappings) : ∃ x, exactHandler s uri = some x := by
  rw [exactHandler_eq]
  apply last_isSome (e := (uri, some h))
  · simp [hs, SortedMultimap.mem_insertAll, hmem, hne]
  · intro a ha
    have hin := (List.mem_filter.mp ha).2
    simp only [decide_eq_true_eq] at hin
    exact hin.1

/-- Each handler marked with the location it was registered under. -/
def withOrigin (mappings : List (Bytes × Option H)) : List (Bytes × Option (Bytes × H)) :=
  mappings.map (fun m => (m.1, m.2.map (fun h => (m.1, h))))

structure ExactMappingsServed (mappings : List (Bytes × Option H)) : Prop where
  no_throw : ∀ m ∈ mappings, ∀ s : FcgiServer H, ∃ s', addHandlerMapping s m.1 m.2 = .ok s'
  served : ∀ u h, u ≠ [] → (mappings.filter (fun m => m.1 = equals :: u)).getLast? = some (equals :: u, some h) →
    calls (addHandlerMappings mappings) u = (.ok (), [h])
  own_uri : ∀ uri l h, exactHandler (addHandlerMappings (withOrigin mappings)) uri = some (l, h) →
    l = equals :: uri

/-- When the missing byte of an exact location does not show: it is the only one, and the prefix location
of that byte leads to the same handler. -/
structure ExactMappingsHarmless (mappings : List (Bytes × Option H)) : Prop where
  not_marker : ∀ m ∈ mappings, m.1 ≠ [equals]
  one_byte : ∀ m ∈ mappings, m.1.head? = some equals → m.2.isSome → m.1.length = 2
  same_prefix : ∀ x h, (mappings.filter (fun m => m.1 = [equals, x])).getLast? = some ([equals, x], some h) →
    (mappings.filter (fun m => m.1 = [x] ∧ m.2.isSome)).getLast? = some ([x], some h)

theorem exactHandler_none (hone : ∀ m ∈ mappings, m.1.head? = some equals → m.2.isSome → m.1.length = 2)
    (uri : Bytes) : exactHandler (addHandlerMappings mappings) uri = none := by
  rw [addHandlerMappings_eq]
  cases hfire : exactHandler ⟨.insertAll (prefixMappings mappings), .insertAll (exactEntries mappings)⟩ uri with
  | none => rfl
  | some h =>
    obtain ⟨hne, hmem⟩ := exactHandler_mem rfl hfire
    obtain ⟨m, hm, heq⟩ := List.mem_map.mp hmem
    simp only [List.mem_filter, decide_eq_true_eq] at hm
    simp only [Prod.mk.injEq] at heq
    have hlen := hone m hm.1 hm.2.1 (by simp [heq.2])
    refine absurd ?_ hne
    rw [← heq.1, List.drop_eq_nil_iff, hlen]
    rfl

theorem mem_exactEntries {key : Bytes} {v : Option H} :
    (key, v) ∈ exactEntries mappings ↔
      ∃ l, l.head? = some equals ∧ sizeofMarker ≤ l.length ∧ l.drop sizeofMarker = key ∧ (l, v) ∈ mappings := by
  simp only [exactEntries, List.mem_map, List.mem_filter, decide_eq_true_eq, Prod.mk.injEq]
  constructor
  · rintro ⟨m, ⟨hm, hhead, hlen⟩, hkey, rfl⟩
    exact ⟨m.1, hhead, hlen, hkey, hm⟩
  · rintro ⟨l, hhead, hlen, hkey, hm⟩
    exact ⟨(l, v), ⟨hm, hhead, hlen⟩, hkey, rfl⟩

theorem mem_withOrigin {l : Bytes} {p : Bytes × H} :
    (l, some p) ∈ withOrigin mappings ↔ p.1 = l ∧ (l, some p.2) ∈ mappings := by
  simp only [withOrigin, List.mem_map, Prod.mk.injEq, Option.map_eq_some_iff]
  constructor
  · rintro ⟨m, hm, rfl, h, hh, rfl⟩
    exact ⟨rfl, by simpa [← hh] using hm⟩
  · rintro ⟨rfl, hm⟩
    exact ⟨(p.1, some p.2), hm, rfl, p.2, rfl, rfl⟩

theorem filter_prefixMappings {l : Bytes} (hl : l.head? ≠ some equals) :
    (prefixMappings mappings).filter (fun m => m.1 = l ∧ m.2.isSome) =
      mappings.filter (fun m => m.1 = l ∧ m.2.isSome) := by
  rw [prefixMappings, List.filter_filter]
  apply List.filter_congr
  intro m _
  by_cases hm : m.1 = l
  · simp [hm, hl]
  · simp [hm]

theorem long_exact_misused (hown : ∀ uri l h,
      exactHandler (addHandlerMappings (withOrigin mappings)) uri = some (l, h) → l = equals :: uri)
    {l : Bytes} {h : H} (hm : (l, some h) ∈ mappings) (hhead : l.head? = some equals) : l.length ≤ sizeofMarker := by
  by_contra hlen
  have hne : l.drop sizeofMarker ≠ [] := by
    rw [ne_eq, List.drop_eq_nil_iff]
    omega
  have hentry : (l.drop sizeofMarker, some (l, h)) ∈ exactEntries (withOrigin mappings) :=
    mem_exactEntries.mpr ⟨l, hhead, by omega, rfl, mem_withOrigin.mpr ⟨rfl, hm⟩⟩
  obtain ⟨⟨l', h'⟩, hfire⟩ := exactHandler_found (exactLocationsMap_eq (withOrigin mappings)) hne hentry
  obtain ⟨-, hin⟩ := exactHandler_mem (exactLocationsMap_eq (withOrigin mappings)) hfire
  obtain ⟨l'', -, -, hkey, horigin⟩ := mem_exactEntries.mp hin
  have heq : l' = l'' := (mem_withOrigin.mp horigin).1
  have hlen' := congrArg List.length (hown _ _ _ hfire)
  have hkeylen := congrArg List.length hkey
  simp only [heq, List.length_cons, List.length_drop, sizeofMarker] at hlen' hkeylen hlen
  omega

theorem prefix_of_one_byte {l : Bytes} {x : Byte} (hne : l ≠ []) (h : l <+: [x]) : l = [x] := by
  apply h.eq_of_length
  have hle := h.length_le
  have hpos := List.length_pos_iff.mpr hne
  simp only [List.length_singleton] at hle ⊢
  omega

theorem marker_le_length {l : Bytes} (hhead : l.head? = some equals) (hne : l ≠ [equals]) :
    sizeofMarker ≤ l.length := by
  obtain ⟨rest, rfl⟩ := List.head?_eq_some_iff.mp hhead
  have hrest : rest ≠ [] := by
    rintro rfl
    exact hne rfl
  have hpos := List.length_pos_iff.mpr hrest
  simp only [List.length_cons, sizeofMarker]
  omega

theorem harmless_of_served (h : ExactMappingsServed mappings) : ExactMappingsHarmless mappings := by
  have hmarker : ∀ m ∈ mappings, m.1 ≠ [equals] := by
    intro m hm heq
    obtain ⟨s', hs'⟩ := h.no_throw m hm fcgiServer
    rw [addHandlerMapping_marker _ _ (by rw [heq]; rfl) (by rw [heq]; decide)] at hs'
    exact absurd hs' (by simp)
  have hone : ∀ m ∈ mappings, m.1.head? = some equals → m.2.isSome → m.1.length = 2 := by
    rintro ⟨l, v⟩ hm hhead hsome
    obtain ⟨w, rfl⟩ := Option.isSome_iff_exists.mp hsome
    have hle := long_exact_misused h.own_uri hm hhead
    exact Nat.le_antisymm hle (marker_le_length hhead (hmarker _ hm))
  refine ⟨hmarker, hone, ?_⟩
  intro x v hlast
  have hcalls := h.served [x] v (by simp) hlast
  rw [calls_eq, exactHandler_none hone, Option.none_or] at hcalls
  cases hfire : prefixHandler (addHandlerMappings mappings) [x] with
  | none => simp [hfire] at hcalls
  | some w =>
    obtain ⟨l, hsel⟩ := prefixHandler_selected (locationsMap_eq mappings) hfire
    have hl := prefix_of_one_byte hsel.ne_nil hsel.isPrefix
    subst hl
    have hhead : ([x] : Bytes).head? ≠ some equals := by
      have hmem := (List.mem_filter.mp hsel.mem).2
      simpa using hmem
    have hw : w = v := by simpa [hfire] using hcalls
    rw [← filter_prefixMappings hhead, ← hw]
    exact hsel.last

theorem served_of_harmless (h : ExactMappingsHarmless mappings) : ExactMappingsServed mappings := by
  refine ⟨?_, ?_, ?_⟩
  · intro m hm s
    by_cases hhead : m.1.head? = some equals
    · exact ⟨_, addHandlerMapping_exact s m.2 hhead (marker_le_length hhead (h.not_marker m hm))⟩
    · exact ⟨_, addHandlerMapping_plain s m.2 hhead⟩
  · intro u v hne hlast
    have hmem := List.mem_of_mem_filter (List.mem_of_getLast? hlast)
    have hlen := h.one_byte _ hmem rfl rfl
    obtain ⟨x, rfl⟩ := List.length_eq_one_iff.mp (by simpa using hlen : u.length = 1)
    have hprefix := h.same_prefix x v hlast
    have hmem' := List.mem_of_mem_filter (List.mem_of_getLast? hprefix)
    have hhead : ([x] : Bytes).head? ≠ some equals := by
      intro hx
      have hx' : x = equals := by simpa using hx
      exact h.not_marker _ hmem' (by rw [hx'])
    have hsel : Selected (prefixMappings mappings) [x] [x] v := by
      refine ⟨hne, List.prefix_refl _, by rw [filter_prefixMappings hhead, hprefix], ?_⟩
      intro m _ hpre _
      exact hpre.length_le
    have hfire := (prefixHandler_iff (locationsMap_eq mappings) [x] v).mpr ⟨[x], hsel⟩
    rw [calls_eq, exactHandler_none h.one_byte, hfire]
    rfl
  · intro uri l v hfire
    have hone : ∀ m ∈ withOrigin mappings, m.1.head? = some equals → m.2.isSome → m.1.length = 2 := by
      intro m hm hhead hsome
      obtain ⟨m', hm', rfl⟩ := List.mem_map.mp hm
      exact h.one_byte m' hm' hhead (by simpa using hsome)
    rw [exactHandler_none hone] at hfire
    exact absurd hfire (by simp)

theorem exactMappings_served_iff (mappings : List (Bytes × Option H)) :
    ExactMappingsServed mappings ↔ ExactMappingsHarmless mappings := by
  constructor
  · exact harmless_of_served
  · exact served_of_harmless

theorem exactMapping_falls_through :
    calls (addHandlerMappings [(ascii "=/a", some 1), (ascii "/", some 2)]) (ascii "/a") = (.ok (), [2]) ∧
      calls (addHandlerMappings [(ascii "=/a", some 1), (ascii "/", some 2)]) (ascii "a") = (.ok (), [1]) ∧
      addHandlerMapping (fcgiServer : FcgiServer ℕ) (ascii "=") (some 1) = .error ⟨2, 1⟩ ∧
      ¬ ExactMappingsServed [(ascii "=/a", some 1), (ascii "/", some 2)] := by
  have hcalls : calls (addHandlerMappings [(ascii "=/a", some 1), (ascii "/", some 2)]) (ascii "/a") =
      (.ok (), [2]) := by decide +kernel
  refine ⟨hcalls, by decide +kernel, rfl, ?_⟩
  intro h
  have hserved := h.served (ascii "/a") 1 (by decide) (by decide)
  rw [hcalls] at hserved
  exact absurd hserved (by decide)

end FcgiAppserver.Dispatch
