import FcgiAppserver.ExactMappings
import FcgiAppserver.TransitionRuns

namespace FcgiAppserver.Dispatch

open ByteStrings QueryArgs TransitionRuns

variable {H : Type}

def addHandler (handlers : List H) : Option H → List H
  | some handler => handlers ++ [handler]
  | none => handlers

def removeHandler [DecidableEq H] (handlers : List H) (handler : Option H) : List H :=
  handlers.filter (fun x => some x ≠ handler)

def removeHandlerMapping (s : FcgiServer H) (_uri : Bytes) (_handler : Option H) : FcgiServer H :=
  -- the function has no statement
  s

/-- A server whose tables keep each handler with the location it was mapped to, and what has been taken
away from it and not added again. -/
structure Registry (H : Type) where
  server : FcgiServer (Bytes × H)
  handlers : List H
  removedMappings : List (Bytes × H)
  removedHandlers : List H

inductive RegistryCall (H : Type)
  | addHandler (handler : Option H)
  | removeHandler (handler : Option H)
  | addHandlerMapping (uri : Bytes) (handler : Option H)
  | removeHandlerMapping (uri : Bytes) (handler : Option H)
deriving DecidableEq

def mappedTo (location : Bytes) (handler : Option H) : Option (Bytes × H) := handler.map (fun x => (location, x))

def isMapped [DecidableEq H] (s : FcgiServer H) (handler : H) : Bool :=
  (s.exactLocationsMap.entries ++ s.locationsMap.entries).any (fun e => e.2 = some handler)

/-- The handler mapped last among the non-null ones under one key. -/
def lastUnder (m : LocationMap H) (key : Bytes) : Option H :=
  (m.entries.filter (fun e => e.1 = key ∧ e.2.isSome)).getLast?.bind Prod.snd

def ServingIn (m : LocationMap H) (handler : H) : Prop :=
  ∃ e ∈ m.entries, e.1 ≠ [] ∧ lastUnder m e.1 = some handler

def Serving (s : FcgiServer H) (handler : H) : Prop :=
  ServingIn s.exactLocationsMap handler ∨ ServingIn s.locationsMap handler

/-- The key under which a location is filed. -/
def mappedKey (uri : Bytes) : Bytes := if uri.head? = some equals then uri.drop sizeofMarker else uri

namespace Registry

variable [DecidableEq H]

omit [DecidableEq H] in
def empty : Registry H := ⟨fcgiServer, [], [], []⟩

def step (s : Registry H) : RegistryCall H → Except Empty (Registry H)
  | .addHandler handler => .ok { s with
      handlers := Dispatch.addHandler s.handlers handler
      removedHandlers := Dispatch.removeHandler s.removedHandlers handler }
  | .removeHandler handler => .ok { s with
      handlers := Dispatch.removeHandler s.handlers handler
      removedHandlers := s.removedHandlers ++ s.handlers.filter (fun x => some x = handler) }
  | .addHandlerMapping uri handler => .ok { s with
      server := (Dispatch.addHandlerMapping s.server uri (mappedTo uri handler)).toOption.getD s.server
      removedMappings := Dispatch.removeHandler s.removedMappings (mappedTo uri handler) }
  | .removeHandlerMapping uri handler => .ok { s with
      server := Dispatch.removeHandlerMapping s.server uri (mappedTo uri handler)
      removedMappings := s.removedMappings ++ (mappedTo uri handler).toList.filter (isMapped s.server) }

omit [DecidableEq H] in
def NeverStale (s : Registry H) : Prop :=
  ∀ uri, ∀ p ∈ (calls s.server uri).2, p ∉ s.removedMappings ∧ p.2 ∉ s.removedHandlers

omit [DecidableEq H] in
/-- What is taken away serves no request, and nothing taken out is mapped where it can serve one. -/
def TakesAwayUnused (s : Registry H) : RegistryCall H → Prop
  | .addHandler _ => True
  | .removeHandler handler => ∀ x ∈ s.handlers, some x = handler → ∀ location, ¬ Serving s.server (location, x)
  | .addHandlerMapping uri handler => ∀ x ∈ s.removedHandlers, some x = handler → mappedKey uri = []
  | .removeHandlerMapping uri handler => ∀ x, some x = handler → ¬ Serving s.server (uri, x)

end Registry

theorem lastUnder_insert (m : LocationMap H) (key k : Bytes) (v : Option H) :
    lastUnder (m.insert k v) key = if k = key ∧ v.isSome then v else lastUnder m key := by
  have hsplit : ∀ l : List (Bytes × Option H), l.filter (fun e => e.1 = key ∧ e.2.isSome) =
      (l.filter (fun e => e.1 = key)).filter (fun e => e.2.isSome) := by
    intro l
    rw [List.filter_filter]
    apply List.filter_congr
    intro e _
    simp [Bool.and_comm]
  have hinsert : (m.insert k v).entries.filter (fun e => e.1 = key) =
      (m.entries ++ [(k, v)]).filter (fun e => e.1 = key) :=
    SortedMultimap.filter_insertEntry k key v m.sorted
  rw [lastUnder, hsplit, hinsert, ← hsplit, List.filter_append]
  by_cases hnew : k = key ∧ v.isSome
  · simp [hnew]
  · simp [hnew, lastUnder]

theorem mem_of_lastUnder {m : LocationMap H} {key : Bytes} {h : H} (hlast : lastUnder m key = some h) :
    (key, some h) ∈ m.entries := by
  obtain ⟨⟨k, v⟩, hv, rfl⟩ := Option.bind_eq_some_iff.mp hlast
  have hmem := List.mem_filter.mp (List.mem_of_getLast? hv)
  simp only [decide_eq_true_eq] at hmem
  obtain ⟨hin, rfl, -⟩ := hmem
  exact hin

theorem servingIn_iff {m : LocationMap H} {h : H} :
    ServingIn m h ↔ ∃ key, key ≠ [] ∧ lastUnder m key = some h := by
  constructor
  · rintro ⟨e, -, hne, hlast⟩
    exact ⟨e.1, hne, hlast⟩
  · rintro ⟨key, hne, hlast⟩
    exact ⟨(key, some h), mem_of_lastUnder hlast, hne, hlast⟩

theorem servingIn_insert {m : LocationMap H} {k : Bytes} {v : Option H} {h : H}
    (hserving : ServingIn (m.insert k v) h) : (v = some h ∧ k ≠ []) ∨ ServingIn m h := by
  obtain ⟨key, hne, hlast⟩ := servingIn_iff.mp hserving
  rw [lastUnder_insert] at hlast
  split at hlast
  · rename_i hnew
    exact Or.inl ⟨hlast, hnew.1 ▸ hne⟩
  · exact Or.inr (servingIn_iff.mpr ⟨key, hne, hlast⟩)

theorem serving_added {s : FcgiServer H} {uri : Bytes} {v : Option H} {h : H}
    (hserving : Serving ((addHandlerMapping s uri v).toOption.getD s) h) :
    (v = some h ∧ mappedKey uri ≠ []) ∨ Serving s h := by
  by_cases hhead : uri.head? = some equals
  · by_cases hlen : sizeofMarker ≤ uri.length
    · rw [addHandlerMapping_exact s v hhead hlen] at hserving
      rcases hserving with hexact | hprefix
      · rcases servingIn_insert hexact with ⟨hv, hne⟩ | hold
        · exact Or.inl ⟨hv, by rwa [mappedKey, if_pos hhead]⟩
        · exact Or.inr (Or.inl hold)
      · exact Or.inr (Or.inr hprefix)
    · rw [addHandlerMapping_marker s v hhead hlen] at hserving
      exact Or.inr hserving
  · rw [addHandlerMapping_plain s v hhead] at hserving
    rcases hserving with hexact | hprefix
    · exact Or.inr (Or.inl hexact)
    · rcases servingIn_insert hprefix with ⟨hv, hne⟩ | hold
      · exact Or.inl ⟨hv, by rwa [mappedKey, if_neg hhead]⟩
      · exact Or.inr (Or.inr hold)

theorem exactHandler_eq_lastUnder (s : FcgiServer H) {uri : Bytes} (hne : uri ≠ []) :
    exactHandler s uri = lastUnder s.exactLocationsMap uri := by
  rw [exactHandler_eq, List.filter_filter, lastUnder]
  congr 2
  apply List.filter_congr
  intro e _
  by_cases hk : e.1 = uri
  · simp [hk, hne]
  · simp [hk]

theorem exactHandler_serving {s : FcgiServer H} {uri : Bytes} {h : H} (hfire : exactHandler s uri = some h) :
    ServingIn s.exactLocationsMap h := by
  have hne : uri ≠ [] := by
    rintro rfl
    rw [exactHandler_eq, Option.bind_eq_some_iff] at hfire
    obtain ⟨e, he, -⟩ := hfire
    have hmem := List.mem_of_getLast? he
    simp only [List.mem_filter, decide_eq_true_eq] at hmem
    exact hmem.2.2 hmem.1.2
  exact servingIn_iff.mpr ⟨uri, hne, by rw [← exactHandler_eq_lastUnder s hne, hfire]⟩

theorem prefixHandler_serving {s : FcgiServer H} {uri : Bytes} {h : H} (hfire : prefixHandler s uri = some h) :
    ServingIn s.locationsMap h := by
  rw [prefixHandler_eq, Option.bind_eq_some_iff] at hfire
  obtain ⟨⟨l, _⟩, hlast, rfl⟩ := hfire
  have hsel := last_candidate_selected hlast
  refine servingIn_iff.mpr ⟨l, hsel.ne_nil, ?_⟩
  rw [lastUnder, hsel.last]
  rfl

theorem called_serving {s : FcgiServer H} {uri : Bytes} {h : H} (hcalled : h ∈ (calls s uri).2) : Serving s h := by
  rw [calls_eq] at hcalled
  cases hexact : exactHandler s uri with
  | some x =>
    have hx : h = x := by simpa [hexact] using hcalled
    exact Or.inl (hx ▸ exactHandler_serving hexact)
  | none =>
    cases hprefix : prefixHandler s uri with
    | some x =>
      have hx : h = x := by simpa [hexact, hprefix] using hcalled
      exact Or.inr (hx ▸ prefixHandler_serving hprefix)
    | none => simp [hexact, hprefix] at hcalled

theorem prefixHandler_own_location {s : FcgiServer H} {key : Bytes} {h : H} (hne : key ≠ [])
    (hlast : lastUnder s.locationsMap key = some h) : prefixHandler s key = some h := by
  have hmem := mem_of_lastUnder hlast
  have hcand : (key, some h) ∈ s.locationsMap.entries.filter (candidate key) :=
    List.mem_filter.mpr ⟨hmem, by simp [candidate, hne]⟩
  obtain ⟨x, hx⟩ := last_isSome hcand (fun e he => by
    have hc := (List.mem_filter.mp he).2
    simp only [candidate, decide_eq_true_eq] at hc
    exact hc.2.1)
  obtain ⟨⟨l, _⟩, hl, rfl⟩ := Option.bind_eq_some_iff.mp hx
  have hsel := last_candidate_selected hl
  have hkey : l = key := hsel.isPrefix.eq_of_length_le (hsel.longest _ hmem (List.prefix_refl key) rfl)
  subst hkey
  rw [lastUnder, hsel.last] at hlast
  rw [prefixHandler_eq, hx]
  exact hlast

/-- What is filed last under a key answers for the key itself, unless an exact mapping hides it there. -/
theorem serving_called {s : FcgiServer H} {h : H} (hserving : Serving s h) :
    ∃ key, calls s key = (.ok (), [h]) ∨ (lastUnder s.locationsMap key = some h ∧ exactHandler s key ≠ none) := by
  rcases hserving with hexact | hprefix
  · obtain ⟨key, hne, hlast⟩ := servingIn_iff.mp hexact
    refine ⟨key, Or.inl ?_⟩
    rw [calls_eq, exactHandler_eq_lastUnder s hne, hlast]
    rfl
  · obtain ⟨key, hne, hlast⟩ := servingIn_iff.mp hprefix
    refine ⟨key, ?_⟩
    cases hexact : exactHandler s key with
    | some x => exact Or.inr ⟨hlast, by simp⟩
    | none =>
      apply Or.inl
      rw [calls_eq, hexact, prefixHandler_own_location hne hlast]
      rfl

namespace Registry

def TablesClean (s : Registry H) : Prop :=
  ∀ p, Serving s.server p → p ∉ s.removedMappings ∧ p.2 ∉ s.removedHandlers

theorem neverStale_of_tablesClean {s : Registry H} (hs : TablesClean s) : NeverStale s :=
  fun _ p hp => hs p (called_serving hp)

theorem tablesClean_empty : TablesClean (empty : Registry H) :=
  fun _ _ => ⟨List.not_mem_nil, List.not_mem_nil⟩

variable [DecidableEq H]

theorem mem_removeHandler {K : Type} [DecidableEq K] {l : List K} {v : Option K} {x : K} :
    x ∈ Dispatch.removeHandler l v ↔ x ∈ l ∧ some x ≠ v := by
  simp [Dispatch.removeHandler]

theorem tablesClean_step {s s' : Registry H} {c : RegistryCall H} (hs : TablesClean s)
    (hc : TakesAwayUnused s c) (h : s.step c = .ok s') : TablesClean s' := by
  intro p hserving
  cases c with
  | addHandler handler =>
    cases h
    exact ⟨(hs p hserving).1, fun hp => (hs p hserving).2 (mem_removeHandler.mp hp).1⟩
  | removeHandler handler =>
    cases h
    refine ⟨(hs p hserving).1, ?_⟩
    intro hp
    rcases List.mem_append.mp hp with hp | hp
    · exact (hs p hserving).2 hp
    · obtain ⟨hin, heq⟩ := List.mem_filter.mp hp
      exact hc p.2 hin (by simpa using heq) p.1 hserving
  | addHandlerMapping uri handler =>
    cases h
    rcases serving_added hserving with ⟨hv, hkey⟩ | hold
    · refine ⟨fun hp => (mem_removeHandler.mp hp).2 hv.symm, ?_⟩
      obtain ⟨x, hx, rfl⟩ := Option.map_eq_some_iff.mp hv
      exact fun hp => hkey (hc x hp hx.symm)
    · exact ⟨fun hp => (hs p hold).1 (mem_removeHandler.mp hp).1, (hs p hold).2⟩
  | removeHandlerMapping uri handler =>
    cases h
    refine ⟨?_, (hs p hserving).2⟩
    intro hp
    rcases List.mem_append.mp hp with hp | hp
    · exact (hs p hserving).1 hp
    · obtain ⟨x, hx, rfl⟩ := Option.map_eq_some_iff.mp (Option.mem_toList.mp (List.mem_filter.mp hp).1)
      exact hc x hx.symm hserving

theorem neverStale_run (cs : List (RegistryCall H)) (s : Registry H)
    (hclean : Along step TakesAwayUnused empty cs) (hexec : exec step empty cs = .ok s) : NeverStale s :=
  neverStale_of_tablesClean
    (exec_invariant (fun _ _ _ hs hc hstep => tablesClean_step hs hc hstep) tablesClean_empty hclean hexec)

theorem neverStale_replaced :
    ∃ s : Registry ℕ, exec step empty [.addHandlerMapping (ascii "/") (some 1),
        .addHandlerMapping (ascii "/") (some 2), .removeHandlerMapping (ascii "/") (some 1)] = .ok s ∧
      (ascii "/", 1) ∈ s.removedMappings ∧ NeverStale s := by
  refine ⟨_, rfl, by decide, neverStale_run [.addHandlerMapping (ascii "/") (some 1),
    .addHandlerMapping (ascii "/") (some 2), .removeHandlerMapping (ascii "/") (some 1)] _ ?_ rfl⟩
  refine ⟨fun _ hx _ => absurd hx List.not_mem_nil, fun _ hx _ => absurd hx List.not_mem_nil, ?_, trivial⟩
  rintro x hx (⟨e, he, -, -⟩ | ⟨e, he, -, hlast⟩)
  · exact absurd he List.not_mem_nil
  · have hkey : e.1 = ascii "/" := by
      rcases List.mem_cons.mp he with rfl | he
      · rfl
      · rw [List.mem_singleton.mp he]
    cases hx
    rw [hkey] at hlast
    exact absurd hlast (by decide)

theorem removed_still_called :
    ∃ s : Registry ℕ, exec step empty [.addHandler (some 1), .addHandlerMapping (ascii "/") (some 1),
        .removeHandlerMapping (ascii "/") (some 1), .removeHandler (some 1)] = .ok s ∧
      (ascii "/", 1) ∈ s.removedMappings ∧ 1 ∈ s.removedHandlers ∧
      calls s.server (ascii "/x") = (.ok (), [(ascii "/", 1)]) ∧ ¬ NeverStale s := by
  refine ⟨_, rfl, by decide, by decide, by decide, ?_⟩
  intro h
  exact absurd (h (ascii "/x") (ascii "/", 1) (by decide)).1 (by decide)

end Registry

end FcgiAppserver.Dispatch
