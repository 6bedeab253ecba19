import FcgiAppserver.FormdataParser
import FcgiAppserver.SortedMultimap

namespace FcgiAppserver.Dispatch

open ByteStrings QueryArgs Formdata

/-- Handlers are pointers: `none` is the null pointer. -/
abbrev LocationMap (H : Type) := SortedMultimap Bytes (Option H)

structure FcgiServer (H : Type) where
  locationsMap : LocationMap H
  exactLocationsMap : LocationMap H

variable {H : Type}

def fcgiServer : FcgiServer H := ⟨.empty, .empty⟩

def substrFrom (s : Bytes) (pos : ℕ) : Except OutOfRange Bytes :=
  if pos ≤ s.length then .ok (s.drop pos) else .error ⟨pos, s.length⟩

-- sizeof("=") counts the terminating NUL
def sizeofMarker : ℕ := 2

def addHandlerMapping (s : FcgiServer H) (uri : Bytes) (handler : Option H) :
    Except OutOfRange (FcgiServer H) :=
  if findFirstOf uri equals 0 = 0 then do
    let key ← substrFrom uri sizeofMarker
    return { s with exactLocationsMap := s.exactLocationsMap.insert key handler }
  else return { s with locationsMap := s.locationsMap.insert uri handler }

def exactHandler (s : FcgiServer H) (uri : Bytes) : Option H :=
  let matchedPrefix : Bytes := []
  (s.exactLocationsMap.equalRange uri).foldl (fun handlerToFire i =>
    if i.2.isSome then
      if matchedPrefix.length < i.1.length then i.2 else handlerToFire
    else handlerToFire) none

def prefixHandler (s : FcgiServer H) (uri : Bytes) : Option H :=
  let matchedPrefix : Bytes := []
  s.locationsMap.entries.foldl (fun handlerToFire i =>
    if find uri i.1 0 = 0 ∧ i.2.isSome then
      if matchedPrefix.length < i.1.length then i.2 else handlerToFire
    else handlerToFire) none

def noHandlers (uri : Bytes) : FcgiException :=
  ⟨cString (ascii "No handlers configured for location: \"" ++ uri ++ [quote]), httpNotFound⟩

def invokeHandler {m : Type → Type} [Monad m] [MonadExceptOf FcgiException m] (s : FcgiServer H)
    (handle : H → m Unit) (uri : Bytes) : m Unit :=
  match exactHandler s uri with
  | some handler => handle handler
  | none =>
    match prefixHandler s uri with
    | some handler => handle handler
    | none => throw (noHandlers uri)

def addHandlerMappings (mappings : List (Bytes × Option H)) : FcgiServer H :=
  -- a mapping that throws leaves the server as it was
  mappings.foldl (fun s mapping => (addHandlerMapping s mapping.1 mapping.2).toOption.getD s) fcgiServer

def calls (s : FcgiServer H) (uri : Bytes) : Except FcgiException Unit × List H :=
  let record : H → ExceptT FcgiException (StateM (List H)) Unit := fun handler => modify (· ++ [handler])
  ((invokeHandler s record uri).run.run [])

theorem findFirstOf_zero_iff (s : Bytes) (c : Byte) : findFirstOf s c 0 = 0 ↔ s.head? = some c := by
  constructor
  · intro h
    by_cases hm : c ∈ s
    · obtain ⟨seg, rest, hs, -, hf⟩ := findFirstOf_of_mem (by simpa using hm : c ∈ s.drop 0)
      have hnil : seg = [] := by
        rw [← List.length_eq_zero_iff]
        omega
      rw [List.drop_zero, hnil] at hs
      simp [hs]
    · rw [findFirstOf_of_not_mem (by simpa using hm)] at h
      simp [npos] at h
  · intro h
    obtain ⟨rest, rfl⟩ := List.head?_eq_some_iff.mp h
    simp [findFirstOf, List.idxOf?_cons]

theorem find_zero_iff (s pat : Bytes) : find s pat 0 = 0 ↔ pat <+: s := by
  have hindex : find s pat 0 = 0 ↔ indexOf? pat s = some 0 := by
    rw [find, if_pos (Nat.zero_le _), List.drop_zero]
    cases hi : indexOf? pat s with
    | none => simp [npos]
    | some i => simp
  rw [hindex]
  cases s with
  | nil => simp [indexOf?]
  | cons b s =>
    rw [indexOf?, ← List.isPrefixOf_iff_prefix]
    cases hp : pat.isPrefixOf (b :: s) <;> simp

variable {mappings : List (Bytes × Option H)}

def prefixMappings (mappings : List (Bytes × Option H)) : List (Bytes × Option H) :=
  mappings.filter (fun m => m.1.head? ≠ some equals)

def exactEntries (mappings : List (Bytes × Option H)) : List (Bytes × Option H) :=
  (mappings.filter (fun m => m.1.head? = some equals ∧ sizeofMarker ≤ m.1.length)).map
    (fun m => (m.1.drop sizeofMarker, m.2))

theorem addHandlerMapping_plain (s : FcgiServer H) {uri : Bytes} (handler : Option H)
    (h : uri.head? ≠ some equals) :
    addHandlerMapping s uri handler = .ok { s with locationsMap := s.locationsMap.insert uri handler } := by
  rw [addHandlerMapping, if_neg (by rwa [findFirstOf_zero_iff])]
  rfl

theorem addHandlerMapping_exact (s : FcgiServer H) {uri : Bytes} (handler : Option H)
    (h : uri.head? = some equals) (hlen : sizeofMarker ≤ uri.length) :
    addHandlerMapping s uri handler =
      .ok { s with exactLocationsMap := s.exactLocationsMap.insert (uri.drop sizeofMarker) handler } := by
  rw [addHandlerMapping, if_pos ((findFirstOf_zero_iff _ _).mpr h), substrFrom, if_pos hlen]
  rfl

theorem addHandlerMapping_marker (s : FcgiServer H) {uri : Bytes} (handler : Option H)
    (h : uri.head? = some equals) (hlen : ¬ sizeofMarker ≤ uri.length) :
    addHandlerMapping s uri handler = .error ⟨sizeofMarker, uri.length⟩ := by
  rw [addHandlerMapping, if_pos ((findFirstOf_zero_iff _ _).mpr h), substrFrom, if_neg hlen]
  rfl

theorem addHandlerMappings_eq (mappings : List (Bytes × Option H)) :
    addHandlerMappings mappings =
      ⟨.insertAll (prefixMappings mappings), .insertAll (exactEntries mappings)⟩ := by
  induction mappings using List.reverseRecOn with
  | nil => rfl
  | append_singleton mappings m ih =>
    rw [addHandlerMappings, List.foldl_append, ← addHandlerMappings, ih, List.foldl_cons, List.foldl_nil]
    simp only [prefixMappings, exactEntries, List.filter_append, List.map_append]
    by_cases hhead : m.1.head? = some equals
    · by_cases hlen : sizeofMarker ≤ m.1.length
      · rw [addHandlerMapping_exact _ _ hhead hlen]
        simp [hhead, hlen, SortedMultimap.insertAll, Except.toOption]
      · rw [addHandlerMapping_marker _ _ hhead hlen]
        simp [hhead, hlen, Except.toOption]
    · rw [addHandlerMapping_plain _ _ hhead]
      simp [hhead, SortedMultimap.insertAll, Except.toOption]

theorem locationsMap_eq (mappings : List (Bytes × Option H)) :
    (addHandlerMappings mappings).locationsMap = .insertAll (prefixMappings mappings) := by
  rw [addHandlerMappings_eq]

theorem exactLocationsMap_eq (mappings : List (Bytes × Option H)) :
    (addHandlerMappings mappings).exactLocationsMap = .insertAll (exactEntries mappings) := by
  rw [addHandlerMappings_eq]

theorem invokeHandler_eq {m : Type → Type} [Monad m] [MonadExceptOf FcgiException m] (s : FcgiServer H)
    (handle : H → m Unit) (uri : Bytes) :
    invokeHandler s handle uri =
      ((exactHandler s uri).or (prefixHandler s uri)).elim (throw (noHandlers uri)) handle := by
  unfold invokeHandler
  cases exactHandler s uri with
  | some h => rfl
  | none => cases prefixHandler s uri <;> rfl

theorem calls_eq (s : FcgiServer H) (uri : Bytes) :
    calls s uri = ((exactHandler s uri).or (prefixHandler s uri)).elim (.error (noHandlers uri), [])
      (fun h => (.ok (), [h])) := by
  simp only [calls, invokeHandler_eq]
  cases (exactHandler s uri).or (prefixHandler s uri) <;> rfl

end FcgiAppserver.Dispatch
