import FcgiAppserver.JsonReader
import FcgiAppserver.JsonWriter

namespace FcgiAppserver.Json

open ByteStrings JsonReader

mutual

def toJson : JSONValue → JsonReader.Json
  | .object items => .object (membersOf items)
  | .array items => .array (elementsOf items)
  | .string str => .string str
  | .integer i => .number i.toInt 0

def memberOf : Bytes × JSONValue → Bytes × JsonReader.Json
  | (key, value) => (key, toJson value)

def membersOf : List (Bytes × JSONValue) → List (Bytes × JsonReader.Json)
  | [] => []
  | item :: items => memberOf item :: membersOf items

def elementsOf : List JSONValue → List JsonReader.Json
  | [] => []
  | value :: values => toJson value :: elementsOf values

end

theorem readChars_plain {b : Byte} (s : Bytes) (fuel : ℕ) (hquote : b ≠ 34) (hbackslash : b ≠ 92) :
    readChars (fuel + 1) (b :: s) = (readChars fuel s).map (fun r => (b :: r.1, r.2)) := by
  rw [readChars]
  · cases readChars fuel s <;> rfl
  · exact hquote
  · exact hbackslash

theorem readChars_escape {c b : Byte} (s : Bytes) (fuel : ℕ) (hescape : escape (c :: s) = some ([b], s)) :
    readChars (fuel + 1) (backslash :: c :: s) = (readChars fuel s).map (fun r => (b :: r.1, r.2)) := by
  change (escape (c :: s)).bind _ = _
  rw [hescape]
  change (readChars fuel s).bind (fun r => some ([b] ++ r.1, r.2)) = _
  cases readChars fuel s <;> rfl

theorem readChars_char (b : Byte) (s : Bytes) (fuel : ℕ) :
    readChars (fuel + 1) (serializeChar b ++ s) = (readChars fuel s).map (fun r => (b :: r.1, r.2)) := by
  unfold serializeChar
  split
  case h_9 hquote hbackslash _ _ _ _ _ _ => exact readChars_plain s fuel hquote hbackslash
  all_goals exact readChars_escape s fuel rfl

theorem readChars_string (str rest : Bytes) (fuel : ℕ) (hfuel : str.length < fuel) :
    readChars fuel (str.flatMap serializeChar ++ quote :: rest) = some (str, rest) := by
  induction str generalizing fuel with
  | nil =>
    cases fuel with
    | zero => simp at hfuel
    | succ fuel => rfl
  | cons b str ih =>
    cases fuel with
    | zero => simp at hfuel
    | succ fuel =>
      rw [List.flatMap_cons, List.append_assoc, readChars_char, ih fuel (Nat.lt_of_succ_lt_succ hfuel)]
      rfl

theorem length_le_serialized (str : Bytes) : str.length ≤ (str.flatMap serializeChar).length := by
  induction str with
  | nil => rfl
  | cons b str ih =>
    have hpos : 1 ≤ (serializeChar b).length := by
      unfold serializeChar
      split <;> simp
    rw [List.flatMap_cons, List.length_append, List.length_cons]
    omega

theorem readString_serialized (str rest : Bytes) : readString (serializeString str ++ rest) = some (str, rest) := by
  have hlen := length_le_serialized str
  have hfuel : str.length < (str.flatMap serializeChar ++ [quote] ++ rest).length + 1 := by
    simp only [List.length_append]
    omega
  change readChars ((str.flatMap serializeChar ++ [quote] ++ rest).length + 1)
    (str.flatMap serializeChar ++ [quote] ++ rest) = _
  rw [List.append_assoc] at hfuel ⊢
  exact readChars_string str rest _ hfuel

theorem digit_toNat {d : ℕ} (hd : d < 10) : (digit d).toNat = 48 + d := by
  rw [digit, Nat.toUInt8, UInt8.toNat_ofNat']
  omega

theorem isDigit_digit {d : ℕ} (hd : d < 10) : isDigit (digit d) = true := by
  simp only [isDigit, Bool.and_eq_true, decide_eq_true_eq, UInt8.le_iff_toNat_le, digit_toNat hd]
  change 48 ≤ 48 + d ∧ 48 + d ≤ 57
  omega

theorem natOf_digits {ds : List ℕ} (hds : ∀ d ∈ ds, d < 10) :
    natOf (ds.reverse.map digit) = Nat.ofDigits 10 ds := by
  induction ds with
  | nil => rfl
  | cons d ds ih =>
    have hd := digit_toNat (hds d List.mem_cons_self)
    have htail := ih (fun x hx => hds x (List.mem_cons_of_mem _ hx))
    rw [natOf] at htail ⊢
    rw [List.reverse_cons, List.map_append, List.foldl_append, htail, Nat.ofDigits_cons]
    simp only [List.map_cons, List.map_nil, List.foldl_cons, List.foldl_nil, hd]
    omega

theorem natOf_writeNat (n : ℕ) : natOf (writeNat n) = n := by
  rw [writeNat]
  split
  · rename_i hn
    rw [hn]
    rfl
  · rw [natOf_digits (fun d hd => Nat.digits_lt_base (by decide) hd), Nat.ofDigits_digits]

theorem writeNat_digits (n : ℕ) : ∀ b ∈ writeNat n, isDigit b = true := by
  intro b hb
  rw [writeNat] at hb
  split at hb
  · rw [List.mem_singleton.mp hb]
    exact isDigit_digit (by decide)
  · obtain ⟨d, hd, rfl⟩ := List.mem_map.mp hb
    exact isDigit_digit (Nat.digits_lt_base (by decide) (List.mem_reverse.mp hd))

theorem not_mem_writeNat {n : ℕ} {b : Byte} (hb : isDigit b = false) : b ∉ writeNat n := by
  intro hmem
  rw [writeNat_digits n b hmem] at hb
  cases hb

theorem writeNat_no_leading_zero (n : ℕ) : ¬ ((writeNat n).head? = some 48 ∧ writeNat n ≠ [48]) := by
  rintro ⟨hhead, hne⟩
  rw [writeNat] at hhead hne
  split at hhead
  · rename_i hn
    rw [if_pos hn] at hne
    exact hne rfl
  · rename_i hn
    have hdigits : Nat.digits 10 n ≠ [] := Nat.digits_ne_nil_iff_ne_zero.mpr hn
    rw [List.head?_map, List.head?_reverse, List.getLast?_eq_getLast_of_ne_nil hdigits] at hhead
    have hlast := Nat.getLast_digit_ne_zero 10 hn
    have hlt : (Nat.digits 10 n).getLast hdigits < 10 :=
      Nat.digits_lt_base (by decide) (List.getLast_mem hdigits)
    have hzero := congrArg UInt8.toNat (Option.some.inj hhead)
    rw [digit_toNat hlt] at hzero
    change 48 + _ = 48 at hzero
    omega

/-- No number goes on with what `rest` begins with. -/
def Stops (rest : Bytes) : Prop := ∀ b ∈ rest.head?, isDigit b = false ∧ b ≠ 46 ∧ b ≠ 69 ∧ b ≠ 101

theorem readDigits_append {ds rest : Bytes} (hds : ∀ b ∈ ds, isDigit b = true) (hne : ds ≠ [])
    (hrest : Stops rest) : readDigits (ds ++ rest) = some (ds, rest) := by
  have hstop : rest.takeWhile isDigit = [] ∧ rest.dropWhile isDigit = rest := by
    cases rest with
    | nil => exact ⟨rfl, rfl⟩
    | cons b rest =>
      have hb := (hrest b rfl).1
      exact ⟨by rw [List.takeWhile_cons, hb]; rfl, by rw [List.dropWhile_cons, hb]; rfl⟩
  rw [readDigits, List.takeWhile_append_of_pos hds, List.dropWhile_append_of_pos hds, hstop.1, hstop.2,
    List.append_nil, if_neg hne]

theorem readFraction_none {rest : Bytes} (hrest : Stops rest) : readFraction rest = some ([], rest) := by
  unfold readFraction
  split
  · exact absurd rfl (hrest 46 rfl).2.1
  · rfl

theorem readExponent_none {rest : Bytes} (hrest : Stops rest) : readExponent rest = some (0, rest) := by
  unfold readExponent
  split
  · exact absurd rfl (hrest 69 rfl).2.2.1
  · exact absurd rfl (hrest 101 rfl).2.2.2
  · rfl

theorem readUnsigned_writeNat (n : ℕ) {rest : Bytes} (hrest : Stops rest) :
    readUnsigned (writeNat n ++ rest) = some (.number n 0, rest) := by
  rw [readUnsigned, readDigits_append (writeNat_digits n) (writeNat_ne_nil n) hrest]
  change (if _ then none else (readFraction rest).bind _) = _
  rw [if_neg (writeNat_no_leading_zero n), readFraction_none hrest]
  change (readExponent rest).bind _ = _
  rw [readExponent_none hrest]
  change some (Json.number (natOf (writeNat n ++ [])) 0, rest) = _
  rw [List.append_nil, natOf_writeNat]

theorem writeNat_head (n : ℕ) : ∃ b s, writeNat n = b :: s ∧ isDigit b = true := by
  obtain ⟨b, s, hs⟩ := List.exists_cons_of_ne_nil (writeNat_ne_nil n)
  exact ⟨b, s, hs, writeNat_digits n b (hs ▸ List.mem_cons_self)⟩

theorem readNumber_writeInt (i : ℤ) {rest : Bytes} (hrest : Stops rest) :
    readNumber (writeInt i ++ rest) = some (.number i 0, rest) := by
  rw [writeInt]
  split
  · rename_i hneg
    change (readUnsigned (writeNat i.natAbs ++ rest)).map _ = _
    rw [readUnsigned_writeNat _ hrest]
    change some (Json.number (-(i.natAbs : ℤ)) 0, rest) = _
    rw [Int.ofNat_natAbs_of_nonpos hneg.le, neg_neg]
  · rename_i hpos
    have hread := readUnsigned_writeNat i.natAbs hrest
    rw [Int.natAbs_of_nonneg (not_lt.mp hpos)] at hread
    obtain ⟨b, s, hs, hb⟩ := writeNat_head i.natAbs
    rw [hs] at hread ⊢
    unfold readNumber
    split
    · rename_i heq
      cases heq
      exact absurd hb (by decide)
    · exact hread

/-- The first bytes of written values. -/
def StartsValue (b : Byte) : Prop := b = 123 ∨ b = 91 ∨ b = 34 ∨ b = 45 ∨ isDigit b = true

theorem writeInt_head (i : ℤ) : ∃ b s, writeInt i = b :: s ∧ (b = 45 ∨ isDigit b = true) := by
  rw [writeInt]
  split
  · exact ⟨45, writeNat i.natAbs, rfl, Or.inl rfl⟩
  · obtain ⟨b, s, hs, hb⟩ := writeNat_head i.natAbs
    exact ⟨b, s, hs, Or.inr hb⟩

theorem writeValue_head (v : JSONValue) : ∃ b s, writeValue v = b :: s ∧ StartsValue b := by
  cases v with
  | object items => exact ⟨_, _, rfl, Or.inl rfl⟩
  | array items => exact ⟨_, _, rfl, Or.inr (Or.inl rfl)⟩
  | string str => exact ⟨_, _, rfl, Or.inr (Or.inr (Or.inl rfl))⟩
  | integer i =>
    obtain ⟨b, s, hs, hb⟩ := writeInt_head i.toInt
    exact ⟨b, s, hs, Or.inr (Or.inr (Or.inr hb))⟩

instance (b : Byte) : Decidable (StartsValue b) :=
  inferInstanceAs (Decidable (b = 123 ∨ b = 91 ∨ b = 34 ∨ b = 45 ∨ isDigit b = true))

theorem skipWhitespace_other {b : Byte} (s : Bytes) (hb : isWhitespace b = false) :
    skipWhitespace (b :: s) = b :: s := by
  rw [skipWhitespace, List.dropWhile_cons, hb]
  rfl

theorem StartsValue.ne {b c : Byte} (hb : StartsValue b) (hc : ¬ StartsValue c) : b ≠ c := by
  rintro rfl
  exact hc hb

theorem StartsValue.skip {b : Byte} (hb : StartsValue b) (s : Bytes) : skipWhitespace (b :: s) = b :: s := by
  apply skipWhitespace_other
  have h32 : b ≠ 32 := hb.ne (by decide)
  have h9 : b ≠ 9 := hb.ne (by decide)
  have h10 : b ≠ 10 := hb.ne (by decide)
  have h13 : b ≠ 13 := hb.ne (by decide)
  simp [isWhitespace, h32, h9, h10, h13]

theorem readValue_number {b : Byte} (s : Bytes) (fuel : ℕ) (hb : b = 45 ∨ isDigit b = true) :
    readValue (fuel + 1) (b :: s) = readNumber (b :: s) := by
  have hne : ∀ c, ¬ (c = 45 ∨ isDigit c = true) → b ≠ c := by
    rintro c hc rfl
    exact hc hb
  rw [readValue]
  all_goals
    rintro s' heq
    exact hne _ (by decide) (List.cons.inj heq).1

/-- `v` is read back from its text, whatever follows that no number goes on with. -/
def ReadsBack (v : JSONValue) : Prop :=
  ∀ fuel rest, (writeValue v).length < fuel → Stops rest →
    readValue fuel (writeValue v ++ rest) = some (toJson v, rest)

theorem skip_writeValue (v : JSONValue) (rest : Bytes) :
    skipWhitespace (writeValue v ++ rest) = writeValue v ++ rest := by
  obtain ⟨b, s, hs, hb⟩ := writeValue_head v
  rw [hs, List.cons_append, hb.skip]

theorem stops_items (items : List (Bytes × JSONValue)) (rest : Bytes) :
    Stops (writeItems false items ++ 125 :: rest) := by
  intro b hb
  cases items with
  | nil =>
    cases hb
    decide
  | cons item items =>
    cases hb
    decide

theorem stops_elements (values : List JSONValue) (rest : Bytes) :
    Stops (writeElements false values ++ 93 :: rest) := by
  intro b hb
  cases values with
  | nil =>
    cases hb
    decide
  | cons value values =>
    cases hb
    decide

theorem readMembers_key (key : Bytes) {value : JSONValue} (hread : ReadsBack value) {fuel : ℕ}
    (hfuel : (writeValue value).length < fuel) {s : Bytes} (hs : Stops s) :
    readMembers (fuel + 1) (writeItem (key, value) ++ s) =
      match skipWhitespace s with
      | 44 :: s => (readMembers fuel (skipWhitespace s)).map (fun r => ((key, toJson value) :: r.1, r.2))
      | 125 :: s => some ([(key, toJson value)], s)
      | _ => none := by
  rw [writeItem, List.append_assoc, List.cons_append, readMembers, readString_serialized]
  change (readValue fuel (skipWhitespace (writeValue value ++ s))).bind _ = _
  rw [skip_writeValue, hread fuel s hfuel hs]
  change (match skipWhitespace s with
    | 44 :: s => (readMembers fuel (skipWhitespace s)).bind (fun r => some ((key, toJson value) :: r.1, r.2))
    | 125 :: s => some ([(key, toJson value)], s)
    | _ => none) = _
  split
  · cases readMembers fuel (skipWhitespace _) <;> rfl
  · rfl
  · rfl

theorem readElements_value {value : JSONValue} (hread : ReadsBack value) {fuel : ℕ}
    (hfuel : (writeValue value).length < fuel) {s : Bytes} (hs : Stops s) :
    readElements (fuel + 1) (writeValue value ++ s) =
      match skipWhitespace s with
      | 44 :: s => (readElements fuel (skipWhitespace s)).map (fun r => (toJson value :: r.1, r.2))
      | 93 :: s => some ([toJson value], s)
      | _ => none := by
  rw [readElements, hread fuel s hfuel hs]
  change (match skipWhitespace s with
    | 44 :: s => (readElements fuel (skipWhitespace s)).bind (fun r => some (toJson value :: r.1, r.2))
    | 93 :: s => some ([toJson value], s)
    | _ => none) = _
  split
  · cases readElements fuel (skipWhitespace _) <;> rfl
  · rfl
  · rfl

theorem writeItems_true (item : Bytes × JSONValue) (items : List (Bytes × JSONValue)) :
    writeItems true (item :: items) = writeItem item ++ writeItems false items := rfl

theorem writeItems_false (item : Bytes × JSONValue) (items : List (Bytes × JSONValue)) :
    writeItems false (item :: items) = comma :: writeItems true (item :: items) := rfl

theorem writeElements_true (value : JSONValue) (values : List JSONValue) :
    writeElements true (value :: values) = writeValue value ++ writeElements false values := rfl

theorem writeElements_false (value : JSONValue) (values : List JSONValue) :
    writeElements false (value :: values) = comma :: writeElements true (value :: values) := rfl

theorem length_writeItem (key : Bytes) (value : JSONValue) :
    (writeValue value).length < (writeItem (key, value)).length := by
  rw [writeItem, List.length_append, List.length_cons]
  omega

theorem skip_writeItems (item : Bytes × JSONValue) (items : List (Bytes × JSONValue)) (rest : Bytes) :
    skipWhitespace (writeItems true (item :: items) ++ rest) = writeItems true (item :: items) ++ rest := by
  obtain ⟨key, value⟩ := item
  exact skipWhitespace_other _ rfl

theorem skip_writeElements (value : JSONValue) (values : List JSONValue) (rest : Bytes) :
    skipWhitespace (writeElements true (value :: values) ++ rest) = writeElements true (value :: values) ++ rest := by
  rw [writeElements_true, List.append_assoc, skip_writeValue]

theorem readMembers_items (item : Bytes × JSONValue) (items : List (Bytes × JSONValue))
    (hread : ∀ p ∈ item :: items, ReadsBack p.2) (fuel : ℕ) (rest : Bytes)
    (hfuel : (writeItems true (item :: items)).length + 2 ≤ fuel) :
    readMembers fuel (writeItems true (item :: items) ++ 125 :: rest) = some (membersOf (item :: items), rest) := by
  induction items generalizing item fuel with
  | nil =>
    obtain ⟨key, value⟩ := item
    obtain ⟨fuel, rfl⟩ := Nat.exists_eq_add_one.mpr (Nat.lt_of_lt_of_le (Nat.succ_pos _) hfuel)
    have hvalue : ReadsBack value := hread _ List.mem_cons_self
    have hlen := length_writeItem key value
    rw [writeItems_true, List.length_append] at hfuel
    rw [writeItems_true, List.append_assoc, readMembers_key key hvalue (by omega) (stops_items [] rest)]
    rfl
  | cons next items ih =>
    obtain ⟨key, value⟩ := item
    obtain ⟨fuel, rfl⟩ := Nat.exists_eq_add_one.mpr (Nat.lt_of_lt_of_le (Nat.succ_pos _) hfuel)
    have hvalue : ReadsBack value := hread _ List.mem_cons_self
    have hlen := length_writeItem key value
    rw [writeItems_true, writeItems_false, List.length_append, List.length_cons] at hfuel
    have htail := ih next (fun p hp => hread p (List.mem_cons_of_mem _ hp)) fuel (by omega)
    rw [writeItems_true, List.append_assoc, readMembers_key key hvalue (by omega) (stops_items (next :: items) rest)]
    change (readMembers fuel (skipWhitespace (writeItems true (next :: items) ++ 125 :: rest))).map _ = _
    rw [skip_writeItems, htail]
    rfl

theorem readElements_values (value : JSONValue) (values : List JSONValue)
    (hread : ∀ v ∈ value :: values, ReadsBack v) (fuel : ℕ) (rest : Bytes)
    (hfuel : (writeElements true (value :: values)).length + 2 ≤ fuel) :
    readElements fuel (writeElements true (value :: values) ++ 93 :: rest) =
      some (elementsOf (value :: values), rest) := by
  induction values generalizing value fuel with
  | nil =>
    obtain ⟨fuel, rfl⟩ := Nat.exists_eq_add_one.mpr (Nat.lt_of_lt_of_le (Nat.succ_pos _) hfuel)
    rw [writeElements_true, List.length_append] at hfuel
    rw [writeElements_true, List.append_assoc,
      readElements_value (hread _ List.mem_cons_self) (by omega) (stops_elements [] rest)]
    rfl
  | cons next values ih =>
    obtain ⟨fuel, rfl⟩ := Nat.exists_eq_add_one.mpr (Nat.lt_of_lt_of_le (Nat.succ_pos _) hfuel)
    rw [writeElements_true, writeElements_false, List.length_append, List.length_cons] at hfuel
    have htail := ih next (fun v hv => hread v (List.mem_cons_of_mem _ hv)) fuel (by omega)
    rw [writeElements_true, List.append_assoc,
      readElements_value (hread _ List.mem_cons_self) (by omega) (stops_elements (next :: values) rest)]
    change (readElements fuel (skipWhitespace (writeElements true (next :: values) ++ 93 :: rest))).map _ = _
    rw [skip_writeElements, htail]
    rfl

theorem readValue_array {s : Bytes} (fuel : ℕ) (hskip : skipWhitespace s = s) (hne : s.head? ≠ some 93) :
    readValue (fuel + 1) (91 :: s) = (readElements fuel s).map (fun r => (.array r.1, r.2)) := by
  rw [readValue, hskip]
  split
  · exact absurd rfl hne
  · rfl

theorem readValue_object {s : Bytes} (fuel : ℕ) (hskip : skipWhitespace s = s) (hne : s.head? ≠ some 125) :
    readValue (fuel + 1) (123 :: s) = (readMembers fuel s).map (fun r => (.object r.1, r.2)) := by
  rw [readValue, hskip]
  split
  · exact absurd rfl hne
  · rfl

theorem readsBack (v : JSONValue) : ReadsBack v := by
  induction v with
  | object items ih =>
    intro fuel rest hfuel hrest
    rw [writeValue, List.length_append, List.length_cons, List.length_singleton] at hfuel
    obtain ⟨fuel, rfl⟩ := Nat.exists_eq_add_one.mpr (Nat.zero_lt_of_lt hfuel)
    cases items with
    | nil => rfl
    | cons item items =>
      have hitems := readMembers_items item items ih fuel rest (by omega)
      have htext : writeValue (.object (item :: items)) ++ rest =
          123 :: (writeItems true (item :: items) ++ 125 :: rest) := by
        simp [writeValue]
      have hhead : (writeItems true (item :: items) ++ 125 :: rest).head? ≠ some 125 := by
        obtain ⟨key, value⟩ := item
        exact fun h => absurd (Option.some.inj h) (by decide)
      rw [htext, readValue_object fuel (skip_writeItems _ _ _) hhead, hitems]
      rfl
  | array values ih =>
    intro fuel rest hfuel hrest
    rw [writeValue, List.length_append, List.length_cons, List.length_singleton] at hfuel
    obtain ⟨fuel, rfl⟩ := Nat.exists_eq_add_one.mpr (Nat.zero_lt_of_lt hfuel)
    cases values with
    | nil => rfl
    | cons value values =>
      have hvalues := readElements_values value values ih fuel rest (by omega)
      have htext : writeValue (.array (value :: values)) ++ rest =
          91 :: (writeElements true (value :: values) ++ 93 :: rest) := by
        simp [writeValue]
      have hhead : (writeElements true (value :: values) ++ 93 :: rest).head? ≠ some 93 := by
        obtain ⟨b, s, hs, hb⟩ := writeValue_head value
        rw [writeElements_true, hs]
        exact fun h => hb.ne (by decide) (Option.some.inj h)
      rw [htext, readValue_array fuel (skip_writeElements _ _ _) hhead, hvalues]
      rfl
  | string str =>
    intro fuel rest hfuel hrest
    obtain ⟨fuel, rfl⟩ := Nat.exists_eq_add_one.mpr (Nat.zero_lt_of_lt hfuel)
    change (readString (serializeString str ++ rest)).map _ = _
    rw [readString_serialized]
    rfl
  | integer i =>
    intro fuel rest hfuel hrest
    obtain ⟨fuel, rfl⟩ := Nat.exists_eq_add_one.mpr (Nat.zero_lt_of_lt hfuel)
    obtain ⟨b, s, hs, hb⟩ := writeInt_head i.toInt
    have hnumber := readNumber_writeInt i.toInt hrest
    rw [hs, List.cons_append] at hnumber
    rw [writeValue, hs, List.cons_append, readValue_number _ fuel hb]
    exact hnumber

theorem membersOf_injective (items items' : List (Bytes × JSONValue))
    (hitems : ∀ p ∈ items, ∀ w, toJson p.2 = toJson w → p.2 = w) (h : membersOf items = membersOf items') :
    items = items' := by
  induction items generalizing items' with
  | nil =>
    cases items' with
    | nil => rfl
    | cons item' items' => cases h
  | cons item items ih =>
    cases items' with
    | nil => cases h
    | cons item' items' =>
      obtain ⟨key, value⟩ := item
      obtain ⟨key', value'⟩ := item'
      obtain ⟨hfirst, hrest⟩ := List.cons.inj h
      obtain ⟨hkey, hvalue⟩ := Prod.mk.inj hfirst
      have hsame : value = value' := hitems (key, value) List.mem_cons_self value' hvalue
      rw [ih items' (fun p hp => hitems p (List.mem_cons_of_mem _ hp)) hrest, hkey, hsame]

theorem elementsOf_injective (values values' : List JSONValue)
    (hvalues : ∀ v ∈ values, ∀ w, toJson v = toJson w → v = w) (h : elementsOf values = elementsOf values') :
    values = values' := by
  induction values generalizing values' with
  | nil =>
    cases values' with
    | nil => rfl
    | cons value' values' => cases h
  | cons value values ih =>
    cases values' with
    | nil => cases h
    | cons value' values' =>
      obtain ⟨hfirst, hrest⟩ := List.cons.inj h
      rw [ih values' (fun v hv => hvalues v (List.mem_cons_of_mem _ hv)) hrest,
        hvalues value List.mem_cons_self value' hfirst]

theorem toJson_injective (v w : JSONValue) (h : toJson v = toJson w) : v = w := by
  induction v generalizing w with
  | object items ih =>
    cases w with
    | object items' => rw [membersOf_injective items items' ih (JsonReader.Json.object.inj h)]
    | _ => cases h
  | array values ih =>
    cases w with
    | array values' => rw [elementsOf_injective values values' ih (JsonReader.Json.array.inj h)]
    | _ => cases h
  | string str =>
    cases w with
    | string str' => rw [JsonReader.Json.string.inj h]
    | _ => cases h
  | integer i =>
    cases w with
    | integer i' => rw [Int32.toInt_inj.mp (JsonReader.Json.number.inj h).1]
    | _ => cases h

theorem read_write (v : JSONValue) : readJson (writeValue v) = some (toJson v) := by
  have hread := readsBack v ((writeValue v).length + 1) [] (Nat.lt_succ_self _) nofun
  have hskip := skip_writeValue v []
  rw [List.append_nil] at hread hskip
  rw [readJson, hskip, hread]
  rfl

theorem written_text_determines (v : JSONValue) :
    readJson (writeValue v) = some (toJson v) ∧ (∀ w, toJson v = toJson w → v = w) ∧
      ∀ w, writeValue v = writeValue w → v = w := by
  refine ⟨read_write v, toJson_injective v, ?_⟩
  intro w h
  have hread := read_write v
  rw [h, read_write w] at hread
  exact toJson_injective v w (Option.some.inj hread).symm

end FcgiAppserver.Json
