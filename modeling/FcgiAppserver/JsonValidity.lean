import FcgiAppserver.JsonGrammar
import FcgiAppserver.JsonWriter

namespace FcgiAppserver.Json

open ByteStrings JsonGrammar

mutual

def strings : JSONValue → List Bytes
  | .object items => itemStrings items
  | .array values => elementStrings values
  | .string str => [str]
  | .integer _ => []

def stringsOfItem : Bytes × JSONValue → List Bytes
  | (key, value) => key :: strings value

def itemStrings : List (Bytes × JSONValue) → List Bytes
  | [] => []
  | item :: items => stringsOfItem item ++ itemStrings items

def elementStrings : List JSONValue → List Bytes
  | [] => []
  | value :: values => strings value ++ elementStrings values

end

/-- The control bytes that `serialize_string` escapes. -/
def EscapedControl (b : Byte) : Prop := b = 8 ∨ b = 9 ∨ b = 10 ∨ b = 12 ∨ b = 13

def ControlsEscaped (str : Bytes) : Prop := ∀ b ∈ str, b < 0x20 → EscapedControl b

instance (b : Byte) : Decidable (EscapedControl b) :=
  inferInstanceAs (Decidable (b = 8 ∨ b = 9 ∨ b = 10 ∨ b = 12 ∨ b = 13))

instance (str : Bytes) : Decidable (ControlsEscaped str) :=
  inferInstanceAs (Decidable (∀ b ∈ str, b < 0x20 → EscapedControl b))

theorem serializeChar_plain {b : Byte} (hcontrol : ¬ EscapedControl b) (hquote : b ≠ 34) (hbackslash : b ≠ 92)
    (hslash : b ≠ 47) : serializeChar b = [b] := by
  unfold serializeChar
  split
  all_goals first | rfl | contradiction

theorem serializeChar_control {b : Byte} (hb : b < 0x20) (hcontrol : ¬ EscapedControl b) :
    b ∈ serializeChar b := by
  have hplain : serializeChar b = [b] := by
    apply serializeChar_plain hcontrol
    all_goals
      rintro rfl
      exact absurd hb (by decide)
  rw [hplain]
  exact List.mem_cons_self

theorem serializeString_control {str : Bytes} {b : Byte} (hmem : b ∈ str) (hb : b < 0x20)
    (hcontrol : ¬ EscapedControl b) : b ∈ serializeString str := by
  have hraw := serializeChar_control hb hcontrol
  rw [serializeString, List.cons_append]
  exact List.mem_cons_of_mem _ (List.mem_append_left _ (List.mem_flatMap.mpr ⟨b, hmem, hraw⟩))

theorem writeItem_subset {item : Bytes × JSONValue} {items : List (Bytes × JSONValue)} {first : Bool}
    (hitem : item ∈ items) : writeItem item ⊆ writeItems first items := by
  induction items generalizing first with
  | nil => exact absurd hitem List.not_mem_nil
  | cons item' items ih =>
    rw [writeItems]
    rcases List.mem_cons.mp hitem with rfl | hitem
    · exact fun b hb => List.mem_append_left _ (List.mem_append_right _ hb)
    · exact fun b hb => List.mem_append_right _ (ih hitem hb)

theorem writeValue_subset {value : JSONValue} {values : List JSONValue} {first : Bool}
    (hvalue : value ∈ values) : writeValue value ⊆ writeElements first values := by
  induction values generalizing first with
  | nil => exact absurd hvalue List.not_mem_nil
  | cons value' values ih =>
    rw [writeElements]
    rcases List.mem_cons.mp hvalue with rfl | hvalue
    · exact fun b hb => List.mem_append_left _ (List.mem_append_right _ hb)
    · exact fun b hb => List.mem_append_right _ (ih hvalue hb)

theorem mem_itemStrings {str : Bytes} {items : List (Bytes × JSONValue)} :
    str ∈ itemStrings items ↔ ∃ item ∈ items, str = item.1 ∨ str ∈ strings item.2 := by
  induction items with
  | nil => simp [itemStrings]
  | cons item items ih =>
    obtain ⟨key, value⟩ := item
    simp [itemStrings, stringsOfItem, ih, or_assoc]

theorem mem_elementStrings {str : Bytes} {values : List JSONValue} :
    str ∈ elementStrings values ↔ ∃ value ∈ values, str ∈ strings value := by
  induction values with
  | nil => simp [elementStrings]
  | cons value values ih => simp [elementStrings, ih]

theorem serialized_subset (v : JSONValue) : ∀ str ∈ strings v, serializeString str ⊆ writeValue v := by
  induction v with
  | object items ih =>
    intro str hstr
    obtain ⟨⟨key, value⟩, hitem, hin⟩ := mem_itemStrings.mp hstr
    have hwritten : serializeString str ⊆ writeItem (key, value) := by
      rcases hin with rfl | hin
      · exact List.subset_append_left _ _
      · exact fun b hb => List.mem_append_right _ (List.mem_cons_of_mem _ (ih _ hitem str hin hb))
    exact fun b hb => List.mem_append_left _ (List.mem_cons_of_mem _ (writeItem_subset hitem (hwritten hb)))
  | array values ih =>
    intro str hstr
    obtain ⟨value, hvalue, hin⟩ := mem_elementStrings.mp hstr
    exact fun b hb =>
      List.mem_append_left _ (List.mem_cons_of_mem _ (writeValue_subset hvalue (ih value hvalue str hin hb)))
  | string str =>
    intro str' hstr
    rw [List.mem_singleton.mp hstr]
    exact List.Subset.refl _
  | integer i => exact List.forall_mem_nil _

theorem controlsEscaped_of_accepted {v : JSONValue} (h : Accepted (writeValue v)) :
    ∀ str ∈ strings v, ControlsEscaped str := by
  intro str hstr b hmem hb
  by_contra hcontrol
  have hwritten := serialized_subset v str hstr (serializeString_control hmem hb hcontrol)
  apply hcontrol
  rcases h.control hwritten hb with rfl | rfl | rfl <;> decide

theorem utf8_nil : utf8 [] = [] := rfl

theorem utf8_cons (c : Char) (s : List Char) : utf8 (c :: s) = String.utf8EncodeChar c ++ utf8 s := rfl

theorem serializeChar_high {b : Byte} (hb : 0x80 ≤ b) : serializeChar b = [b] := by
  apply serializeChar_plain
  · rintro (rfl | rfl | rfl | rfl | rfl) <;> exact absurd hb (by decide)
  all_goals
    rintro rfl
    exact absurd hb (by decide)

theorem flatMap_high {bs : Bytes} (h : ∀ b ∈ bs, 0x80 ≤ b) : bs.flatMap serializeChar = bs := by
  induction bs with
  | nil => rfl
  | cons b bs ih =>
    obtain ⟨hb, hbs⟩ := List.forall_mem_cons.mp h
    rw [List.flatMap_cons, serializeChar_high hb, ih hbs]
    rfl

theorem char_text {c : Char} (hc : ControlsEscaped (String.utf8EncodeChar c)) :
    ∃ s, StringChar s ∧ utf8 s = (String.utf8EncodeChar c).flatMap serializeChar := by
  have hne : ∀ d : Char, c.toNat ≠ d.toNat → c ≠ d := fun d h heq => h (congrArg Char.toNat heq)
  rcases Nat.lt_or_ge c.toNat 0x80 with hlow | hhigh
  · rw [utf8EncodeChar_ascii hlow] at hc ⊢
    rw [List.flatMap_singleton]
    have hb : c.toNat.toUInt8.toNat = c.toNat := Nat.mod_eq_of_lt (by omega)
    generalize hbyte : c.toNat.toUInt8 = b at hc hb ⊢
    unfold serializeChar
    split
    · exact ⟨_, .escape '"' (by simp), rfl⟩
    · exact ⟨_, .escape '\\' (by simp), rfl⟩
    · exact ⟨_, .escape '/' (by simp), rfl⟩
    · exact ⟨_, .escape 'b' (by simp), rfl⟩
    · exact ⟨_, .escape 'f' (by simp), rfl⟩
    · exact ⟨_, .escape 'n' (by simp), rfl⟩
    · exact ⟨_, .escape 'r' (by simp), rfl⟩
    · exact ⟨_, .escape 't' (by simp), rfl⟩
    · rename_i hquote hbackslash _ h8 h12 h10 h13 h9
      have hcontrol : ¬ b < 0x20 := by
        intro hlt
        rcases hc b List.mem_cons_self hlt with h | h | h | h | h
        · exact h8 h
        · exact h9 h
        · exact h10 h
        · exact h12 h
        · exact h13 h
      have hge : 0x20 ≤ c.toNat := by
        rw [← hb]
        exact UInt8.le_iff_toNat_le.mp (UInt8.not_lt.mp hcontrol)
      refine ⟨[c], .unescaped c hge (hne _ ?_) (hne _ ?_), ?_⟩
      · exact fun h => hquote (UInt8.toNat.inj (hb.trans h))
      · exact fun h => hbackslash (UInt8.toNat.inj (hb.trans h))
      · rw [utf8_cons, utf8_nil, utf8EncodeChar_ascii hlow, hbyte, List.append_nil]
  · refine ⟨[c], .unescaped c (by omega) (hne _ ?_) (hne _ ?_), ?_⟩
    · change c.toNat ≠ 34
      omega
    · change c.toNat ≠ 92
      omega
    · rw [flatMap_high (utf8EncodeChar_high hhigh), utf8_cons, utf8_nil, List.append_nil]

theorem string_text {cs : List Char} (hcs : ControlsEscaped (utf8 cs)) :
    ∃ s, StringText s ∧ utf8 s = serializeString (utf8 cs) := by
  obtain ⟨chars, hchars, htext⟩ : ∃ chars : List (List Char), (∀ x ∈ chars, StringChar x) ∧
      utf8 chars.flatten = (utf8 cs).flatMap serializeChar := by
    induction cs with
    | nil => exact ⟨[], List.forall_mem_nil _, rfl⟩
    | cons c cs ih =>
      obtain ⟨chars, hchars, htext⟩ := ih (fun b hb => hcs b (List.mem_append_right _ hb))
      obtain ⟨s, hs, hwritten⟩ := char_text (fun b hb => hcs b (List.mem_append_left _ hb))
      refine ⟨s :: chars, List.forall_mem_cons.mpr ⟨hs, hchars⟩, ?_⟩
      rw [List.flatten_cons, utf8_append, utf8_cons, List.flatMap_append, htext, hwritten]
  refine ⟨_, .mk chars hchars, ?_⟩
  rw [List.cons_append, utf8_cons, utf8_append, htext]
  rfl

theorem digitChar_text : ∀ d < 10, (Nat.digitChar d).isDigit = true ∧ (d ≠ 0 → Nat.digitChar d ≠ '0') ∧
    String.utf8EncodeChar (Nat.digitChar d) = [digit d] := by
  decide

theorem utf8_digits {ds : List ℕ} (hds : ∀ d ∈ ds, d < 10) : utf8 (ds.map Nat.digitChar) = ds.map digit := by
  induction ds with
  | nil => rfl
  | cons d ds ih =>
    obtain ⟨hd, hrest⟩ := List.forall_mem_cons.mp hds
    rw [List.map_cons, utf8_cons, (digitChar_text d hd).2.2, ih hrest]
    rfl

theorem nat_text (n : ℕ) : ∃ s, IntText s ∧ utf8 s = writeNat n := by
  rw [writeNat]
  split
  · exact ⟨_, .zero, rfl⟩
  · rename_i hn
    have hdigits : Nat.digits 10 n ≠ [] := Nat.digits_ne_nil_iff_ne_zero.mpr hn
    have hlt : ∀ d ∈ (Nat.digits 10 n).reverse, d < 10 :=
      fun d hd => Nat.digits_lt_base (by decide) (List.mem_reverse.mp hd)
    rw [← utf8_digits hlt]
    refine ⟨_, ?_, rfl⟩
    have hlast := Nat.getLast_digit_ne_zero 10 hn
    have hhead : (Nat.digits 10 n).reverse.head? = some ((Nat.digits 10 n).getLast hdigits) := by
      rw [List.head?_reverse, List.getLast?_eq_getLast_of_ne_nil hdigits]
    cases hds : (Nat.digits 10 n).reverse with
    | nil => simp [hds] at hhead
    | cons d ds =>
      rw [hds] at hhead hlt
      obtain ⟨hd, hrest⟩ := List.forall_mem_cons.mp hlt
      refine .nonzero _ _ (digitChar_text d hd).1 ((digitChar_text d hd).2.1 ?_) ?_
      · rw [Option.some.inj hhead]
        exact hlast
      · intro c hc
        obtain ⟨x, hx, rfl⟩ := List.mem_map.mp hc
        exact (digitChar_text x (hrest x hx)).1

theorem int_text (i : ℤ) : ∃ s, NumberText s ∧ utf8 s = writeInt i := by
  obtain ⟨int, hint, htext⟩ := nat_text i.natAbs
  rw [writeInt]
  split
  · refine ⟨_, .mk ['-'] int [] [] (by simp) hint .none .none, ?_⟩
    rw [List.append_nil, List.append_nil, utf8_append, htext]
    rfl
  · refine ⟨_, .mk [] int [] [] (by simp) hint .none .none, ?_⟩
    rw [List.append_nil, List.append_nil, List.nil_append, htext]

def Writable (str : Bytes) : Prop := ValidUtf8 str ∧ ControlsEscaped str

def HasText (v : JSONValue) : Prop := ∃ s, Value s ∧ utf8 s = writeValue v

theorem intercalate_cons {α : Type} (c : α) (t : List α) (l : List (List α)) :
    [c].intercalate (t :: l) = t ++ l.flatMap (fun x => c :: x) := by
  induction l generalizing t with
  | nil => simp
  | cons u l ih =>
    rw [List.intercalate_cons_cons, ih, List.flatMap_cons]
    simp

theorem utf8_flatMap (l : List (List Char)) :
    utf8 (l.flatMap (fun x => ',' :: x)) = (l.map utf8).flatMap (fun x => comma :: x) := by
  induction l with
  | nil => rfl
  | cons x l ih =>
    rw [List.flatMap_cons, utf8_append, ih]
    rfl

theorem utf8_intercalate (l : List (List Char)) : utf8 ([','].intercalate l) = [comma].intercalate (l.map utf8) := by
  cases l with
  | nil => rfl
  | cons t l => rw [intercalate_cons, utf8_append, utf8_flatMap, List.map_cons, intercalate_cons]

theorem writeElements_eq (values : List JSONValue) :
    writeElements true values = [comma].intercalate (values.map writeValue) := by
  have hfalse : ∀ values, writeElements false values = (values.map writeValue).flatMap (fun x => comma :: x) := by
    intro values
    induction values with
    | nil => rfl
    | cons value values ih =>
      rw [writeElements, ih]
      rfl
  cases values with
  | nil => rfl
  | cons value values =>
    rw [writeElements, hfalse, List.map_cons, intercalate_cons]
    rfl

theorem writeItems_eq (items : List (Bytes × JSONValue)) :
    writeItems true items = [comma].intercalate (items.map writeItem) := by
  have hfalse : ∀ items, writeItems false items = (items.map writeItem).flatMap (fun x => comma :: x) := by
    intro items
    induction items with
    | nil => rfl
    | cons item items ih =>
      rw [writeItems, ih]
      rfl
  cases items with
  | nil => rfl
  | cons item items =>
    rw [writeItems, hfalse, List.map_cons, intercalate_cons]
    rfl

theorem texts_of {α β : Type} {P : β → Prop} {text : β → List Char} {write : α → Bytes} {l : List α}
    (h : ∀ x ∈ l, ∃ y, P y ∧ utf8 (text y) = write x) :
    ∃ ys : List β, (∀ y ∈ ys, P y) ∧ utf8 ([','].intercalate (ys.map text)) = [comma].intercalate (l.map write) := by
  obtain ⟨ys, hys, htexts⟩ : ∃ ys : List β, (∀ y ∈ ys, P y) ∧ (ys.map text).map utf8 = l.map write := by
    induction l with
    | nil => exact ⟨[], List.forall_mem_nil _, rfl⟩
    | cons x l ih =>
      obtain ⟨⟨y, hy, htext⟩, hrest⟩ := List.forall_mem_cons.mp h
      obtain ⟨ys, hys, htexts⟩ := ih hrest
      refine ⟨y :: ys, List.forall_mem_cons.mpr ⟨hy, hys⟩, ?_⟩
      rw [List.map_cons, List.map_cons, List.map_cons, htext, htexts]
  exact ⟨ys, hys, by rw [utf8_intercalate, htexts]⟩

theorem element_text {v : JSONValue} (hv : HasText v) :
    ∃ e : Element, (e.Spaced ∧ Value e.value) ∧ utf8 e.text = writeValue v := by
  obtain ⟨s, hs, htext⟩ := hv
  refine ⟨⟨[], s, []⟩, ⟨⟨List.forall_mem_nil _, List.forall_mem_nil _⟩, hs⟩, ?_⟩
  rw [Element.text, List.append_nil, List.nil_append, htext]

theorem member_text {item : Bytes × JSONValue} (hkey : Writable item.1) (hvalue : HasText item.2) :
    ∃ m : Member, (m.Spaced ∧ StringText m.key ∧ Value m.value) ∧ utf8 m.text = writeItem item := by
  obtain ⟨key, value⟩ := item
  obtain ⟨⟨cs, rfl⟩, hcontrols⟩ := hkey
  obtain ⟨k, hk, hkeyText⟩ := string_text hcontrols
  obtain ⟨s, hs, htext⟩ := hvalue
  refine ⟨⟨[], k, [], [], s, []⟩, ⟨⟨?_, ?_, ?_, ?_⟩, hk, hs⟩, ?_⟩
  · exact List.forall_mem_nil _
  · exact List.forall_mem_nil _
  · exact List.forall_mem_nil _
  · exact List.forall_mem_nil _
  · have hpieces : Member.text ⟨[], k, [], [], s, []⟩ = k ++ ':' :: s := by simp [Member.text]
    rw [hpieces, utf8_append, utf8_cons, hkeyText, htext]
    rfl

theorem value_text (v : JSONValue) (hv : ∀ str ∈ strings v, Writable str) : HasText v := by
  induction v with
  | object items ih =>
    have hitems : ∀ p ∈ items, ∃ m : Member, (m.Spaced ∧ StringText m.key ∧ Value m.value) ∧
        utf8 m.text = writeItem p := by
      intro p hp
      apply member_text (hv p.1 (mem_itemStrings.mpr ⟨p, hp, Or.inl rfl⟩))
      exact ih p hp (fun str hstr => hv str (mem_itemStrings.mpr ⟨p, hp, Or.inr hstr⟩))
    obtain ⟨members, hmembers, htext⟩ := texts_of hitems
    refine ⟨_, .object [] members (List.forall_mem_nil _) (fun m hm => (hmembers m hm).1)
      (fun m hm => (hmembers m hm).2.1) (fun m hm => (hmembers m hm).2.2), ?_⟩
    rw [utf8_append, utf8_append, htext, ← writeItems_eq]
    rfl
  | array values ih =>
    have hvalues : ∀ value ∈ values, ∃ e : Element, (e.Spaced ∧ Value e.value) ∧ utf8 e.text = writeValue value := by
      intro value hvalue
      apply element_text
      exact ih value hvalue (fun str hstr => hv str (mem_elementStrings.mpr ⟨value, hvalue, hstr⟩))
    obtain ⟨elements, helements, htext⟩ := texts_of hvalues
    refine ⟨_, .array [] elements (List.forall_mem_nil _) (fun e he => (helements e he).1)
      (fun e he => (helements e he).2), ?_⟩
    rw [utf8_append, utf8_append, htext, ← writeElements_eq]
    rfl
  | string str =>
    obtain ⟨⟨cs, rfl⟩, hcontrols⟩ := hv str List.mem_cons_self
    obtain ⟨s, hs, htext⟩ := string_text hcontrols
    exact ⟨s, .string s hs, htext⟩
  | integer i =>
    obtain ⟨s, hs, htext⟩ := int_text i.toInt
    exact ⟨s, .number s hs, htext⟩

theorem accepted_iff (v : JSONValue) (hutf8 : ∀ str ∈ strings v, ValidUtf8 str) :
    Accepted (writeValue v) ↔ ∀ str ∈ strings v, ControlsEscaped str := by
  constructor
  · exact controlsEscaped_of_accepted
  · intro hcontrols
    obtain ⟨s, hs, htext⟩ := value_text v (fun str hstr => ⟨hutf8 str hstr, hcontrols str hstr⟩)
    refine ⟨s, htext, [], s, [], List.forall_mem_nil _, hs, List.forall_mem_nil _, ?_⟩
    rw [List.nil_append, List.append_nil]

theorem accepted_iff_plain_document :
    Accepted (writeValue (.object [(ascii "n", .integer (-1))])) ↔
      ∀ str ∈ strings (.object [(ascii "n", .integer (-1))]), ControlsEscaped str :=
  accepted_iff (.object [(ascii "n", .integer (-1))]) (fun _ hstr => ⟨['n'], (List.mem_singleton.mp hstr).symm⟩)

theorem control_byte_not_accepted :
    ValidUtf8 [1] ∧ writeValue (.array [.string [1]]) = [91, 34, 1, 34, 93] ∧
      ¬ Accepted (writeValue (.array [.string [1]])) := by
  refine ⟨⟨[Char.ofNat 1], rfl⟩, by decide, ?_⟩
  intro h
  have hcontrol := h.control (by decide : (1 : Byte) ∈ writeValue (.array [.string [1]])) (by decide)
  exact absurd hcontrol (by decide)

end FcgiAppserver.Json
