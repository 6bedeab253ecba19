import FcgiAppserver.ByteStrings

/-!
The grammar of RFC 8259 over characters, and the byte strings that are texts of it in UTF-8.
-/

namespace FcgiAppserver.JsonGrammar

open ByteStrings

def Ws (s : List Char) : Prop := ∀ c ∈ s, c = ' ' ∨ c = '\t' ∨ c = '\n' ∨ c = '\r'

def Digits (s : List Char) : Prop := ∀ c ∈ s, c.isDigit = true

def HexDigits (s : List Char) : Prop :=
  ∀ c ∈ s, c.isDigit = true ∨ ('a' ≤ c ∧ c ≤ 'f') ∨ ('A' ≤ c ∧ c ≤ 'F')

inductive StringChar : List Char → Prop
  | unescaped (c : Char) (hcontrol : 0x20 ≤ c.toNat) (hquote : c ≠ '"') (hbackslash : c ≠ '\\') : StringChar [c]
  | escape (c : Char) (hc : c ∈ ['"', '\\', '/', 'b', 'f', 'n', 'r', 't']) : StringChar ['\\', c]
  | unicode (digits : List Char) (hlength : digits.length = 4) (hhex : HexDigits digits) :
      StringChar ('\\' :: 'u' :: digits)

inductive StringText : List Char → Prop
  | mk (chars : List (List Char)) (hchars : ∀ x ∈ chars, StringChar x) : StringText ('"' :: chars.flatten ++ ['"'])

inductive IntText : List Char → Prop
  | zero : IntText ['0']
  | nonzero (d : Char) (ds : List Char) (hd : d.isDigit = true) (hne : d ≠ '0') (hds : Digits ds) : IntText (d :: ds)

inductive FractionText : List Char → Prop
  | none : FractionText []
  | some (ds : List Char) (hne : ds ≠ []) (hds : Digits ds) : FractionText ('.' :: ds)

inductive ExponentText : List Char → Prop
  | none : ExponentText []
  | some (e : Char) (sign ds : List Char) (he : e ∈ ['e', 'E']) (hsign : sign ∈ [[], ['+'], ['-']]) (hne : ds ≠ [])
      (hds : Digits ds) : ExponentText (e :: sign ++ ds)

inductive NumberText : List Char → Prop
  | mk (minus int fraction exponent : List Char) (hminus : minus ∈ [[], ['-']]) (hint : IntText int)
      (hfraction : FractionText fraction) (hexponent : ExponentText exponent) :
      NumberText (minus ++ int ++ fraction ++ exponent)

/-- A value in an array with the whitespace around it. -/
structure Element where
  before : List Char
  value : List Char
  after : List Char

structure Member where
  before : List Char
  key : List Char
  beforeColon : List Char
  afterColon : List Char
  value : List Char
  after : List Char

def Element.text (e : Element) : List Char := e.before ++ e.value ++ e.after

def Member.text (m : Member) : List Char :=
  m.before ++ m.key ++ m.beforeColon ++ ':' :: m.afterColon ++ m.value ++ m.after

def Element.Spaced (e : Element) : Prop := Ws e.before ∧ Ws e.after

def Member.Spaced (m : Member) : Prop := Ws m.before ∧ Ws m.beforeColon ∧ Ws m.afterColon ∧ Ws m.after

inductive Value : List Char → Prop
  | literal (s : List Char) (hs : s ∈ ["false".toList, "null".toList, "true".toList]) : Value s
  | number (s : List Char) (hs : NumberText s) : Value s
  | string (s : List Char) (hs : StringText s) : Value s
  | array (space : List Char) (elements : List Element) (hspace : Ws space)
      (hspaced : ∀ e ∈ elements, e.Spaced) (hvalues : ∀ e ∈ elements, Value e.value) :
      Value ('[' :: space ++ [','].intercalate (elements.map Element.text) ++ [']'])
  | object (space : List Char) (members : List Member) (hspace : Ws space) (hspaced : ∀ m ∈ members, m.Spaced)
      (hkeys : ∀ m ∈ members, StringText m.key) (hvalues : ∀ m ∈ members, Value m.value) :
      Value ('{' :: space ++ [','].intercalate (members.map Member.text) ++ ['}'])

def JsonText (s : List Char) : Prop := ∃ before value after, Ws before ∧ Value value ∧ Ws after ∧
  s = before ++ value ++ after

def utf8 (s : List Char) : Bytes := s.flatMap String.utf8EncodeChar

def ValidUtf8 (t : Bytes) : Prop := ∃ s, utf8 s = t

def Accepted (t : Bytes) : Prop := ∃ s, utf8 s = t ∧ JsonText s

/-- No text has another control character than these three. -/
def Allowed (c : Char) : Prop := 0x20 ≤ c.toNat ∨ c.toNat = 9 ∨ c.toNat = 10 ∨ c.toNat = 13

theorem allowed_of_le {c d : Char} (hd : 0x20 ≤ d.toNat) (h : d ≤ c) : Allowed c :=
  Or.inl (hd.trans (UInt32.le_iff_toNat_le.mp h))

theorem Ws.allowed {s : List Char} (hs : Ws s) : ∀ c ∈ s, Allowed c := by
  intro c hc
  rcases hs c hc with rfl | rfl | rfl | rfl
  · exact Or.inl (by decide)
  · exact Or.inr (Or.inl rfl)
  · exact Or.inr (Or.inr (Or.inl rfl))
  · exact Or.inr (Or.inr (Or.inr rfl))

theorem allowed_digit {c : Char} (hc : c.isDigit = true) : Allowed c := by
  simp only [Char.isDigit, Bool.and_eq_true, decide_eq_true_eq] at hc
  exact allowed_of_le (d := '0') (by decide) hc.1

theorem allowed_of_all {s : List Char} (hs : s.all (fun c => 0x20 ≤ c.toNat) = true) : ∀ c ∈ s, Allowed c := by
  intro c hc
  have hle := List.all_eq_true.mp hs c hc
  exact Or.inl (by simpa using hle)

theorem allowed_append {s t : List Char} (hs : ∀ c ∈ s, Allowed c) (ht : ∀ c ∈ t, Allowed c) :
    ∀ c ∈ s ++ t, Allowed c := by
  intro c hc
  rcases List.mem_append.mp hc with hc | hc
  · exact hs c hc
  · exact ht c hc

theorem allowed_flatten {l : List (List Char)} (hl : ∀ s ∈ l, ∀ c ∈ s, Allowed c) : ∀ c ∈ l.flatten, Allowed c := by
  intro c hc
  obtain ⟨s, hs, hcs⟩ := List.mem_flatten.mp hc
  exact hl s hs c hcs

theorem allowed_intercalate {l : List (List Char)} (hl : ∀ s ∈ l, ∀ c ∈ s, Allowed c) :
    ∀ c ∈ [','].intercalate l, Allowed c := by
  induction l with
  | nil => exact List.forall_mem_nil _
  | cons s l ih =>
    have hs := hl s List.mem_cons_self
    have hrest := ih (fun t ht => hl t (List.mem_cons_of_mem _ ht))
    cases l with
    | nil =>
      rw [List.intercalate_singleton]
      exact hs
    | cons t l =>
      rw [List.intercalate_cons_cons]
      exact allowed_append (allowed_append hs (allowed_of_all (by decide))) hrest

theorem StringChar.allowed {s : List Char} (hs : StringChar s) : ∀ c ∈ s, Allowed c := by
  cases hs with
  | unescaped c hcontrol hquote hbackslash =>
    intro d hd
    rw [List.mem_singleton.mp hd]
    exact Or.inl hcontrol
  | escape c hc =>
    simp only [List.mem_cons, List.not_mem_nil, or_false] at hc
    rcases hc with rfl | rfl | rfl | rfl | rfl | rfl | rfl | rfl <;> exact allowed_of_all (by decide)
  | unicode digits hlength hhex =>
    apply allowed_append (s := ['\\', 'u']) (allowed_of_all (by decide))
    intro c hc
    rcases hhex c hc with hdigit | hlower | hupper
    · exact allowed_digit hdigit
    · exact allowed_of_le (by decide) hlower.1
    · exact allowed_of_le (by decide) hupper.1

theorem StringText.allowed {s : List Char} (hs : StringText s) : ∀ c ∈ s, Allowed c := by
  cases hs with
  | mk chars hchars =>
    apply allowed_append (s := '"' :: chars.flatten)
    · apply allowed_append (s := ['"']) (allowed_of_all (by decide))
      exact allowed_flatten (fun x hx => (hchars x hx).allowed)
    · exact allowed_of_all (by decide)

theorem Digits.allowed {s : List Char} (hs : Digits s) : ∀ c ∈ s, Allowed c := fun c hc => allowed_digit (hs c hc)

theorem IntText.allowed {s : List Char} (hs : IntText s) : ∀ c ∈ s, Allowed c := by
  cases hs with
  | zero => exact allowed_of_all (by decide)
  | nonzero d ds hd hne hds => exact List.forall_mem_cons.mpr ⟨allowed_digit hd, hds.allowed⟩

theorem FractionText.allowed {s : List Char} (hs : FractionText s) : ∀ c ∈ s, Allowed c := by
  cases hs with
  | none => exact List.forall_mem_nil _
  | some ds hne hds => exact allowed_append (s := ['.']) (allowed_of_all (by decide)) hds.allowed

theorem ExponentText.allowed {s : List Char} (hs : ExponentText s) : ∀ c ∈ s, Allowed c := by
  cases hs with
  | none => exact List.forall_mem_nil _
  | some e sign ds he hsign hne hds =>
    apply allowed_append _ hds.allowed
    simp only [List.mem_cons, List.not_mem_nil, or_false] at he hsign
    rcases he with rfl | rfl <;> rcases hsign with rfl | rfl | rfl <;> exact allowed_of_all (by decide)

theorem NumberText.allowed {s : List Char} (hs : NumberText s) : ∀ c ∈ s, Allowed c := by
  cases hs with
  | mk minus int fraction exponent hminus hint hfraction hexponent =>
    apply allowed_append (allowed_append (allowed_append _ hint.allowed) hfraction.allowed) hexponent.allowed
    simp only [List.mem_cons, List.not_mem_nil, or_false] at hminus
    rcases hminus with rfl | rfl <;> exact allowed_of_all (by decide)

theorem Value.allowed {s : List Char} (hs : Value s) : ∀ c ∈ s, Allowed c := by
  induction hs with
  | literal s hs =>
    simp only [List.mem_cons, List.not_mem_nil, or_false] at hs
    rcases hs with rfl | rfl | rfl <;> exact allowed_of_all (by decide)
  | number s hs => exact hs.allowed
  | string s hs => exact hs.allowed
  | array space elements hspace hspaced hvalues ih =>
    have hopen : ∀ c ∈ '[' :: space, Allowed c :=
      allowed_append (s := ['[']) (allowed_of_all (by decide)) hspace.allowed
    refine allowed_append (allowed_append hopen (allowed_intercalate ?_)) (allowed_of_all (by decide))
    intro t ht
    obtain ⟨e, he, rfl⟩ := List.mem_map.mp ht
    obtain ⟨hbefore, hafter⟩ := hspaced e he
    exact allowed_append (allowed_append hbefore.allowed (ih e he)) hafter.allowed
  | object space members hspace hspaced hkeys hvalues ih =>
    have hopen : ∀ c ∈ '{' :: space, Allowed c :=
      allowed_append (s := ['{']) (allowed_of_all (by decide)) hspace.allowed
    refine allowed_append (allowed_append hopen (allowed_intercalate ?_)) (allowed_of_all (by decide))
    intro t ht
    obtain ⟨m, hm, rfl⟩ := List.mem_map.mp ht
    obtain ⟨hbefore, hbeforeColon, hafterColon, hafter⟩ := hspaced m hm
    have hkey := allowed_append hbefore.allowed (hkeys m hm).allowed
    have hcolon := allowed_append (s := [':']) (allowed_of_all (by decide)) hafterColon.allowed
    have hvalue := allowed_append (allowed_append (allowed_append hkey hbeforeColon.allowed) hcolon) (ih m hm)
    exact allowed_append hvalue hafter.allowed

theorem JsonText.allowed {s : List Char} (hs : JsonText s) : ∀ c ∈ s, Allowed c := by
  obtain ⟨before, value, after, hbefore, hvalue, hafter, rfl⟩ := hs
  exact allowed_append (allowed_append hbefore.allowed hvalue.allowed) hafter.allowed

theorem utf8_append (s t : List Char) : utf8 (s ++ t) = utf8 s ++ utf8 t := List.flatMap_append

theorem utf8EncodeChar_ascii {c : Char} (hc : c.toNat < 0x80) : String.utf8EncodeChar c = [c.toNat.toUInt8] := by
  have hle : c.val.toNat ≤ 0x7f := Nat.le_of_lt_succ hc
  rw [String.utf8EncodeChar, if_pos hle]
  rfl

theorem high_byte {k n : ℕ} (hk : 0x80 ≤ k) (hn : n < 0x100 - k) : (0x80 : Byte) ≤ UInt8.ofNat (n + k) := by
  rw [UInt8.le_iff_toNat_le, UInt8.toNat_ofNat', Nat.mod_eq_of_lt (by omega)]
  change 128 ≤ n + k
  omega

theorem utf8EncodeChar_high {c : Char} (hc : 0x80 ≤ c.toNat) : ∀ b ∈ String.utf8EncodeChar c, 0x80 ≤ b := by
  have hgt : ¬ c.val.toNat ≤ 0x7f := Nat.not_le.mpr hc
  rw [String.utf8EncodeChar, if_neg hgt]
  intro b hb
  split at hb
  · simp only [List.mem_cons, List.not_mem_nil, or_false] at hb
    rcases hb with rfl | rfl <;> exact high_byte (by decide) (by omega)
  · split at hb
    · simp only [List.mem_cons, List.not_mem_nil, or_false] at hb
      rcases hb with rfl | rfl | rfl <;> exact high_byte (by decide) (by omega)
    · simp only [List.mem_cons, List.not_mem_nil, or_false] at hb
      rcases hb with rfl | rfl | rfl | rfl <;> exact high_byte (by decide) (by omega)

theorem Accepted.control {t : Bytes} (ht : Accepted t) {b : Byte} (hb : b ∈ t) (hcontrol : b < 0x20) :
    b = 9 ∨ b = 10 ∨ b = 13 := by
  obtain ⟨s, rfl, hs⟩ := ht
  obtain ⟨c, hc, hbc⟩ := List.mem_flatMap.mp hb
  have hallowed := hs.allowed c hc
  have hlt := UInt8.lt_iff_toNat_lt.mp hcontrol
  have hascii : c.toNat < 0x80 := by
    by_contra hhigh
    have hge := UInt8.le_iff_toNat_le.mp (utf8EncodeChar_high (Nat.not_lt.mp hhigh) b hbc)
    change b.toNat < 32 at hlt
    change 128 ≤ b.toNat at hge
    omega
  rw [utf8EncodeChar_ascii hascii, List.mem_singleton] at hbc
  subst hbc
  rcases hallowed with hge | htab | hlf | hcr
  · have hsame : c.toNat.toUInt8.toNat = c.toNat := Nat.mod_eq_of_lt (by omega)
    rw [hsame] at hlt
    exact absurd hge (Nat.not_le.mpr hlt)
  · exact Or.inl (by rw [htab]; rfl)
  · exact Or.inr (Or.inl (by rw [hlf]; rfl))
  · exact Or.inr (Or.inr (by rw [hcr]; rfl))

end FcgiAppserver.JsonGrammar
