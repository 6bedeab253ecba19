import FcgiAppserver.ByteStrings

namespace FcgiAppserver.Json

open ByteStrings

/-- The documents without floats. The items of an object stand in the order of its map. -/
inductive JSONValue
  | object (items : List (Bytes × JSONValue))
  | array (items : List JSONValue)
  | string (str : Bytes)
  | integer (i : Int32)

@[elab_as_elim, induction_eliminator]
theorem JSONValue.ind {P : JSONValue → Prop} (object : ∀ items, (∀ item ∈ items, P item.2) → P (.object items))
    (array : ∀ items, (∀ value ∈ items, P value) → P (.array items)) (string : ∀ str, P (.string str))
    (integer : ∀ i, P (.integer i)) : ∀ v, P v
  | .object items => object items (fun item _ => ind object array string integer item.2)
  | .array items => array items (fun value _ => ind object array string integer value)
  | .string str => string str
  | .integer i => integer i
termination_by v => sizeOf v
decreasing_by
  · rename_i hmem
    have hlt := List.sizeOf_lt_of_mem hmem
    cases item
    simp only [JSONValue.object.sizeOf_spec, Prod.mk.sizeOf_spec] at hlt ⊢
    omega
  · rename_i hmem
    have hlt := List.sizeOf_lt_of_mem hmem
    simp only [JSONValue.array.sizeOf_spec]
    omega

def quote : Byte := 34
def backslash : Byte := 92
def comma : Byte := 44
def colon : Byte := 58

def serializeChar (b : Byte) : Bytes :=
  match b with
  | 34 => [backslash, quote]
  | 92 => [backslash, backslash]
  | 47 => [backslash, 47]
  -- '\b', '\f', '\n', '\r' and '\t'
  | 8 => [backslash, 98]
  | 12 => [backslash, 102]
  | 10 => [backslash, 110]
  | 13 => [backslash, 114]
  | 9 => [backslash, 116]
  | b => [b]

def serializeString (str : Bytes) : Bytes := quote :: str.flatMap serializeChar ++ [quote]

def digit (d : ℕ) : Byte := (48 + d).toUInt8

/-- `o << n` for an unsigned number in default format. -/
def writeNat (n : ℕ) : Bytes := if n = 0 then [digit 0] else (Nat.digits 10 n).reverse.map digit

theorem writeNat_ne_nil (n : ℕ) : writeNat n ≠ [] := by
  rw [writeNat]
  split
  · exact List.cons_ne_nil _ _
  · rename_i hn
    simp [Nat.digits_eq_nil_iff_eq_zero, hn]

def writeInt (i : ℤ) : Bytes := if i < 0 then 45 :: writeNat i.natAbs else writeNat i.natAbs

theorem writeInt_ne_nil (i : ℤ) : writeInt i ≠ [] := by
  rw [writeInt]
  split
  · exact List.cons_ne_nil _ _
  · exact writeNat_ne_nil _

def separator (first : Bool) : Bytes := if first then [] else [comma]

mutual

def writeValue : JSONValue → Bytes
  | .object items => 123 :: writeItems true items ++ [125]
  | .array items => 91 :: writeElements true items ++ [93]
  | .string str => serializeString str
  | .integer i => writeInt i.toInt

def writeItem : Bytes × JSONValue → Bytes
  | (key, value) => serializeString key ++ colon :: writeValue value

def writeItems (first : Bool) : List (Bytes × JSONValue) → Bytes
  | [] => []
  | item :: items => separator first ++ writeItem item ++ writeItems false items

def writeElements (first : Bool) : List JSONValue → Bytes
  | [] => []
  | value :: values => separator first ++ writeValue value ++ writeElements false values

end

example : writeValue (.object [(ascii "a/b", .array []), (ascii "c", .array [.string (ascii "x\n"), .object []])]) =
    ascii "\x7b\"a\\/b\":[],\"c\":[\"x\\n\",\x7b\x7d]\x7d" := by decide

end FcgiAppserver.Json
