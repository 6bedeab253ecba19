import FcgiAppserver.ByteStrings

/-!
A reader of JSON texts over bytes. Inside strings it takes every byte but the quotation mark and the
backslash for itself. Numbers are read as a mantissa and a power of ten, the members of an object as a list.
-/

namespace FcgiAppserver.JsonReader

open ByteStrings

inductive Json
  | null
  | bool (b : Bool)
  | number (mantissa exponent : ℤ)
  | string (s : Bytes)
  | array (elements : List Json)
  | object (members : List (Bytes × Json))

def isWhitespace (b : Byte) : Bool := b = 32 ∨ b = 9 ∨ b = 10 ∨ b = 13

def skipWhitespace (s : Bytes) : Bytes := s.dropWhile isWhitespace

def natOf (digits : Bytes) : ℕ := digits.foldl (fun n d => 10 * n + (d.toNat - 48)) 0

def hexDigit (b : Byte) : Option ℕ :=
  if 48 ≤ b ∧ b ≤ 57 then some (b.toNat - 48)
  else if 65 ≤ b ∧ b ≤ 70 then some (b.toNat - 55)
  else if 97 ≤ b ∧ b ≤ 102 then some (b.toNat - 87)
  else none

def codeUnit : Bytes → Option (ℕ × Bytes)
  | a :: b :: c :: d :: s => do
    let a ← hexDigit a
    let b ← hexDigit b
    let c ← hexDigit c
    let d ← hexDigit d
    some (((a * 16 + b) * 16 + c) * 16 + d, s)
  | _ => none

def utf8 (n : ℕ) : Bytes :=
  if n < 0x80 then [n.toUInt8]
  else if n < 0x800 then [(0xC0 + n / 64).toUInt8, (0x80 + n % 64).toUInt8]
  else if n < 0x10000 then [(0xE0 + n / 4096).toUInt8, (0x80 + n / 64 % 64).toUInt8, (0x80 + n % 64).toUInt8]
  else [(0xF0 + n / 262144).toUInt8, (0x80 + n / 4096 % 64).toUInt8, (0x80 + n / 64 % 64).toUInt8,
    (0x80 + n % 64).toUInt8]

/-- The character written as `\uXXXX`, or as two of them that make a surrogate pair. -/
def unicodeEscape (s : Bytes) : Option (Bytes × Bytes) := do
  let (high, s) ← codeUnit s
  match s with
  | 92 :: 117 :: s' =>
    let (low, rest) ← codeUnit s'
    if 0xD800 ≤ high ∧ high < 0xDC00 ∧ 0xDC00 ≤ low ∧ low < 0xE000 then
      some (utf8 (0x10000 + (high - 0xD800) * 0x400 + (low - 0xDC00)), rest)
    else some (utf8 high, s)
  | _ => some (utf8 high, s)

def escape : Bytes → Option (Bytes × Bytes)
  | 34 :: s => some ([34], s)
  | 92 :: s => some ([92], s)
  | 47 :: s => some ([47], s)
  | 98 :: s => some ([8], s)
  | 102 :: s => some ([12], s)
  | 110 :: s => some ([10], s)
  | 114 :: s => some ([13], s)
  | 116 :: s => some ([9], s)
  | 117 :: s => unicodeEscape s
  | _ => none

def readChars : ℕ → Bytes → Option (Bytes × Bytes)
  | _ + 1, 34 :: s => some ([], s)
  | fuel + 1, 92 :: s => do
    let (c, s) ← escape s
    let (cs, s) ← readChars fuel s
    some (c ++ cs, s)
  | fuel + 1, b :: s => do
    let (cs, s) ← readChars fuel s
    some (b :: cs, s)
  | _, _ => none

def readString : Bytes → Option (Bytes × Bytes)
  | 34 :: s => readChars (s.length + 1) s
  | _ => none

def readDigits (s : Bytes) : Option (Bytes × Bytes) :=
  if s.takeWhile isDigit = [] then none else some (s.takeWhile isDigit, s.dropWhile isDigit)

def readFraction : Bytes → Option (Bytes × Bytes)
  | 46 :: s => readDigits s
  | s => some ([], s)

def readExponent : Bytes → Option (ℤ × Bytes)
  | 69 :: s => go s
  | 101 :: s => go s
  | s => some (0, s)
where
  go : Bytes → Option (ℤ × Bytes)
    | 45 :: s => (readDigits s).map (fun r => (-(natOf r.1 : ℤ), r.2))
    | 43 :: s => (readDigits s).map (fun r => ((natOf r.1 : ℤ), r.2))
    | s => (readDigits s).map (fun r => ((natOf r.1 : ℤ), r.2))

def readUnsigned (s : Bytes) : Option (Json × Bytes) := do
  let (int, s) ← readDigits s
  -- no leading zeros
  if int.head? = some 48 ∧ int ≠ [48] then none
  else
    let (fraction, s) ← readFraction s
    let (exponent, s) ← readExponent s
    some (.number (natOf (int ++ fraction)) (exponent - fraction.length), s)

def negate : Json → Json
  | .number mantissa exponent => .number (-mantissa) exponent
  | v => v

def readNumber : Bytes → Option (Json × Bytes)
  | 45 :: s => (readUnsigned s).map (fun r => (negate r.1, r.2))
  | s => readUnsigned s

mutual

def readValue : ℕ → Bytes → Option (Json × Bytes)
  | 0, _ => none
  | fuel + 1, s =>
    match s with
    | 123 :: s =>
      match skipWhitespace s with
      | 125 :: s => some (.object [], s)
      | s => (readMembers fuel s).map (fun r => (.object r.1, r.2))
    | 91 :: s =>
      match skipWhitespace s with
      | 93 :: s => some (.array [], s)
      | s => (readElements fuel s).map (fun r => (.array r.1, r.2))
    | 34 :: s => (readString (34 :: s)).map (fun r => (.string r.1, r.2))
    | 110 :: 117 :: 108 :: 108 :: s => some (.null, s)
    | 116 :: 114 :: 117 :: 101 :: s => some (.bool true, s)
    | 102 :: 97 :: 108 :: 115 :: 101 :: s => some (.bool false, s)
    | s => readNumber s

def readMembers : ℕ → Bytes → Option (List (Bytes × Json) × Bytes)
  | 0, _ => none
  | fuel + 1, s => do
    let (key, s) ← readString s
    match skipWhitespace s with
    | 58 :: s =>
      let (value, s) ← readValue fuel (skipWhitespace s)
      match skipWhitespace s with
      | 44 :: s =>
        let (members, s) ← readMembers fuel (skipWhitespace s)
        some ((key, value) :: members, s)
      | 125 :: s => some ([(key, value)], s)
      | _ => none
    | _ => none

def readElements : ℕ → Bytes → Option (List Json × Bytes)
  | 0, _ => none
  | fuel + 1, s => do
    let (value, s) ← readValue fuel s
    match skipWhitespace s with
    | 44 :: s =>
      let (elements, s) ← readElements fuel (skipWhitespace s)
      some (value :: elements, s)
    | 93 :: s => some ([value], s)
    | _ => none

end

def readJson (s : Bytes) : Option Json :=
  match readValue (s.length + 1) (skipWhitespace s) with
  | some (value, rest) => if skipWhitespace rest = [] then some value else none
  | none => none

end FcgiAppserver.JsonReader
