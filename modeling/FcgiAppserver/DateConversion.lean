import FcgiAppserver.ByteStrings
import FcgiAppserver.GregorianCalendar

namespace FcgiAppserver.Dates

open ByteStrings

/-- A `double` is a rational number here, with its expressions computed exactly. -/
abbrev Double := ℚ

def unixEpochJulianDay : Double := 2440587.5
def secondsPerDay : ℤ := 24 * 60 * 60
def secondsPerQuant : ℤ := 15 * 60
def quantsPerDay : UInt32 := 24 * 4

/-- The conversion of a `double` cuts its fraction off; the whole part has to fit. -/
def toUnsigned (x : Double) : Option UInt32 :=
  if -1 < x ∧ x < 2 ^ 32 then some (UInt32.ofNat ⌊x⌋.toNat) else none

structure Date where
  julianDay : Double
deriving DecidableEq

/-- `s[i]` as a signed `char`; at the end of the string it is its NUL. -/
def charAt (s : Bytes) (i : ℕ) : Option ℤ :=
  if i ≤ s.length then
    let c := s.getD i 0
    some (if c < 0x80 then c.toNat else c.toNat - 256)
  else none

def numberAt (s : Bytes) (places : List (ℕ × ℤ)) : Option UInt32 := do
  let terms ← places.mapM (fun (i, weight) => do return ((← charAt s i) - 48) * weight)
  return UInt32.ofInt terms.sum

def ymdToJulianDay (year month day : UInt32) : Double :=
  let (year, month) := if month = 1 ∨ month = 2 then (year - 1, month + 12) else (year, month)
  let a : Double := ⌊((year / 100).toNat : Double)⌋
  let b : Double := ⌊a / 4⌋
  let c : Double := 2 - a + b
  let e : Double := ⌊365.25 * ((year + 4716).toNat : Double)⌋
  let f : Double := ⌊30.6001 * ((month + 1).toNat : Double)⌋
  c + day.toNat + e + f - 1524.5

def yyyymmddToJulianDay (s : Bytes) : Option Double := do
  let year ← numberAt s [(0, 1000), (1, 100), (2, 10), (3, 1)]
  let month ← numberAt s [(4, 10), (5, 1)]
  let day ← numberAt s [(6, 10), (7, 1)]
  return ymdToJulianDay year month day

def epochToJulianDay (epoch : ℤ) : Double := (epoch.tdiv secondsPerDay : ℤ) + unixEpochJulianDay

def date (s : Bytes) : Option Date := do return ⟨← yyyymmddToJulianDay s⟩

namespace Date

def lastDigit (n : UInt32) : Byte := (48 + n % 10).toUInt8

def yyyymmdd (date : Date) : Option Bytes := do
  let z := date.julianDay + 0.5
  let w : Double := ⌊(z - 1867216.25) / 36524.25⌋
  let x : Double := ⌊w / 4⌋
  let a := z + 1 + w - x
  let b := a + 1524
  let c : Double := ⌊(b - 122.1) / 365.25⌋
  let d : Double := ⌊365.25 * c⌋
  let e : Double := ⌊(b - d) / 30.6001⌋
  let f : Double := ⌊30.6001 * e⌋
  let day ← toUnsigned (b - d - f)
  let month ← toUnsigned (if e - 1 ≤ 12 then e - 1 else e - 13)
  let year ← toUnsigned (if month = 1 ∨ month = 2 then c - 4715 else c - 4716)
  return [lastDigit (year / 1000), lastDigit (year / 100), lastDigit (year / 10), lastDigit year,
    lastDigit (month / 10), lastDigit month, lastDigit (day / 10), lastDigit day]

def startQuantId (date : Date) : Option UInt32 := do
  return (← toUnsigned (date.julianDay - unixEpochJulianDay)) * quantsPerDay

def endQuantId (date : Date) : Option UInt32 := do
  return (← toUnsigned (date.julianDay - unixEpochJulianDay)) * quantsPerDay + quantsPerDay - 1

def add (date : Date) (days : UInt32) : Date := ⟨date.julianDay + days.toNat⟩

def increment (date : Date) : Date := ⟨date.julianDay + 1⟩

def eq (date v : Date) : Bool := ⌊date.julianDay⌋ = ⌊v.julianDay⌋

end Date

end FcgiAppserver.Dates
