import FcgiAppserver.ByteStrings
import FcgiAppserver.TracedAccesses

namespace FcgiAppserver.Urls

open ByteStrings TracedAccesses

def colon : Byte := 58
def slash : Byte := 47
def questionMark : Byte := 63

structure RuntimeError where
  what : String
deriving DecidableEq

structure URL where
  source : Bytes
  schema : Bytes
  host : Bytes
  port : Bytes
  path : Bytes
  query : Bytes
deriving DecidableEq

/-- An iterator over the source: its position and the bytes from there to the end. -/
structure Iterator where
  pos : ℕ
  rest : Bytes

namespace Iterator

/-- `p[i]`, which at the end of the string is its NUL. -/
def get (p : Iterator) (i : ℕ) : Traced ℕ Byte := do
  Traced.emit (p.pos + i)
  return p.rest.getD i 0

def advance (p : Iterator) (n : ℕ) : Iterator := ⟨p.pos + n, p.rest.drop n⟩

/-- `p != q && *p == c` -/
def isAt (p : Iterator) (c : Byte) : Traced ℕ Bool := do
  if p.rest = [] then return false
  else
    let b ← p.get 0
    return b = c

/-- `p[i] == c && p[i + 1] == c' && ...` -/
def spells (p : Iterator) : ℕ → Bytes → Traced ℕ Bool
  | _, [] => return true
  | i, c :: cs => do
    let b ← p.get i
    if b = c then p.spells (i + 1) cs else return false

/-- `assign(s, p)` -/
def upTo (s p : Iterator) : Bytes := s.rest.take (p.pos - s.pos)

end Iterator

/-- `while(p != q) { if(stop(*p)) break; p++; }` -/
def scan (stop : Byte → Bool) (pos : ℕ) : Bytes → Traced ℕ Iterator
  | [] => return ⟨pos, []⟩
  | b :: rest => do
    let c ← Iterator.get ⟨pos, b :: rest⟩ 0
    if stop c then return ⟨pos, b :: rest⟩ else scan stop (pos + 1) rest

def readSchema (source : Bytes) : Traced ℕ (Bytes × Iterator) := do
  let p : Iterator := ⟨0, source⟩
  if source.length ≥ 7 then
    if ← p.spells 0 (ascii "http") then
      if ← p.spells 4 (ascii "s://") then return (source.take 8, p.advance 8)
      else if ← p.spells 4 (ascii "://") then return (source.take 7, p.advance 7)
      else return ([], p)
    else return ([], p)
  else return ([], p)

def endsHost (b : Byte) : Bool := b = colon ∨ b = slash ∨ b = questionMark

def readHost (s : Iterator) : Traced ℕ (Bytes × Iterator) := do
  let p ← scan endsHost s.pos s.rest
  return (s.upTo p, p)

def readPort (p : Iterator) : Traced ℕ (Except RuntimeError (Bytes × Iterator)) := do
  if ← p.isAt colon then
    let s := p.advance 1
    let p ← scan (fun b => !isDigit b) s.pos s.rest
    if s.upTo p = [] then return .error ⟨"bad url"⟩
    else return .ok (s.upTo p, p)
  else return .ok ([], p)

def readPath (s : Iterator) : Traced ℕ (Bytes × Iterator) := do
  if ← s.isAt slash then
    let p ← scan (fun b => b = questionMark) s.pos s.rest
    return (s.upTo p, p)
  else return ([], s)

def readQuery (s : Iterator) : Traced ℕ Bytes := do
  if ← s.isAt questionMark then return s.upTo (s.advance s.rest.length)
  else return []

def url (source : Bytes) : Traced ℕ (Except RuntimeError URL) := do
  let (schema, p) ← readSchema source
  let (host, p) ← readHost p
  match ← readPort p with
  | .error e => return .error e
  | .ok (port, p) =>
    let (path, p) ← readPath p
    let query ← readQuery p
    return .ok ⟨source, schema, host, port, path, query⟩

example : (url (ascii "http://a:8/b?c")).value =
    .ok ⟨ascii "http://a:8/b?c", ascii "http://", ascii "a", ascii "8", ascii "/b", ascii "?c"⟩ := by
  decide

end FcgiAppserver.Urls
