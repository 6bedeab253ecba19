import FcgiAppserver.ByteStrings
import FcgiAppserver.FirstWins

namespace FcgiAppserver.QueryArgs

open ByteStrings FirstWins

abbrev Params := Std.ExtTreeMap Bytes Bytes

def ampersand : Byte := 38
def equals : Byte := 61
def letterC : Byte := 99

/-- What `parse_query_args` does with one argument, in its loop and once more after it. -/
def insertArg (params : Params) (arg : Bytes) (first last : ℕ) : Except OutOfRange Params :=
  let delim := findFirstOf arg equals 0
  if delim ≠ npos then do
    let name ← substr arg 0 delim
    let value ← substr arg (delim + 1) (sizeSub (sizeSub last first) delim)
    return params.insertIfNew name value
  else if !arg.isEmpty then
    return params.insertIfNew arg []
  else
    return params

def parseQueryArgsLoop (queryArgs : Bytes) (first last : ℕ) (params : Params) :
    Except OutOfRange Params :=
  if last ≠ npos then do
    let arg ← substr queryArgs first (sizeSub last first)
    let params ← insertArg params arg first last
    -- the loop goes on to the next 'c', not to the next '&'
    parseQueryArgsLoop queryArgs (last + 1) (findFirstOf queryArgs letterC (last + 1)) params
  else do
    let arg ← substr queryArgs first npos
    insertArg params arg first last
termination_by if last = npos then 0 else queryArgs.length - last + 1
decreasing_by
  rename_i hlast
  by_cases hnext : findFirstOf queryArgs letterC (last + 1) = npos
  · simp [hnext, hlast]
  · have hb := findFirstOf_bounds hnext
    simp only [hnext, hlast, if_false]
    omega

def parseQueryArgs (queryArgs : Bytes) : Except OutOfRange Params :=
  parseQueryArgsLoop queryArgs 0 (findFirstOf queryArgs ampersand 0) ∅

example : (parseQueryArgs (ascii "a=1&b")) = .ok (firstWins [(ascii "a", ascii "1"), (ascii "b", [])]) := by
  decide +kernel

end FcgiAppserver.QueryArgs
