import FcgiAppserver.FormDataStream
import FcgiAppserver.QueryReference
import FcgiAppserver.TracedAccesses

namespace FcgiAppserver.QueryArgs

open ByteStrings TracedAccesses Traced FirstWins

inductive Check
  | offset (pos size : ℕ)
  | sum (a b : ℕ)
  | difference (a b : ℕ)

def Check.Holds : Check → Prop
  | offset pos size => pos ≤ size
  | sum a b => a + b < 2 ^ 64
  | difference a b => b ≤ a

abbrev Checking (α : Type) := ExceptT OutOfRange (Traced Check) α

def substrChecked (s : Bytes) (pos n : ℕ) : Checking Bytes := ExceptT.mk do
  emit (.offset pos s.length)
  return substr s pos n

def subChecked (a b : ℕ) : Checking ℕ := ExceptT.mk do
  emit (.difference a b)
  return .ok (sizeSub a b)

def succChecked (a : ℕ) : Checking Unit := ExceptT.mk do
  emit (.sum a 1)
  return .ok ()

def insertArgChecked (params : Params) (arg : Bytes) (first last : ℕ) : Checking Params :=
  let delim := findFirstOf arg equals 0
  if delim ≠ npos then do
    let name ← substrChecked arg 0 delim
    succChecked delim
    let n ← subChecked last first
    let n ← subChecked n delim
    let value ← substrChecked arg (delim + 1) n
    return params.insertIfNew name value
  else if !arg.isEmpty then
    return params.insertIfNew arg []
  else
    return params

def parseQueryArgsChecked (queryArgs : Bytes) (first last : ℕ) (params : Params) : Checking Params :=
  if last ≠ npos then do
    let n ← subChecked last first
    let arg ← substrChecked queryArgs first n
    let params ← insertArgChecked params arg first last
    succChecked last
    parseQueryArgsChecked queryArgs (last + 1) (findFirstOf queryArgs letterC (last + 1)) params
  else do
    let arg ← substrChecked queryArgs first npos
    insertArgChecked params arg first last
termination_by if last = npos then 0 else queryArgs.length - last + 1
decreasing_by
  rename_i hlast
  by_cases hnext : findFirstOf queryArgs letterC (last + 1) = npos
  · simp [hnext, hlast]
  · have hb := findFirstOf_bounds hnext
    simp only [hnext, hlast, if_false]
    omega

section

variable {s : Bytes} {pos n a b : ℕ}

@[simp] theorem substrChecked_value : (substrChecked s pos n).run.value = substr s pos n := rfl

@[simp] theorem subChecked_value : (subChecked a b).run.value = .ok (sizeSub a b) := rfl

@[simp] theorem succChecked_value : (succChecked a).run.value = .ok () := rfl

theorem substrChecked_always : Always Check.Holds (substrChecked s pos n).run ↔ pos ≤ s.length :=
  List.forall_mem_singleton

theorem subChecked_always : Always Check.Holds (subChecked a b).run ↔ b ≤ a := List.forall_mem_singleton

theorem succChecked_always : Always Check.Holds (succChecked a).run ↔ a + 1 < 2 ^ 64 := List.forall_mem_singleton

end

theorem insertArgChecked_value (params : Params) (arg : Bytes) (first last : ℕ) :
    (insertArgChecked params arg first last).run.value = insertArg params arg first last := by
  unfold insertArgChecked insertArg
  by_cases hdelim : findFirstOf arg equals 0 ≠ npos
  · rw [if_pos hdelim, if_pos hdelim]
    simp only [run_bind_value, substrChecked_value, succChecked_value, subChecked_value]
    rfl
  · rw [if_neg hdelim, if_neg hdelim]
    split_ifs <;> rfl

theorem parseQueryArgsChecked_value (queryArgs : Bytes) (first last : ℕ) (params : Params) :
    (parseQueryArgsChecked queryArgs first last params).run.value = parseQueryArgsLoop queryArgs first last params := by
  induction first, last, params using parseQueryArgsLoop.induct queryArgs with
  | case1 first last params hlast ih =>
    rw [parseQueryArgsChecked, parseQueryArgsLoop, if_pos hlast, if_pos hlast]
    simp only [run_bind_value, substrChecked_value, succChecked_value, subChecked_value, insertArgChecked_value, ih]
    rfl
  | case2 first last params hlast =>
    rw [parseQueryArgsChecked, parseQueryArgsLoop, if_neg hlast, if_neg hlast]
    simp only [run_bind_value, substrChecked_value, insertArgChecked_value]
    rfl

theorem substr_length {s arg : Bytes} {pos n : ℕ} (h : substr s pos n = .ok arg) : arg.length ≤ n ∧ arg.length ≤ s.length := by
  rw [substr] at h
  split at h
  · obtain rfl := Except.ok.inj h
    rw [List.length_take, List.length_drop]
    omega
  · cases h

theorem insertArgChecked_always (params : Params) {arg : Bytes} {first last : ℕ} (hle : first ≤ last)
    (hfit : arg.length ≤ last - first) (hlast : last < 2 ^ 64) :
    Always Check.Holds (insertArgChecked params arg first last).run := by
  unfold insertArgChecked
  by_cases hdelim : findFirstOf arg equals 0 ≠ npos
  · obtain ⟨-, hbound⟩ := findFirstOf_bounds hdelim
    dsimp only
    rw [if_pos hdelim]
    apply Always.run_bind (substrChecked_always.mpr (Nat.zero_le _))
    intro name _
    apply Always.run_bind (succChecked_always.mpr (by omega))
    intro _ _
    apply Always.run_bind (subChecked_always.mpr hle)
    intro n hn
    obtain rfl := Except.ok.inj hn
    rw [sizeSub_of_le hle hlast]
    apply Always.run_bind (subChecked_always.mpr (by omega))
    intro n _
    apply Always.run_bind (substrChecked_always.mpr hbound)
    intro value _
    exact always_pure _
  · dsimp only
    rw [if_neg hdelim]
    split_ifs
    · exact always_pure _
    · exact always_pure _

theorem parseQueryArgsChecked_always (q : StdString) {first last : ℕ} (params : Params) (hfirst : first ≤ q.bytes.length)
    (hfound : last ≠ npos → first ≤ last ∧ last < q.bytes.length) :
    Always Check.Holds (parseQueryArgsChecked q.bytes first last params).run := by
  have hfit := q.length_lt
  induction first, last, params using parseQueryArgsLoop.induct q.bytes with
  | case1 first last params hlast ih =>
    obtain ⟨hle, hlt⟩ := hfound hlast
    have hword : last < 2 ^ 64 := hlt.trans (hfit.trans (by decide))
    rw [parseQueryArgsChecked, if_pos hlast]
    apply Always.run_bind (subChecked_always.mpr hle)
    intro n hn
    obtain rfl := Except.ok.inj hn
    rw [sizeSub_of_le hle hword]
    apply Always.run_bind (substrChecked_always.mpr hfirst)
    intro arg harg
    apply Always.run_bind (insertArgChecked_always params hle (substr_length harg).1 hword)
    intro params _
    apply Always.run_bind (succChecked_always.mpr (by unfold npos at hfit; omega))
    intro _ _
    exact ih params hlt findFirstOf_bounds
  | case2 first last params hlast =>
    rw [parseQueryArgsChecked, if_neg hlast]
    apply Always.run_bind (substrChecked_always.mpr hfirst)
    intro arg harg
    have hnpos : last = npos := not_not.mp hlast
    rw [substrChecked_value, substr_of_le npos hfirst] at harg
    obtain rfl := Except.ok.inj harg
    apply insertArgChecked_always params
    · exact hnpos ▸ hfirst.trans (Nat.le_of_lt hfit)
    · rw [List.length_take, List.length_drop]
      omega
    · exact hnpos ▸ by decide

theorem parseQueryArgs_ok (q : StdString) : ∃ params, parseQueryArgs q.bytes = .ok params := by
  by_cases h : ampersand ∈ q.bytes
  · exact ⟨_, parseQueryArgs_cut q h⟩
  · exact ⟨_, parseQueryArgs_single q h⟩

section

open Formdata

variable (envp : Bytes → Option StdString) (fcgiIn : IStream)

def newRequest : FcgiRequest := ⟨fun name => (envp name).map StdString.bytes, fcgiIn, ∅, ∅⟩

/-- The constructor. The strings of the environment have their place in memory. -/
def fcgiRequest : Except OutOfRange FcgiRequest := do
  let params ← parseQueryArgs (getFcgiParam (newRequest envp fcgiIn) (ascii "QUERY_STRING"))
  return { newRequest envp fcgiIn with params := params }

theorem getFcgiParam_length (name : Bytes) : (getFcgiParam (newRequest envp fcgiIn) name).length < npos := by
  cases hq : envp name with
  | none =>
    simp only [getFcgiParam, newRequest, hq, Option.map_none, List.length_nil]
    decide
  | some q =>
    simp only [getFcgiParam, newRequest, hq, Option.map_some]
    exact lt_of_le_of_lt (List.takeWhile_sublist _).length_le q.length_lt

theorem fcgiRequest_ok : ∃ request, fcgiRequest envp fcgiIn = .ok request := by
  obtain ⟨params, hparams⟩ := parseQueryArgs_ok ⟨_, getFcgiParam_length envp fcgiIn (ascii "QUERY_STRING")⟩
  refine ⟨{ newRequest envp fcgiIn with params := params }, ?_⟩
  rw [fcgiRequest, hparams]
  rfl

end

def queryChecks (q : StdString) : Traced Check (Except OutOfRange Params) :=
  (parseQueryArgsChecked q.bytes 0 (findFirstOf q.bytes ampersand 0) ∅).run

/-- Every check of the offsets holds, so the constructor of a request throws nothing. -/
theorem query_offsets_inside :
    (∀ q : StdString, (queryChecks q).value = parseQueryArgs q.bytes ∧ Always Check.Holds (queryChecks q)) ∧
    ∀ (envp : Bytes → Option StdString) (fcgiIn : IStream), ∃ request, fcgiRequest envp fcgiIn = .ok request := by
  constructor
  · intro q
    constructor
    · exact parseQueryArgsChecked_value q.bytes _ _ ∅
    · exact parseQueryArgsChecked_always q ∅ (Nat.zero_le _) findFirstOf_bounds
  · exact fcgiRequest_ok

end FcgiAppserver.QueryArgs
