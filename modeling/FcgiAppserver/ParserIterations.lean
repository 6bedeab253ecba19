import FcgiAppserver.FormdataChunks

namespace FcgiAppserver.Formdata

open ByteStrings QueryArgs

/-- The parsers that some body in some chunks leads to, those in the middle of a chunk included. -/
inductive Reachable (contentType : Bytes) (maxHeaderLen bufferSize : ℕ) (params : Params) : FormdataParser → Prop
  | new {s : FormdataParser} (h : formdataParser contentType maxHeaderLen bufferSize params = .ok s) :
    Reachable contentType maxHeaderLen bufferSize params s
  | next {s s' : FormdataParser} (c : Byte) (hs : Reachable contentType maxHeaderLen bufferSize params s)
    (h : uploadTurn s c = .next s') : Reachable contentType maxHeaderLen bufferSize params s'
  | again {s s' : FormdataParser} (c : Byte) (hs : Reachable contentType maxHeaderLen bufferSize params s)
    (h : uploadTurn s c = .again s') : Reachable contentType maxHeaderLen bufferSize params s'
  | fail {s s' : FormdataParser} {e : FcgiException} (c : Byte)
    (hs : Reachable contentType maxHeaderLen bufferSize params s) (h : uploadTurn s c = .fail s' e) :
    Reachable contentType maxHeaderLen bufferSize params s'

section

variable {contentType : Bytes} {maxHeaderLen bufferSize : ℕ} {params : Params}

theorem loop_reachable {s : FormdataParser} (hs : Reachable contentType maxHeaderLen bufferSize params s)
    (buf : Bytes) : Reachable contentType maxHeaderLen bufferSize params (uploadProcessLoop s buf).1 := by
  fun_induction uploadProcessLoop s buf with
  | case1 s => exact hs
  | case2 s c rest s' ht ih => exact ih (.next c hs ht)
  | case3 s c rest s' ht ih => exact ih (.again c hs ht)
  | case4 s c rest s' e ht => exact .fail c hs ht

theorem feed_reachable {s : FormdataParser} (hs : Reachable contentType maxHeaderLen bufferSize params s)
    (chunks : List Bytes) : Reachable contentType maxHeaderLen bufferSize params (feed s chunks).1 := by
  induction chunks generalizing s with
  | nil => exact hs
  | cons buf chunks ih =>
    apply ih
    change Reachable contentType maxHeaderLen bufferSize params (uploadProcessBuf s buf).1
    unfold uploadProcessBuf
    split
    · split <;> exact hs
    · exact loop_reachable hs buf

end

structure Iteration where
  parser : FormdataParser
  byte : Byte
  pos : ℕ

/-- The iterations of the `for` loop over the rest of a buffer: the parser before each, and the byte it
looks at with its place in the buffer. -/
def uploadIterations (s : FormdataParser) (p : ℕ) : Bytes → List Iteration
  | [] => []
  | c :: rest =>
    ⟨s, c, p⟩ :: match _h : uploadTurn s c with
      | .next s' => uploadIterations s' (p + 1) rest
      | .again s' => uploadIterations s' p (c :: rest)
      | .fail _ _ => []
termination_by buf => 2 * buf.length + if s.boundaryPos = s.boundaryStart then 0 else 1
decreasing_by
  · simp only [List.length_cons]
    split <;> split <;> omega
  · have hc := uploadTurn_again _h
    simp only [hc.1, hc.2, if_true, if_false]
    omega

def uploadExamined (s : FormdataParser) (chunk : Bytes) : List ℕ := (uploadIterations s 0 chunk).map (·.pos)

section

variable {s s' : FormdataParser} {c : Byte}

@[simp] theorem iterations_nil (s : FormdataParser) (p : ℕ) : uploadIterations s p [] = [] := by
  rw [uploadIterations]

theorem iterations_next (p : ℕ) (rest : Bytes) (h : uploadTurn s c = .next s') :
    uploadIterations s p (c :: rest) = ⟨s, c, p⟩ :: uploadIterations s' (p + 1) rest := by
  rw [uploadIterations]
  split <;> rename_i ht <;> simp_all

theorem iterations_again (p : ℕ) (rest : Bytes) (h : uploadTurn s c = .again s') :
    uploadIterations s p (c :: rest) = ⟨s, c, p⟩ :: uploadIterations s' p (c :: rest) := by
  conv_lhs => rw [uploadIterations]
  split <;> rename_i ht <;> simp_all

theorem iterations_fail {e : FcgiException} (p : ℕ) (rest : Bytes) (h : uploadTurn s c = .fail s' e) :
    uploadIterations s p (c :: rest) = [⟨s, c, p⟩] := by
  rw [uploadIterations]
  split <;> rename_i ht <;> simp_all

theorem iterations_range (s : FormdataParser) (p : ℕ) (buf : Bytes) :
    ∀ i ∈ (uploadIterations s p buf).map (·.pos), p ≤ i ∧ i < p + buf.length := by
  induction s, buf using uploadProcessLoop.induct generalizing p with
  | case1 s => simp
  | case2 s c rest s' ht ih =>
    rw [iterations_next p rest ht]
    intro i hi
    rcases List.mem_cons.mp hi with rfl | hi
    · simp
    · have hrest := ih (p + 1) i hi
      rw [List.length_cons]
      omega
  | case3 s c rest s' ht ih =>
    rw [iterations_again p rest ht]
    intro i hi
    rcases List.mem_cons.mp hi with rfl | hi
    · simp
    · exact ih p i hi
  | case4 s c rest s' e ht =>
    rw [iterations_fail p rest ht]
    simp

theorem iterations_reachable {contentType : Bytes} {maxHeaderLen bufferSize : ℕ} {params : Params} {s : FormdataParser}
    (hs : Reachable contentType maxHeaderLen bufferSize params s) (p : ℕ) (buf : Bytes) :
    ∀ it ∈ uploadIterations s p buf, Reachable contentType maxHeaderLen bufferSize params it.parser := by
  induction s, buf using uploadProcessLoop.induct generalizing p with
  | case1 s => simp
  | case2 s c rest s' ht ih =>
    rw [iterations_next p rest ht]
    exact List.forall_mem_cons.mpr ⟨hs, ih (.next c hs ht) (p + 1)⟩
  | case3 s c rest s' ht ih =>
    rw [iterations_again p rest ht]
    exact List.forall_mem_cons.mpr ⟨hs, ih (.again c hs ht) p⟩
  | case4 s c rest s' e ht =>
    rw [iterations_fail p rest ht]
    exact List.forall_mem_singleton.mpr hs

/-- While nothing is held back the byte that is next is looked at once. -/
theorem iterations_count (s : FormdataParser) (p : ℕ) (buf : Bytes) :
    (∀ i, ((uploadIterations s p buf).map (·.pos)).count i ≤ 2) ∧
      (s.boundaryPos = s.boundaryStart → ((uploadIterations s p buf).map (·.pos)).count p ≤ 1) := by
  induction s, buf using uploadProcessLoop.induct generalizing p with
  | case1 s => simp
  | case2 s c rest s' ht ih =>
    have hlater : ((uploadIterations s' (p + 1) rest).map (·.pos)).count p = 0 := by
      apply List.count_eq_zero_of_not_mem
      intro hp
      have hrange := iterations_range s' (p + 1) rest p hp
      omega
    rw [iterations_next p rest ht, List.map_cons]
    refine ⟨?_, fun _ => by rw [List.count_cons_self, hlater]⟩
    intro i
    by_cases hi : p = i
    · rw [← hi, List.count_cons_self, hlater]
      omega
    · rw [List.count_cons_of_ne hi]
      exact (ih (p + 1)).1 i
  | case3 s c rest s' ht ih =>
    obtain ⟨hheld, hreset⟩ := uploadTurn_again ht
    rw [iterations_again p rest ht, List.map_cons]
    refine ⟨?_, fun h => absurd h hheld⟩
    intro i
    by_cases hi : p = i
    · -- after `p--` nothing is held back, so there is no second one for this byte
      have honce := (ih p).2 hreset
      rw [← hi, List.count_cons_self]
      omega
    · rw [List.count_cons_of_ne hi]
      exact (ih p).1 i
  | case4 s c rest s' e ht =>
    rw [iterations_fail p rest ht]
    refine ⟨?_, fun _ => by simp⟩
    intro i
    have hle := List.count_le_length (a := i) (l := [p])
    rw [List.length_singleton] at hle
    exact hle.trans (Nat.le_succ 1)

end

end FcgiAppserver.Formdata
