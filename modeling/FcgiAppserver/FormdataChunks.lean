import FcgiAppserver.FormdataParser

namespace FcgiAppserver.Formdata

open ByteStrings

@[simp] theorem loop_nil (s : FormdataParser) : uploadProcessLoop s [] = (s, none) := by
  rw [uploadProcessLoop]

theorem loop_next {s s' : FormdataParser} {c : Byte} (rest : Bytes) (h : uploadTurn s c = .next s') :
    uploadProcessLoop s (c :: rest) = uploadProcessLoop s' rest := by
  rw [uploadProcessLoop]
  split <;> rename_i ht <;> simp_all

theorem loop_again {s s' : FormdataParser} {c : Byte} (rest : Bytes) (h : uploadTurn s c = .again s') :
    uploadProcessLoop s (c :: rest) = uploadProcessLoop s' (c :: rest) := by
  conv_lhs => rw [uploadProcessLoop]
  split <;> rename_i ht <;> simp_all

theorem loop_fail {s s' : FormdataParser} {c : Byte} {e : FcgiException} (rest : Bytes)
    (h : uploadTurn s c = .fail s' e) : uploadProcessLoop s (c :: rest) = (s', some e) := by
  rw [uploadProcessLoop]
  split <;> rename_i ht <;> simp_all

theorem loop_finish (s : FormdataParser) (buf : Bytes) (h : s.state = .finish) :
    uploadProcessLoop s buf = (s, none) := by
  induction buf with
  | nil => exact loop_nil s
  | cons c rest ih =>
    have ht : uploadTurn s c = .next s := by simp [uploadTurn, h]
    rw [loop_next rest ht, ih]

theorem loop_append (s : FormdataParser) (a b : Bytes) :
    uploadProcessLoop s (a ++ b) =
      if (uploadProcessLoop s a).2 = none then uploadProcessLoop (uploadProcessLoop s a).1 b
      else uploadProcessLoop s a := by
  fun_induction uploadProcessLoop s a with
  | case1 s => simp
  | case2 s c rest s' ht ih => rw [List.cons_append, loop_next _ ht, ih]
  | case3 s c rest s' ht ih => rw [List.cons_append, loop_again _ ht, ← List.cons_append, ih]
  | case4 s c rest s' e ht => rw [List.cons_append, loop_fail _ ht]; simp

theorem loop_then {s s' : FormdataParser} {a : Bytes} (h : uploadProcessLoop s a = (s', none)) (b : Bytes) :
    uploadProcessLoop s (a ++ b) = uploadProcessLoop s' b := by
  rw [loop_append, h, if_pos rfl]

theorem loop_throws_finish {s s' : FormdataParser} {buf : Bytes} {e : FcgiException}
    (h : uploadProcessLoop s buf = (s', some e)) : s'.state = .finish := by
  fun_induction uploadProcessLoop s buf with
  | case1 s => simp at h
  | case2 s c rest s1 ht ih => exact ih h
  | case3 s c rest s1 ht ih => exact ih h
  | case4 s c rest s1 e1 ht =>
    simp only [Prod.mk.injEq] at h
    exact h.1 ▸ uploadTurn_fail ht

theorem loop_append_fst (s : FormdataParser) (a b : Bytes) :
    (uploadProcessLoop s (a ++ b)).1 = (uploadProcessLoop (uploadProcessLoop s a).1 b).1 := by
  rw [loop_append]
  cases he : (uploadProcessLoop s a).2 with
  | none => simp
  | some e =>
    -- a parser left by an exception ignores all that follows
    have hf : (uploadProcessLoop s a).1.state = .finish := loop_throws_finish (Prod.ext rfl he)
    simp [loop_finish _ b hf]

/-- `parse_form_data`'s calls: a thrown exception is dropped and the next chunk is passed on. -/
def feed (s : FormdataParser) : List Bytes → FormdataParser × List FcgiException
  | [] => (s, [])
  | buf :: chunks =>
    let (s', e) := uploadProcessBuf s buf
    let (s'', es) := feed s' chunks
    (s'', e.toList ++ es)

theorem uploadProcessBuf_of_ne_nil (s : FormdataParser) {buf : Bytes} (h : buf ≠ []) :
    uploadProcessBuf s buf = uploadProcessLoop s buf := if_neg h

theorem feed_eq_loop (s : FormdataParser) (chunks : List Bytes) (h : ∀ buf ∈ chunks, buf ≠ []) :
    (feed s chunks).1 = (uploadProcessLoop s chunks.flatten).1 := by
  induction chunks generalizing s with
  | nil => simp [feed]
  | cons buf chunks ih =>
    rw [List.flatten_cons, loop_append_fst]
    simp only [feed]
    rw [uploadProcessBuf_of_ne_nil s (h buf List.mem_cons_self)]
    exact ih _ (fun b hb => h b (List.mem_cons_of_mem _ hb))

theorem feed_no_throw (s : FormdataParser) (chunks : List Bytes) (h : ∀ buf ∈ chunks, buf ≠ [])
    (hloop : (uploadProcessLoop s chunks.flatten).2 = none) : (feed s chunks).2 = [] := by
  induction chunks generalizing s with
  | nil => rfl
  | cons buf chunks ih =>
    rw [List.flatten_cons, loop_append] at hloop
    cases he : (uploadProcessLoop s buf).2 with
    | some e => simp [he] at hloop
    | none =>
      simp only [he, if_true] at hloop
      simp only [feed]
      rw [uploadProcessBuf_of_ne_nil s (h buf List.mem_cons_self), he]
      exact ih _ (fun b hb => h b (List.mem_cons_of_mem _ hb)) hloop

end FcgiAppserver.Formdata
