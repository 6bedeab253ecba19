import FcgiAppserver.BoundaryMatcher

namespace FcgiAppserver.Formdata

open ByteStrings RestartMatcher

variable {B : BoundaryToken}

inductive LineEnd
  | crlf
  | lf
deriving DecidableEq

/-- What of the line end precedes the LF that the delimiter begins with. -/
def LineEnd.bytes : LineEnd → Bytes
  | .crlf => [cr]
  | .lf => []

/-- Where in the boundary a match that takes this line end in begins. -/
def LineEnd.start : LineEnd → ℕ
  | .crlf => 0
  | .lf => 1

/-- The workaround for a bare LF holds on after its part, to the first LF of the next one. -/
def stuckAfter (stuck : Bool) (v : Bytes) (ending : LineEnd) : Bool :=
  ending = .lf || (stuck && !v.contains lf)

/-- The CR of a part's own delimiter that gets into its value. -/
def strayCr (stuck : Bool) (v : Bytes) (ending : LineEnd) : Bytes :=
  if stuck && !v.contains lf then ending.bytes else []

def stuckStart (stuck : Bool) : ℕ := if stuck then 1 else 0

theorem drop_start (ending : LineEnd) : B.boundary.drop ending.start = ending.bytes ++ B.delimiter := by
  cases ending <;> rfl

theorem no_delimiter_within {v p : Bytes} (ending : LineEnd) (hfree : ¬ B.delimiter <:+: v)
    (hp : p <+: v ++ (ending.bytes ++ B.delimiter.dropLast)) : ¬ B.delimiter <:+ p := by
  rintro ⟨x, rfl⟩
  have hlen := hp.length_le
  have hpos : 2 < B.delimiter.length := by simp [BoundaryToken.delimiter]
  by_cases hin : x.length + B.delimiter.length ≤ v.length
  · have hpre : x ++ B.delimiter <+: v :=
      List.prefix_of_prefix_length_le hp (List.prefix_append v _) (by simpa using hin)
    exact hfree ((List.suffix_append x B.delimiter).isInfix.trans hpre.isInfix)
  · simp only [List.length_append, List.length_dropLast] at hlen
    cases ending with
    | crlf =>
      simp only [LineEnd.bytes, List.length_singleton] at hlen
      have hsymbol := overlap_symbol hp (by omega) (by omega)
      exact cr_not_mem_delimiter B (List.mem_of_getElem? hsymbol.symm)
    | lf =>
      simp only [LineEnd.bytes, List.length_nil] at hlen
      have hsymbol := overlap_symbol hp (by omega) (by omega)
      obtain ⟨k, hk⟩ : ∃ k, v.length - x.length = k + 1 := ⟨v.length - x.length - 1, by omega⟩
      rw [hk] at hsymbol
      exact lf_not_mem_dashes B (List.mem_of_getElem? hsymbol.symm)

theorem value_unique {v value : Bytes} {ending : LineEnd} {start : ℕ} (hend : ending = .lf → v.getLast? ≠ some cr)
    (h : v ++ (ending.bytes ++ B.delimiter) = value ++ B.boundary.drop start) (hle : start ≤ 1)
    (hcr : start = 1 → value.getLast? ≠ some cr) : value = v ∧ start = ending.start := by
  have hstart : start = LineEnd.crlf.start ∨ start = LineEnd.lf.start := by
    change start = 0 ∨ start = 1
    omega
  rcases hstart with rfl | rfl
  · rw [drop_start, ← List.append_assoc, ← List.append_assoc] at h
    have hvalue := List.append_cancel_right h
    cases ending with
    | crlf => exact ⟨(List.append_cancel_right hvalue).symm, rfl⟩
    | lf =>
      refine absurd ?_ (hend rfl)
      simp only [LineEnd.bytes, List.append_nil] at hvalue
      rw [hvalue]
      exact List.getLast?_concat
  · rw [drop_start, ← List.append_assoc, ← List.append_assoc] at h
    have hvalue := List.append_cancel_right h
    cases ending with
    | crlf =>
      refine absurd ?_ (hcr rfl)
      simp only [LineEnd.bytes, List.append_nil] at hvalue
      rw [← hvalue]
      exact List.getLast?_concat
    | lf =>
      exact ⟨(List.append_cancel_right hvalue).symm, rfl⟩

theorem inData_self {s : FormdataParser} (hvalue : s.fieldValue = []) (hbuffer : s.outputBuffer = []) {start : ℕ}
    (hstart : s.boundaryStart = start) (hpos : s.boundaryPos = start) : inData s [] [] start start = s := by
  obtain ⟨⟩ := s
  simp_all [inData]

theorem reading_nil {s : FormdataParser} (hs : DataStart B s) (hvalue : s.fieldValue = [])
    (hbuffer : s.outputBuffer = []) (hstart : s.boundaryStart = 0) (hpos : s.boundaryPos = 0) :
    Reading B s [] s := by
  refine ⟨[], [], [], 0, 0, (inData_self hvalue hbuffer hstart hpos).symm, Or.inl ⟨hs.room, rfl, rfl⟩, ?_⟩
  have hlen := boundary_length B
  exact ⟨by simp, by omega, by omega, by omega, by omega, matched_nil _, by simp⟩

theorem reading_finish {s s' : FormdataParser} (hs : DataStart B s) {text w v : Bytes} (ending : LineEnd)
    (hfree : ¬ B.delimiter <:+: v) (hend : ending = .lf → v.getLast? ≠ some cr) (h : Reading B s text s')
    (hw : w ≠ []) (htext : text ++ w = v ++ (ending.bytes ++ B.delimiter)) (rest : Bytes) :
    uploadProcessLoop s' (w ++ rest) =
      uploadProcessLoop (partFinished s (v.take s.outputBufferSize) ending.start) rest := by
  have hne : B.delimiter ≠ [] := by simp [BoundaryToken.delimiter]
  have hlast := List.dropLast_append_getLast hw
  have hcut : text ++ w.dropLast = v ++ (ending.bytes ++ B.delimiter.dropLast) := by
    have hdrop := congrArg List.dropLast htext
    rwa [List.dropLast_append_of_ne_nil hw, List.dropLast_append_of_ne_nil (by simp [hne]),
      List.dropLast_append_of_ne_nil hne] at hdrop
  obtain ⟨s1, hloop1, h1⟩ := reading_run hs w.dropLast h (by
    intro p hp
    apply no_delimiter_within ending hfree
    rw [← hcut]
    exact (List.prefix_append_right_inj text).mpr hp)
  have hwhole : text ++ w.dropLast ++ [w.getLast hw] = v ++ (ending.bytes ++ B.delimiter) := by
    rw [List.append_assoc, hlast, htext]
  obtain ⟨value, start, hloop2, hsplit, hle, hcr⟩ := reading_done hs h1 (c := w.getLast hw) (by
    rw [hwhole, ← List.append_assoc]
    exact List.suffix_append _ _)
  rw [hwhole] at hsplit
  obtain ⟨rfl, rfl⟩ := value_unique hend hsplit hle hcr
  rw [← hlast, List.append_assoc, hloop1, List.singleton_append, hloop2]

section

variable {s : FormdataParser} {fv ob e : Bytes}

theorem stuck_text (hs : DataStart B s) {w : Bytes} (hw : lf ∉ w) (he : Emitted s.outputBufferSize e fv ob) :
    ∃ fv' ob', (∀ rest, uploadProcessLoop (inData s fv ob 1 1) (w ++ rest) =
        uploadProcessLoop (inData s fv' ob' 1 1) rest) ∧ Emitted s.outputBufferSize (e ++ w) fv' ob' := by
  induction w generalizing e fv ob with
  | nil => exact ⟨fv, ob, fun _ => rfl, by simpa using he⟩
  | cons c w ih =>
    simp only [List.mem_cons, not_or] at hw
    have hlen := boundary_length B
    obtain ⟨fv1, ob1, hput, he1⟩ := putc_emits hs.keep hs.room he 1 1 c
    obtain ⟨fv2, ob2, hloop, he2⟩ := ih hw.2 he1
    refine ⟨fv2, ob2, ?_, by simpa using he2⟩
    intro rest
    have hne : B.boundary[1]? ≠ some c := by
      intro h
      exact hw.1 (Option.some.inj h)
    have hturn := uploadData_start (data_mismatch hs hne) (s := inData s fv ob 1 1) rfl
    rw [← uploadTurn_inData hs, if_neg (Ne.symm hw.1), hput, inData_inside hs fv1 ob1 (by omega)] at hturn
    rw [List.cons_append, loop_next _ hturn, hloop]

theorem match_run (hs : DataStart B s) (fv ob : Bytes) (start : ℕ) {u t : Bytes} {pos : ℕ}
    (hu : B.boundary.drop pos = u ++ t) (ht : t ≠ []) (rest : Bytes) :
    uploadProcessLoop (inData s fv ob start pos) (u ++ rest) =
      uploadProcessLoop (inData s fv ob start (pos + u.length)) rest := by
  induction u generalizing pos with
  | nil => rfl
  | cons c u ih =>
    have hget : B.boundary[pos]? = some c := by
      have hhead := congrArg (fun l => l[0]?) hu
      simpa using hhead
    have hdrop : B.boundary.drop (pos + 1) = u ++ t := by
      rw [← List.drop_drop, hu]
      rfl
    have hlt : pos + 1 < B.boundary.length := by
      by_contra hge
      rw [List.drop_eq_nil_of_le (by omega)] at hdrop
      exact ht (List.append_eq_nil_iff.mp hdrop.symm).2
    rw [List.cons_append, loop_next _ (data_match hs hget), inData_inside hs fv ob hlt, ih hdrop, List.length_cons]
    congr 2
    omega

theorem match_done (hs : DataStart B s) (he : Emitted s.outputBufferSize e fv ob) (start : ℕ) {pos : ℕ}
    (hlt : pos < B.boundary.length) (rest : Bytes) :
    uploadProcessLoop (inData s fv ob start pos) (B.boundary.drop pos ++ rest) =
      uploadProcessLoop (partFinished s (e.take s.outputBufferSize) start) rest := by
  obtain ⟨u, c, hu⟩ : ∃ u c, B.boundary.drop pos = u ++ [c] := by
    rcases List.eq_nil_or_concat' (B.boundary.drop pos) with hnil | ⟨u, c, hu⟩
    · rw [List.drop_eq_nil_iff] at hnil
      omega
    · exact ⟨u, c, hu⟩
  have hlen := congrArg List.length hu
  simp only [List.length_drop, List.length_append, List.length_singleton] at hlen
  have hget : B.boundary[pos + u.length]? = some c := by
    have hlast := congrArg (fun l => l[u.length]?) hu
    simpa using hlast
  rw [hu, List.append_assoc, match_run hs fv ob start hu (List.cons_ne_nil c []), List.singleton_append,
    loop_next _ (data_match hs hget), endOfPart_done hs he (by omega)]

end

theorem stuck_value_plain {s : FormdataParser} (hs : DataStart B s) {v : Bytes} (ending : LineEnd) (hv : lf ∉ v)
    (rest : Bytes) :
    uploadProcessLoop (inData s [] [] 1 1) (v ++ (ending.bytes ++ (B.delimiter ++ rest))) =
      uploadProcessLoop (partFinished s ((v ++ ending.bytes).take s.outputBufferSize) 1) rest := by
  have htext : lf ∉ v ++ ending.bytes := by
    rw [List.mem_append]
    refine fun h => h.elim hv ?_
    cases ending <;> simp [LineEnd.bytes, lf, cr]
  obtain ⟨fv, ob, hloop, he⟩ := stuck_text hs htext (e := []) (Or.inl ⟨hs.room, rfl, rfl⟩)
  have hlen := boundary_length B
  have hdone := match_done hs he 1 (by omega : 1 < B.boundary.length) rest
  rw [← List.append_assoc, hloop]
  exact hdone

/-- The match that a value's first LF begins breaks off before the delimiter. -/
theorem match_breaks {v : Bytes} (ending : LineEnd) (hfree : ¬ B.delimiter <:+: lf :: v) :
    ∃ k c rest, k < (dash :: dash :: B.bytes).length ∧
      v ++ (ending.bytes ++ [lf]) = (dash :: dash :: B.bytes).take k ++ c :: rest ∧
      (dash :: dash :: B.bytes)[k]? ≠ some c := by
  have hno : ¬ dash :: dash :: B.bytes <+: v ++ (ending.bytes ++ [lf]) := by
    intro h
    by_cases hin : (dash :: dash :: B.bytes).length ≤ v.length
    · have hpre := List.prefix_of_prefix_length_le h (List.prefix_append v _) hin
      exact hfree (List.cons_prefix_cons.mpr ⟨rfl, hpre⟩).isInfix
    · have hsymbol := overlap_symbol (x := []) h (Nat.zero_le _) (by simpa using Nat.lt_of_not_le hin)
      cases ending with
      | crlf =>
        have hcr := List.mem_of_getElem? hsymbol.symm
        exact cr_not_mem_delimiter B (List.mem_cons_of_mem _ hcr)
      | lf => exact lf_not_mem_dashes B (List.mem_of_getElem? hsymbol.symm)
  rcases first_mismatch hno with hpre | ⟨k, c, rest, hk, ht, hne⟩
  · exact absurd (hpre.subset (by simp)) (lf_not_mem_dashes B)
  · exact ⟨k, c, rest, hk, ht, hne⟩

theorem last_not_cr (w : Bytes) (k : ℕ) : (w ++ B.delimiter.take (k + 1)).getLast? ≠ some cr := by
  have hne : B.delimiter.take (k + 1) ≠ [] := by simp [BoundaryToken.delimiter]
  rw [List.getLast?_append_of_ne_nil w hne]
  intro h
  exact cr_not_mem_delimiter B (List.mem_of_mem_take (List.mem_of_getLast? h))

theorem stuck_value_line {s : FormdataParser} (hs : DataStart B s) {v : Bytes} (ending : LineEnd) (hv : lf ∈ v)
    (hfree : ¬ B.delimiter <:+: v) (hend : ending = .lf → v.getLast? ≠ some cr) (rest : Bytes) :
    uploadProcessLoop (inData s [] [] 1 1) (v ++ (ending.bytes ++ (B.delimiter ++ rest))) =
      uploadProcessLoop (partFinished s (v.take s.outputBufferSize) ending.start) rest := by
  obtain ⟨w, v', rfl, hw⟩ := List.eq_append_cons_of_mem hv
  have hafter : ¬ B.delimiter <:+: lf :: v' := fun h => hfree (h.trans (List.suffix_append w _).isInfix)
  obtain ⟨k, c, t, hk, ht, hne⟩ := match_breaks ending hafter
  have hbytes : (w ++ lf :: v') ++ (ending.bytes ++ B.delimiter) =
      (w ++ B.delimiter.take (k + 1) ++ [c]) ++ (t ++ dash :: dash :: B.bytes) := by
    have hjoin := congrArg (fun l => w ++ lf :: (l ++ (dash :: dash :: B.bytes))) ht
    simpa [BoundaryToken.delimiter] using hjoin
  have hlen : (B.delimiter.take (k + 1)).length = k + 1 := by
    rw [List.length_take, BoundaryToken.delimiter, List.length_cons]
    omega
  have hmore : B.delimiter.drop (k + 1) ≠ [] := by
    rw [ne_eq, List.drop_eq_nil_iff, BoundaryToken.delimiter, List.length_cons]
    omega
  have hne' : B.boundary[k + 2]? ≠ some c := hne
  obtain ⟨fv1, ob1, hloop1, he1⟩ := stuck_text hs hw (Or.inl ⟨hs.room, rfl, rfl⟩ : Emitted _ [] [] [])
  have hmatched : ∀ rest, uploadProcessLoop (inData s fv1 ob1 1 1) (B.delimiter.take (k + 1) ++ rest) =
      uploadProcessLoop (inData s fv1 ob1 1 (k + 2)) rest := by
    intro rest
    have hdrop : B.boundary.drop 1 = B.delimiter.take (k + 1) ++ B.delimiter.drop (k + 1) :=
      (List.take_append_drop (k + 1) B.delimiter).symm
    rw [match_run hs fv1 ob1 1 hdrop hmore, hlen, Nat.add_comm 1]
  have hheld : k + 2 ≠ 1 := by omega
  obtain ⟨fv2, ob2, hagain, he2⟩ := data_give_up hs he1 hne' hheld
  obtain ⟨fv3, ob3, e, start, pos, hturn, he3, hcases⟩ := data_restart hs he2 c
  have hsuffix : Matched B.delimiter (w ++ B.delimiter.take (k + 1)) (k + 1) :=
    Matched.of_suffix (lf_not_mem_dashes B) (Nat.succ_pos k) (by rw [List.length_cons]; omega) (List.suffix_append w _)
  have hmismatched : Matched B.delimiter (w ++ B.delimiter.take (k + 1) ++ [c]) (if c = lf then 1 else 0) := by
    rw [← restart_mismatch hne']
    exact hsuffix.step (lf_not_mem_dashes B)
  have hreading : Reading B s (w ++ B.delimiter.take (k + 1) ++ [c]) (inData s fv3 ob3 start pos) :=
    ⟨e, fv3, ob3, start, pos, rfl, he3, held_restarted hmismatched (fun _ => last_not_cr w k) hcases⟩
  have hfinish := reading_finish hs ending hfree hend hreading (by simp) hbytes.symm rest
  rw [← hfinish]
  have hall : (w ++ lf :: v') ++ (ending.bytes ++ (B.delimiter ++ rest)) =
      w ++ (B.delimiter.take (k + 1) ++ (c :: (t ++ dash :: dash :: B.bytes ++ rest))) := by
    have hjoin := congrArg (· ++ rest) hbytes
    simpa using hjoin
  rw [hall, hloop1, hmatched, loop_again _ hagain, loop_next _ hturn]

/-- What is recorded for a part's value, and whether the workaround holds on after it. -/
theorem part_value {s : FormdataParser} (hs : DataStart B s) (hvalue : s.fieldValue = []) (hbuffer : s.outputBuffer = [])
    (stuck : Bool) (hstart : s.boundaryStart = stuckStart stuck) (hpos : s.boundaryPos = stuckStart stuck) {v : Bytes}
    (ending : LineEnd) (hfree : ¬ B.delimiter <:+: v) (hend : ending = .lf → v.getLast? ≠ some cr) (rest : Bytes) :
    uploadProcessLoop s (v ++ (ending.bytes ++ (B.delimiter ++ rest))) =
      uploadProcessLoop (partFinished s ((v ++ strayCr stuck v ending).take s.outputBufferSize)
        (stuckStart (stuckAfter stuck v ending))) rest := by
  cases stuck with
  | false =>
    have hreading := reading_nil hs hvalue hbuffer hstart hpos
    have hfinish := reading_finish hs ending hfree hend hreading (w := v ++ (ending.bytes ++ B.delimiter))
      (by simp [BoundaryToken.delimiter]) (List.nil_append _) rest
    have hplain : v ++ strayCr false v ending = v := List.append_nil v
    have hafter : stuckStart (stuckAfter false v ending) = ending.start := by cases ending <;> rfl
    rw [hplain, hafter, ← hfinish]
    simp only [List.append_assoc]
  | true =>
    have hself := inData_self hvalue hbuffer hstart hpos
    by_cases hv : lf ∈ v
    · have hline := stuck_value_line hs ending hv hfree hend rest
      have hplain : v ++ strayCr true v ending = v := by simp [strayCr, hv]
      have hafter : stuckStart (stuckAfter true v ending) = ending.start := by
        cases ending <;> simp [stuckAfter, stuckStart, LineEnd.start, hv]
      rw [hplain, hafter, ← hline]
      exact congrArg (uploadProcessLoop · _) hself.symm
    · have hplain := stuck_value_plain hs ending hv rest
      have hstray : strayCr true v ending = ending.bytes := by simp [strayCr, hv]
      have hafter : stuckStart (stuckAfter true v ending) = 1 := by simp [stuckAfter, stuckStart, hv]
      rw [hstray, hafter, ← hplain]
      exact congrArg (uploadProcessLoop · _) hself.symm

end FcgiAppserver.Formdata
