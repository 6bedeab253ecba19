import FcgiAppserver.Url

namespace FcgiAppserver.Urls

open ByteStrings TracedAccesses

section

variable {stop : Byte → Bool}

theorem span_split (stop : Byte → Bool) (s : Bytes) :
    ∃ xs tail, s = xs ++ tail ∧ (∀ b ∈ xs, stop b = false) ∧ ∀ b ∈ tail.head?, stop b = true := by
  induction s with
  | nil => exact ⟨[], [], rfl, List.forall_mem_nil _, by simp⟩
  | cons b s ih =>
    rcases hb : stop b with _ | _
    · obtain ⟨xs, tail, rfl, hxs, htail⟩ := ih
      exact ⟨b :: xs, tail, rfl, List.forall_mem_cons.mpr ⟨hb, hxs⟩, htail⟩
    · exact ⟨[], b :: s, rfl, List.forall_mem_nil _, by simpa using hb⟩

theorem span_unique {xs ys s t : Bytes} (hxs : ∀ b ∈ xs, stop b = false) (hys : ∀ b ∈ ys, stop b = false)
    (hs : ∀ b ∈ s.head?, stop b = true) (ht : ∀ b ∈ t.head?, stop b = true) (h : xs ++ s = ys ++ t) :
    xs = ys ∧ s = t := by
  induction xs generalizing ys with
  | nil =>
    cases ys with
    | nil => exact ⟨rfl, h⟩
    | cons y ys =>
      obtain rfl : s = y :: ys ++ t := h
      have hstop := hs y rfl
      rw [hys y List.mem_cons_self] at hstop
      cases hstop
  | cons x xs ih =>
    obtain ⟨hx, hxs⟩ := List.forall_mem_cons.mp hxs
    cases ys with
    | nil =>
      obtain rfl : t = x :: xs ++ s := h.symm
      have hstop := ht x rfl
      rw [hx] at hstop
      cases hstop
    | cons y ys =>
      obtain ⟨rfl, hrest⟩ := List.cons.inj h
      obtain ⟨rfl, rfl⟩ := ih hxs (List.forall_mem_cons.mp hys).2 hrest
      exact ⟨rfl, rfl⟩

theorem scan_span (stop : Byte → Bool) {xs tail : Bytes} (pos : ℕ) (hxs : ∀ b ∈ xs, stop b = false)
    (htail : ∀ b ∈ tail.head?, stop b = true) : (scan stop pos (xs ++ tail)).value = ⟨pos + xs.length, tail⟩ := by
  induction xs generalizing pos with
  | nil =>
    cases tail with
    | nil => rfl
    | cons b tail =>
      have hb : stop b = true := htail b rfl
      simp only [List.nil_append, scan, Iterator.get, Traced.bind_value, Traced.pure_value,
        List.getD_cons_zero, hb, if_true]
      rfl
  | cons x xs ih =>
    obtain ⟨hx, hxs⟩ := List.forall_mem_cons.mp hxs
    simp only [List.cons_append, scan, Iterator.get, Traced.bind_value, Traced.pure_value,
      List.getD_cons_zero, hx, Bool.false_eq_true, if_false, ih (pos + 1) hxs, List.length_cons]
    rw [Nat.add_right_comm, Nat.add_assoc]

theorem upTo_span (pos : ℕ) (xs tail : Bytes) :
    Iterator.upTo ⟨pos, xs ++ tail⟩ ⟨pos + xs.length, tail⟩ = xs := by
  rw [Iterator.upTo, Nat.add_sub_cancel_left, List.take_left]

end

theorem isAt_value (p : Iterator) (c : Byte) : (p.isAt c).value = decide (p.rest.head? = some c) := by
  obtain ⟨pos, _ | ⟨b, rest⟩⟩ := p
  · rfl
  · simp only [Iterator.isAt, Iterator.get, reduceCtorEq, if_false, Traced.bind_value, Traced.pure_value,
      List.getD_cons_zero, List.head?_cons, Option.some_inj]

section

variable {pos : ℕ}

theorem readHost_span {host tail : Bytes} (hhost : ∀ b ∈ host, endsHost b = false)
    (htail : ∀ b ∈ tail.head?, endsHost b = true) :
    (readHost ⟨pos, host ++ tail⟩).value = (host, ⟨pos + host.length, tail⟩) := by
  simp only [readHost, Traced.bind_value, Traced.pure_value, scan_span endsHost pos hhost htail, upTo_span]

theorem readPort_absent {rest : Bytes} (h : rest.head? ≠ some colon) :
    (readPort ⟨pos, rest⟩).value = .ok ([], ⟨pos, rest⟩) := by
  simp only [readPort, Traced.bind_value, isAt_value, decide_eq_true_eq, if_neg h, Traced.pure_value]

theorem readPort_span {digits tail : Bytes} (hdigits : ∀ b ∈ digits, isDigit b = true)
    (htail : ∀ b ∈ tail.head?, isDigit b = false) :
    (readPort ⟨pos, colon :: (digits ++ tail)⟩).value =
      if digits = [] then .error ⟨"bad url"⟩ else .ok (digits, ⟨pos + 1 + digits.length, tail⟩) := by
  have hkeep : ∀ b ∈ digits, (!isDigit b) = false := by simpa using hdigits
  have hstop : ∀ b ∈ tail.head?, (!isDigit b) = true := by simpa using htail
  have hscan := scan_span (fun b => !isDigit b) (pos + 1) hkeep hstop
  simp only [readPort, Traced.bind_value, isAt_value, List.head?_cons, decide_true, if_true, Iterator.advance,
    List.drop_one, List.tail_cons, hscan, upTo_span, Traced.ite_value, Traced.pure_value]

theorem readPath_span {path tail : Bytes} (hroot : path = [] ∨ path.head? = some slash)
    (hplain : ∀ b ∈ path, b ≠ questionMark) (htail : ∀ b ∈ tail.head?, b = questionMark) :
    (readPath ⟨pos, path ++ tail⟩).value = (path, ⟨pos + path.length, tail⟩) := by
  have hkeep : ∀ b ∈ path, decide (b = questionMark) = false := by simpa using hplain
  have hstop : ∀ b ∈ tail.head?, decide (b = questionMark) = true := by simpa using htail
  have hscan := scan_span (fun b => b = questionMark) pos hkeep hstop
  rcases hroot with rfl | hroot
  · have hne : tail.head? ≠ some slash := fun h => absurd (htail slash h) (by decide)
    simp only [readPath, List.nil_append, Traced.bind_value, isAt_value, decide_eq_true_eq, if_neg hne,
      Traced.pure_value]
    rfl
  · have hhead : (path ++ tail).head? = some slash := by rw [List.head?_append, hroot, Option.some_or]
    simp only [readPath, Traced.bind_value, isAt_value, hhead, decide_true, if_true, hscan, upTo_span, Traced.pure_value]

theorem readPath_absent {rest : Bytes} (h : rest.head? ≠ some slash) : (readPath ⟨pos, rest⟩).value = ([], ⟨pos, rest⟩) := by
  simp only [readPath, Traced.bind_value, isAt_value, decide_eq_true_eq, if_neg h, Traced.pure_value]

theorem readQuery_value (rest : Bytes) :
    (readQuery ⟨pos, rest⟩).value = if rest.head? = some questionMark then rest else [] := by
  simp only [readQuery, Traced.bind_value, isAt_value, decide_eq_true_eq, Traced.ite_value, Traced.pure_value,
    Iterator.advance, Iterator.upTo, Nat.add_sub_cancel_left, List.take_length]

end

section

variable {source schema host port path query : Bytes} {p q r s : Iterator}

theorem url_accepts (hschema : (readSchema source).value = (schema, p)) (hhost : (readHost p).value = (host, q))
    (hport : (readPort q).value = .ok (port, r)) (hpath : (readPath r).value = (path, s))
    (hquery : (readQuery s).value = query) : (url source).value = .ok ⟨source, schema, host, port, path, query⟩ := by
  simp only [url, Traced.bind_value, hschema, hhost, hport, hpath, hquery, Traced.pure_value]

theorem url_rejects {e : RuntimeError} (hschema : (readSchema source).value = (schema, p))
    (hhost : (readHost p).value = (host, q)) (hport : (readPort q).value = .error e) : (url source).value = .error e := by
  simp only [url, Traced.bind_value, hschema, hhost, hport, Traced.pure_value]

end

theorem spells_value (pos i : ℕ) {rest : Bytes} (pat : Bytes) (h : 0 ∉ pat) :
    (Iterator.spells ⟨pos, rest⟩ i pat).value = pat.isPrefixOf (rest.drop i) := by
  induction pat generalizing i with
  | nil => rfl
  | cons c cs ih =>
    obtain ⟨hc, hcs⟩ := not_or.mp (mt List.mem_cons.mpr h)
    simp only [Iterator.spells, Iterator.get, Traced.bind_value, Traced.pure_value, Traced.ite_value]
    rcases Nat.lt_or_ge i rest.length with hi | hi
    · rw [List.drop_eq_getElem_cons hi, List.isPrefixOf_cons_cons, ih (i + 1) hcs, List.getD_eq_getElem _ _ hi]
      split_ifs with hb
      · rw [hb, beq_self_eq_true, Bool.true_and]
      · rw [beq_eq_false_iff_ne.mpr (Ne.symm hb), Bool.false_and]
    · rw [List.drop_eq_nil_of_le hi, List.getD_eq_default _ _ hi, if_neg hc]
      rfl

theorem isPrefixOf_append (a b s : Bytes) :
    (a ++ b).isPrefixOf s = (a.isPrefixOf s && b.isPrefixOf (s.drop a.length)) := by
  induction a generalizing s with
  | nil => rfl
  | cons c a ih =>
    cases s with
    | nil => rfl
    | cons d s => rw [List.cons_append, List.isPrefixOf_cons_cons, ih, List.isPrefixOf_cons_cons, Bool.and_assoc]; rfl

def http : Bytes := ascii "http://"
def https : Bytes := ascii "https://"

theorem readSchema_value (source : Bytes) :
    (readSchema source).value =
      if https.isPrefixOf source then (https, ⟨8, source.drop 8⟩)
      else if http.isPrefixOf source then (http, ⟨7, source.drop 7⟩)
      else ([], ⟨0, source⟩) := by
  have hhttps : https.isPrefixOf source = ((ascii "http").isPrefixOf source && (ascii "s://").isPrefixOf (source.drop 4)) :=
    isPrefixOf_append (ascii "http") (ascii "s://") source
  have hhttp : http.isPrefixOf source = ((ascii "http").isPrefixOf source && (ascii "://").isPrefixOf (source.drop 4)) :=
    isPrefixOf_append (ascii "http") (ascii "://") source
  have htakes {pat : Bytes} {n : ℕ} (hn : pat.length = n) (h : pat.isPrefixOf source = true) :
      source.take n = pat ∧ n ≤ source.length := by
    have hpre := List.isPrefixOf_iff_prefix.mp h
    exact hn ▸ ⟨(List.prefix_iff_eq_take.mp hpre).symm, hpre.length_le⟩
  simp only [readSchema, Traced.bind_value, Traced.pure_value, Traced.ite_value, Iterator.advance,
    spells_value 0 0 (ascii "http") (by decide), spells_value 0 4 (ascii "s://") (by decide),
    spells_value 0 4 (ascii "://") (by decide), List.drop_zero, Nat.zero_add]
  by_cases hsecure : https.isPrefixOf source = true
  · obtain ⟨htake, hle⟩ := htakes (n := 8) (by decide) hsecure
    rw [if_pos hsecure, if_pos (Nat.le_of_succ_le hle)]
    rw [hhttps, Bool.and_eq_true] at hsecure
    rw [if_pos hsecure.1, if_pos hsecure.2]
    exact congrArg (·, _) htake
  · rw [if_neg hsecure]
    rw [hhttps, Bool.and_eq_true] at hsecure
    by_cases hplain : http.isPrefixOf source = true
    · obtain ⟨htake, hle⟩ := htakes (n := 7) (by decide) hplain
      rw [if_pos hplain, if_pos hle]
      rw [hhttp, Bool.and_eq_true] at hplain
      rw [if_pos hplain.1, if_neg (fun h => hsecure ⟨hplain.1, h⟩), if_pos hplain.2]
      exact congrArg (·, _) htake
    · rw [if_neg hplain]
      rw [hhttp, Bool.and_eq_true] at hplain
      split_ifs with hlen hhead hs hcolon
      · exact absurd ⟨hhead, hs⟩ hsecure
      · exact absurd ⟨hhead, hcolon⟩ hplain
      · rfl
      · rfl
      · rfl

def schemas : List Bytes := [[], http, https]

theorem readSchema_cases (source : Bytes) : ∃ schema rest, source = schema ++ rest ∧ schema ∈ schemas ∧
    (readSchema source).value = (schema, ⟨schema.length, rest⟩) := by
  rw [readSchema_value]
  split_ifs with hsecure hplain
  · obtain ⟨rest, rfl⟩ := List.isPrefixOf_iff_prefix.mp hsecure
    exact ⟨https, rest, rfl, by decide, rfl⟩
  · obtain ⟨rest, rfl⟩ := List.isPrefixOf_iff_prefix.mp hplain
    exact ⟨http, rest, rfl, by decide, rfl⟩
  · exact ⟨[], source, rfl, by decide, rfl⟩

theorem no_schema {host tail : Bytes} (word : Bytes) (hhost : ∀ b ∈ host, endsHost b = false)
    (htail : ∀ b ∈ tail.head?, endsHost b = true) (hplain : ¬ ascii "://" <+: tail)
    (hword : ∀ b ∈ word, endsHost b = false) : ¬ word ++ ascii "://" <+: host ++ tail := by
  rintro ⟨rest, h⟩
  rw [List.append_assoc] at h
  have hmark : ∀ b ∈ (ascii "://" ++ rest).head?, endsHost b = true := by
    intro b hb
    obtain rfl : colon = b := Option.some.inj hb
    rfl
  have hsplit := span_unique hword hhost hmark htail h
  exact hplain ⟨rest, hsplit.2⟩

theorem readSchema_assembled {schema host tail : Bytes} (hschema : schema ∈ schemas)
    (hhost : ∀ b ∈ host, endsHost b = false) (htail : ∀ b ∈ tail.head?, endsHost b = true)
    (hplain : ¬ ascii "://" <+: tail) :
    (readSchema (schema ++ (host ++ tail))).value = (schema, ⟨schema.length, host ++ tail⟩) := by
  rw [readSchema_value]
  simp only [schemas, List.mem_cons, List.not_mem_nil, or_false] at hschema
  rcases hschema with rfl | rfl | rfl
  · rw [if_neg, if_neg]
    · rfl
    · intro h
      exact no_schema (ascii "http") hhost htail hplain (by decide) (List.isPrefixOf_iff_prefix.mp h)
    · intro h
      exact no_schema (ascii "https") hhost htail hplain (by decide) (List.isPrefixOf_iff_prefix.mp h)
  · rw [if_neg, if_pos (List.isPrefixOf_iff_prefix.mpr (List.prefix_append _ _))]
    · rfl
    · exact Bool.false_ne_true
  · rw [if_pos (List.isPrefixOf_iff_prefix.mpr (List.prefix_append _ _))]
    rfl

/-- The components a URL is put together from. -/
structure Components where
  schema : Bytes
  host : Bytes
  port : Option Bytes
  path : Bytes
  query : Bytes
  schema_known : schema ∈ schemas
  host_plain : ∀ b ∈ host, endsHost b = false
  port_digits : ∀ digits ∈ port, digits ≠ [] ∧ ∀ b ∈ digits, isDigit b = true
  path_root : path = [] ∨ path.head? = some slash
  path_plain : ∀ b ∈ path, b ≠ questionMark
  query_mark : query = [] ∨ query.head? = some questionMark

def portText (port : Option Bytes) : Bytes := port.elim [] (colon :: ·)

def Components.assemble (c : Components) : Bytes := c.schema ++ (c.host ++ (portText c.port ++ (c.path ++ c.query)))

section

variable (c : Components)

theorem query_head : ∀ b ∈ c.query.head?, b = questionMark := by
  intro b hb
  rcases c.query_mark with h | h
  · rw [h] at hb
    cases hb
  · rw [h] at hb
    exact (Option.some.inj hb).symm

theorem path_head : ∀ b ∈ (c.path ++ c.query).head?, b = slash ∨ b = questionMark := by
  intro b hb
  rcases c.path_root with h | h
  · rw [h] at hb
    exact Or.inr (query_head c b hb)
  · rw [List.head?_append, h] at hb
    exact Or.inl (Option.some.inj hb).symm

theorem port_head : ∀ b ∈ (portText c.port ++ (c.path ++ c.query)).head?, endsHost b = true := by
  intro b hb
  rcases hport : c.port with _ | digits
  · rw [hport] at hb
    rcases path_head c b hb with rfl | rfl <;> rfl
  · rw [hport] at hb
    obtain rfl : colon = b := Option.some.inj hb
    rfl

theorem port_not_schema : ¬ ascii "://" <+: portText c.port ++ (c.path ++ c.query) := by
  rintro ⟨rest, h⟩
  rcases hport : c.port with _ | digits
  · rw [hport] at h
    have hcolon : colon ∈ (c.path ++ c.query).head? := by
      rw [show c.path ++ c.query = _ from h.symm]
      rfl
    rcases path_head c colon hcolon with h | h <;> exact absurd h (by decide)
  · obtain ⟨hne, hdigits⟩ := c.port_digits digits hport
    rw [hport] at h
    obtain ⟨d, ds, rfl⟩ := List.exists_cons_of_ne_nil hne
    have hslash : slash = d := (List.cons.inj (List.cons.inj h).2).1
    exact absurd (hdigits d List.mem_cons_self) (hslash ▸ by decide)

theorem readPort_assembled (pos : ℕ) : ∃ pos', (readPort ⟨pos, portText c.port ++ (c.path ++ c.query)⟩).value =
    .ok (c.port.getD [], ⟨pos', c.path ++ c.query⟩) := by
  have hhead := path_head c
  rcases hport : c.port with _ | digits
  · refine ⟨pos, readPort_absent ?_⟩
    intro h
    rcases hhead colon h with h | h <;> exact absurd h (by decide)
  · obtain ⟨hne, hdigits⟩ := c.port_digits digits hport
    have hstop : ∀ b ∈ (c.path ++ c.query).head?, isDigit b = false := by
      intro b hb
      rcases hhead b hb with rfl | rfl <;> rfl
    exact ⟨_, (readPort_span hdigits hstop).trans (if_neg hne)⟩

/-- The constructor takes a URL apart into the components it was put together from. -/
theorem url_assemble : (url c.assemble).value =
    .ok ⟨c.assemble, c.schema, c.host, c.port.getD [], c.path, c.query⟩ := by
  have hschema := readSchema_assembled c.schema_known c.host_plain (port_head c) (port_not_schema c)
  obtain ⟨pos, hport⟩ := readPort_assembled c (c.schema.length + c.host.length)
  apply url_accepts hschema (readHost_span c.host_plain (port_head c)) hport
    (readPath_span c.path_root c.path_plain (query_head c))
  rw [readQuery_value]
  rcases c.query_mark with h | h
  · rw [h]
    rfl
  · exact if_pos h

end

end FcgiAppserver.Urls
