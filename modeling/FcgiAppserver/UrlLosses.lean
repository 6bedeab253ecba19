import FcgiAppserver.UrlRoundtrip

namespace FcgiAppserver.Urls

open ByteStrings TracedAccesses

def URL.assembled (u : URL) : Bytes :=
  u.schema ++ u.host ++ (if u.port = [] then [] else colon :: u.port) ++ u.path ++ u.query

/-- After the digits of the port comes a byte that begins neither a path nor a query. -/
def LosesTail (source : Bytes) : Prop :=
  ∃ schema host digits c rest, schema ∈ schemas ∧ (∀ b ∈ host, endsHost b = false) ∧ digits ≠ [] ∧
    (∀ b ∈ digits, isDigit b = true) ∧ isDigit c = false ∧ c ≠ slash ∧ c ≠ questionMark ∧
    source = schema ++ (host ++ colon :: (digits ++ c :: rest))

theorem assembled_components (c : Components) :
    (URL.mk c.assemble c.schema c.host (c.port.getD []) c.path c.query).assembled = c.assemble := by
  simp only [URL.assembled, Components.assemble, List.append_assoc]
  rcases hport : c.port with _ | digits
  · rfl
  · rw [Option.getD_some, if_neg (c.port_digits digits hport).1]
    rfl

theorem path_query_split {more : Bytes} (h : ∀ b ∈ more.head?, b = slash ∨ b = questionMark) :
    ∃ path query, more = path ++ query ∧ (path = [] ∨ path.head? = some slash) ∧ (∀ b ∈ path, b ≠ questionMark) ∧
      (query = [] ∨ query.head? = some questionMark) := by
  obtain ⟨path, query, rfl, hpath, hquery⟩ := span_split (fun b => b = questionMark) more
  have hplain : ∀ b ∈ path, b ≠ questionMark := by simpa using hpath
  refine ⟨path, query, rfl, ?_, hplain, ?_⟩
  · cases path with
    | nil => exact Or.inl rfl
    | cons b path =>
      rcases h b rfl with rfl | rfl
      · exact Or.inr rfl
      · exact absurd rfl (hplain questionMark List.mem_cons_self)
  · cases query with
    | nil => exact Or.inl rfl
    | cons b query => exact Or.inr (congrArg some (of_decide_eq_true (hquery b rfl)))

theorem components_or_error {source : Bytes} (h : ¬ LosesTail source) :
    (∃ c : Components, source = c.assemble) ∨ ∃ e, (url source).value = .error e := by
  obtain ⟨schema, rest, rfl, hknown, hschema⟩ := readSchema_cases source
  obtain ⟨host, tail, rfl, hhost, htail⟩ := span_split endsHost rest
  by_cases hport : tail.head? = some colon
  · obtain ⟨after, rfl⟩ : ∃ after, tail = colon :: after := ⟨tail.tail, List.eq_cons_of_mem_head? hport⟩
    obtain ⟨digits, more, rfl, hdigits, hmore⟩ := span_split (fun b => !isDigit b) after
    have hdigits' : ∀ b ∈ digits, isDigit b = true := by simpa using hdigits
    have hmore' : ∀ b ∈ more.head?, isDigit b = false := by simpa using hmore
    by_cases hne : digits = []
    · exact Or.inr ⟨_, url_rejects hschema (readHost_span hhost htail)
        ((readPort_span hdigits' hmore').trans (if_pos hne))⟩
    · have hnext : ∀ b ∈ more.head?, b = slash ∨ b = questionMark := by
        intro b hb
        by_contra hother
        obtain ⟨hslash, hquestion⟩ := not_or.mp hother
        apply h
        refine ⟨schema, host, digits, b, more.tail, hknown, hhost, hne, hdigits', hmore' b hb, hslash, hquestion, ?_⟩
        rw [← List.eq_cons_of_mem_head? hb]
      obtain ⟨path, query, rfl, hroot, hplain, hmark⟩ := path_query_split hnext
      have hvalid : ∀ ds ∈ some digits, ds ≠ [] ∧ ∀ b ∈ ds, isDigit b = true := by
        rintro ds ⟨⟩
        exact ⟨hne, hdigits'⟩
      exact Or.inl ⟨⟨schema, host, some digits, path, query, hknown, hhost, hvalid, hroot, hplain, hmark⟩, rfl⟩
  · have hnext : ∀ b ∈ tail.head?, b = slash ∨ b = questionMark := by
      intro b hb
      have hends := htail b hb
      rw [endsHost, decide_eq_true_eq] at hends
      rcases hends with rfl | hends
      · exact absurd hb hport
      · exact hends
    obtain ⟨path, query, rfl, hroot, hplain, hmark⟩ := path_query_split hnext
    have hvalid : ∀ ds ∈ (none : Option Bytes), ds ≠ [] ∧ ∀ b ∈ ds, isDigit b = true := by
      intro ds hds
      cases hds
    exact Or.inl ⟨⟨schema, host, none, path, query, hknown, hhost, hvalid, hroot, hplain, hmark⟩, rfl⟩

theorem loses_tail {schema host digits rest : Bytes} {c : Byte} (hschema : schema ∈ schemas)
    (hhost : ∀ b ∈ host, endsHost b = false) (hne : digits ≠ []) (hdigits : ∀ b ∈ digits, isDigit b = true)
    (hc : isDigit c = false) (hslash : c ≠ slash) (hquestion : c ≠ questionMark) :
    (url (schema ++ (host ++ colon :: (digits ++ c :: rest)))).value =
      .ok ⟨schema ++ (host ++ colon :: (digits ++ c :: rest)), schema, host, digits, [], []⟩ := by
  have htail : ∀ b ∈ (colon :: (digits ++ c :: rest)).head?, endsHost b = true := by
    rintro b ⟨⟩
    rfl
  have hplain : ¬ ascii "://" <+: colon :: (digits ++ c :: rest) := by
    rintro ⟨more, h⟩
    obtain ⟨d, ds, rfl⟩ := List.exists_cons_of_ne_nil hne
    have hd : slash = d := (List.cons.inj (List.cons.inj h).2).1
    exact absurd (hdigits d List.mem_cons_self) (hd ▸ by decide)
  have hstop : ∀ b ∈ (c :: rest).head?, isDigit b = false := by
    rintro b ⟨⟩
    exact hc
  apply url_accepts (readSchema_assembled hschema hhost htail hplain) (readHost_span hhost htail)
    ((readPort_span hdigits hstop).trans (if_neg hne)) (readPath_absent (fun h => hslash (Option.some.inj h)))
  rw [readQuery_value]
  exact if_neg (fun h => hquestion (Option.some.inj h))

/-- Nothing of an accepted source is lost, and a source without components is rejected. -/
theorem url_keeps_source (source : Bytes) :
    ((∀ u, (url source).value = .ok u → u.assembled = source) ∧
      ((¬ ∃ c : Components, source = c.assemble) → ∃ e, (url source).value = .error e)) ↔ ¬ LosesTail source := by
  constructor
  · rintro ⟨hkeeps, -⟩ ⟨schema, host, digits, c, rest, hschema, hhost, hne, hdigits, hc, hslash, hquestion, rfl⟩
    have hkept := hkeeps _ (loses_tail hschema hhost hne hdigits hc hslash hquestion)
    have hlength := congrArg List.length hkept
    simp only [URL.assembled, if_neg hne, List.length_append, List.length_cons, List.length_nil] at hlength
    omega
  · intro h
    rcases components_or_error h with ⟨c, rfl⟩ | ⟨e, he⟩
    · refine ⟨?_, fun hnot => absurd ⟨c, rfl⟩ hnot⟩
      intro u hu
      obtain rfl := Except.ok.inj ((url_assemble c).symm.trans hu)
      exact assembled_components c
    · refine ⟨?_, fun _ => ⟨e, he⟩⟩
      intro u hu
      cases he.symm.trans hu

theorem user_loses_host : ∃ u, (url (ascii "user:123@host")).value = .ok u ∧ u.assembled ≠ ascii "user:123@host" :=
  ⟨⟨ascii "user:123@host", [], ascii "user", ascii "123", [], []⟩, by decide, by decide⟩

end FcgiAppserver.Urls
