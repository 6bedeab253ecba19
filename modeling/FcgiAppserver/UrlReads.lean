import FcgiAppserver.UrlRoundtrip

namespace FcgiAppserver.Urls

open ByteStrings TracedAccesses Traced

/-- The iterator stands in a source of `n` bytes or at its end. -/
def Within (n : ℕ) (p : Iterator) : Prop := p.pos + p.rest.length = n

section

variable {n : ℕ} {p : Iterator}

theorem get_always {i : ℕ} : Always (· < n) (p.get i) ↔ p.pos + i < n := by
  rw [Iterator.get, always_bind, always_emit]
  exact and_iff_left (always_pure _)

theorem isAt_reads (h : Within n p) (c : Byte) : Always (· < n) (p.isAt c) := by
  apply Always.ite
  · intro _
    exact always_pure _
  · intro hne
    have hpos := List.length_pos_iff.mpr hne
    apply Always.bind (get_always.mpr _) (always_pure _)
    unfold Within at h
    omega

theorem scan_reads (stop : Byte → Bool) {pos : ℕ} {rest : Bytes} (h : pos + rest.length = n) :
    Always (· < n) (scan stop pos rest) ∧ Within n (scan stop pos rest).value := by
  induction rest generalizing pos with
  | nil => exact ⟨always_pure _, h⟩
  | cons b rest ih =>
    rw [List.length_cons] at h
    have hrest : pos + 1 + rest.length = n := by omega
    obtain ⟨hreads, hwithin⟩ := ih hrest
    have hget : Always (· < n) (Iterator.get ⟨pos, b :: rest⟩ 0) := get_always.mpr (by change pos + 0 < n; omega)
    constructor
    · apply Always.bind hget
      apply Always.ite
      · intro _
        exact always_pure _
      · intro _
        exact hreads
    · rw [scan, bind_value, ite_value]
      split
      · exact h
      · exact hwithin

theorem readHost_reads (h : Within n p) : Always (· < n) (readHost p) ∧ Within n (readHost p).value.2 := by
  obtain ⟨hreads, hwithin⟩ := scan_reads endsHost h
  exact ⟨Always.bind hreads (always_pure _), hwithin⟩

theorem readPort_reads (h : Within n p) :
    Always (· < n) (readPort p) ∧ ∀ port q, (readPort p).value = .ok (port, q) → Within n q := by
  have hat := isAt_reads h colon
  by_cases hcolon : p.rest.head? = some colon
  · have hafter : (p.advance 1).pos + (p.advance 1).rest.length = n := by
      have hpos : p.rest ≠ [] := by
        intro hnil
        rw [hnil] at hcolon
        cases hcolon
      have hlength := List.length_pos_iff.mpr hpos
      unfold Within at h
      simp only [Iterator.advance, List.length_drop]
      omega
    obtain ⟨hreads, hwithin⟩ := scan_reads (fun b => !isDigit b) hafter
    constructor
    · apply Always.bind hat
      apply Always.ite
      · intro _
        apply Always.bind hreads
        apply Always.ite <;> exact fun _ => always_pure _
      · intro _
        exact always_pure _
    · intro port q hvalue
      simp only [readPort, bind_value, isAt_value, hcolon, decide_true, if_true, ite_value, pure_value] at hvalue
      split_ifs at hvalue with hempty
      obtain ⟨-, rfl⟩ := Prod.mk.inj (Except.ok.inj hvalue)
      exact hwithin
  · constructor
    · apply Always.bind hat
      apply Always.ite
      · intro hyes
        rw [isAt_value, decide_eq_true_eq] at hyes
        exact absurd hyes hcolon
      · intro _
        exact always_pure _
    · intro port q hvalue
      rw [readPort_absent hcolon] at hvalue
      obtain ⟨-, rfl⟩ := Prod.mk.inj (Except.ok.inj hvalue)
      exact h

theorem readPath_reads (h : Within n p) : Always (· < n) (readPath p) ∧ Within n (readPath p).value.2 := by
  obtain ⟨hreads, hwithin⟩ := scan_reads (fun b => b = questionMark) h
  constructor
  · apply Always.bind (isAt_reads h slash)
    apply Always.ite
    · intro _
      exact Always.bind hreads (always_pure _)
    · intro _
      exact always_pure _
  · rw [readPath, bind_value, ite_value]
    split
    · exact hwithin
    · exact h

theorem readQuery_reads (h : Within n p) : Always (· < n) (readQuery p) := by
  apply Always.bind (isAt_reads h questionMark)
  apply Always.ite <;> exact fun _ => always_pure _

theorem spells_reads {i : ℕ} {pat : Bytes} (h : p.pos + i + pat.length ≤ n) : Always (· < n) (p.spells i pat) := by
  induction pat generalizing i with
  | nil => exact always_pure _
  | cons c cs ih =>
    rw [List.length_cons] at h
    apply Always.bind (get_always.mpr (by omega))
    apply Always.ite
    · intro _
      exact ih (by omega)
    · intro _
      exact always_pure _

/-- The last byte is looked at only where all before it are as they should be. -/
theorem spells_reads_last {i : ℕ} (pat : Bytes) (c : Byte) (hplain : 0 ∉ pat) (hlen : p.pos + i + pat.length ≤ n)
    (hlast : pat <+: p.rest.drop i → p.pos + i + pat.length < n) : Always (· < n) (p.spells i (pat ++ [c])) := by
  induction pat generalizing i with
  | nil => exact spells_reads (hlast (List.nil_prefix))
  | cons d ds ih =>
    obtain ⟨hd, hds⟩ := not_or.mp (mt List.mem_cons.mpr hplain)
    rw [List.length_cons] at hlen hlast
    apply Always.bind (get_always.mpr (by omega))
    apply Always.ite
    · intro hget
      apply ih hds (by omega)
      intro hprefix
      have hi : i < p.rest.length := by
        by_contra hend
        have hnul : p.rest.getD i 0 = d := hget
        rw [List.getD_eq_default _ _ (not_lt.mp hend)] at hnul
        exact hd hnul
      have hbyte : p.rest[i] = d := (List.getD_eq_getElem _ _ hi).symm.trans hget
      rw [List.drop_eq_getElem_cons hi, hbyte, List.cons_prefix_cons] at hlast
      have hbound := hlast ⟨rfl, hprefix⟩
      omega
    · intro _
      exact always_pure _

end

theorem readSchema_reads {source : Bytes} (h : source ≠ ascii "https:/") :
    Always (· < source.length) (readSchema source) := by
  apply Always.ite
  · intro hlen
    have hfour : 0 + 0 + (ascii "http").length ≤ source.length := Nat.le_trans (Nat.le_of_ble_eq_true rfl) hlen
    have hseven : 0 + 4 + (ascii "://").length ≤ source.length := hlen
    apply Always.bind (spells_reads hfour)
    apply Always.ite
    · intro hhttp
      have hlast : ascii "s:/" <+: source.drop 4 → 0 + 4 + (ascii "s:/").length < source.length := by
        intro hsecure
        apply Nat.lt_of_le_of_ne hlen
        intro hlength
        rw [spells_value 0 0 (ascii "http") (by decide)] at hhttp
        have hprefix : (ascii "https:/").isPrefixOf source = true := by
          rw [show ascii "https:/" = ascii "http" ++ ascii "s:/" from rfl, isPrefixOf_append, Bool.and_eq_true]
          exact ⟨hhttp, List.isPrefixOf_iff_prefix.mpr hsecure⟩
        exact h ((List.isPrefixOf_iff_prefix.mp hprefix).eq_of_length hlength).symm
      apply Always.bind (spells_reads_last (ascii "s:/") slash (by decide) hseven hlast)
      apply Always.ite
      · intro _
        exact always_pure _
      · intro _
        apply Always.bind (spells_reads hseven)
        apply Always.ite <;> exact fun _ => always_pure _
    · intro _
      exact always_pure _
  · intro _
    exact always_pure _

theorem readSchema_within (source : Bytes) : Within source.length (readSchema source).value.2 := by
  obtain ⟨schema, rest, rfl, -, hvalue⟩ := readSchema_cases source
  rw [hvalue]
  exact List.length_append.symm

theorem url_reads {source : Bytes} (h : source ≠ ascii "https:/") : Always (· < source.length) (url source) := by
  have hschema := readSchema_within source
  obtain ⟨hhost, hafterHost⟩ := readHost_reads hschema
  obtain ⟨hport, hafterPort⟩ := readPort_reads hafterHost
  apply Always.bind (readSchema_reads h)
  apply Always.bind hhost
  apply Always.bind hport
  rcases hvalue : (readPort (readHost (readSchema source).value.2).value.2).value with e | ⟨port, p⟩
  · exact always_pure _
  · dsimp only
    obtain ⟨hpath, hafterPath⟩ := readPath_reads (hafterPort port p hvalue)
    apply Always.bind hpath
    apply Always.bind (readQuery_reads hafterPath)
    exact always_pure _

theorem url_reads_inside (source : Bytes) : Always (· < source.length) (url source) ↔ source ≠ ascii "https:/" := by
  constructor
  · rintro hreads rfl
    have hlast := hreads 7
    exact absurd (hlast (by decide)) (by decide)
  · exact url_reads

theorem url_reads_end : ¬ Always (· < (ascii "https:/").length) (url (ascii "https:/")) := by
  intro hreads
  exact absurd (hreads 7 (by decide)) (by decide)

end FcgiAppserver.Urls
