import FcgiAppserver.FormdataRoundtrip

namespace FcgiAppserver.Formdata

open ByteStrings QueryArgs

variable {B : BoundaryToken}

/-- Only the first flush of a part is kept, so what is recorded is cut at the size of the buffer. -/
theorem recorded_cut (maxHeaderLen bufferSize : ℕ) (hroom : 0 < bufferSize) (preamble : Preamble B)
    (before : List (PlainPart B)) (part : PlainPart B) (after : List (PlainPart B)) (epilogue : Bytes)
    (hfit : ∀ p ∈ before ++ part :: after, (headerOf p.name).length ≤ maxHeaderLen - 1)
    (hfirst : ∀ p ∈ before, p.name ≠ part.name) {chunks : List Bytes} (hne : ∀ buf ∈ chunks, buf ≠ [])
    (hsplit : chunks.flatten = encodePlainBody preamble (before ++ part :: after) epilogue) :
    (feed (newParser B maxHeaderLen bufferSize ∅) chunks).1.formdataParams[part.name]? =
      some (part.value.take bufferSize) := by
  have hseek : SeekStart B (newParser B maxHeaderLen bufferSize ∅) := ⟨rfl, rfl, rfl⟩
  obtain ⟨s, hloop, -, hdecoded⟩ :=
    decode_plainBody hseek rfl rfl rfl hroom preamble (before ++ part :: after) epilogue hfit
  rw [feed_eq_loop _ chunks hne, hsplit, hloop, hdecoded]
  change (FirstWins.firstWins _ : Params)[part.name]? = _
  rw [FirstWins.getElem?_firstWins, List.map_append, List.map_cons]
  apply FirstWins.lookup_first
  intro p hp
  obtain ⟨q, hq, rfl⟩ := List.mem_map.mp hp
  exact hfirst q hq

theorem recorded_whole_iff (preamble : Preamble B) (before : List (PlainPart B)) (part : PlainPart B)
    (after : List (PlainPart B)) (epilogue : Bytes) (maxHeaderLen bufferSize : ℕ) (hroom : 1 ≤ bufferSize)
    (hfit : ∀ p ∈ before ++ part :: after, (headerOf p.name).length ≤ maxHeaderLen - 1)
    (hfirst : ∀ p ∈ before, p.name ≠ part.name) (chunks : List Bytes) (hne : ∀ buf ∈ chunks, buf ≠ [])
    (hsplit : chunks.flatten = encodePlainBody preamble (before ++ part :: after) epilogue) :
    ∃ p, formdataParser (contentTypeOf B) maxHeaderLen bufferSize ∅ = .ok p ∧
      ((feed p chunks).1.formdataParams[part.name]? = some part.value ↔ part.value.length ≤ bufferSize) := by
  refine ⟨newParser B maxHeaderLen bufferSize ∅, formdataParser_of B maxHeaderLen bufferSize ∅, ?_⟩
  rw [recorded_cut maxHeaderLen bufferSize hroom preamble before part after epilogue hfit hfirst hne hsplit, Option.some.injEq]
  exact List.take_eq_self_iff _

theorem replicate_free (n : ℕ) {b : Byte} (hb : b ≠ lf) : ¬ B.delimiter <:+: List.replicate n b := by
  intro h
  have hlf : lf ∈ List.replicate n b := h.subset List.mem_cons_self
  exact hb (List.eq_of_mem_replicate hlf).symm

theorem letterA_plain : ∀ b ∈ ascii "a", b ≠ quote ∧ b ≠ cr ∧ b ≠ lf ∧ b ≠ 0 := by decide +kernel

def repeatedPart (n : ℕ) : PlainPart oneByteBoundary :=
  ⟨ascii "a", List.replicate n 120, letterA_plain, replicate_free n (by decide)⟩

theorem repeatedPart_fits (n : ℕ) : ∀ p ∈ [] ++ repeatedPart n :: [], (headerOf p.name).length ≤ 512 - 1 := by
  have hlen : (headerOf (ascii "a")).length ≤ 512 - 1 := by decide +kernel
  simpa [repeatedPart] using hlen

theorem encodePlainBody_ne_nil (preamble : Preamble B) (parts : List (PlainPart B)) (epilogue : Bytes) :
    ∀ buf ∈ [encodePlainBody preamble parts epilogue], buf ≠ [] := by
  simp [encodePlainBody, BoundaryToken.opening]

theorem recorded_whole_sample :
    ∃ p, formdataParser (contentTypeOf oneByteBoundary) 512 2 ∅ = .ok p ∧
      ((feed p [encodePlainBody (noPreamble oneByteBoundary) ([] ++ repeatedPart 2 :: []) []]).1.formdataParams[ascii "a"]? =
        some [120, 120] ↔ 2 ≤ 2) :=
  recorded_whole_iff (noPreamble oneByteBoundary) [] (repeatedPart 2) [] [] 512 2 (by decide) (repeatedPart_fits 2)
    (by simp) _ (encodePlainBody_ne_nil _ _ _) List.flatten_singleton

/-- One byte more than the buffer of `parse_form_data` holds. -/
theorem long_value_cut :
    (feed (newParser oneByteBoundary 512 (128 * 1024) ∅)
        [encodePlainBody (noPreamble oneByteBoundary) ([] ++ repeatedPart (128 * 1024 + 1) :: []) []]).1.formdataParams[ascii "a"]? =
      some (List.replicate (128 * 1024) 120) ∧
    List.replicate (128 * 1024) (120 : Byte) ≠ (repeatedPart (128 * 1024 + 1)).value := by
  constructor
  · have hcut := recorded_cut 512 (128 * 1024) (by norm_num)
      (noPreamble oneByteBoundary) [] (repeatedPart (128 * 1024 + 1)) [] [] (repeatedPart_fits _) (by simp)
      (encodePlainBody_ne_nil (noPreamble oneByteBoundary) ([] ++ repeatedPart (128 * 1024 + 1) :: []) [])
      List.flatten_singleton
    apply hcut.trans
    rw [repeatedPart, List.take_replicate]
    rfl
  · intro h
    have hlen := congrArg List.length h
    simp only [repeatedPart, List.length_replicate] at hlen
    omega

end FcgiAppserver.Formdata
