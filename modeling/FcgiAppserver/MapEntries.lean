import Mathlib

/-!
The entries of ordered maps, and how many of them hold one value.
-/

namespace FcgiAppserver.MapEntries

variable {κ ν : Type*} {cmp : κ → κ → Ordering} [Std.TransCmp cmp] [Std.LawfulEqCmp cmp]

omit [Std.LawfulEqCmp cmp] in
theorem nodup_toList (m : Std.ExtTreeMap κ ν cmp) : m.toList.Nodup := by
  apply m.distinct_keys_toList.imp
  rintro a b hne rfl
  exact hne Std.ReflCmp.compare_self

theorem perm_toList_iff (m : Std.ExtTreeMap κ ν cmp) {l : List (κ × ν)} (hl : l.Nodup) :
    m.toList.Perm l ↔ ∀ k v, m[k]? = some v ↔ (k, v) ∈ l := by
  rw [List.perm_ext_iff_of_nodup (nodup_toList m) hl, Prod.forall]
  simp only [Std.ExtTreeMap.mem_toList_iff_getElem?_eq_some]

theorem mem_toList_fst {m : Std.ExtTreeMap κ ν cmp} {e : κ × ν} (he : e ∈ m.toList) : e.1 ∈ m := by
  obtain ⟨k, v⟩ := e
  rw [Std.ExtTreeMap.mem_toList_iff_getElem?_eq_some] at he
  exact Std.ExtTreeMap.mem_iff_isSome_getElem?.mpr (by simp [he])

theorem toList_insertIfNew {m : Std.ExtTreeMap κ ν cmp} {k : κ} (v : ν) (hk : k ∉ m) :
    (m.insertIfNew k v).toList.Perm ((k, v) :: m.toList) := by
  have hnew : (k, v) ∉ m.toList := fun h => hk (mem_toList_fst h)
  rw [perm_toList_iff _ (List.nodup_cons.mpr ⟨hnew, nodup_toList m⟩)]
  intro k' v'
  rw [Std.ExtTreeMap.getElem?_insertIfNew, List.mem_cons, Std.ExtTreeMap.mem_toList_iff_getElem?_eq_some]
  by_cases hkey : k' = k
  · subst hkey
    simp [hk, Std.ReflCmp.compare_self, eq_comm]
  · simp [hkey, Ne.symm hkey]

theorem toList_erase {m : Std.ExtTreeMap κ ν cmp} {k : κ} {v : ν} (hk : m[k]? = some v) :
    m.toList.Perm ((k, v) :: (m.erase k).toList) := by
  have hgone : (k, v) ∉ (m.erase k).toList := by
    intro h
    simpa using mem_toList_fst h
  rw [perm_toList_iff _ (List.nodup_cons.mpr ⟨hgone, nodup_toList _⟩)]
  intro k' v'
  rw [List.mem_cons, Std.ExtTreeMap.mem_toList_iff_getElem?_eq_some, Std.ExtTreeMap.getElem?_erase]
  by_cases hkey : k' = k
  · subst hkey
    simp [hk, eq_comm]
  · simp [hkey, Ne.symm hkey]

theorem find?_toList [DecidableEq κ] (m : Std.ExtTreeMap κ ν cmp) (k : κ) :
    m.toList.find? (fun e => e.1 = k) = m[k]?.map (fun v => (k, v)) := by
  cases hv : m[k]? with
  | none =>
    rw [Option.map_none, List.find?_eq_none]
    rintro ⟨k', v'⟩ he hk
    have hsome := Std.ExtTreeMap.mem_toList_iff_getElem?_eq_some.mp he
    have hkey : k' = k := by simpa using hk
    rw [hkey, hv] at hsome
    cases hsome
  | some v =>
    have hmem : (k, v) ∈ m.toList := Std.ExtTreeMap.mem_toList_iff_getElem?_eq_some.mpr hv
    have hfound : (m.toList.find? (fun e => e.1 = k)).isSome := List.find?_isSome.mpr ⟨(k, v), hmem, by simp⟩
    obtain ⟨⟨k', v'⟩, he⟩ := Option.isSome_iff_exists.mp hfound
    have hkey : k' = k := by simpa using List.find?_some he
    have hsome := Std.ExtTreeMap.mem_toList_iff_getElem?_eq_some.mp (List.mem_of_find?_eq_some he)
    rw [hkey, hv, Option.some.injEq] at hsome
    rw [he, hkey, hsome]
    rfl

variable [DecidableEq ν]

omit [Std.LawfulEqCmp cmp] in
def countValue (m : Std.ExtTreeMap κ ν cmp) (v : ν) : ℕ := m.toList.countP (fun e => e.2 = v)

theorem countValue_insertIfNew {m : Std.ExtTreeMap κ ν cmp} {k : κ} (v w : ν) (hk : k ∉ m) :
    countValue (m.insertIfNew k v) w = countValue m w + if v = w then 1 else 0 := by
  rw [countValue, (toList_insertIfNew v hk).countP_eq, List.countP_cons, countValue]
  simp

theorem countValue_erase {m : Std.ExtTreeMap κ ν cmp} {k : κ} {v : ν} (hk : m[k]? = some v) (w : ν) :
    countValue m w = countValue (m.erase k) w + if v = w then 1 else 0 := by
  rw [countValue, (toList_erase hk).countP_eq, List.countP_cons, countValue]
  simp

omit [Std.LawfulEqCmp cmp] in
theorem countValue_empty (v : ν) : countValue (∅ : Std.ExtTreeMap κ ν cmp) v = 0 := by
  simp [countValue]

end FcgiAppserver.MapEntries
