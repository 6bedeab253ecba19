import FcgiAppserver.JsonPointers

namespace FcgiAppserver.Json

open ByteStrings TransitionRuns MapEntries Relation GrowingRelations

theorem mapM_some_iff {α β : Type} {f : α → Option β} {l : List α} {l' : List β} :
    l.mapM f = some l' ↔ List.Forall₂ (fun a b => f a = some b) l l' := by
  induction l generalizing l' with
  | nil =>
    rw [List.mapM_nil, List.forall₂_nil_left_iff]
    exact ⟨fun h => (Option.some.inj h).symm, fun h => congrArg some h.symm⟩
  | cons a l ih =>
    rw [List.mapM_cons, List.forall₂_cons_left_iff]
    constructor
    · intro h
      obtain ⟨b, hb, hrest⟩ := Option.bind_eq_some_iff.mp h
      obtain ⟨bs, hbs, hreturn⟩ := Option.bind_eq_some_iff.mp hrest
      exact ⟨b, bs, hb, ih.mp hbs, (Option.some.inj hreturn).symm⟩
    · rintro ⟨b, bs, hb, hbs, rfl⟩
      rw [hb, ih.mpr hbs]
      rfl

theorem value_some {node : Node} {sub : Handle → Option JSONValue} {v : JSONValue} :
    node.value sub = some v ↔
      ∃ values, List.Forall₂ (fun item w => item.value sub = some w) node.items values ∧ node.shape values = v := by
  rw [Node.value, Option.map_eq_some_iff]
  simp only [mapM_some_iff]

theorem itemValue_pointer {item : Item} {g : Handle} (sub : Handle → Option JSONValue) (hg : item.handle? = some g) :
    item.value sub = sub g := by
  cases item with
  | object g' =>
    cases hg
    rfl
  | array g' =>
    cases hg
    rfl
  | string str => cases hg
  | integer i => cases hg

theorem itemValue_scalar {item : Item} (hitem : item.handle? = none) : ∃ w, ∀ sub, item.value sub = some w := by
  cases item with
  | object g => cases hitem
  | array g => cases hitem
  | string str => exact ⟨.string str, fun _ => rfl⟩
  | integer i => exact ⟨.integer i, fun _ => rfl⟩

section

variable {node : Node} {sub sub' : Handle → Option JSONValue}

theorem itemValue_mono {item : Item} (h : ∀ g, item.handle? = some g → ∀ w, sub g = some w → sub' g = some w)
    {w : JSONValue} (hw : item.value sub = some w) : item.value sub' = some w := by
  cases hhandle : item.handle? with
  | none =>
    obtain ⟨w', hw'⟩ := itemValue_scalar hhandle
    rw [hw'] at hw ⊢
    exact hw
  | some g =>
    rw [itemValue_pointer _ hhandle] at hw ⊢
    exact h g hhandle w hw

theorem value_mono (h : ∀ item ∈ node.items, ∀ g, item.handle? = some g → ∀ w, sub g = some w → sub' g = some w)
    {v : JSONValue} (hv : node.value sub = some v) : node.value sub' = some v := by
  obtain ⟨values, hvalues, hshape⟩ := value_some.mp hv
  refine value_some.mpr ⟨values, ?_, hshape⟩
  clear hshape hv
  generalize node.items = items at h hvalues
  induction hvalues with
  | nil => exact List.Forall₂.nil
  | cons hfirst _ ih =>
    rw [List.forall_mem_cons] at h
    exact List.Forall₂.cons (itemValue_mono h.1 hfirst) (ih h.2)

theorem value_exists : (∃ v, node.value sub = some v) ↔
    ∀ item ∈ node.items, ∀ g, item.handle? = some g → ∃ w, sub g = some w := by
  constructor
  · rintro ⟨v, hv⟩ item hitem g hg
    obtain ⟨values, hvalues, -⟩ := value_some.mp hv
    obtain ⟨i, hi, rfl⟩ := List.mem_iff_getElem.mp hitem
    obtain ⟨hlength, hall⟩ := List.forall₂_iff_get.mp hvalues
    have hw := hall i hi (hlength ▸ hi)
    rw [List.get_eq_getElem, itemValue_pointer _ hg] at hw
    exact ⟨_, hw⟩
  · intro h
    have hvalues : ∃ values, List.Forall₂ (fun item w => item.value sub = some w) node.items values := by
      generalize node.items = items at h
      induction items with
      | nil => exact ⟨[], List.Forall₂.nil⟩
      | cons item items ih =>
        rw [List.forall_mem_cons] at h
        obtain ⟨values, hvalues⟩ := ih h.2
        cases hhandle : item.handle? with
        | none =>
          obtain ⟨w, hw⟩ := itemValue_scalar hhandle
          exact ⟨w :: values, List.Forall₂.cons (hw sub) hvalues⟩
        | some g =>
          obtain ⟨w, hw⟩ := h.1 g hhandle
          exact ⟨w :: values, List.Forall₂.cons ((itemValue_pointer sub hhandle).trans hw) hvalues⟩
    obtain ⟨values, hvalues⟩ := hvalues
    exact ⟨_, value_some.mpr ⟨values, hvalues, rfl⟩⟩

theorem find?_zip {k : Bytes} {item : Item} {es : List (Bytes × Item)} {values : List JSONValue}
    (hvalues : List.Forall₂ (fun item w => item.value sub = some w) (es.map Prod.snd) values)
    (hfind : es.find? (fun e => e.1 = k) = some (k, item)) :
    ∃ w, item.value sub = some w ∧ ((es.map Prod.fst).zip values).find? (fun e => e.1 = k) = some (k, w) := by
  induction es generalizing values with
  | nil => cases hfind
  | cons e es ih =>
    obtain ⟨w, rest, hw, hrest, rfl⟩ := List.forall₂_cons_left_iff.mp hvalues
    by_cases hk : e.1 = k
    · rw [List.find?_cons_of_pos (by simpa using hk)] at hfind
      cases hfind
      exact ⟨w, hw, List.find?_cons_of_pos (by simp)⟩
    · rw [List.find?_cons_of_neg (by simpa using hk)] at hfind
      obtain ⟨w', hw', hfind'⟩ := ih hrest hfind
      exact ⟨w', hw', (List.find?_cons_of_neg (by simpa using hk)).trans hfind'⟩

theorem at?_value {v : JSONValue} (hv : node.value sub = some v) {seg : Segment} {item : Item}
    (hchild : node.child seg = some item) :
    ∃ w, item.value sub = some w ∧ ∀ path, v.at? (seg :: path) = w.at? path := by
  obtain ⟨values, hvalues, rfl⟩ := value_some.mp hv
  cases node with
  | object items =>
    cases seg with
    | index i => cases hchild
    | key k =>
      have hitem : items[k]? = some item := hchild
      have hfind : items.toList.find? (fun e => e.1 = k) = some (k, item) := by
        rw [find?_toList, hitem]
        rfl
      obtain ⟨w, hw, hzip⟩ := find?_zip hvalues hfind
      refine ⟨w, hw, ?_⟩
      intro path
      rw [Node.shape, JSONValue.at?, hzip]
      rfl
  | array items =>
    cases seg with
    | key k => cases hchild
    | index i =>
      have hitem : items[i]? = some item := hchild
      obtain ⟨hi, hget⟩ := List.getElem?_eq_some_iff.mp hitem
      obtain ⟨hlength, hall⟩ := List.forall₂_iff_get.mp hvalues
      have hi' : i < values.length := hlength ▸ hi
      refine ⟨values[i], ?_, ?_⟩
      · rw [← hget]
        exact hall i hi hi'
      · intro path
        rw [Node.shape, JSONValue.at?, List.getElem?_eq_getElem hi']
        rfl

end

section

variable {s : Heap} {h g : Handle} {v : JSONValue}

theorem tree_succ (depth : ℕ) (hv : tree s depth h = some v) : tree s (depth + 1) h = some v := by
  induction depth generalizing h v with
  | zero => cases hv
  | succ depth ih =>
    rw [tree] at hv ⊢
    obtain ⟨node, hnode, hvalue⟩ := Option.bind_eq_some_iff.mp hv
    rw [hnode]
    exact value_mono (fun _ _ _ _ _ hw => ih hw) hvalue

theorem tree_le {depth depth' : ℕ} (hle : depth ≤ depth') (hv : tree s depth h = some v) : tree s depth' h = some v := by
  induction hle with
  | refl => exact hv
  | step _ ih => exact tree_succ _ ih

/-- The text of a container is made of what its node holds. -/
theorem prints_node {node : Node} (hnode : s[h]? = some node) (hv : Prints s h v) :
    ∃ depth, node.value (tree s depth) = some v := by
  obtain ⟨depth, hdepth⟩ := hv
  cases depth with
  | zero => cases hdepth
  | succ depth =>
    rw [tree, hnode] at hdepth
    exact ⟨depth, hdepth⟩

theorem exists_depth {items : List Item} (hall : ∀ item ∈ items, ∀ g, item.handle? = some g → ∃ w, Prints s g w) :
    ∃ depth, ∀ item ∈ items, ∀ g, item.handle? = some g → ∃ w, tree s depth g = some w := by
  induction items with
  | nil => exact ⟨0, List.forall_mem_nil _⟩
  | cons item items ih =>
    rw [List.forall_mem_cons] at hall
    obtain ⟨depth, hdepth⟩ := ih hall.2
    cases hhandle : item.handle? with
    | none =>
      refine ⟨depth, List.forall_mem_cons.mpr ⟨?_, hdepth⟩⟩
      intro g hg
      rw [hhandle] at hg
      cases hg
    | some g =>
      obtain ⟨w, depth', hw⟩ := hall.1 g hhandle
      refine ⟨max depth depth', List.forall_mem_cons.mpr ⟨?_, ?_⟩⟩
      · intro g' hg'
        rw [hhandle, Option.some.injEq] at hg'
        exact ⟨w, hg' ▸ tree_le (Nat.le_max_right _ _) hw⟩
      · intro item' hitem' g' hg'
        obtain ⟨w', hw'⟩ := hdepth item' hitem' g' hg'
        exact ⟨w', tree_le (Nat.le_max_left _ _) hw'⟩

/-- A container can be printed if and only if no walk from it goes on for ever. -/
theorem prints_iff_acc (hs : Valid s) (hlt : h < s.length) :
    (∃ v, Prints s h v) ↔ Acc (Function.swap (Points s)) h := by
  constructor
  · rintro ⟨v, depth, hv⟩
    induction depth generalizing h v with
    | zero => cases hv
    | succ depth ih =>
      apply Acc.intro
      rintro g ⟨node, hnode, item, hitem, hg⟩
      rw [tree, hnode] at hv
      obtain ⟨w, hw⟩ := value_exists.mp ⟨v, hv⟩ item hitem g hg
      exact ih (hs.target h g ⟨node, hnode, item, hitem, hg⟩) w hw
  · intro hacc
    induction hacc with
    | intro h _ ih =>
      have hnode := List.getElem?_eq_getElem hlt
      have hall : ∀ item ∈ s[h].items, ∀ g, item.handle? = some g → ∃ w, Prints s g w := by
        intro item hitem g hg
        have hpoints : Points s h g := ⟨s[h], hnode, item, hitem, hg⟩
        exact ih g hpoints (hs.target h g hpoints)
      obtain ⟨depth, hdepth⟩ := exists_depth hall
      obtain ⟨v, hv⟩ := value_exists.mpr hdepth
      refine ⟨v, depth + 1, ?_⟩
      rw [tree, hnode]
      exact hv

theorem at?_prints {path : List Segment} (hresolve : resolve s h path = some g) (hv : Prints s h v) :
    ∃ w, Prints s g w ∧ v.at? path = some w := by
  induction path generalizing h v with
  | nil =>
    cases hresolve
    exact ⟨v, hv, by rw [JSONValue.at?]⟩
  | cons seg path ih =>
    obtain ⟨node, item, h', hnode, hseg, hitem, hrest⟩ := resolve_cons.mp hresolve
    obtain ⟨depth, hdepth⟩ := prints_node hnode hv
    obtain ⟨w, hw, hat⟩ := at?_value hdepth hseg
    rw [itemValue_pointer _ hitem] at hw
    rw [hat]
    exact ih hrest ⟨depth, hw⟩

end

/-- What cannot reach a container does not show what is in it. -/
theorem tree_away {s s' : Heap} {g : Handle} (hsame : ∀ h, h ≠ g → s'[h]? = s[h]?) (depth : ℕ) {h : Handle} {v : JSONValue}
    (haway : ¬ ReflTransGen (Points s) h g) (hv : tree s depth h = some v) : tree s' depth h = some v := by
  induction depth generalizing h v with
  | zero => cases hv
  | succ depth ih =>
    have hne : h ≠ g := by
      rintro rfl
      exact haway ReflTransGen.refl
    rw [tree] at hv ⊢
    obtain ⟨node, hnode, hvalue⟩ := Option.bind_eq_some_iff.mp hv
    rw [hsame h hne, hnode]
    apply value_mono _ hvalue
    intro item hitem g' hg' w hw
    exact ih (fun hreach => haway (ReflTransGen.head ⟨node, hnode, item, hitem, hg'⟩ hreach)) hw

def JSONValue.width : JSONValue → ℕ
  | .object items => items.length
  | .array items => items.length
  | _ => 0

theorem width_value {node : Node} {sub : Handle → Option JSONValue} {v : JSONValue} (hv : node.value sub = some v) :
    v.width = node.items.length := by
  obtain ⟨values, hvalues, rfl⟩ := value_some.mp hv
  have hlength := hvalues.length_eq
  cases node with
  | object items =>
    rw [Node.items, List.length_map] at hlength
    rw [Node.shape, JSONValue.width, List.length_zip, List.length_map, ← hlength, Nat.min_self, Node.items, List.length_map]
  | array items => exact hlength.symm

/-- Something can be added to every container, and it shows in the container's own text. -/
theorem exists_visible_add {s : Heap} {g : Handle} (hg : g < s.length) :
    ∃ node place node', s[g]? = some node ∧ add s g place (.string []) = .ok (s.set g node') ∧
      node'.items.length = node.items.length + 1 := by
  cases hnode : s[g] with
  | object items =>
    obtain ⟨k, hk⟩ := Infinite.exists_notMem_finset (items.toList.map Prod.fst).toFinset
    have hnew : k ∉ items := by
      intro hmem
      obtain ⟨v, hv⟩ := Option.isSome_iff_exists.mp (Std.ExtTreeMap.mem_iff_isSome_getElem?.mp hmem)
      have hpair := Std.ExtTreeMap.mem_toList_iff_getElem?_eq_some.mpr hv
      exact hk (List.mem_toFinset.mpr (List.mem_map_of_mem hpair))
    have hsome : s[g]? = some (.object items) := by rw [List.getElem?_eq_getElem hg, hnode]
    refine ⟨_, .key k, _, hsome, insertItem_object hsome, ?_⟩
    rw [Node.items, Node.items, List.length_map, List.length_map, (toList_insertIfNew _ hnew).length_eq, List.length_cons]
  | array items =>
    have hsome : s[g]? = some (.array items) := by rw [List.getElem?_eq_getElem hg, hnode]
    refine ⟨_, .back, _, hsome, insertItem_array hsome, ?_⟩
    rw [Node.items, Node.items, List.length_append, List.length_singleton]

theorem not_alive_of_detached {s : Heap} {g : Handle} (hlt : g < s.length) (hg : ¬ Attached s g) : ¬ Alive s g := by
  rintro ⟨⟨v, depth, hv⟩, path, hpath⟩
  obtain ⟨node, place, node', hnode, hadd, hlength⟩ := exists_visible_add hlt
  have hrun : exec buildStep s [.add g place (.string [])] = .ok (s.set g node') :=
    exec_cons_ok.mpr ⟨_, hadd, exec_nil⟩
  have hsame : tree (s.set g node') depth root = some v :=
    tree_away (fun h hne => List.getElem?_set_ne (Ne.symm hne)) depth hg hv
  obtain ⟨w, hw, hbefore⟩ := hpath [] s v exec_nil ⟨depth, hv⟩
  obtain ⟨w', hw', hafter⟩ := hpath _ _ v hrun ⟨depth, hsame⟩
  obtain rfl : w = w' := Option.some.inj (hbefore.symm.trans hafter)
  obtain ⟨depth₁, hvalue⟩ := prints_node hnode hw
  obtain ⟨depth₂, hvalue'⟩ := prints_node (List.getElem?_set_self hlt) hw'
  have hwidth := width_value hvalue
  rw [width_value hvalue', hlength] at hwidth
  exact absurd hwidth (Nat.succ_ne_self _)

theorem alive_of_attached {s : Heap} {g : Handle} (hprints : ∃ v, Prints s root v) (hg : Attached s g) : Alive s g := by
  obtain ⟨path, hpath⟩ := reaches_iff_resolve.mp hg
  refine ⟨hprints, path, ?_⟩
  intro later s' v hrun hv
  exact at?_prints (resolve_extends (run_extends hrun) hpath) hv

theorem all_alive_iff {s : Heap} (hs : Valid s) : (∀ g < s.length, Alive s g) ↔ Hung s := by
  constructor
  · intro halive
    have hattached : ∀ g < s.length, Attached s g := by
      intro g hlt
      by_contra hg
      exact not_alive_of_detached hlt hg (halive g hlt)
    have hroot := (prints_iff_acc hs hs.root).mp (halive root hs.root).1
    refine ⟨hattached, ⟨?_⟩⟩
    intro g
    by_cases hlt : g < s.length
    · exact acc_below hroot (hattached g hlt)
    · apply Acc.intro
      intro g' hpoints
      exact absurd (points_lt hpoints) hlt
  · rintro ⟨hattached, hends⟩ g hlt
    exact alive_of_attached ((prints_iff_acc hs hs.root).mpr (hends.apply root)) (hattached g hlt)

/-- All handles stay in the document, at every stage, if and only if no container was made under a key its object had
and no pointer closed a cycle. -/
theorem handles_alive_iff (calls : List BuilderCall) :
    (∀ before s, before <+: calls → exec buildStep emptyDocument before = .ok s → ∀ g < s.length, Alive s g) ↔
      Along buildStep KeepsHandles emptyDocument calls := by
  have hstep : ∀ s c, Valid s → Hung s → (KeepsHandles s c ↔ ∀ s', buildStep s c = .ok s' → Hung s') := by
    intro s c hs hhung
    constructor
    · intro hkeeps s' h
      exact (hung_step hs hhung h).mp hkeeps
    · intro hall
      by_contra hnot
      obtain ⟨s', h⟩ := buildStep_of_not_keeps hnot
      exact hnot ((hung_step hs hhung h).mpr (hall s' h))
  rw [along_iff_prefixes valid_step hstep valid_empty hung_empty]
  constructor
  · intro halive before s hbefore hrun
    exact (all_alive_iff (valid_run hrun)).mp (halive before s hbefore hrun)
  · intro hhung before s hbefore hrun
    exact (all_alive_iff (valid_run hrun)).mpr (hhung before s hbefore hrun)

theorem repeated_key_detaches : ∃ s v w,
    exec buildStep emptyDocument
      [.addObject root (.key (ascii "a")), .addObject root (.key (ascii "a")), .add 2 (.key (ascii "x")) (.integer 1)] =
        .ok s ∧
      Prints s root v ∧ writeValue v = ascii "\x7b\"a\":\x7b\x7d\x7d" ∧
      Prints s 2 w ∧ writeValue w = ascii "\x7b\"x\":1\x7d" ∧ ¬ Alive s 2 := by
  have hrun : exec buildStep emptyDocument [.addObject root (.key (ascii "a")), .addObject root (.key (ascii "a")),
    .add 2 (.key (ascii "x")) (.integer 1)] = .ok _ := rfl
  refine ⟨_, _, _, hrun, ⟨2, rfl⟩, by decide +kernel, ⟨1, rfl⟩, by decide +kernel, ?_⟩
  obtain ⟨s1, hs1, hrest⟩ := exec_cons_ok.mp hrun
  obtain ⟨s2, hs2, hlast⟩ := exec_cons_ok.mp hrest
  cases hs1
  have hvalid := valid_step _ (.addObject root (.key (ascii "a"))) _ valid_empty rfl
  obtain ⟨hdetached, hlt⟩ := not_hung_taken hvalid hs2 rfl (fun hfree => hfree _ rfl (by simp))
  obtain ⟨s3, hs3, hend⟩ := exec_cons_ok.mp hlast
  cases hend
  apply not_alive_of_detached (hlt.trans_le (length_le_of_extends (buildStep_extends hs3)))
  exact fun hattached => hdetached (ReflTransGen.mono (fun _ _ => points_add hs3) _ _ hattached)

/-- A pointer that leads back to its own container, somewhere below the root, leaves a document without end. -/
theorem cycle_not_printed {s s' : Heap} {h₀ g : Handle} {place : Place} (hs : Valid s) (hattached : Attached s h₀)
    (htakes : Takes s h₀ place) (hreach : ReflTransGen (Points s) g h₀)
    (h : buildStep s (.addPointer h₀ place g) = .ok s') : ¬ ∃ v, Prints s' root v := by
  intro hprints
  have hs' := valid_step s _ s' hs h
  have hacc := acc_below ((prints_iff_acc hs' hs'.root).mp hprints) (attached_step h hattached)
  exact not_acc_cycle (closed_cycle h htakes hreach) hacc

end FcgiAppserver.Json
