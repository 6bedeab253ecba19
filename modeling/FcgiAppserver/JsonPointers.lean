import FcgiAppserver.GrowingRelations
import FcgiAppserver.JsonBuilder

namespace FcgiAppserver.Json

open ByteStrings TransitionRuns MapEntries Relation GrowingRelations

theorem child_mem_items {node : Node} {seg : Segment} {item : Item} (hchild : node.child seg = some item) :
    item ∈ node.items := by
  cases node with
  | object items =>
    cases seg with
    | key k =>
      have hmem : (k, item) ∈ items.toList := Std.ExtTreeMap.mem_toList_iff_getElem?_eq_some.mpr hchild
      exact List.mem_map.mpr ⟨(k, item), hmem, rfl⟩
    | index i => cases hchild
  | array items =>
    cases seg with
    | key k => cases hchild
    | index i => exact List.mem_of_getElem? hchild

theorem mem_items_child {node : Node} {item : Item} (hitem : item ∈ node.items) : ∃ seg, node.child seg = some item := by
  cases node with
  | object items =>
    obtain ⟨⟨k, v⟩, hmem, rfl⟩ := List.mem_map.mp hitem
    exact ⟨.key k, Std.ExtTreeMap.mem_toList_iff_getElem?_eq_some.mp hmem⟩
  | array items =>
    obtain ⟨i, hi⟩ := List.mem_iff_getElem?.mp hitem
    exact ⟨.index i, hi⟩

/-- The segment under which the next item added at a place is found. -/
def nextSegment : Node → Place → Segment
  | .array items, _ => .index items.length
  | .object _, .key k => .key k
  | .object _, .back => .index 0

/-- What `insertItem` does to the container. -/
structure Grown (node : Node) (place : Place) (item : Item) (node' : Node) : Prop where
  items : ∀ x ∈ node'.items, x ∈ node.items ∨ x = item
  kept : ∀ seg x, node.child seg = some x → node'.child seg = some x

theorem grown_object (items : Std.ExtTreeMap Bytes Item) (k : Bytes) (item : Item) :
    Grown (.object items) (.key k) item (.object (items.insertIfNew k item)) where
  items := by
    intro x hx
    obtain ⟨seg, hseg⟩ := mem_items_child hx
    cases seg with
    | index i => cases hseg
    | key k' =>
      change (items.insertIfNew k item)[k']? = some x at hseg
      rw [Std.ExtTreeMap.getElem?_insertIfNew] at hseg
      split at hseg
      · exact Or.inr (Option.some.inj hseg).symm
      · have hold : (Node.object items).child (.key k') = some x := hseg
        exact Or.inl (child_mem_items hold)
  kept := by
    intro seg x hx
    cases seg with
    | index i => cases hx
    | key k' =>
      change items[k']? = some x at hx
      change (items.insertIfNew k item)[k']? = some x
      rw [Std.ExtTreeMap.getElem?_insertIfNew, if_neg]
      · exact hx
      · rintro ⟨hk, hnot⟩
        rw [Std.LawfulEqOrd.eq_of_compare hk] at hnot
        exact hnot (Std.ExtTreeMap.mem_iff_isSome_getElem?.mpr (by simp [hx]))

theorem grown_array (items : List Item) (item : Item) :
    Grown (.array items) .back item (.array (items ++ [item])) where
  items := by
    intro x hx
    rcases List.mem_append.mp hx with hx | hx
    · exact Or.inl hx
    · exact Or.inr (List.mem_singleton.mp hx)
  kept := by
    intro seg x hx
    cases seg with
    | key k => cases hx
    | index i =>
      obtain ⟨hlt, -⟩ := List.getElem?_eq_some_iff.mp hx
      change (items ++ [item])[i]? = some x
      rw [List.getElem?_append_left hlt]
      exact hx

theorem insertItem_object {s : Heap} {h : Handle} {items : Std.ExtTreeMap Bytes Item} {k : Bytes} {item : Item}
    (hnode : s[h]? = some (.object items)) :
    insertItem s h (.key k) item = .ok (s.set h (.object (items.insertIfNew k item))) := by
  simp only [insertItem, hnode]

theorem insertItem_array {s : Heap} {h : Handle} {items : List Item} {item : Item}
    (hnode : s[h]? = some (.array items)) :
    insertItem s h .back item = .ok (s.set h (.array (items ++ [item]))) := by
  simp only [insertItem, hnode]

theorem insertItem_grown {s s' : Heap} {h : Handle} {place : Place} {item : Item}
    (hinsert : insertItem s h place item = .ok s') :
    ∃ node node', s[h]? = some node ∧ s' = s.set h node' ∧ Grown node place item node' ∧
      (Free s h place → node'.child (nextSegment node place) = some item) := by
  unfold insertItem at hinsert
  split at hinsert
  · rename_i items k hnode
    cases hinsert
    refine ⟨_, _, hnode, rfl, grown_object items k item, ?_⟩
    intro hfree
    change (items.insertIfNew k item)[k]? = some item
    rw [Std.ExtTreeMap.getElem?_insertIfNew, if_pos ⟨Std.ReflOrd.compare_self, hfree items hnode⟩]
  · rename_i items hnode
    cases hinsert
    refine ⟨_, _, hnode, rfl, grown_array items item, ?_⟩
    intro _
    change (items ++ [item])[items.length]? = some item
    simp
  · cases hinsert

theorem taken_object {s : Heap} {h : Handle} {place : Place} (htaken : ¬ Free s h place) :
    ∃ items k, place = .key k ∧ s[h]? = some (.object items) ∧ k ∈ items := by
  cases place with
  | back => exact absurd trivial htaken
  | key k =>
    rw [Free, not_forall] at htaken
    obtain ⟨items, htaken⟩ := htaken
    rw [Classical.not_imp, not_not] at htaken
    exact ⟨items, k, rfl, htaken.1, htaken.2⟩

theorem insertItem_taken {s s1 : Heap} {g : Handle} {place : Place} {item : Item}
    (hinsert : insertItem s g place item = .ok s1) (htaken : ¬ Free s g place) : s1 = s := by
  obtain ⟨items, k, rfl, hnode, hmem⟩ := taken_object htaken
  obtain ⟨hlt, hget⟩ := List.getElem?_eq_some_iff.mp hnode
  rw [insertItem_object hnode] at hinsert
  cases hinsert
  have hsame : items.insertIfNew k item = items := by
    refine Std.ExtTreeMap.ext_getElem? ?_
    intro k'
    rw [Std.ExtTreeMap.getElem?_insertIfNew, if_neg]
    rintro ⟨-, hnot⟩
    exact hnot hmem
  rw [hsame, ← hget, List.set_getElem_self]

/-- Every container of `s` is in `s'` with at least its items, where they were. -/
def Extends (s s' : Heap) : Prop :=
  ∀ (h : Handle) (node : Node), s[h]? = some node →
    ∃ node' : Node, s'[h]? = some node' ∧ ∀ seg x, node.child seg = some x → node'.child seg = some x

theorem extends_refl (s : Heap) : Extends s s := fun _ node hnode => ⟨node, hnode, fun _ _ hx => hx⟩

theorem extends_append (s made : Heap) : Extends s (s ++ made) := by
  intro h node' hnode
  obtain ⟨hlt, -⟩ := List.getElem?_eq_some_iff.mp hnode
  exact ⟨node', by rw [List.getElem?_append_left hlt, hnode], fun _ _ hx => hx⟩

theorem Extends.trans {s s' s'' : Heap} (h : Extends s s') (h' : Extends s' s'') : Extends s s'' := by
  intro g node hnode
  obtain ⟨node', hnode', hkept⟩ := h g node hnode
  obtain ⟨node'', hnode'', hkept'⟩ := h' g node' hnode'
  exact ⟨node'', hnode'', fun seg x hx => hkept' seg x (hkept seg x hx)⟩

theorem insertItem_extends {s s' : Heap} {h : Handle} {place : Place} {item : Item}
    (hinsert : insertItem s h place item = .ok s') : Extends s s' ∧ s'.length = s.length := by
  obtain ⟨node, node', hnode, rfl, hgrown, -⟩ := insertItem_grown hinsert
  refine ⟨?_, List.length_set⟩
  obtain ⟨hlt, -⟩ := List.getElem?_eq_some_iff.mp hnode
  intro g other hother
  by_cases hg : h = g
  · subst hg
    rw [hnode, Option.some.injEq] at hother
    subst hother
    exact ⟨node', by rw [List.getElem?_set_self hlt], hgrown.kept⟩
  · exact ⟨other, by rw [List.getElem?_set_ne hg, hother], fun _ _ hx => hx⟩

theorem resolve_cons {s : Heap} {h g : Handle} {seg : Segment} {path : List Segment} :
    resolve s h (seg :: path) = some g ↔ ∃ node item h', s[h]? = some node ∧ node.child seg = some item ∧
      item.handle? = some h' ∧ resolve s h' path = some g := by
  rw [resolve, Option.bind_eq_some_iff]
  constructor
  · rintro ⟨h', hhandle, hrest⟩
    obtain ⟨item, hchild, hitem⟩ := Option.bind_eq_some_iff.mp hhandle
    obtain ⟨node, hnode, hseg⟩ := Option.bind_eq_some_iff.mp hchild
    exact ⟨node, item, h', hnode, hseg, hitem, hrest⟩
  · rintro ⟨node, item, h', hnode, hseg, hitem, hrest⟩
    exact ⟨h', by rw [hnode, Option.bind_some, hseg, Option.bind_some, hitem], hrest⟩

theorem resolve_extends {s s' : Heap} (hs : Extends s s') {h g : Handle} {path : List Segment}
    (hresolve : resolve s h path = some g) : resolve s' h path = some g := by
  induction path generalizing h with
  | nil => exact hresolve
  | cons seg path ih =>
    obtain ⟨node, item, h', hnode, hseg, hitem, hrest⟩ := resolve_cons.mp hresolve
    obtain ⟨node', hnode', hkept⟩ := hs h node hnode
    exact resolve_cons.mpr ⟨node', item, h', hnode', hkept seg item hseg, hitem, ih hrest⟩

theorem insertItem_items {s s1 : Heap} {g : Handle} {place : Place} {item : Item}
    (hinsert : insertItem s g place item = .ok s1) {h : Handle} {node : Node} (hnode : s1[h]? = some node)
    {x : Item} (hx : x ∈ node.items) :
    (∃ old, s[h]? = some old ∧ x ∈ old.items) ∨ (h = g ∧ x = item) := by
  obtain ⟨old, new, hold, rfl, hgrown, -⟩ := insertItem_grown hinsert
  obtain ⟨hlt, -⟩ := List.getElem?_eq_some_iff.mp hold
  by_cases hg : g = h
  · subst hg
    rw [List.getElem?_set_self hlt, Option.some.injEq] at hnode
    subst hnode
    rcases hgrown.items x hx with hin | hitem
    · exact Or.inl ⟨old, hold, hin⟩
    · exact Or.inr ⟨rfl, hitem⟩
  · rw [List.getElem?_set_ne hg] at hnode
    exact Or.inl ⟨node, hnode, hx⟩

theorem insertItem_valid {s s1 : Heap} {g : Handle} {place : Place} {item : Item}
    (hinsert : insertItem s g place item = .ok s1) : g < s.length := by
  obtain ⟨old, new, hold, -⟩ := insertItem_grown hinsert
  exact (List.getElem?_eq_some_iff.mp hold).1

theorem length_le_of_extends {s s' : Heap} (h : Extends s s') : s.length ≤ s'.length := by
  cases hlast : s.length with
  | zero => exact Nat.zero_le _
  | succ n =>
    obtain ⟨node', hnode', -⟩ := h n s[n] (List.getElem?_eq_getElem (by omega))
    exact (List.getElem?_eq_some_iff.mp hnode').1

theorem takes_of_free {s s1 : Heap} {h : Handle} {place : Place} {item : Item}
    (hinsert : insertItem s h place item = .ok s1) (hfree : Free s h place) : Takes s h place := by
  unfold insertItem at hinsert
  split at hinsert
  · rename_i items k hnode
    exact ⟨items, hnode, hfree items hnode⟩
  · rename_i items hnode
    exact ⟨items, hnode⟩
  · cases hinsert

theorem buildStep_extends {s s' : Heap} {c : BuilderCall} (h : buildStep s c = .ok s') : Extends s s' := by
  obtain ⟨item, s1, -, hinsert, rfl⟩ := buildStep_cases h
  exact (insertItem_extends hinsert).1.trans (extends_append s1 c.made)

theorem run_extends {s s' : Heap} {calls : List BuilderCall} (h : exec buildStep s calls = .ok s') :
    Extends s s' :=
  exec_keeps (fun _ _ _ hs hstep => hs.trans (buildStep_extends hstep)) (extends_refl s) h

theorem made_items {c : BuilderCall} {node : Node} (h : node ∈ c.made) : node.items = [] := by
  cases c with
  | add g place value => cases h
  | addPointer g place g' => cases h
  | addObject g place =>
    rw [List.mem_singleton.mp h, Node.items, Std.ExtTreeMap.toList_eq_nil_iff.mpr rfl]
    rfl
  | addArray g place => rw [List.mem_singleton.mp h, Node.items]

section

variable {s s' : Heap} {c : BuilderCall}

theorem points_lt {h g : Handle} (hpoints : Points s h g) : h < s.length := by
  obtain ⟨node, hnode, -⟩ := hpoints
  exact (List.getElem?_eq_some_iff.mp hnode).1

theorem points_extends (hs : Extends s s') {h g : Handle} (hpoints : Points s h g) : Points s' h g := by
  obtain ⟨node, hnode, item, hitem, hg⟩ := hpoints
  obtain ⟨seg, hseg⟩ := mem_items_child hitem
  obtain ⟨node', hnode', hkept⟩ := hs h node hnode
  exact ⟨node', hnode', item, child_mem_items (hkept seg item hseg), hg⟩

/-- The pointers after a call are those before it and the one that the call puts into a container. -/
theorem points_step (h : buildStep s c = .ok s') {x y : Handle} (hpoints : Points s' x y) : Points s x y ∨
    (x = c.container ∧ Takes s c.container c.place ∧ ∃ item, c.item s = some item ∧ item.handle? = some y) := by
  obtain ⟨item, s1, hitem, hinsert, rfl⟩ := buildStep_cases h
  obtain ⟨node, hnode, other, hother, hy⟩ := hpoints
  have hold : s1[x]? = some node := by
    rw [List.getElem?_append] at hnode
    split at hnode
    · exact hnode
    · rw [made_items (List.mem_of_getElem? hnode)] at hother
      cases hother
  rcases insertItem_items hinsert hold hother with ⟨before, hbefore, hin⟩ | ⟨rfl, rfl⟩
  · exact Or.inl ⟨before, hbefore, other, hin, hy⟩
  · by_cases htakes : Takes s c.container c.place
    · exact Or.inr ⟨rfl, htakes, other, hitem, hy⟩
    · obtain rfl := insertItem_taken hinsert (fun hfree => htakes (takes_of_free hinsert hfree))
      exact Or.inl ⟨node, hold, other, hother, hy⟩

theorem points_new (h : buildStep s c = .ok s') (hfree : Free s c.container c.place) {item : Item}
    (hitem : c.item s = some item) {g : Handle} (hg : item.handle? = some g) : Points s' c.container g := by
  obtain ⟨item', s1, hitem', hinsert, rfl⟩ := buildStep_cases h
  obtain rfl := Option.some.inj (hitem'.symm.trans hitem)
  obtain ⟨node, node', hnode, rfl, -, hchild⟩ := insertItem_grown hinsert
  have hvalid := (List.getElem?_eq_some_iff.mp hnode).1
  refine ⟨node', ?_, item', child_mem_items (hchild hfree), hg⟩
  rw [List.getElem?_append_left (by rw [List.length_set]; exact hvalid), List.getElem?_set_self hvalid]

theorem length_step (h : buildStep s c = .ok s') : s'.length = s.length + c.made.length := by
  obtain ⟨item, s1, -, hinsert, rfl⟩ := buildStep_cases h
  rw [List.length_append, (insertItem_extends hinsert).2]

theorem container_lt (h : buildStep s c = .ok s') : c.container < s.length := by
  obtain ⟨item, s1, -, hinsert, -⟩ := buildStep_cases h
  exact insertItem_valid hinsert

/-- A call inserts a pointer to a container that there is, or to the one it makes. -/
theorem item_handle {item : Item} {g : Handle} (hitem : c.item s = some item) (hg : item.handle? = some g) :
    g < s.length + c.made.length := by
  cases c with
  | add h place value =>
    cases hitem
    cases value <;> cases hg
  | addPointer h place g' =>
    obtain ⟨node, hnode, rfl⟩ := Option.map_eq_some_iff.mp hitem
    have hlt := (List.getElem?_eq_some_iff.mp hnode).1
    cases node with
    | object items =>
      cases hg
      exact Nat.lt_add_right _ hlt
    | array items =>
      cases hg
      exact Nat.lt_add_right _ hlt
  | addObject h place =>
    cases hitem
    cases hg
    exact Nat.lt_succ_self _
  | addArray h place =>
    cases hitem
    cases hg
    exact Nat.lt_succ_self _

end

/-- There is a root, and pointers lead to containers. -/
structure Valid (s : Heap) : Prop where
  root : root < s.length
  target : ∀ h g, Points s h g → g < s.length

theorem valid_empty : Valid emptyDocument where
  root := Nat.one_pos
  target := by
    rintro h g ⟨node, hnode, item, hitem, -⟩
    cases h with
    | zero =>
      cases hnode
      rw [Node.items, Std.ExtTreeMap.toList_eq_nil_iff.mpr rfl] at hitem
      exact absurd hitem List.not_mem_nil
    | succ h => cases hnode

theorem valid_step (s : Heap) (c : BuilderCall) (s' : Heap) (hs : Valid s) (h : buildStep s c = .ok s') : Valid s' where
  root := hs.root.trans_le (length_le_of_extends (buildStep_extends h))
  target := by
    intro x y hpoints
    rw [length_step h]
    rcases points_step h hpoints with hold | ⟨-, -, item, hitem, hy⟩
    · exact Nat.lt_add_right _ (hs.target x y hold)
    · exact item_handle hitem hy

theorem reaches_iff_resolve {s : Heap} {h g : Handle} :
    ReflTransGen (Points s) h g ↔ ∃ path, resolve s h path = some g := by
  constructor
  · intro hreach
    induction hreach using ReflTransGen.head_induction_on with
    | refl => exact ⟨[], rfl⟩
    | head hpoints _ ih =>
      obtain ⟨node, hnode, item, hitem, hg⟩ := hpoints
      obtain ⟨path, hpath⟩ := ih
      obtain ⟨seg, hseg⟩ := mem_items_child hitem
      exact ⟨seg :: path, resolve_cons.mpr ⟨node, item, _, hnode, hseg, hg, hpath⟩⟩
  · rintro ⟨path, hpath⟩
    induction path generalizing h with
    | nil =>
      cases hpath
      exact ReflTransGen.refl
    | cons seg path ih =>
      obtain ⟨node, item, h', hnode, hseg, hitem, hrest⟩ := resolve_cons.mp hpath
      exact ReflTransGen.head ⟨node, hnode, item, child_mem_items hseg, hitem⟩ (ih hrest)

def Attached (s : Heap) (g : Handle) : Prop := ReflTransGen (Points s) root g

/-- Every container hangs on the root, and no walk goes on for ever. -/
structure Hung (s : Heap) : Prop where
  attached : ∀ g < s.length, Attached s g
  ends : WellFounded (Function.swap (Points s))

theorem hung_empty : Hung emptyDocument := by
  have hnone : ∀ h g, ¬ Points emptyDocument h g := by
    rintro h g ⟨node, hnode, item, hitem, -⟩
    cases h with
    | zero =>
      cases hnode
      rw [Node.items, Std.ExtTreeMap.toList_eq_nil_iff.mpr rfl] at hitem
      exact List.not_mem_nil hitem
    | succ h => cases hnode
  constructor
  · intro g hg
    obtain rfl : g = root := Nat.lt_one_iff.mp hg
    exact ReflTransGen.refl
  · exact ⟨fun h => Acc.intro h (fun g hpoints => absurd hpoints (hnone h g))⟩

theorem takes_free {s : Heap} {h : Handle} {place : Place} (htakes : Takes s h place) : Free s h place := by
  cases place with
  | back => trivial
  | key k =>
    obtain ⟨items, hnode, hk⟩ := htakes
    intro items' hnode'
    rw [hnode, Option.some.injEq, Node.object.injEq] at hnode'
    exact hnode' ▸ hk

theorem takes_insertItem {s : Heap} {h : Handle} {place : Place} (htakes : Takes s h place) (item : Item) :
    ∃ s1, insertItem s h place item = .ok s1 := by
  cases place with
  | back =>
    obtain ⟨items, hnode⟩ := htakes
    exact ⟨_, insertItem_array hnode⟩
  | key k =>
    obtain ⟨items, hnode, -⟩ := htakes
    exact ⟨_, insertItem_object hnode⟩

theorem taken_insertItem {s : Heap} {h : Handle} {place : Place} (htaken : ¬ Free s h place) (item : Item) :
    ∃ s1, insertItem s h place item = .ok s1 := by
  obtain ⟨items, k, rfl, hnode, -⟩ := taken_object htaken
  exact ⟨_, insertItem_object hnode⟩

theorem buildStep_of_not_keeps {s : Heap} {c : BuilderCall} (hnot : ¬ KeepsHandles s c) : ∃ s', buildStep s c = .ok s' := by
  cases c with
  | add h place value => exact absurd trivial hnot
  | addPointer h place g =>
    obtain ⟨htakes, hreach⟩ := Classical.not_imp.mp hnot
    obtain ⟨s1, hs1⟩ : ∃ s1, insertItem s h place (.object g) = .ok s1 := takes_insertItem htakes _
    have hlt : g < s.length := by
      rcases ReflTransGen.cases_head (not_not.mp hreach) with rfl | ⟨x, hpoints, -⟩
      · exact insertItem_valid hs1
      · exact points_lt hpoints
    rw [buildStep, addPointer, List.getElem?_eq_getElem hlt]
    exact takes_insertItem htakes _
  | addObject h place =>
    obtain ⟨s1, hs1⟩ := taken_insertItem hnot (.object s.length)
    exact ⟨_, by rw [buildStep, addObject, hs1]; rfl⟩
  | addArray h place =>
    obtain ⟨s1, hs1⟩ := taken_insertItem hnot (.array s.length)
    exact ⟨_, by rw [buildStep, addArray, hs1]; rfl⟩

theorem pointer_handle (g : Handle) (node : Node) : (node.pointer g).handle? = some g := by
  cases node <;> rfl

section

variable {s s' : Heap} {c : BuilderCall}

theorem attached_step (h : buildStep s c = .ok s') {g : Handle} (hg : Attached s g) : Attached s' g :=
  ReflTransGen.mono (fun _ _ => points_extends (buildStep_extends h)) _ _ hg

theorem ends_of_old (hends : WellFounded (Function.swap (Points s))) (hold : ∀ x y, Points s' x y → Points s x y) :
    WellFounded (Function.swap (Points s')) :=
  Subrelation.wf (fun hpoints => hold _ _ hpoints) hends

theorem hung_same (hhung : Hung s) (h : buildStep s c = .ok s') (hmade : c.made = [])
    (hends : WellFounded (Function.swap (Points s'))) : Hung s' := by
  refine ⟨?_, hends⟩
  intro g hlt
  rw [length_step h, hmade, List.length_nil, Nat.add_zero] at hlt
  exact attached_step h (hhung.attached g hlt)

theorem hung_made (hhung : Hung s) (h : buildStep s c = .ok s') (hmade : c.made.length = 1) {item : Item}
    (hitem : c.item s = some item) (hhandle : item.handle? = some s.length) (hfree : Free s c.container c.place) :
    Hung s' := by
  have hcontainer := container_lt h
  constructor
  · intro g hlt
    rw [length_step h, hmade] at hlt
    rcases Nat.lt_or_eq_of_le (Nat.le_of_lt_succ hlt) with hold | rfl
    · exact attached_step h (hhung.attached g hold)
    · exact (attached_step h (hhung.attached _ hcontainer)).tail (points_new h hfree hitem hhandle)
  · refine wellFounded_edge (r := Points s) (a := c.container) (b := s.length) ?_ hhung.ends ?_
    · intro x y hpoints
      apply (points_step h hpoints).imp_right
      rintro ⟨hx, -, item', hitem', hy⟩
      rw [hitem, Option.some.injEq] at hitem'
      rw [← hitem', hhandle, Option.some.injEq] at hy
      exact ⟨hx, hy.symm⟩
    · -- nothing leads on from what is not there yet
      intro hreach
      rcases ReflTransGen.cases_head hreach with heq | ⟨x, hpoints, -⟩
      · exact Nat.lt_irrefl _ (heq ▸ hcontainer)
      · exact Nat.lt_irrefl _ (points_lt hpoints)

theorem not_hung_taken (hs : Valid s) (h : buildStep s c = .ok s') (hmade : c.made.length = 1)
    (htaken : ¬ Free s c.container c.place) : ¬ Attached s' s.length ∧ s.length < s'.length := by
  constructor
  · intro hattached
    rcases ReflTransGen.cases_tail hattached with heq | ⟨x, -, hpoints⟩
    · exact Nat.lt_irrefl _ (heq ▸ hs.root)
    · rcases points_step h hpoints with hold | ⟨-, htakes, -⟩
      · exact Nat.lt_irrefl _ (hs.target _ _ hold)
      · exact htaken (takes_free htakes)
  · rw [length_step h, hmade]
    exact Nat.lt_succ_self _

theorem points_add {h₀ : Handle} {place : Place} {value : Scalar} (h : buildStep s (.add h₀ place value) = .ok s')
    {x y : Handle} (hpoints : Points s' x y) : Points s x y := by
  rcases points_step h hpoints with hold | ⟨-, -, item, hitem, hy⟩
  · exact hold
  · cases hitem
    cases value <;> cases hy

theorem closed_cycle {h₀ g : Handle} {place : Place} (h : buildStep s (.addPointer h₀ place g) = .ok s')
    (htakes : Takes s h₀ place) (hreach : ReflTransGen (Points s) g h₀) : TransGen (Points s') h₀ h₀ := by
  obtain ⟨item, s1, hitem, -, -⟩ := buildStep_cases h
  obtain ⟨node, -, rfl⟩ := Option.map_eq_some_iff.mp hitem
  have hnew : Points s' h₀ g := points_new h (takes_free htakes) hitem (pointer_handle g node)
  exact TransGen.head' hnew (ReflTransGen.mono (fun _ _ => points_extends (buildStep_extends h)) _ _ hreach)

/-- A call keeps all containers in a text that ends exactly when it meets its condition. -/
theorem hung_step (hs : Valid s) (hhung : Hung s) (h : buildStep s c = .ok s') : KeepsHandles s c ↔ Hung s' := by
  cases c with
  | add g place value =>
    exact iff_of_true trivial (hung_same hhung h rfl (ends_of_old hhung.ends (fun _ _ => points_add h)))
  | addPointer h₀ place g =>
    have hedge : ∀ x y, Points s' x y → Points s x y ∨ (Takes s h₀ place ∧ x = h₀ ∧ y = g) := by
      intro x y hpoints
      apply (points_step h hpoints).imp_right
      rintro ⟨hx, htakes, item, hitem, hy⟩
      obtain ⟨node, -, rfl⟩ := Option.map_eq_some_iff.mp hitem
      rw [pointer_handle, Option.some.injEq] at hy
      exact ⟨htakes, hx, hy.symm⟩
    constructor
    · intro hkeeps
      apply hung_same hhung h rfl
      by_cases htakes : Takes s h₀ place
      · exact wellFounded_edge (fun x y hpoints => (hedge x y hpoints).imp_right And.right) hhung.ends (hkeeps htakes)
      · exact ends_of_old hhung.ends (fun x y hpoints => (hedge x y hpoints).resolve_right (fun hnew => htakes hnew.1))
    · intro hhung' htakes hreach
      exact not_acc_cycle (closed_cycle h htakes hreach) (hhung'.ends.apply h₀)
  | addObject g place =>
    constructor
    · exact fun hfree => hung_made hhung h rfl rfl rfl hfree
    · intro hhung'
      by_contra htaken
      obtain ⟨hnot, hlt⟩ := not_hung_taken hs h rfl htaken
      exact hnot (hhung'.attached _ hlt)
  | addArray g place =>
    constructor
    · exact fun hfree => hung_made hhung h rfl rfl rfl hfree
    · intro hhung'
      by_contra htaken
      obtain ⟨hnot, hlt⟩ := not_hung_taken hs h rfl htaken
      exact hnot (hhung'.attached _ hlt)

end

theorem valid_run {s : Heap} {calls : List BuilderCall} (h : exec buildStep emptyDocument calls = .ok s) : Valid s :=
  exec_keeps valid_step valid_empty h

end FcgiAppserver.Json
