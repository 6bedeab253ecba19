import FcgiAppserver.JsonPointers
import FcgiAppserver.OwnedTrees

namespace FcgiAppserver.Json

open ByteStrings TransitionRuns MapEntries OwnedTrees Relation

/-- A container, or the buffer of the string at an index of a container. -/
inductive Block
  | container (h : Handle)
  | string (h : Handle) (index : ℕ)
deriving DecidableEq

def Item.delete (sub : Handle → List Block) (h : Handle) (index : ℕ) : Item → List Block
  | .object g => sub g
  | .array g => sub g
  | .string _ => [.string h index]
  | .integer _ => []

/-- The blocks that `delete` of a container gives back, in their order: `~JSONObject` and `~JSONArray` treat each item alike. -/
def deleteContainer (s : Heap) : ℕ → Handle → List Block
  | 0, _ => []
  | depth + 1, h =>
    match s[h]? with
    | some node => node.items.zipIdx.flatMap (fun e => e.1.delete (deleteContainer s depth) h e.2) ++ [.container h]
    | none => []

def deletes (s : Heap) (h : Handle) : List Block := deleteContainer s s.length h

def Item.block? (h : Handle) (index : ℕ) : Item → Option Block
  | .object g => some (.container g)
  | .array g => some (.container g)
  | .string _ => some (.string h index)
  | .integer _ => none

def Item.allocated : Item → Bool
  | .integer _ => false
  | _ => true

def Node.owned (h : Handle) (node : Node) : List Block := node.items.zipIdx.filterMap (fun e => e.1.block? h e.2)

def owned (s : Heap) : Block → List Block
  | .container h => s[h]?.elim [] (Node.owned h)
  | .string _ _ => []

def height (s : Heap) : Block → ℕ
  | .container h => s.length - h
  | .string _ _ => 0

/-- Strings and containers are made with `new`, integers are not. -/
def BuilderCall.allocates : BuilderCall → Bool
  | .add _ _ (.integer _) => false
  | .addPointer _ _ _ => false
  | _ => true

def PlaceFree (s : Heap) (c : BuilderCall) : Prop := c.allocates = true → Free s c.container c.place

/-- A call that adds what it makes itself. -/
def BuilderCall.Own : BuilderCall → Prop
  | .addPointer _ _ _ => False
  | _ => True

/-- Containers point to containers that were made after them. -/
def Ordered (s : Heap) : Prop := ∀ h g : ℕ, Points s h g → h < g ∧ g < s.length

theorem item_allocated {s : Heap} {c : BuilderCall} {item : Item} (hown : c.Own) (hitem : c.item s = some item) :
    item.allocated = c.allocates := by
  cases c with
  | add h place value =>
    cases hitem
    cases value <;> rfl
  | addPointer h place g => exact absurd hown id
  | addObject h place =>
    cases hitem
    rfl
  | addArray h place =>
    cases hitem
    rfl

theorem own_handle {s : Heap} {c : BuilderCall} {item : Item} {g : Handle} (hown : c.Own) (hitem : c.item s = some item)
    (hg : item.handle? = some g) : g = s.length ∧ c.made.length = 1 := by
  cases c with
  | add h place value =>
    cases hitem
    cases value <;> cases hg
  | addPointer h place g => exact absurd hown id
  | addObject h place =>
    cases hitem
    cases hg
    exact ⟨rfl, rfl⟩
  | addArray h place =>
    cases hitem
    cases hg
    exact ⟨rfl, rfl⟩

theorem ordered_empty : Ordered emptyDocument := by
  intro h g hpoints
  have hroot := valid_empty.target h g hpoints
  have hempty : ¬ Points emptyDocument root g := by
    rintro ⟨node, hnode, item, hitem, -⟩
    cases hnode
    rw [Node.items, Std.ExtTreeMap.toList_eq_nil_iff.mpr rfl] at hitem
    exact List.not_mem_nil hitem
  obtain rfl : h = root := Nat.lt_one_iff.mp (points_lt hpoints)
  exact absurd hpoints hempty

theorem ordered_step {s s' : Heap} {c : BuilderCall} (hown : c.Own) (hs : Ordered s) (h : buildStep s c = .ok s') :
    Ordered s' := by
  intro x y hpoints
  have hlength := length_step h
  rcases points_step h hpoints with hold | ⟨rfl, -, item, hitem, hy⟩
  · obtain ⟨hlt, hvalid⟩ := hs x y hold
    exact ⟨hlt, hlength ▸ Nat.lt_add_right _ hvalid⟩
  · obtain ⟨rfl, hmade⟩ := own_handle hown hitem hy
    refine ⟨container_lt h, ?_⟩
    rw [hlength, hmade]
    exact Nat.lt_succ_self _

theorem mem_owned {s : Heap} {h : Handle} {b : Block} :
    b ∈ owned s (.container h) ↔
      ∃ (node : Node) (index : ℕ) (item : Item),
        s[h]? = some node ∧ node.items[index]? = some item ∧ item.block? h index = some b := by
  rw [owned]
  cases hnode : s[h]? with
  | none => simp
  | some node =>
    rw [Option.elim_some, Node.owned, List.mem_filterMap]
    constructor
    · rintro ⟨⟨item, index⟩, hmem, hblock⟩
      exact ⟨node, index, item, rfl, List.mk_mem_zipIdx_iff_getElem?.mp hmem, hblock⟩
    · rintro ⟨node', index, item, heq, hitem, hblock⟩
      obtain rfl := Option.some.inj heq
      exact ⟨(item, index), List.mk_mem_zipIdx_iff_getElem?.mpr hitem, hblock⟩

theorem block?_container {h g : Handle} {index : ℕ} {item : Item} :
    item.block? h index = some (.container g) ↔ item.handle? = some g := by
  cases item <;> simp [Item.block?, Item.handle?]

theorem block?_string {h h' : Handle} {index index' : ℕ} {item : Item}
    (hblock : item.block? h index = some (.string h' index')) : h' = h ∧ index' = index := by
  cases item with
  | object g => cases hblock
  | array g => cases hblock
  | string str =>
    cases hblock
    exact ⟨rfl, rfl⟩
  | integer i => cases hblock

/-- No container is the item of two places. -/
def UniqueOwners (s : Heap) : Prop := ((s.flatMap Node.items).filterMap Item.handle?).Nodup

theorem UniqueOwners.owner {s : Heap} (hs : UniqueOwners s) {h h' g : Handle} {node node' : Node} {item item' : Item}
    (hnode : s[h]? = some node) (hnode' : s[h']? = some node') (hitem : item ∈ node.items)
    (hitem' : item' ∈ node'.items) (hg : item.handle? = some g) (hg' : item'.handle? = some g) : h = h' := by
  rw [UniqueOwners, List.filterMap_flatMap, List.nodup_flatMap] at hs
  obtain ⟨hlt, hget⟩ := List.getElem?_eq_some_iff.mp hnode
  obtain ⟨hlt', hget'⟩ := List.getElem?_eq_some_iff.mp hnode'
  have hpairs := List.pairwise_iff_getElem.mp hs.2
  have hin : g ∈ node.items.filterMap Item.handle? := List.mem_filterMap.mpr ⟨item, hitem, hg⟩
  have hin' : g ∈ node'.items.filterMap Item.handle? := List.mem_filterMap.mpr ⟨item', hitem', hg'⟩
  rcases Nat.lt_trichotomy h h' with hless | heq | hless
  · have hdisjoint := hpairs h h' hlt hlt' hless
    rw [Function.onFun, hget, hget'] at hdisjoint
    exact absurd hin' (hdisjoint hin)
  · exact heq
  · have hdisjoint := hpairs h' h hlt' hlt hless
    rw [Function.onFun, hget, hget'] at hdisjoint
    exact absurd hin (hdisjoint hin')

theorem UniqueOwners.place {s : Heap} (hs : UniqueOwners s) {h g : Handle} {node : Node} (hnode : s[h]? = some node)
    {i j : ℕ} {item item' : Item} (hi : node.items[i]? = some item) (hj : node.items[j]? = some item')
    (hg : item.handle? = some g) (hg' : item'.handle? = some g) : i = j := by
  rw [UniqueOwners, List.filterMap_flatMap, List.nodup_flatMap] at hs
  have hdistinct := hs.1 node (List.mem_of_getElem? hnode)
  rw [List.Nodup, List.pairwise_filterMap] at hdistinct
  have hpairs := List.pairwise_iff_getElem.mp hdistinct
  obtain ⟨hlt, rfl⟩ := List.getElem?_eq_some_iff.mp hi
  obtain ⟨hlt', rfl⟩ := List.getElem?_eq_some_iff.mp hj
  rcases Nat.lt_trichotomy i j with hless | heq | hless
  · exact absurd rfl (hpairs i j hlt hlt' hless g hg g hg')
  · exact heq
  · exact absurd rfl (hpairs j i hlt' hlt hless g hg' g hg)

theorem owned_blocks {s : Heap} (hs : Ordered s) (hunique : UniqueOwners s) : Owned (owned s) (height s) where
  lower := by
    intro parent child hchild
    cases parent with
    | string h i => cases hchild
    | container h =>
      obtain ⟨node, index, item, hnode, hitem, hblock⟩ := mem_owned.mp hchild
      have hlt := (List.getElem?_eq_some_iff.mp hnode).1
      cases child with
      | string h' i => exact Nat.sub_pos_of_lt hlt
      | container g =>
        obtain ⟨hgt, -⟩ := hs h g ⟨node, hnode, item, List.mem_of_getElem? hitem, block?_container.mp hblock⟩
        exact Nat.sub_lt_sub_left hlt hgt
  owner := by
    intro parent parent' child hchild hchild'
    cases parent with
    | string h i => cases hchild
    | container h =>
      cases parent' with
      | string h' i => cases hchild'
      | container h' =>
        obtain ⟨node, index, item, hnode, hitem, hblock⟩ := mem_owned.mp hchild
        obtain ⟨node', index', item', hnode', hitem', hblock'⟩ := mem_owned.mp hchild'
        cases child with
        | string g i => rw [← (block?_string hblock).1, ← (block?_string hblock').1]
        | container g =>
          rw [hunique.owner hnode hnode' (List.mem_of_getElem? hitem) (List.mem_of_getElem? hitem')
            (block?_container.mp hblock) (block?_container.mp hblock')]
  distinct := by
    intro parent
    cases parent with
    | string h i => exact List.nodup_nil
    | container h =>
      rw [owned]
      cases hnode : s[h]? with
      | none => exact List.nodup_nil
      | some node =>
        rw [Option.elim_some, Node.owned, List.Nodup, List.pairwise_filterMap, List.pairwise_iff_getElem]
        intro i j hi hj hless b hb b' hb' heq
        rw [List.getElem_zipIdx] at hb hb'
        subst heq
        rw [List.length_zipIdx] at hi hj
        cases b with
        | string g index =>
          have hindex := (block?_string hb).2
          have hindex' := (block?_string hb').2
          omega
        | container g =>
          have hsame := hunique.place hnode (List.getElem?_eq_getElem hi) (List.getElem?_eq_getElem hj)
            (block?_container.mp hb) (block?_container.mp hb')
          exact Nat.ne_of_lt hless hsame

-- what the walk needs in depth is there, as the handles go up
theorem deleteContainer_eq {s : Heap} (hs : Ordered s) {depth : ℕ} {h : Handle} (hlt : h < s.length)
    (hdepth : s.length ≤ depth + h) : deleteContainer s depth h = postorder (owned s) (depth + 1) (.container h) := by
  induction depth generalizing h with
  | zero => exact absurd hlt (Nat.not_lt.mpr (hdepth.trans_eq (Nat.zero_add h)))
  | succ depth ih =>
    rw [deleteContainer, postorder, owned, List.getElem?_eq_getElem hlt, Option.elim_some, Node.owned,
      List.filterMap_eq_flatMap_toList, List.flatMap_assoc]
    apply congrArg (· ++ [Block.container h])
    apply List.flatMap_congr
    rintro ⟨item, index⟩ hmem
    have hitem := List.mem_of_getElem? (List.mk_mem_zipIdx_iff_getElem?.mp hmem)
    have hsub : ∀ g, item.handle? = some g →
        deleteContainer s depth g = postorder (owned s) (depth + 1) (.container g) := by
      intro g hg
      obtain ⟨hgt, hvalid⟩ := hs h g ⟨s[h], List.getElem?_eq_getElem hlt, item, hitem, hg⟩
      exact ih hvalid (by omega)
    cases item with
    | object g => exact (hsub g rfl).trans (List.append_nil _).symm
    | array g => exact (hsub g rfl).trans (List.append_nil _).symm
    | string str => rfl
    | integer i => rfl

theorem deletes_eq {s : Heap} (hs : Ordered s) {h : Handle} (hlt : h < s.length) :
    deletes s h = postorder (owned s) (s.length + 1) (.container h) :=
  deleteContainer_eq hs hlt (Nat.le_add_right _ _)

theorem mem_deletes {s : Heap} (hs : Ordered s) (hunique : UniqueOwners s) {h : Handle} (hlt : h < s.length) {b : Block} :
    b ∈ deletes s h ↔ Below (owned s) (.container h) b := by
  rw [deletes_eq hs hlt]
  apply (owned_blocks hs hunique).mem_postorder
  exact Nat.lt_succ_of_le (Nat.sub_le _ _)

theorem below_iff_resolve {s : Heap} {h g : Handle} :
    Below (owned s) (.container h) (.container g) ↔ ∃ path, resolve s h path = some g := by
  constructor
  · generalize hb : Block.container h = b
    intro hbelow
    induction hbelow using ReflTransGen.head_induction_on generalizing h with
    | refl =>
      cases hb
      exact ⟨[], rfl⟩
    | head hchild hrest ih =>
      subst hb
      rename_i c
      cases c with
      | string h' i =>
        rcases ReflTransGen.cases_head hrest with heq | ⟨d, hd, -⟩
        · cases heq
        · cases hd
      | container h' =>
        obtain ⟨path, hpath⟩ := ih rfl
        obtain ⟨node, index, item, hnode, hitem, hblock⟩ := mem_owned.mp hchild
        obtain ⟨seg, hseg⟩ := mem_items_child (List.mem_of_getElem? hitem)
        exact ⟨seg :: path, resolve_cons.mpr ⟨node, item, h', hnode, hseg, block?_container.mp hblock, hpath⟩⟩
  · rintro ⟨path, hpath⟩
    induction path generalizing h with
    | nil =>
      cases hpath
      exact ReflTransGen.refl
    | cons seg path ih =>
      obtain ⟨node, item, h', hnode, hseg, hhandle, hrest⟩ := resolve_cons.mp hpath
      obtain ⟨index, hindex⟩ := List.mem_iff_getElem?.mp (child_mem_items hseg)
      apply ReflTransGen.head _ (ih hrest)
      exact mem_owned.mpr ⟨node, index, item, hnode, hindex, block?_container.mpr hhandle⟩

theorem flatMap_set {s : Heap} {h : Handle} {node node' : Node} {item : Item} (hnode : s[h]? = some node)
    (hitems : node'.items.Perm (item :: node.items)) :
    ((s.set h node').flatMap Node.items).Perm (item :: s.flatMap Node.items) := by
  induction s generalizing h with
  | nil => cases hnode
  | cons first rest ih =>
    cases h with
    | zero =>
      cases hnode
      rw [List.set_cons_zero, List.flatMap_cons, List.flatMap_cons]
      exact hitems.append_right _
    | succ h =>
      rw [List.set_cons_succ, List.flatMap_cons, List.flatMap_cons]
      exact ((ih hnode).append_left _).trans List.perm_middle

theorem insertItem_free {s s1 : Heap} {h : Handle} {place : Place} {item : Item}
    (hinsert : insertItem s h place item = .ok s1) (hfree : Free s h place) :
    (s1.flatMap Node.items).Perm (item :: s.flatMap Node.items) := by
  unfold insertItem at hinsert
  split at hinsert
  · rename_i items k hnode
    cases hinsert
    apply flatMap_set hnode
    exact (toList_insertIfNew item (hfree items hnode)).map Prod.snd
  · rename_i items hnode
    cases hinsert
    apply flatMap_set hnode
    exact List.perm_append_singleton item items
  · cases hinsert

theorem buildStep_all {s s' : Heap} {c : BuilderCall} (h : buildStep s c = .ok s') : ∃ item, c.item s = some item ∧
    ((Free s c.container c.place ∧ (s'.flatMap Node.items).Perm (item :: s.flatMap Node.items)) ∨
      (¬ Free s c.container c.place ∧ s'.flatMap Node.items = s.flatMap Node.items)) := by
  obtain ⟨item, s1, hitem, hinsert, rfl⟩ := buildStep_cases h
  have hmade : (s1 ++ c.made).flatMap Node.items = s1.flatMap Node.items := by
    have hnone : c.made.flatMap Node.items = [] := List.flatMap_eq_nil_iff.mpr (fun node hnode => made_items hnode)
    rw [List.flatMap_append, hnone, List.append_nil]
  refine ⟨item, hitem, ?_⟩
  rw [hmade]
  by_cases hfree : Free s c.container c.place
  · exact Or.inl ⟨hfree, insertItem_free hinsert hfree⟩
  · obtain rfl := insertItem_taken hinsert hfree
    exact Or.inr ⟨hfree, rfl⟩

theorem uniqueOwners_empty : UniqueOwners emptyDocument := by
  rw [UniqueOwners, emptyDocument, List.flatMap_singleton, Node.items, Std.ExtTreeMap.toList_eq_nil_iff.mpr rfl]
  exact List.nodup_nil

theorem uniqueOwners_step {s s' : Heap} {c : BuilderCall} (hown : c.Own) (hs : Ordered s) (hunique : UniqueOwners s)
    (h : buildStep s c = .ok s') : UniqueOwners s' := by
  rw [UniqueOwners]
  obtain ⟨item, hitem, ⟨-, hperm⟩ | ⟨-, hsame⟩⟩ := buildStep_all h
  · rw [(hperm.filterMap Item.handle?).nodup_iff, List.filterMap_cons]
    cases hhandle : item.handle? with
    | none => exact hunique
    | some g =>
      obtain ⟨rfl, -⟩ := own_handle hown hitem hhandle
      apply List.nodup_cons.mpr ⟨?_, hunique⟩
      intro hin
      obtain ⟨other, hother, hg⟩ := List.mem_filterMap.mp hin
      obtain ⟨node, hnode, hmem⟩ := List.mem_flatMap.mp hother
      obtain ⟨i, hi⟩ := List.mem_iff_getElem?.mp hnode
      exact absurd (hs i _ ⟨node, hi, other, hmem, hg⟩).2 (Nat.lt_irrefl _)
  · rw [hsame]
    exact hunique

/-- How many items point to a block of their own. -/
def stored (s : Heap) : ℕ := (s.flatMap Node.items).countP Item.allocated

theorem stored_step {s s' : Heap} {c : BuilderCall} (hown : c.Own) (h : buildStep s c = .ok s') :
    stored s' ≤ stored s + [c].countP BuilderCall.allocates ∧
      (stored s' = stored s + [c].countP BuilderCall.allocates ↔ PlaceFree s c) := by
  rw [List.countP_singleton, PlaceFree, stored, stored]
  obtain ⟨item, hitem, ⟨hfree, hperm⟩ | ⟨htaken, hsame⟩⟩ := buildStep_all h
  · rw [hperm.countP_eq, List.countP_cons, item_allocated hown hitem]
    exact ⟨le_refl _, iff_of_true rfl (fun _ => hfree)⟩
  · rw [hsame]
    cases c.allocates <;> simp [htaken]

theorem stored_run {s s' : Heap} {calls : List BuilderCall} (hown : ∀ c ∈ calls, c.Own)
    (h : exec buildStep s calls = .ok s') :
    stored s' ≤ stored s + calls.countP BuilderCall.allocates ∧
      (stored s' = stored s + calls.countP BuilderCall.allocates ↔ Along buildStep PlaceFree s calls) := by
  induction calls generalizing s with
  | nil =>
    cases h
    exact ⟨le_refl _, iff_of_true rfl trivial⟩
  | cons c calls ih =>
    rw [List.forall_mem_cons] at hown
    obtain ⟨s1, hs1, hrest⟩ := exec_cons_ok.mp h
    obtain ⟨hle, hiff⟩ := stored_step hown.1 hs1
    obtain ⟨hle', hiff'⟩ := ih hown.2 hrest
    have hcount : (c :: calls).countP BuilderCall.allocates =
        [c].countP BuilderCall.allocates + calls.countP BuilderCall.allocates := by
      rw [← List.countP_append, List.singleton_append]
    have halong : Along buildStep PlaceFree s (c :: calls) ↔ PlaceFree s c ∧ Along buildStep PlaceFree s1 calls := by
      rw [along_cons, hs1]
      constructor
      · rintro ⟨hfree, hafter⟩
        exact ⟨hfree, hafter s1 rfl⟩
      · rintro ⟨hfree, hafter⟩
        refine ⟨hfree, ?_⟩
        intro s2 hs2
        cases hs2
        exact hafter
    rw [hcount, halong, ← hiff, ← hiff']
    constructor
    · omega
    · omega

def pointed (s : Heap) : List Block := s.zipIdx.flatMap (fun e => e.1.owned e.2)

theorem mem_pointed {s : Heap} {b : Block} : b ∈ pointed s ↔ ∃ h, b ∈ owned s (.container h) := by
  rw [pointed, List.mem_flatMap]
  constructor
  · rintro ⟨⟨node, h⟩, hmem, hb⟩
    refine ⟨h, ?_⟩
    rw [owned, List.mk_mem_zipIdx_iff_getElem?.mp hmem]
    exact hb
  · rintro ⟨h, hb⟩
    rw [owned] at hb
    cases hnode : s[h]? with
    | none =>
      rw [hnode] at hb
      cases hb
    | some node =>
      rw [hnode] at hb
      exact ⟨(node, h), List.mk_mem_zipIdx_iff_getElem?.mpr hnode, hb⟩

theorem length_pointed (s : Heap) : (pointed s).length = stored s := by
  have hnode : ∀ (h : Handle) (node : Node), (node.owned h).length = node.items.countP Item.allocated := by
    intro h node
    have hblock : ∀ e : Item × ℕ, (e.1.block? h e.2).isSome = e.1.allocated := by
      rintro ⟨item, index⟩
      cases item <;> rfl
    rw [Node.owned, List.length_filterMap_eq_countP]
    simp only [hblock]
    rw [← List.zipIdx_map_fst 0 node.items, List.countP_map, List.zipIdx_map_fst]
    rfl
  rw [pointed, stored, List.length_flatMap, List.countP_flatMap]
  simp only [hnode]
  rw [← List.zipIdx_map_fst 0 s, List.map_map, List.zipIdx_map_fst]
  rfl

theorem pointed_nodup {s : Heap} (hs : Ordered s) (hunique : UniqueOwners s) : (pointed s).Nodup := by
  have hblocks := owned_blocks hs hunique
  have howned : ∀ e ∈ s.zipIdx, owned s (.container e.2) = e.1.owned e.2 := by
    rintro ⟨node, h⟩ hmem
    rw [owned, List.mk_mem_zipIdx_iff_getElem?.mp hmem]
    rfl
  rw [pointed, List.nodup_flatMap]
  constructor
  · intro e he
    rw [← howned e he]
    exact hblocks.distinct _
  · have hindices : s.zipIdx.Pairwise (fun e e' => e.2 ≠ e'.2) := by
      rw [List.pairwise_iff_getElem]
      intro i j hi hj hless
      rw [List.getElem_zipIdx, List.getElem_zipIdx]
      omega
    apply hindices.imp_of_mem
    intro e e' he he' hne b hb hb'
    have hin : b ∈ owned s (.container e.2) := (howned e he).symm ▸ hb
    have hin' : b ∈ owned s (.container e'.2) := (howned e' he').symm ▸ hb'
    exact hne (Block.container.inj (hblocks.owner _ _ b hin hin'))

theorem keeps_of_placeFree {s : Heap} {c : BuilderCall} (hown : c.Own) (h : PlaceFree s c) : KeepsHandles s c := by
  cases c with
  | add g place value => trivial
  | addPointer g place g' => exact absurd hown id
  | addObject g place => exact h rfl
  | addArray g place => exact h rfl

theorem deletes_nodup {s : Heap} (hs : Ordered s) (hunique : UniqueOwners s) {h : Handle} (hlt : h < s.length) :
    (deletes s h).Nodup := by
  rw [deletes_eq hs hlt]
  apply (owned_blocks hs hunique).postorder_nodup
  exact Nat.lt_succ_of_le (Nat.sub_le _ _)

theorem deletes_subset {s : Heap} (hs : Ordered s) (hunique : UniqueOwners s) {h : Handle} (hlt : h < s.length) :
    deletes s h ⊆ .container h :: pointed s := by
  intro b hb
  rcases ReflTransGen.cases_tail ((mem_deletes hs hunique hlt).mp hb) with heq | ⟨parent, -, hchild⟩
  · exact heq ▸ List.mem_cons_self
  · cases parent with
    | string h' i => cases hchild
    | container h' => exact List.mem_cons_of_mem _ (mem_pointed.mpr ⟨h', hchild⟩)

theorem length_deletes_le {s : Heap} (hs : Ordered s) (hunique : UniqueOwners s) {h : Handle} (hlt : h < s.length) :
    (deletes s h).length ≤ 1 + stored s := by
  have hle := ((deletes_nodup hs hunique hlt).subperm (deletes_subset hs hunique hlt)).length_le
  rw [List.length_cons, length_pointed] at hle
  omega

theorem length_deletes_root {s : Heap} (hs : Ordered s) (hunique : UniqueOwners s) (hlt : root < s.length)
    (hattached : ∀ g < s.length, Attached s g) : (deletes s root).length = 1 + stored s := by
  have hroot : Block.container root ∉ pointed s := by
    intro hin
    obtain ⟨h, hchild⟩ := mem_pointed.mp hin
    have hlow := (owned_blocks hs hunique).lower _ _ hchild
    exact Nat.not_lt.mpr (Nat.sub_le_sub_left (Nat.zero_le h) _) hlow
  have hall : (.container root :: pointed s) ⊆ deletes s root := by
    intro b hb
    apply (mem_deletes hs hunique hlt).mpr
    rcases List.mem_cons.mp hb with rfl | hin
    · exact ReflTransGen.refl
    · obtain ⟨h, hchild⟩ := mem_pointed.mp hin
      obtain ⟨node, index, item, hnode, -⟩ := mem_owned.mp hchild
      have hpath := reaches_iff_resolve.mp (hattached h (List.getElem?_eq_some_iff.mp hnode).1)
      exact (below_iff_resolve.mpr hpath).tail hchild
  have hle := ((List.nodup_cons.mpr ⟨hroot, pointed_nodup hs hunique⟩).subperm hall).length_le
  rw [List.length_cons, length_pointed] at hle
  have hge := length_deletes_le hs hunique hlt
  omega

structure Built (s : Heap) : Prop where
  ordered : Ordered s
  unique : UniqueOwners s
  root : root < s.length

theorem built_run {s : Heap} {calls : List BuilderCall} (hown : ∀ c ∈ calls, c.Own)
    (h : exec buildStep emptyDocument calls = .ok s) : Built s := by
  have halong : Along buildStep (fun _ c => c.Own) emptyDocument calls :=
    (along_true _ _).imp_of_mem (fun c hc _ _ => hown c hc)
  apply exec_invariant (I := Built) _ ⟨ordered_empty, uniqueOwners_empty, Nat.one_pos⟩ halong h
  rintro s c s' ⟨hs, hunique, hroot⟩ hc hstep
  exact ⟨ordered_step hc hs hstep, uniqueOwners_step hc hs hunique hstep,
    hroot.trans_le (length_le_of_extends (buildStep_extends hstep))⟩

theorem hung_run {s : Heap} {calls : List BuilderCall} (halong : Along buildStep KeepsHandles emptyDocument calls)
    (h : exec buildStep emptyDocument calls = .ok s) : Hung s := by
  have hstep : ∀ s c s', Valid s ∧ Hung s → KeepsHandles s c → buildStep s c = .ok s' → Valid s' ∧ Hung s' := by
    rintro s c s' ⟨hs, hhung⟩ hkeeps hstep
    exact ⟨valid_step s c s' hs hstep, (hung_step hs hhung hstep).mp hkeeps⟩
  exact (exec_invariant hstep ⟨valid_empty, hung_empty⟩ halong h).2

/-- Deleting the root gives no block back twice or after its owner, and all of them if and only if no string and no
container was added under a key its object had. -/
theorem deletes_all_iff (calls : List BuilderCall) (hown : ∀ c ∈ calls, c.Own) (s : Heap)
    (h : exec buildStep emptyDocument calls = .ok s) :
    (deletes s root).Pairwise (fun before after => before ≠ after ∧ after ∉ owned s before) ∧
      (∀ g, .container g ∈ deletes s root ↔ ∃ path, resolve s root path = some g) ∧
      (deletes s root).length ≤ 1 + calls.countP BuilderCall.allocates ∧
      ((deletes s root).length = 1 + calls.countP BuilderCall.allocates ↔
        Along buildStep PlaceFree emptyDocument calls) := by
  obtain ⟨hs, hunique, hroot⟩ := built_run hown h
  obtain ⟨hstored, hiff⟩ := stored_run hown h
  have hnone : stored emptyDocument = 0 := by
    rw [stored, emptyDocument, List.flatMap_singleton, Node.items, Std.ExtTreeMap.toList_eq_nil_iff.mpr rfl]
    rfl
  rw [hnone, Nat.zero_add] at hstored hiff
  have hle := length_deletes_le hs hunique hroot
  refine ⟨?_, ?_, by omega, ?_⟩
  · rw [deletes_eq hs hroot]
    apply (owned_blocks hs hunique).postorder_ordered
    exact Nat.lt_succ_of_le (Nat.sub_le _ _)
  · intro g
    rw [mem_deletes hs hunique hroot]
    exact below_iff_resolve
  · rw [← hiff]
    constructor
    · omega
    · intro hall
      have hkeeps : Along buildStep KeepsHandles emptyDocument calls :=
        (hiff.mp hall).imp_of_mem (fun c hc s hfree => keeps_of_placeFree (hown c hc) hfree)
      rw [length_deletes_root hs hunique hroot (hung_run hkeeps h).attached, hall]

theorem deletes_leaks_repeated : ∃ s,
    exec buildStep emptyDocument [.addObject root (.key (ascii "a")), .add 1 (.key (ascii "b")) (.string (ascii "x")),
      .addObject root (.key (ascii "a"))] = .ok s ∧
      deletes s root = [.string 1 0, .container 1, .container 0] ∧
      ¬ Along buildStep PlaceFree emptyDocument [.addObject root (.key (ascii "a")),
        .add 1 (.key (ascii "b")) (.string (ascii "x")), .addObject root (.key (ascii "a"))] := by
  have hrun : exec buildStep emptyDocument [.addObject root (.key (ascii "a")),
    .add 1 (.key (ascii "b")) (.string (ascii "x")), .addObject root (.key (ascii "a"))] = .ok _ := rfl
  have hown : ∀ c ∈ [BuilderCall.addObject root (.key (ascii "a")), .add 1 (.key (ascii "b")) (.string (ascii "x")),
      .addObject root (.key (ascii "a"))], c.Own := by
    simp only [List.forall_mem_cons]
    exact ⟨trivial, trivial, trivial, List.forall_mem_nil _⟩
  obtain ⟨-, -, -, hiff⟩ := deletes_all_iff _ hown _ hrun
  refine ⟨_, hrun, by decide +kernel, ?_⟩
  intro halong
  exact absurd (hiff.mpr halong) (by decide +kernel)

-- a container that was put into the root a second time is deleted a second time
example : (exec buildStep emptyDocument [.addObject root (.key (ascii "a")), .addPointer root (.key (ascii "b")) 1]).map
    (fun s => deletes s root) = .ok [.container 1, .container 1, .container 0] := by decide +kernel

end FcgiAppserver.Json
