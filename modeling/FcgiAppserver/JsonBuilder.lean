import FcgiAppserver.JsonWriter
import FcgiAppserver.MapEntries
import FcgiAppserver.TransitionRuns

namespace FcgiAppserver.Json

open ByteStrings TransitionRuns

/-- A pointer to a `JSONObject` or `JSONArray`, by the order of their allocation. -/
abbrev Handle := ℕ

inductive Item
  | object (h : Handle)
  | array (h : Handle)
  | string (str : Bytes)
  | integer (i : Int32)
deriving DecidableEq

inductive Node
  | object (items : Std.ExtTreeMap Bytes Item)
  | array (items : List Item)

abbrev Heap := List Node

inductive Scalar
  | string (str : Bytes)
  | integer (i : Int32)

def Scalar.item : Scalar → Item
  | .string str => .string str
  | .integer i => .integer i

/-- The key of a call on an object; calls on arrays add at the back. -/
inductive Place
  | key (k : Bytes)
  | back

inductive BuilderCall
  | add (h : Handle) (place : Place) (value : Scalar)
  -- `add` of a `JSONObject *` or a `JSONArray *`
  | addPointer (h : Handle) (place : Place) (g : Handle)
  | addObject (h : Handle) (place : Place)
  | addArray (h : Handle) (place : Place)

inductive Misuse
  | wrongHandle
deriving DecidableEq

/-- `m_items.insert` of objects, which keeps the item of a key it has, and `m_items.push_back` of arrays. -/
def insertItem (s : Heap) (h : Handle) (place : Place) (item : Item) : Except Misuse Heap :=
  match s[h]?, place with
  | some (.object items), .key k => .ok (s.set h (.object (items.insertIfNew k item)))
  | some (.array items), .back => .ok (s.set h (.array (items ++ [item])))
  | _, _ => .error .wrongHandle

def add (s : Heap) (h : Handle) (place : Place) (value : Scalar) : Except Misuse Heap :=
  insertItem s h place value.item

def Node.pointer (g : Handle) : Node → Item
  | .object _ => .object g
  | .array _ => .array g

def addPointer (s : Heap) (h : Handle) (place : Place) (g : Handle) : Except Misuse Heap :=
  match s[g]? with
  | some node => insertItem s h place (node.pointer g)
  | none => .error .wrongHandle

/-- The handle that a call on `s` returns is `s.length`. -/
def addObject (s : Heap) (h : Handle) (place : Place) : Except Misuse Heap :=
  (insertItem s h place (.object s.length)).map (· ++ [.object ∅])

def addArray (s : Heap) (h : Handle) (place : Place) : Except Misuse Heap :=
  (insertItem s h place (.array s.length)).map (· ++ [.array []])

def buildStep (s : Heap) : BuilderCall → Except Misuse Heap
  | .add h place value => add s h place value
  | .addPointer h place g => addPointer s h place g
  | .addObject h place => addObject s h place
  | .addArray h place => addArray s h place

def root : Handle := 0

def emptyDocument : Heap := [.object ∅]

def Node.items : Node → List Item
  | .object items => items.toList.map Prod.snd
  | .array items => items

def Item.value (sub : Handle → Option JSONValue) : Item → Option JSONValue
  | .object h => sub h
  | .array h => sub h
  | .string str => some (.string str)
  | .integer i => some (.integer i)

/-- The container with the values of its items in their order. -/
def Node.shape : Node → List JSONValue → JSONValue
  | .object items, values => .object ((items.toList.map Prod.fst).zip values)
  | .array _, values => .array values

def Node.value (sub : Handle → Option JSONValue) (node : Node) : Option JSONValue :=
  (node.items.mapM (Item.value sub)).map node.shape

/-- What `operator<<` finds when it follows the pointers from `h`, if they lead no deeper than `depth`. -/
def tree (s : Heap) : ℕ → Handle → Option JSONValue
  | 0, _ => none
  | depth + 1, h => s[h]?.bind (Node.value (tree s depth))

/-- `operator<<` of the container comes to its end. -/
def Prints (s : Heap) (h : Handle) (v : JSONValue) : Prop := ∃ depth, tree s depth h = some v

inductive Segment
  | key (k : Bytes)
  | index (i : ℕ)

def JSONValue.at? : JSONValue → List Segment → Option JSONValue
  | v, [] => some v
  | .object items, .key k :: path => (items.find? (fun e => e.1 = k)).bind (fun e => e.2.at? path)
  | .array items, .index i :: path => items[i]?.bind (fun v => v.at? path)
  | _, _ :: _ => none

/-- The root can be printed, and from now on it shows at one place whatever is added to the container of `h`, as long
as it can be printed. -/
def Alive (s : Heap) (h : Handle) : Prop :=
  (∃ v, Prints s root v) ∧ ∃ path, ∀ later s' v, exec buildStep s later = .ok s' → Prints s' root v →
    ∃ w, Prints s' h w ∧ v.at? path = some w

def Node.child : Node → Segment → Option Item
  | .object items, .key k => items[k]?
  | .array items, .index i => items[i]?
  | _, _ => none

def Item.handle? : Item → Option Handle
  | .object h => some h
  | .array h => some h
  | _ => none

def resolve (s : Heap) : Handle → List Segment → Option Handle
  | h, [] => some h
  | h, seg :: path => ((s[h]?.bind (fun node => node.child seg)).bind Item.handle?).bind (fun g => resolve s g path)

def Points (s : Heap) (h g : Handle) : Prop := ∃ node, s[h]? = some node ∧ ∃ item ∈ node.items, item.handle? = some g

def Free (s : Heap) (h : Handle) : Place → Prop
  | .key k => ∀ items, s[h]? = some (.object items) → k ∉ items
  | .back => True

def Takes (s : Heap) (h : Handle) : Place → Prop
  | .key k => ∃ items, s[h]? = some (.object items) ∧ k ∉ items
  | .back => ∃ items, s[h]? = some (.array items)

/-- A new container goes to a free place, and no pointer leads back to the container that takes it. -/
def KeepsHandles (s : Heap) : BuilderCall → Prop
  | .add _ _ _ => True
  | .addPointer h place g => Takes s h place → ¬ Relation.ReflTransGen (Points s) g h
  | .addObject h place => Free s h place
  | .addArray h place => Free s h place

def BuilderCall.container : BuilderCall → Handle
  | .add h _ _ => h
  | .addPointer h _ _ => h
  | .addObject h _ => h
  | .addArray h _ => h

def BuilderCall.place : BuilderCall → Place
  | .add _ place _ => place
  | .addPointer _ place _ => place
  | .addObject _ place => place
  | .addArray _ place => place

def BuilderCall.item (s : Heap) : BuilderCall → Option Item
  | .add _ _ value => some value.item
  | .addPointer _ _ g => s[g]?.map (Node.pointer g)
  | .addObject _ _ => some (.object s.length)
  | .addArray _ _ => some (.array s.length)

def BuilderCall.made : BuilderCall → List Node
  | .add _ _ _ => []
  | .addPointer _ _ _ => []
  | .addObject _ _ => [.object ∅]
  | .addArray _ _ => [.array []]

theorem map_append_ok {r : Except Misuse Heap} {made : List Node} {s' : Heap} (h : r.map (· ++ made) = .ok s') :
    ∃ s1, r = .ok s1 ∧ s' = s1 ++ made := by
  cases r with
  | error e => cases h
  | ok s1 =>
    cases h
    exact ⟨s1, rfl, rfl⟩

-- the kinds of calls as one: an item goes into a container, and perhaps a new container is made
theorem buildStep_cases {s s' : Heap} {c : BuilderCall} (h : buildStep s c = .ok s') :
    ∃ item s1, c.item s = some item ∧ insertItem s c.container c.place item = .ok s1 ∧ s' = s1 ++ c.made := by
  cases c with
  | add g place value => exact ⟨value.item, s', rfl, h, (List.append_nil s').symm⟩
  | addPointer g place g' =>
    rw [buildStep, addPointer] at h
    cases hnode : s[g']? with
    | none =>
      rw [hnode] at h
      cases h
    | some node =>
      rw [hnode] at h
      exact ⟨node.pointer g', s', by rw [BuilderCall.item, hnode]; rfl, h, (List.append_nil s').symm⟩
  | addObject g place =>
    obtain ⟨s1, hinsert, rfl⟩ := map_append_ok h
    exact ⟨_, s1, rfl, hinsert, rfl⟩
  | addArray g place =>
    obtain ⟨s1, hinsert, rfl⟩ := map_append_ok h
    exact ⟨_, s1, rfl, hinsert, rfl⟩

end FcgiAppserver.Json
