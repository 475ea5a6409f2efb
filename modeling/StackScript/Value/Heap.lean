import StackScript.Value.Enumerator

/-!
# The heap

Lists and objects live in the heap and are reached through references. An object is one of the
language's own helpers, or belongs to the host; a host object has a type name and named slots.
-/

namespace StackScript

/-- An object of the heap. -/
inductive Object where
  | listEnumerator (enumerator : ListEnumerator)
  | range (range : Range)
  | rangeEnumerator (enumerator : RangeEnumerator)
  /-- An object of the host, with its slots in ascending order of their names. -/
  | foreign (typeName : String) (slots : List (String × Value))

instance : Inhabited Object := ⟨.foreign "" []⟩

/-- The name of the type of an object. -/
def Object.typeName : Object → String
  | listEnumerator _ => "ListEnumerator"
  | range _ => "Range"
  | rangeEnumerator _ => "RangeEnumerator"
  | foreign name _ => name

/-- Lists and objects, by the index of their references. -/
structure Heap where
  lists : Array (Array Value)
  objects : Array Object

namespace Heap

/-- The heap without lists and objects. -/
def empty : Heap := ⟨#[], #[]⟩

instance : Inhabited Heap := ⟨empty⟩

/-- The elements of a list. -/
def items (h : Heap) (r : ListRef) : Array Value :=
  h.lists[r.index]?.getD #[]

/-- A new list. -/
def newList (h : Heap) (items : Array Value) : Value × Heap :=
  (.list ⟨h.lists.size⟩, { h with lists := h.lists.push items })

/-- Changes the elements of a list. -/
def modifyList (h : Heap) (r : ListRef) (f : Array Value → Array Value) : Heap :=
  let ⟨lists, objects⟩ := h
  ⟨lists.modify r.index f, objects⟩

/-- The object behind a reference. -/
def object? (h : Heap) (r : ObjectRef) : Option Object :=
  h.objects[r.index]?

/-- A new object. -/
def newObject (h : Heap) (object : Object) : Value × Heap :=
  (.object ⟨h.objects.size⟩, { h with objects := h.objects.push object })

/-- Replaces the object behind a reference. -/
def setObject (h : Heap) (r : ObjectRef) (object : Object) : Heap :=
  { h with objects := h.objects.setIfInBounds r.index object }

/-- The name of the type of the object behind a reference. -/
def typeName (h : Heap) (r : ObjectRef) : String :=
  match h.object? r with
  | some object => object.typeName
  | none => "object"

end Heap

/-- Work on the heap that may fail. What was done before a failure stays done. -/
abbrev HeapAction := ExceptT Fault (StateM Heap)

end StackScript
