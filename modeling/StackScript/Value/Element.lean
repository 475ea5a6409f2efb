import StackScript.Value.Heap

/-!
# Elements

Lists and texts are indexed from zero by integers; the elements of a text are its characters. Only
lists can be stored into.
-/

namespace StackScript

/-- The position that an integer stands for in a row of the given length. -/
def position (index : Int32) (length : Nat) : Except Fault Nat :=
  if 0 ≤ index.toInt ∧ index.toInt < length then .ok index.toInt.toNat
  else .error (.indexOutOfRange index length)

/-- The position that a value stands for in a row of the given length. -/
def Value.position (index : Value) (length : Nat) : Except Fault Nat :=
  match index.asInt? with
  | some n => StackScript.position n length
  | none => .error (.typeMismatch "int index" index.typeName)

namespace Heap

/-- The element of a list or text at an index. -/
def element (h : Heap) (target index : Value) : Except Fault Value :=
  match target with
  | .list r => do
    let items := h.items r
    let i ← index.position items.size
    return items[i]?.getD .null
  | .string s => do
    let i ← index.position s.length
    return (s.toList[i]?.map fun c => Value.string c.toString).getD .null
  | target => .error (.typeMismatch "list or string" target.typeName)

/-- Stores an element into a list. -/
def setElement (target index value : Value) : HeapAction Unit := do
  match target with
  | .list r =>
    let i ← index.position ((← get).items r).size
    modify (·.modifyList r (·.setIfInBounds i value))
  | target => throw (.typeMismatch "list" target.typeName)

end Heap

end StackScript
