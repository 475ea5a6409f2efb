import StackScript.Text.Quoted
import StackScript.Value.Heap

/-!
# The text of values

Lists are written in brackets with their elements. A list may hold itself, directly or through
others; an occurrence of a list inside its own text is cut to `[...]`.
-/

namespace StackScript

/-- The text of a literal. -/
def Literal.display : Literal → String
  | null => "null"
  | bool b => if b then "true" else "false"
  | int n => toString n
  | float x => Decimal.render x
  | string s => s

/-- The text of a literal, with a text quoted and escaped. -/
def Literal.inspect : Literal → String
  | string s => Text.quoted s
  | l => l.display

namespace Heap

/-- The text of a value that stands in a list, where `opened` are the lists around it. Every list
entered is new among those around it, so no more than `depth` can be entered when that many are left;
texts are put between quotes as they are. -/
def displayItem (h : Heap) : (depth : Nat) → (opened : List ListRef) → Value → String
  | _, _, .literal (.string s) => "\"" ++ s ++ "\""
  | _, _, .literal l => l.display
  | _, _, .object r => "<" ++ h.typeName r ++ ">"
  | 0, _, .list _ => "[...]"
  | depth + 1, opened, .list r =>
    if r ∈ opened then "[...]"
    else
      "[" ++ String.intercalate ", " ((h.items r).toList.map (h.displayItem depth (r :: opened)))
        ++ "]"

/-- The text of a value. -/
def display (h : Heap) (v : Value) : String :=
  match v with
  | .literal l => l.display
  | v => h.displayItem (h.lists.size + 1) [] v

/-- The text of a value, with a text quoted and escaped. -/
def inspect (h : Heap) (v : Value) : String :=
  match v with
  | .literal l => l.inspect
  | v => h.display v

/-- The text of a row of values. -/
def inspectAll (h : Heap) (vs : List Value) : String :=
  "[" ++ String.intercalate ", " (vs.map h.inspect) ++ "]"

end Heap

end StackScript
