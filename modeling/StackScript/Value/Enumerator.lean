import StackScript.Value.Basic

/-!
# Ranges and enumerators

A `for` loop walks its collection by an *enumerator*: each move says whether there is another element,
which then is the current one. Before the first move and after the last there is no current element.

An enumerator over a list keeps only a position. The list itself is shared and may change between two
moves, so its length or its elements are handed in at each step.
-/

namespace StackScript

/-- The integers from `start` up to but not including `stop`, or down to it if the step is
negative. -/
structure Range where
  start : Int32
  stop : Int32
  step : Int32
  deriving DecidableEq

namespace Range

/-- The range with these bounds. A step of zero would never end. -/
def make (start stop step : Int32) : Except Fault Range :=
  if step = 0 then .error (.hostFailure "Range step cannot be 0") else .ok ⟨start, stop, step⟩

/-- Whether an integer has not reached the end of the range yet. -/
def reaches (r : Range) (n : Int32) : Bool :=
  if 0 < r.step then n < r.stop else r.stop < n

/-- The integer one step further, if there is one. -/
def after? (r : Range) (n : Int32) : Option Int32 :=
  let next := n.toInt + r.step.toInt
  if Int32.minValue.toInt ≤ next ∧ next ≤ Int32.maxValue.toInt then some (n + r.step) else none

end Range

/-- Walks a range. -/
structure RangeEnumerator where
  range : Range
  /-- The integer that was reached last. -/
  reached : Option Int32
  done : Bool
  deriving DecidableEq

namespace RangeEnumerator

/-- Stands before the first integer of a range. -/
def start (range : Range) : RangeEnumerator := ⟨range, none, false⟩

/-- Goes on to the next integer. Once there is none, there will never be one again. -/
def moveNext (e : RangeEnumerator) : Bool × RangeEnumerator :=
  if e.done then (false, e)
  else
    let next := match e.reached with
      | none => some e.range.start
      | some n => e.range.after? n
    match next.filter e.range.reaches with
    | some n => (true, { e with reached := some n })
    | none => (false, { e with done := true })

/-- The current integer. -/
def current (e : RangeEnumerator) : Value :=
  match e.done, e.reached with
  | false, some n => .int n
  | _, _ => .null

end RangeEnumerator

/-- Walks a list. -/
structure ListEnumerator where
  items : ListRef
  /-- The index of the current element, and the length of the list when the end has been reached;
  there is none before the first move. -/
  index : Option Nat
  deriving DecidableEq

namespace ListEnumerator

/-- Stands before the first element of a list. -/
def start (items : ListRef) : ListEnumerator := ⟨items, none⟩

/-- Goes on to the next element of the list, which has the given length now. -/
def moveNext (length : Nat) (e : ListEnumerator) : Bool × ListEnumerator :=
  let next := match e.index with
    | none => 0
    | some i => i + 1
  (next < length, { e with index := some (min next length) })

/-- The current element of the list, which has the given elements now. -/
def current (items : Array Value) (e : ListEnumerator) : Value :=
  (e.index.bind (items[·]?)).getD .null

end ListEnumerator

end StackScript
