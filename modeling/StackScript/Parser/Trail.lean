import StackScript.Value.Operators

/-!
# The trail of the reader

Constant subexpressions are computed while the script is read, so that a failing one is reported at
its place. What decides whether an operator is computed is the *trail*: the literals that the code
written so far ends with. An operator whose operands are the last two entries of the trail replaces
them by its result. Where two paths of the code meet, nothing before may be touched, and the trail
begins anew.
-/

namespace StackScript

/-- The length of the code written so far, and the literals at its end, last first. -/
structure Trail where
  size : Nat
  literals : List Literal

/-- Something to tell about the reading of a script. -/
inductive Remark where
  /-- A constant subexpression was computed, on the given line. -/
  | computed (op : BinaryOp) (left right : Literal) (line : Nat)
  /-- A function was read. -/
  | entered (name : String) (arity address : Nat)

namespace Trail

/-- No code. -/
def empty : Trail := ⟨0, []⟩

/-- The trail after a literal. -/
def push (t : Trail) (l : Literal) : Trail := ⟨t.size + 1, l :: t.literals⟩

/-- The trail after instructions that are no literals. -/
def emit (t : Trail) (count : Nat) : Trail := ⟨t.size + count, []⟩

/-- The trail at a place to which jumps lead. -/
def join (t : Trail) : Trail := ⟨t.size, []⟩

end Trail

end StackScript
