import StackScript.Ast

/-!
# Trees that scripts are written as

Not every tree is the tree of a script. The alternative of a conditional is a block or another
conditional, and no name is the one under which loops keep their enumerators.
-/

namespace StackScript

/-- The name under which a loop keeps its enumerator. -/
def enumeratorName : String := "$enumerator"

mutual

/-- All variables in a place have names that a script can write. -/
def Place.Written : Place → Prop
  | .variable name => name ≠ enumeratorName
  | .element target index => target.Written ∧ index.Written
  | .field receiver _ => receiver.Written
  | .staticField _ _ => True

/-- All variables in an expression have names that a script can write. -/
def Expr.Written : Expr → Prop
  | .literal _ _ => True
  | .read place _ => place.Written
  | .assign place value _ => place.Written ∧ value.Written
  | .update place _ value _ _ => place.Written ∧ value.Written
  | .negate operand _ _ => operand.Written
  | .not operand _ => operand.Written
  | .binary _ left right _ => left.Written ∧ right.Written
  | .connect _ left right _ => left.Written ∧ right.Written
  | .list items _ _ => writtenExprs items
  | .call _ args _ _ => writtenExprs args
  | .construct _ args _ _ => writtenExprs args
  | .callStatic _ _ args _ _ => writtenExprs args
  | .callMethod receiver _ args _ _ => receiver.Written ∧ writtenExprs args

/-- The same for every expression of a row. -/
def writtenExprs : List Expr → Prop
  | [] => True
  | e :: rest => e.Written ∧ writtenExprs rest

end

/-- What may stand behind `else`. -/
def Stmt.IsBranch : Stmt → Prop
  | .block _ _ | .ifThen _ _ _ _ | .ifElse _ _ _ _ _ _ => True
  | _ => False

mutual

/-- All names in a statement can be written, and its alternatives are branches. -/
def Stmt.Written : Stmt → Prop
  | .declare name value => name ≠ enumeratorName ∧ value.Written
  | .giveBack value _ => value.Written
  | .ifThen condition _ body _ => condition.Written ∧ writtenBody body
  | .ifElse condition _ body _ _ alternative =>
    condition.Written ∧ writtenBody body ∧ alternative.IsBranch ∧ alternative.Written
  | .whileLoop condition _ body _ => condition.Written ∧ writtenBody body
  | .forIn name items _ body _ => name ≠ enumeratorName ∧ items.Written ∧ writtenBody body
  | .breakLoop _ | .continueLoop _ => True
  | .block body _ => writtenBody body
  | .expression value _ => value.Written

/-- The same for every statement of a row. -/
def writtenBody : List Stmt → Prop
  | [] => True
  | s :: rest => s.Written ∧ writtenBody rest

end

/-- The name of a global and all names in its first value can be written. -/
def GlobalDecl.Written (g : GlobalDecl) : Prop :=
  g.name ≠ enumeratorName ∧ g.value.Written

/-- The names of the parameters and all names in the body can be written. -/
def FunctionDecl.Written (f : FunctionDecl) : Prop :=
  enumeratorName ∉ f.params ∧ writtenBody f.body

/-- A script all of whose declarations are written. -/
def Script.Written (s : Script) : Prop :=
  (∀ g ∈ s.globals, g.Written) ∧ ∀ f ∈ s.functions, f.Written

end StackScript
