import StackScript.Value.Operators

/-!
# Syntax trees

The tree of a script after reading. Nodes carry the source lines that their instructions are reported
under; parentheses leave no trace.
-/

namespace StackScript

/-- The two operators that may skip their second operand. -/
inductive Connective where
  | and | or
  deriving DecidableEq

/-- The operators of two operands. -/
inductive Infix where
  | add | sub | mul | div | less | greater | equal | lessEqual | greaterEqual | notEqual
  deriving DecidableEq

namespace Infix

/-- The operator that the machine applies. -/
def base : Infix → BinaryOp
  | add => .add
  | sub => .sub
  | mul => .mul
  | div => .div
  | less | greaterEqual => .less
  | greater | lessEqual => .greater
  | equal | notEqual => .equal

/-- Whether the result is negated: `a <= b` is the negation of `a > b`, and so on. -/
def isNegated : Infix → Bool
  | lessEqual | greaterEqual | notEqual => true
  | _ => false

end Infix

mutual

/-- What can be read and assigned. -/
inductive Place where
  | variable (name : String)
  | element (target index : Expr)
  | field (receiver : Expr) (name : String)
  | staticField (type member : String)

/-- Expressions. -/
inductive Expr where
  | literal (value : Literal) (line : Nat)
  | read (place : Place) (line : Nat)
  | assign (place : Place) (value : Expr) (line : Nat)
  /-- A compound assignment reads its place on one line and stores on another. -/
  | update (place : Place) (op : BinaryOp) (value : Expr) (readLine storeLine : Nat)
  | negate (operand : Expr) (signLine line : Nat)
  | not (operand : Expr) (line : Nat)
  | binary (op : Infix) (left right : Expr) (line : Nat)
  | connect (op : Connective) (left right : Expr) (line : Nat)
  | list (items : List Expr) (openLine closeLine : Nat)
  | call (name : String) (args : List Expr) (openLine closeLine : Nat)
  | construct (type : String) (args : List Expr) (openLine closeLine : Nat)
  | callStatic (type member : String) (args : List Expr) (openLine closeLine : Nat)
  | callMethod (receiver : Expr) (name : String) (args : List Expr) (openLine closeLine : Nat)

end

instance : Inhabited Expr := ⟨.literal .null 0⟩

/-- Statements. A block carries the line of its closing brace. -/
inductive Stmt where
  | declare (name : String) (value : Expr)
  | giveBack (value : Expr) (line : Nat)
  | ifThen (condition : Expr) (line : Nat) (body : List Stmt) (closeLine : Nat)
  /-- The alternative is a block or another conditional. -/
  | ifElse (condition : Expr) (line : Nat) (body : List Stmt) (closeLine elseLine : Nat)
    (alternative : Stmt)
  | whileLoop (condition : Expr) (line : Nat) (body : List Stmt) (closeLine : Nat)
  | forIn (name : String) (items : Expr) (line : Nat) (body : List Stmt) (closeLine : Nat)
  | breakLoop (line : Nat)
  | continueLoop (line : Nat)
  | block (body : List Stmt) (closeLine : Nat)
  | expression (value : Expr) (line : Nat)

/-- The declaration of a global. -/
structure GlobalDecl where
  name : String
  value : Expr
  line : Nat

/-- The declaration of a function. -/
structure FunctionDecl where
  name : String
  params : List String
  body : List Stmt
  closeLine : Nat

/-- A whole script: its globals and after them its functions. -/
structure Script where
  globals : List GlobalDecl
  functions : List FunctionDecl

end StackScript
