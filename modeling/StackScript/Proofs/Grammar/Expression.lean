import StackScript.Ast
import StackScript.Source.Token

/-!
# The grammar of expressions

Which rows of tokens are which expressions. Assignments bind loosest, then the two connectives,
comparisons, sums, products and signs; what is put behind an expression binds tightest. Every layer
but the first is built from operands of the next one, so the operators of a layer group to the left.
The trees carry the lines that their tokens stand on.

Apart from its form an expression has to be sound: none of its constant subexpressions fails.
-/

namespace StackScript

/-! ### Layers -/

/-- The layers of expressions, loosest first. -/
inductive Layer where
  | assignment | disjunction | conjunction | comparison | sum | product | sign | primary
  deriving DecidableEq

namespace Layer

/-- The layer that binds tighter than all but itself and those behind it. -/
def tighter : Layer → Layer
  | assignment => disjunction
  | disjunction => conjunction
  | conjunction => comparison
  | comparison => sum
  | sum => product
  | product => sign
  | sign | primary => primary

end Layer

namespace Infix

/-- The layer that an operator makes expressions of. -/
def layer : Infix → Layer
  | add | sub => .sum
  | mul | div => .product
  | less | greater | equal | lessEqual | greaterEqual | notEqual => .comparison

/-- How an operator is written. -/
def symbol : Infix → Symbol
  | add => .plus
  | sub => .minus
  | mul => .star
  | div => .slash
  | less => .less
  | greater => .greater
  | equal => .equalEqual
  | lessEqual => .lessEqual
  | greaterEqual => .greaterEqual
  | notEqual => .bangEqual

end Infix

namespace Connective

/-- The layer that a connective makes expressions of. -/
def layer : Connective → Layer
  | and => .conjunction
  | or => .disjunction

/-- How a connective is written. -/
def symbol : Connective → Symbol
  | and => .andAnd
  | or => .orOr

end Connective

/-- How the compound assignment of an operator is written, if it has one. -/
def BinaryOp.assigning? : BinaryOp → Option Symbol
  | add => some .plusEqual
  | sub => some .minusEqual
  | mul => some .starEqual
  | div => some .slashEqual
  | less | greater | equal => none

namespace TokenKind

/-- The literal that a token stands for. -/
def literal? : TokenKind → Option Literal
  | int n => some (.int n)
  | float x => some (.float x)
  | string s => some (.string s)
  | keyword .trueKw => some (.bool true)
  | keyword .falseKw => some (.bool false)
  | keyword .nullKw => some .null
  | _ => none

/-- The member that a token names. Members may be capitalised. -/
def member? : TokenKind → Option String
  | identifier name | className name => some name
  | _ => none

end TokenKind

/-- The line of the last token of a row. -/
def lastLine (ts : List Token) : Nat := (ts.getLast?.map (·.span.line)).getD 0

@[simp]
theorem lastLine_concat (ts : List Token) (t : Token) : lastLine (ts ++ [t]) = t.span.line := by
  simp [lastLine]

@[simp]
theorem lastLine_singleton (t : Token) : lastLine [t] = t.span.line := rfl

/-! ### Phrases -/

/-- What the grammar of expressions speaks of. -/
inductive Phrase where
  | expression (layer : Layer) (e : Expr)
  /-- Something that may be assigned. -/
  | place (p : Place)
  /-- One or more expressions between commas. -/
  | items (es : List Expr)
  /-- Expressions between brackets, whose lines are kept. -/
  | enclosed (opening closing : Symbol) (es : List Expr) (openLine closeLine : Nat)

/-- Which rows of tokens a phrase is written as. -/
inductive Phrase.Derives : Phrase → List Token → Prop
  | tighter {layer e ts} (h : Derives (.expression layer.tighter e) ts) :
    Derives (.expression layer e) ts
  | literal {value t} (h : t.kind.literal? = some value) :
    Derives (.expression .primary (.literal value t.span.line)) [t]
  | group {e ts o c} (opening : o.kind = .symbol .leftParen)
    (inner : Derives (.expression .assignment e) ts) (closing : c.kind = .symbol .rightParen) :
    Derives (.expression .primary e) (o :: ts ++ [c])
  | list {es openLine closeLine ts}
    (h : Derives (.enclosed .leftBracket .rightBracket es openLine closeLine) ts) :
    Derives (.expression .primary (.list es openLine closeLine)) ts
  | call {name args openLine closeLine t ts} (function : t.kind = .identifier name)
    (h : Derives (.enclosed .leftParen .rightParen args openLine closeLine) ts) :
    Derives (.expression .primary (.call name args openLine closeLine)) (t :: ts)
  | construct {type args openLine closeLine n t ts} (new : n.kind = .keyword .newKw)
    (class_ : t.kind = .className type)
    (h : Derives (.enclosed .leftParen .rightParen args openLine closeLine) ts) :
    Derives (.expression .primary (.construct type args openLine closeLine)) (n :: t :: ts)
  | callStatic {type member args openLine closeLine t c m ts} (class_ : t.kind = .className type)
    (colon : c.kind = .symbol .colon) (name : m.kind.member? = some member)
    (h : Derives (.enclosed .leftParen .rightParen args openLine closeLine) ts) :
    Derives (.expression .primary (.callStatic type member args openLine closeLine))
      (t :: c :: m :: ts)
  | callMethod {e name args openLine closeLine ts c m us}
    (receiver : Derives (.expression .primary e) ts) (colon : c.kind = .symbol .colon)
    (method : m.kind.member? = some name)
    (h : Derives (.enclosed .leftParen .rightParen args openLine closeLine) us) :
    Derives (.expression .primary (.callMethod e name args openLine closeLine))
      (ts ++ c :: m :: us)
  | read {p ts} (h : Derives (.place p) ts) :
    Derives (.expression .primary (.read p (lastLine ts))) ts
  | negate {e t ts} (minus : t.kind = .symbol .minus) (h : Derives (.expression .sign e) ts) :
    Derives (.expression .sign (.negate e t.span.line (lastLine ts))) (t :: ts)
  | not {e t ts} (bang : t.kind = .symbol .bang) (h : Derives (.expression .sign e) ts) :
    Derives (.expression .sign (.not e (lastLine ts))) (t :: ts)
  | binary {op left right ts t us} (first : Derives (.expression op.layer left) ts)
    (operator : t.kind = .symbol op.symbol)
    (second : Derives (.expression op.layer.tighter right) us) :
    Derives (.expression op.layer (.binary op left right (lastLine us))) (ts ++ t :: us)
  | connect {op left right ts t us} (first : Derives (.expression op.layer left) ts)
    (connective : t.kind = .symbol op.symbol)
    (second : Derives (.expression op.layer.tighter right) us) :
    Derives (.expression op.layer (.connect op left right t.span.line)) (ts ++ t :: us)
  | assign {p e ts t us} (target : Derives (.place p) ts) (equal : t.kind = .symbol .equal)
    (value : Derives (.expression .assignment e) us) :
    Derives (.expression .assignment (.assign p e (lastLine us))) (ts ++ t :: us)
  | update {p op sign e ts t us} (target : Derives (.place p) ts)
    (assigning : op.assigning? = some sign) (operator : t.kind = .symbol sign)
    (value : Derives (.expression .assignment e) us) :
    Derives (.expression .assignment (.update p op e t.span.line (lastLine us))) (ts ++ t :: us)
  | variable {name t} (h : t.kind = .identifier name) : Derives (.place (.variable name)) [t]
  | element {e index ts o us c} (target : Derives (.expression .primary e) ts)
    (opening : o.kind = .symbol .leftBracket) (at_ : Derives (.expression .assignment index) us)
    (closing : c.kind = .symbol .rightBracket) :
    Derives (.place (.element e index)) (ts ++ o :: us ++ [c])
  | field {e name ts c m} (receiver : Derives (.expression .primary e) ts)
    (colon : c.kind = .symbol .colon) (member : m.kind.member? = some name) :
    Derives (.place (.field e name)) (ts ++ [c, m])
  | staticField {type member t c m} (class_ : t.kind = .className type)
    (colon : c.kind = .symbol .colon) (name : m.kind.member? = some member) :
    Derives (.place (.staticField type member)) [t, c, m]
  | one {e ts} (h : Derives (.expression .assignment e) ts) : Derives (.items [e]) ts
  | more {e es ts c us} (first : Derives (.expression .assignment e) ts)
    (comma : c.kind = .symbol .comma) (rest : Derives (.items es) us) :
    Derives (.items (e :: es)) (ts ++ c :: us)
  | none {opening closing o c} (open_ : o.kind = .symbol opening)
    (close : c.kind = .symbol closing) :
    Derives (.enclosed opening closing [] o.span.line c.span.line) [o, c]
  | some {opening closing es o ts c} (open_ : o.kind = .symbol opening)
    (inner : Derives (.items es) ts) (close : c.kind = .symbol closing) :
    Derives (.enclosed opening closing es o.span.line c.span.line) (o :: ts ++ [c])

/-- No phrase is empty. -/
theorem Phrase.Derives.ne_nil {p : Phrase} {ts : List Token} (h : p.Derives ts) : ts ≠ [] := by
  induction h <;> simp_all

/-! ### Constant subexpressions -/

/-- What an operator makes of two literals. -/
def Infix.compute (op : Infix) (left right : Literal) : Except Fault Literal := do
  let result ← op.base.apply (.literal left) (.literal right)
  if op.isNegated then Value.invert (.literal result) else return result

/-- What a constant expression evaluates to. Constant are the literals, and the operators applied to
constants. The two connectives are not: they jump. -/
def Expr.constant? : Expr → Option (Except Fault Literal)
  | .literal value _ => some (.ok value)
  | .negate operand _ _ =>
    operand.constant?.map fun value => do
      BinaryOp.sub.apply (.literal (.int 0)) (.literal (← value))
  | .not operand _ =>
    operand.constant?.map fun value => do Value.invert (.literal (← value))
  | .binary op left right _ =>
    match left.constant?, right.constant? with
    | some left, some right => some do op.compute (← left) (← right)
    | _, _ => none
  | _ => none

/-- A constant expression whose evaluation fails. -/
def Expr.Fails (e : Expr) : Prop := ∃ fault, e.constant? = some (.error fault)

mutual

/-- No constant expression in a place fails. -/
def Place.Sound : Place → Prop
  | .variable _ => True
  | .element target index => target.Sound ∧ index.Sound
  | .field receiver _ => receiver.Sound
  | .staticField _ _ => True

/-- Neither the expression nor one in it is a constant expression that fails. -/
def Expr.Sound : Expr → Prop
  | .literal _ _ => True
  | .read place _ => place.Sound
  | .assign place value _ => place.Sound ∧ value.Sound
  | .update place _ value _ _ => place.Sound ∧ value.Sound
  | .negate operand signLine line => operand.Sound ∧ ¬(Expr.negate operand signLine line).Fails
  | .not operand line => operand.Sound ∧ ¬(Expr.not operand line).Fails
  | .binary op left right line =>
    left.Sound ∧ right.Sound ∧ ¬(Expr.binary op left right line).Fails
  | .connect _ left right _ => left.Sound ∧ right.Sound
  | .list items _ _ => soundAll items
  | .call _ args _ _ => soundAll args
  | .construct _ args _ _ => soundAll args
  | .callStatic _ _ args _ _ => soundAll args
  | .callMethod receiver _ args _ _ => receiver.Sound ∧ soundAll args

/-- The same for every expression of a row. -/
def soundAll : List Expr → Prop
  | [] => True
  | e :: rest => e.Sound ∧ soundAll rest

end

end StackScript
