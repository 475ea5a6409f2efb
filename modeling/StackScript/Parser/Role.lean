import StackScript.Ast
import StackScript.Source.Scan

/-!
# The roles of tokens in expressions

An expression is opened by one token and continued by others; how tightly a continuation binds is its
precedence.
-/

namespace StackScript

/-- Binding power, loosest first. -/
inductive Precedence where
  | assignment | or | and | comparison | term | factor | unary | subscript | member
  deriving DecidableEq

namespace Precedence

/-- Binding power as a number. -/
def level : Precedence → Nat
  | assignment => 1
  | or => 2
  | and => 3
  | comparison => 4
  | term => 5
  | factor => 6
  | unary => 7
  | subscript => 8
  | member => 9

/-- The next tighter precedence. -/
def next : Precedence → Precedence
  | assignment => or
  | or => and
  | and => comparison
  | comparison => term
  | term => factor
  | factor => unary
  | unary => subscript
  | subscript => member
  | member => member

end Precedence

/-- What an expression can open with. -/
inductive Opening where
  | literal (value : Literal)
  | variable (name : String)
  | className (name : String)
  | construct
  | group
  | list
  | negate
  | not

/-- What can continue an expression. -/
inductive Continuation where
  | index
  | member
  | operator (op : Infix)
  | connect (op : Connective)

namespace Continuation

/-- How tightly a continuation binds. -/
def precedence : Continuation → Precedence
  | index => .subscript
  | member => .member
  | operator .add | operator .sub => .term
  | operator .mul | operator .div => .factor
  | operator _ => .comparison
  | connect .and => .and
  | connect .or => .or

end Continuation

namespace TokenKind

/-- How a token opens an expression, if it can. -/
def opening? : TokenKind → Option Opening
  | int n => some (.literal (.int n))
  | float x => some (.literal (.float x))
  | string s => some (.literal (.string s))
  | keyword .trueKw => some (.literal (.bool true))
  | keyword .falseKw => some (.literal (.bool false))
  | keyword .nullKw => some (.literal .null)
  | identifier name => some (.variable name)
  | className name => some (.className name)
  | keyword .newKw => some .construct
  | symbol .leftParen => some .group
  | symbol .leftBracket => some .list
  | symbol .minus => some .negate
  | symbol .bang => some .not
  | _ => none

/-- How a token continues an expression, if it can. -/
def continuation? : TokenKind → Option Continuation
  | symbol .leftBracket => some .index
  | symbol .colon => some .member
  | symbol .plus => some (.operator .add)
  | symbol .minus => some (.operator .sub)
  | symbol .star => some (.operator .mul)
  | symbol .slash => some (.operator .div)
  | symbol .equalEqual => some (.operator .equal)
  | symbol .bangEqual => some (.operator .notEqual)
  | symbol .less => some (.operator .less)
  | symbol .greaterEqual => some (.operator .greaterEqual)
  | symbol .greater => some (.operator .greater)
  | symbol .lessEqual => some (.operator .lessEqual)
  | symbol .andAnd => some (.connect .and)
  | symbol .orOr => some (.connect .or)
  | _ => none

/-- The operator of a compound assignment. -/
def compound? : TokenKind → Option BinaryOp
  | symbol .plusEqual => some .add
  | symbol .minusEqual => some .sub
  | symbol .starEqual => some .mul
  | symbol .slashEqual => some .div
  | _ => none

/-- Whether a token assigns. -/
def assigns (k : TokenKind) : Bool :=
  k == symbol .equal || k.compound?.isSome

/-- Tokens that close a statement or block. An expression that should begin at one is missing; at any
other token that opens no expression, the token is out of place. -/
def closes : TokenKind → Bool
  | symbol .semicolon | symbol .rightBrace | endOfInput => true
  | _ => false

end TokenKind

end StackScript
