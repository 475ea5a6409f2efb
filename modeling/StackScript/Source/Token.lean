import StackScript.Decimal.Shortest

/-!
# Tokens

The units of script text: literals, names, keywords and symbols, each with its position and the very
text it was read from.
-/

namespace StackScript

/-! ### Statements about all values

A library may decide a statement about all characters, or about all integers of 32 bits, by trying every
one of them. Where a match has tokens or faults among its patterns, a search for contradictions comes
upon such statements, so none of them is decided here.
-/

noncomputable instance (priority := high) decidableForallChar {p : Char → Prop} :
    Decidable (∀ c, p c) :=
  Classical.propDecidable _

noncomputable instance (priority := high) decidableForallInt {p : Int32 → Prop} :
    Decidable (∀ n, p n) :=
  Classical.propDecidable _

/-! ### Positions -/

/-- A position in a source text. Lines and columns count from one; column zero stands for the line as
a whole. -/
structure Span where
  line : Nat
  column : Nat
  deriving DecidableEq, Inhabited

/-- The position of the first character of a text. -/
def Span.start : Span := ⟨1, 1⟩

/-- The position behind one character. -/
def Span.next (s : Span) (c : Char) : Span :=
  if c = '\n' then ⟨s.line + 1, 1⟩ else ⟨s.line, s.column + 1⟩

/-- The position behind a row of characters. -/
def Span.after (s : Span) (text : List Char) : Span :=
  text.foldl Span.next s

/-! ### Keywords and symbols -/

/-- The reserved words. -/
inductive Keyword where
  | varKw | funcKw | returnKw | ifKw | elseKw | whileKw | forKw | inKw | breakKw | continueKw | newKw
  | trueKw | falseKw | nullKw
  deriving DecidableEq

namespace Keyword

/-- How a keyword is written. -/
def text : Keyword → String
  | varKw => "var"
  | funcKw => "func"
  | returnKw => "return"
  | ifKw => "if"
  | elseKw => "else"
  | whileKw => "while"
  | forKw => "for"
  | inKw => "in"
  | breakKw => "break"
  | continueKw => "continue"
  | newKw => "new"
  | trueKw => "true"
  | falseKw => "false"
  | nullKw => "null"

/-- Every keyword. -/
def all : List Keyword :=
  [varKw, funcKw, returnKw, ifKw, elseKw, whileKw, forKw, inKw, breakKw, continueKw, newKw, trueKw,
    falseKw, nullKw]

/-- The keyword that a word spells, if it spells one. -/
def ofText? (word : String) : Option Keyword :=
  all.find? (·.text == word)

end Keyword

/-- Operators and delimiters. -/
inductive Symbol where
  | plus | minus | star | slash | bang | equal | equalEqual | bangEqual | less | lessEqual | greater
  | greaterEqual | andAnd | orOr | plusEqual | minusEqual | starEqual | slashEqual | leftParen
  | rightParen | leftBrace | rightBrace | leftBracket | rightBracket | comma | semicolon | colon
  deriving DecidableEq

namespace Symbol

/-- How a symbol is written. -/
def text : Symbol → String
  | plus => "+"
  | minus => "-"
  | star => "*"
  | slash => "/"
  | bang => "!"
  | equal => "="
  | equalEqual => "=="
  | bangEqual => "!="
  | less => "<"
  | lessEqual => "<="
  | greater => ">"
  | greaterEqual => ">="
  | andAnd => "&&"
  | orOr => "||"
  | plusEqual => "+="
  | minusEqual => "-="
  | starEqual => "*="
  | slashEqual => "/="
  | leftParen => "("
  | rightParen => ")"
  | leftBrace => "\x7b"
  | rightBrace => "\x7d"
  | leftBracket => "["
  | rightBracket => "]"
  | comma => ","
  | semicolon => ";"
  | colon => ":"

end Symbol

/-- What a token is. Class names are the capitalised ones; they address types of the host. A stray
character that begins no token is kept as such. -/
inductive TokenKind where
  | int (value : Int32)
  | float (value : Float32)
  | string (value : String)
  | identifier (name : String)
  | className (name : String)
  | keyword (word : Keyword)
  | symbol (sign : Symbol)
  | endOfInput
  | stray
  deriving DecidableEq

/-- How messages name a token. -/
def TokenKind.describe : TokenKind → String
  | int n => toString n
  | float x => Decimal.render x
  | string s => "\"" ++ s ++ "\""
  | identifier name => name
  | className name => name
  | keyword word => word.text
  | symbol sign => sign.text
  | endOfInput => "end of input"
  | stray => "<error>"

/-- A token, where it begins, and the characters it was read from. -/
structure Token where
  kind : TokenKind
  span : Span
  lexeme : String
  deriving DecidableEq

end StackScript
