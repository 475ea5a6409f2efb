import StackScript.Source.Token
import StackScript.Text.Layout

/-!
# Faults and reports

A *fault* is what can go wrong in reading or running a script; a *report* is a fault with the place
where it arose and the source line to show for it. The wording of every message is given here and
nowhere else.
-/

namespace StackScript

/-- What went wrong. -/
inductive Fault where
  /-- A character that begins no token. -/
  | unexpectedCharacter (char : Char)
  | unterminatedString
  | newlineInString
  | invalidEscape (char : Char)
  | malformedNumber (text : String)
  | unexpectedToken (got : String)
  | expectedToken (expected got : String)
  | expectedExpression (got : String)
  | duplicateDeclaration (name : String)
  | breakOutsideLoop
  | continueOutsideLoop
  | invalidAssignmentTarget
  | statementOutsideFunction
  | globalAfterFunction (name : String)
  | noFunctions
  /-- A constant subexpression whose evaluation fails, with the message of that failure. -/
  | constantFold (message : String)
  | undefinedGlobal (name : String)
  | undefinedFunction (name : String)
  | wrongArity (name : String) (expected got : Nat)
  | typeMismatch (expected got : String)
  | divisionByZero
  | indexOutOfRange (index : Int32) (length : Nat)
  | nonBooleanCondition (got : String)
  | typeNotFound (name : String)
  | memberNotFound (type member : String)
  | noMatchingOverload (member : String) (count : Nat)
  | hostFailure (message : String)
  | stackOverflow
  | stepLimitExceeded (limit : Nat)
  /-- Code that no script compiles to. -/
  | invalidProgram (message : String)
  deriving DecidableEq

/-- The stage at which a fault arises. -/
inductive Stage where
  | lexical
  | syntactic
  | constantFolding
  | running
  deriving DecidableEq

namespace Fault

/-- The stage at which a fault arises. -/
def stage : Fault → Stage
  | unexpectedCharacter _ | unterminatedString | newlineInString | invalidEscape _
  | malformedNumber _ => .lexical
  | unexpectedToken _ | expectedToken _ _ | expectedExpression _ | duplicateDeclaration _
  | breakOutsideLoop | continueOutsideLoop | invalidAssignmentTarget | statementOutsideFunction
  | globalAfterFunction _ | noFunctions => .syntactic
  | constantFold _ => .constantFolding
  | _ => .running

/-- A text between single quotes. -/
def quote (s : String) : String :=
  "'" ++ s ++ "'"

/-- The message of a fault. -/
def message : Fault → String
  | unexpectedCharacter c => "unexpected character " ++ quote c.toString
  | unterminatedString => "unterminated string"
  | newlineInString => "newline in string literal"
  | invalidEscape c => "invalid escape sequence " ++ quote ("\\" ++ c.toString)
  | malformedNumber text => "malformed number " ++ quote text
  | unexpectedToken got => "unexpected token " ++ quote got
  | expectedToken expected got => "expected " ++ expected ++ ", got " ++ quote got
  | expectedExpression got => "expected expression, got " ++ quote got
  | duplicateDeclaration name => quote name ++ " is already declared in this scope"
  | breakOutsideLoop => "break outside of loop"
  | continueOutsideLoop => "continue outside of loop"
  | invalidAssignmentTarget => "invalid assignment target"
  | statementOutsideFunction => "statements are only allowed inside functions"
  | globalAfterFunction name => "global " ++ quote name ++ " must be declared before any function"
  | noFunctions => "program must define at least one function"
  | constantFold message => "in constant expression: " ++ message
  | undefinedGlobal name => "undefined global " ++ quote name
  | undefinedFunction name => "undefined function " ++ quote name
  | wrongArity name expected got =>
    quote name ++ " expects " ++ toString expected ++ " arguments, got " ++ toString got
  | typeMismatch expected got => "type mismatch: expected " ++ expected ++ ", got " ++ got
  | divisionByZero => "division by zero"
  | indexOutOfRange index length =>
    "index " ++ toString index ++ " out of range for length " ++ toString length
  | nonBooleanCondition got => "condition must be a bool, got " ++ got
  | typeNotFound name => "type " ++ quote name ++ " not found"
  | memberNotFound type member => quote type ++ " has no member " ++ quote member
  | noMatchingOverload member count =>
    "no overload of " ++ quote member ++ " takes " ++ toString count ++ " matching arguments"
  | hostFailure message => "host error: " ++ message
  | stackOverflow => "stack overflow"
  | stepLimitExceeded limit => "step limit of " ++ toString limit ++ " instructions exceeded"
  | invalidProgram message => "invalid program: " ++ message

end Fault

/-- A fault, the place where it arose if it has one, and the source line shown for it. -/
structure Report where
  fault : Fault
  span : Option Span
  excerpt : Option String
  deriving DecidableEq

namespace Report

/-- A report that shows no source line yet. -/
def ofFault (fault : Fault) (span : Option Span) : Report :=
  ⟨fault, span, none⟩

/-- The line of a report. -/
def line? (r : Report) : Option Nat :=
  r.span.map (·.line)

/-- The report with its excerpt taken from a whole source text, if the text has its line. -/
def withSource (r : Report) (source : String) : Report :=
  match r.span with
  | none => r
  | some span =>
    if span.line = 0 then r
    else
      match (Text.lines source)[span.line - 1]? with
      | none => r
      | some text => { r with excerpt := some text }

/-- The report with the given excerpt. -/
def withExcerpt (r : Report) (text : Option String) : Report :=
  { r with excerpt := text }

/-- What stands below the headline: the source line, and a caret under the column if there is one. -/
def excerptLines (column : Nat) : Option String → String
  | none => ""
  | some text =>
    let shown := "\n  | " ++ text
    if column = 0 then shown else shown ++ "\n  | " ++ Text.spaces (column - 1) ++ "^"

/-- The full text of a report. -/
def render (r : Report) : String :=
  match r.span with
  | none => "Error: " ++ r.fault.message
  | some span =>
    let place :=
      if span.column = 0 then toString span.line
      else toString span.line ++ ":" ++ toString span.column
    "[line " ++ place ++ "] Error: " ++ r.fault.message ++ excerptLines span.column r.excerpt

end Report

end StackScript
