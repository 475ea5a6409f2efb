import StackScript.Fault

/-!
# Values

A value is a literal, or a reference to a list or to an object in the heap. Literals are the values
that can stand in code; lists and objects are shared, so that whoever holds the reference sees every
change.
-/

namespace StackScript

/-- The values that can be written into code. -/
inductive Literal where
  | null
  | bool (value : Bool)
  | int (value : Int32)
  | float (value : Float32)
  | string (value : String)
  deriving DecidableEq

/-- A reference to a list in the heap. -/
structure ListRef where
  index : Nat
  deriving DecidableEq

/-- A reference to an object in the heap. -/
structure ObjectRef where
  index : Nat
  deriving DecidableEq

/-- The values of the language. -/
inductive Value where
  | literal (value : Literal)
  | list (ref : ListRef)
  | object (ref : ObjectRef)
  deriving DecidableEq

namespace Value

/-- The null value. -/
@[match_pattern] abbrev null : Value := .literal .null

/-- A truth value. -/
@[match_pattern] abbrev bool (b : Bool) : Value := .literal (.bool b)

/-- An integer. -/
@[match_pattern] abbrev int (n : Int32) : Value := .literal (.int n)

/-- A single-precision number. -/
@[match_pattern] abbrev float (x : Float32) : Value := .literal (.float x)

/-- A text. -/
@[match_pattern] abbrev string (s : String) : Value := .literal (.string s)

instance : Inhabited Value := ⟨null⟩

end Value

/-- The name of the type of a literal. -/
def Literal.typeName : Literal → String
  | null => "null"
  | bool _ => "bool"
  | int _ => "int"
  | float _ => "float"
  | string _ => "string"

namespace Value

/-- The name of the type of a value. -/
def typeName : Value → String
  | literal l => l.typeName
  | list _ => "list"
  | object _ => "object"

/-- Whether a value can be written into code. -/
def isLiteral : Value → Bool
  | literal _ => true
  | _ => false

/-- The truth value that a value is. -/
def asBool? : Value → Option Bool
  | bool b => some b
  | _ => none

/-- The integer that a value is. -/
def asInt? : Value → Option Int32
  | int n => some n
  | _ => none

/-- The number that a value is. Integers are rounded to single precision. -/
def asFloat? : Value → Option Float32
  | int n => some (Float32.ofInt n.toInt)
  | float x => some x
  | _ => none

/-- The text that a value is. -/
def asString? : Value → Option String
  | string s => some s
  | _ => none

end Value

end StackScript
