import StackScript.Value.Basic

/-!
# Operators

The operators of the language on values. Integers compute modulo `2 ^ 32`, and an integer beside a
number is rounded to single precision first. Where the operands do not fit, the fault names both
their types. Every result is a literal.
-/

namespace StackScript

/-- The operators that take two values. -/
inductive BinaryOp where
  | add | sub | mul | div | less | greater | equal
  deriving DecidableEq

namespace Value

/-- The fault of two operands that an operator does not take. -/
def mismatch (expected : String) (a b : Value) : Fault :=
  .typeMismatch expected (a.typeName ++ " and " ++ b.typeName)

/-- Computes with two integers as such, and with other numbers in single precision. -/
def arithmetic (sign : String) (onInt : Int32 → Int32 → Int32)
    (onFloat : Float32 → Float32 → Float32) (a b : Value) : Except Fault Literal :=
  match a, b with
  | int m, int n => .ok (.int (onInt m n))
  | a, b =>
    match a.asFloat?, b.asFloat? with
    | some x, some y => .ok (.float (onFloat x y))
    | _, _ => .error (mismatch ("numbers for " ++ Fault.quote sign) a b)

/-- Compares two integers as such, and other numbers in single precision. -/
def comparison (onInt : Int32 → Int32 → Bool) (onFloat : Float32 → Float32 → Bool)
    (a b : Value) : Except Fault Literal :=
  match a, b with
  | int m, int n => .ok (.bool (onInt m n))
  | a, b =>
    match a.asFloat?, b.asFloat? with
    | some x, some y => .ok (.bool (onFloat x y))
    | _, _ => .error (mismatch "numbers" a b)

/-- Sums of numbers; two texts are joined. -/
def add (a b : Value) : Except Fault Literal :=
  match a, b with
  | string s, string t => .ok (.string (s ++ t))
  | a, b => arithmetic "+" (· + ·) (· + ·) a b

/-- Differences of numbers. -/
def sub (a b : Value) : Except Fault Literal :=
  arithmetic "-" (· - ·) (· - ·) a b

/-- Products of numbers. -/
def mul (a b : Value) : Except Fault Literal :=
  arithmetic "*" (· * ·) (· * ·) a b

/-- Quotients of numbers. Between integers the fraction is dropped and zero divides nothing. -/
def div (a b : Value) : Except Fault Literal :=
  match a, b with
  | int m, int n => if n = 0 then .error .divisionByZero else .ok (.int (m / n))
  | a, b => arithmetic "/" (· / ·) (· / ·) a b

/-- Whether the first number is below the second. -/
def less (a b : Value) : Except Fault Literal :=
  comparison (fun m n => m < n) (fun x y => x < y) a b

/-- Whether the first number is above the second. -/
def greater (a b : Value) : Except Fault Literal :=
  comparison (fun m n => n < m) (fun x y => y < x) a b

/-- Equality: null equals null alone, numbers are compared as numbers, lists and objects by identity;
other values of different types cannot be compared. -/
def equals (a b : Value) : Except Fault Literal :=
  match a, b with
  | null, null => .ok (.bool true)
  | null, _ => .ok (.bool false)
  | _, null => .ok (.bool false)
  | bool p, bool q => .ok (.bool (p == q))
  | int m, int n => .ok (.bool (m == n))
  | string s, string t => .ok (.bool (s == t))
  | list r, list s => .ok (.bool (r == s))
  | object r, object s => .ok (.bool (r == s))
  | a, b =>
    match a.asFloat?, b.asFloat? with
    | some x, some y => .ok (.bool (x == y))
    | _, _ => .error (mismatch "comparable values" a b)

/-- The negation of a truth value. -/
def invert (a : Value) : Except Fault Literal :=
  match a with
  | bool b => .ok (.bool !b)
  | a => .error (.typeMismatch "bool" a.typeName)

end Value

/-- What an operator computes. -/
def BinaryOp.apply : BinaryOp → Value → Value → Except Fault Literal
  | add => Value.add
  | sub => Value.sub
  | mul => Value.mul
  | div => Value.div
  | less => Value.less
  | greater => Value.greater
  | equal => Value.equals

end StackScript
