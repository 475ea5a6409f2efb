import StackScript.Host.Registry
import StackScript.Value.Display

/-!
# The host of the command line

The types that scripts find when they are run from the command line: `Console`, which prints, and
`Math`.
-/

namespace StackScript.CommandLine

/-- The integer among the arguments at an index. -/
def intArg (args : List Value) (index : Nat) : HostAction Int32 :=
  match args[index]?.bind Value.asInt? with
  | some n => return n
  | none => throw (.failed ("argument " ++ toString (index + 1) ++ " must be an int"))

/-- The number among the arguments at an index. -/
def floatArg (args : List Value) (index : Nat) : HostAction Float32 :=
  match args[index]?.bind Value.asFloat? with
  | some x => return x
  | none => throw (.failed ("argument " ++ toString (index + 1) ++ " must be a number"))

/-- The greater of two numbers. What is no number counts for nothing. -/
def maxFloat (x y : Float32) : Float32 :=
  if x.isNaN then y else if x < y then y else x

/-- The lesser of two numbers. What is no number counts for nothing. -/
def minFloat (x y : Float32) : Float32 :=
  if x.isNaN then y else if y < x then y else x

/-- Prints a value on a line. -/
def log (args : List Value) : HostAction Value := do
  let w ← get
  set { w with printed := w.printed.push (w.heap.display (args[0]?.getD .null)) }
  return .null

/-- A static method on two integers. -/
def onInts (f : Int32 → Int32 → Int32) (args : List Value) : HostAction Value :=
  return .int (f (← intArg args 0) (← intArg args 1))

/-- A static method on two numbers. -/
def onFloats (f : Float32 → Float32 → Float32) (args : List Value) : HostAction Value :=
  return .float (f (← floatArg args 0) (← floatArg args 1))

/-- The single-precision number nearest to the ratio of a circle to its diameter. -/
def circleRatio : Float32 := Float32.ofBits 0x40490FDB

/-- The types of the command line. -/
def demoHost : Registry :=
  (Registry.empty.define "Console" fun t => t.addStatic "Log" [.any] log).define "Math" fun t =>
    ((((((((t.addStaticField "PI" (.float circleRatio))
      |>.addStatic "Max" [.int, .int] (onInts max))
      |>.addStatic "Max" [.number, .number] (onFloats maxFloat))
      |>.addStatic "Min" [.int, .int] (onInts min))
      |>.addStatic "Min" [.number, .number] (onFloats minFloat))
      |>.addStatic "Abs" [.int] fun args => return .int (← intArg args 0).abs)
      |>.addStatic "Abs" [.float] fun args => return .float (← floatArg args 0).abs)
      |>.addStatic "Sqrt" [.number] fun args => return .float (← floatArg args 0).sqrt)

end StackScript.CommandLine
