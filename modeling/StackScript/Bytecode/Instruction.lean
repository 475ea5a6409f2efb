import StackScript.Value.Display
import StackScript.Value.Operators

/-!
# Instructions

An instruction is an operation with an operand and the source line it was written for. Every
operation reads from its operand what it needs and takes a default where the operand is of another
sort, so that any row of instructions can be run.
-/

namespace StackScript

/-- The operations of the machine. -/
inductive Operation where
  /-- Push the literal operand. -/
  | push
  /-- Discard values. -/
  | pop
  /-- Push copies of the topmost values. -/
  | dup
  | pushLocal
  | setLocal
  | pushGlobal
  | setGlobal
  /-- Collect the argument window into a list. -/
  | makeList
  /-- From a list or text and an index to the element. -/
  | pushElement
  /-- From a list, an index and a value to the value, which is stored. -/
  | setElement
  /-- The same for a compound assignment, over a list and an index that were duplicated. -/
  | setElementCached
  | binary (op : BinaryOp)
  /-- Negate a truth value. -/
  | invert
  | jump
  | jumpIfFalse
  | jumpIfTrue
  /-- Open an argument window. -/
  | openWindow
  | call
  | giveBack
  | construct
  | callStatic
  | callMethod
  | pushField
  | setField
  | pushStaticField
  | setStaticField
  deriving DecidableEq

/-- How listings name a binary operator. -/
def BinaryOp.mnemonic : BinaryOp → String
  | add => "ADD"
  | sub => "SUB"
  | mul => "MULT"
  | div => "DIV"
  | less => "LSS"
  | greater => "GRT"
  | equal => "EQU"

namespace Operation

/-- How listings name an operation. -/
def mnemonic : Operation → String
  | push => "PUSH"
  | pop => "POP"
  | dup => "DUP"
  | pushLocal => "PUSHLOCAL"
  | setLocal => "SETLOCAL"
  | pushGlobal => "PUSHGLOBAL"
  | setGlobal => "SETGLOBAL"
  | makeList => "CRTARR"
  | pushElement => "PUSHARR"
  | setElement => "SETARR"
  | setElementCached => "SETARR_CACHED"
  | binary op => op.mnemonic
  | invert => "INV"
  | jump => "JMP"
  | jumpIfFalse => "JFZ"
  | jumpIfTrue => "JNZ"
  | openWindow => "PREPCALL"
  | call => "CALL"
  | giveBack => "RETURN"
  | construct => "EXT_CTOR"
  | callStatic => "EXT_STATIC_CALL"
  | callMethod => "EXT_INST_CALL"
  | pushField => "PUSH_INST_FIELD"
  | setField => "SET_INST_FIELD"
  | pushStaticField => "PUSH_STATIC_FIELD"
  | setStaticField => "SET_STATIC_FIELD"

/-- Every operation. -/
def all : List Operation :=
  [push, pop, dup, pushLocal, setLocal, pushGlobal, setGlobal, makeList, pushElement, setElement,
    setElementCached, binary .add, binary .sub, binary .mul, binary .div, binary .less,
    binary .greater, binary .equal, invert, jump, jumpIfFalse, jumpIfTrue, openWindow, call,
    giveBack, construct, callStatic, callMethod, pushField, setField, pushStaticField,
    setStaticField]

/-- The operation with a given name. -/
def ofMnemonic? (name : String) : Option Operation :=
  all.find? (·.mnemonic == name)

/-- Operators on two values, which can be computed ahead of the run. -/
def isFoldable : Operation → Bool
  | binary _ => true
  | _ => false

/-- Operations that may continue elsewhere in the same function. -/
def isJump : Operation → Bool
  | jump | jumpIfFalse | jumpIfTrue => true
  | _ => false

/-- The store that belongs to a read, for the reads that can be assignment targets. -/
def setter? : Operation → Option Operation
  | pushLocal => some setLocal
  | pushGlobal => some setGlobal
  | pushElement => some setElement
  | pushField => some setField
  | pushStaticField => some setStaticField
  | _ => none

end Operation

/-- Where a jump leads. The target of a jump that leaves a loop is unresolved until the end of the
loop is known. -/
inductive Target where
  | unresolved
  | address (index : Nat)
  deriving DecidableEq

/-- The address of a target. An unresolved one lies beyond any code. -/
def Target.index : Target → Nat
  | unresolved => UInt64.size - 1
  | address index => index

/-- What an operation works on. -/
inductive Operand where
  | none
  | literal (value : Value)
  | name (name : String)
  | target (target : Target)
  | slot (index : Nat)
  | count (count : Nat)
  deriving DecidableEq

/-- The text of an operand in listings. -/
def Operand.display (h : Heap) : Operand → String
  | none => ""
  | literal v => h.inspect v
  | name s => Fault.quote s
  | target .unresolved => "-> ????"
  | target (.address index) => "-> " ++ Text.address index
  | slot index => "#" ++ toString index
  | count n => toString n

/-- An operation, its operand, and the source line it belongs to. -/
structure Instruction where
  op : Operation
  operand : Operand
  line : Nat
  deriving DecidableEq

namespace Instruction

/-- The value of a push. -/
def literal? (i : Instruction) : Option Value :=
  match i.op, i.operand with
  | .push, .literal v => some v
  | _, _ => none

/-- The name an instruction refers to; empty if it has none. -/
def name (i : Instruction) : String :=
  match i.operand with
  | .name s => s
  | _ => ""

/-- The number an instruction refers to, be it a count, a slot or an address; zero if it has none. -/
def count (i : Instruction) : Nat :=
  match i.operand with
  | .count n | .slot n => n
  | .target t => t.index
  | _ => 0

/-- The text of an instruction in listings. -/
def display (h : Heap) (i : Instruction) : String :=
  match i.operand with
  | .none => i.op.mnemonic
  | operand => i.op.mnemonic ++ " " ++ operand.display h

end Instruction

end StackScript
