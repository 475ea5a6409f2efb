import StackScript.Bytecode.Instruction

/-!
# Programs

A compiled program is one row of instructions in which every function has an entry. The initialisers
of the globals form a function of their own at address zero, under a reserved name.
-/

namespace StackScript

/-- The reserved name of the function that initialises the globals. -/
def initializerName : String := "__regglobal"

/-- A function of a program: its name, the number of its parameters, and its entry. -/
structure FunctionEntry where
  name : String
  arity : Nat
  address : Nat
  deriving DecidableEq

/-- A compiled program. The functions are in the order of their entries, the initialiser first. -/
structure Program where
  code : Array Instruction
  functions : List FunctionEntry
  /-- The declared globals, in source order. -/
  globals : List String
  deriving DecidableEq

namespace Program

/-- A row of instructions without functions and globals. -/
def ofCode (code : Array Instruction) : Program := ⟨code, [], []⟩

/-- The function with a given name. -/
def function? (p : Program) (name : String) : Option FunctionEntry :=
  p.functions.find? (·.name == name)

/-- The functions that the script itself declares, in the order of their entries. -/
def userFunctions (p : Program) : List FunctionEntry :=
  (p.functions.filter (·.name != initializerName)).mergeSort (·.address ≤ ·.address)

/-- The address of a jump that still waits for its target. -/
def unresolved? (p : Program) : Option Nat :=
  p.code.toList.findIdx? fun i => i.op.isJump && i.operand == .target .unresolved

/-- The headlines of the functions that begin at an address. -/
def headlines (p : Program) (address : Nat) : String :=
  String.join <| (p.functions.filter (·.address == address)).map fun f =>
    "== " ++ f.name ++ " (" ++ toString f.arity ++ ") ==\n"

/-- The listing of the code from an address on. -/
def listingFrom (p : Program) (h : Heap) : (address : Nat) → List Instruction → List String
  | _, [] => []
  | address, i :: rest =>
    (p.headlines address ++ Text.address address ++ " " ++ Text.padLeft ' ' 4 i.line ++ " "
      ++ i.display h ++ "\n") :: p.listingFrom h (address + 1) rest

/-- The listing of a program: each instruction with its address and line, under the headlines of the
functions. Literals in code are no references, so no heap is needed to write them. -/
def listing (p : Program) : String :=
  String.join (p.listingFrom .empty 0 p.code.toList)

end Program

end StackScript
