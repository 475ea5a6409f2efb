import StackScript.Builtin
import StackScript.Bytecode.Program
import StackScript.Machine.State
import StackScript.Value.Element

/-!
# Single instructions

What one instruction does to the machine. Nothing is assumed of the code: whatever it lacks, be it
values on the stack, a slot, a window or an operand, is a fault.

A failing instruction leaves the machine as far as it got. Only the stack and its windows show how
far; the store is changed by the last action of an instruction, if at all.
-/

namespace StackScript

/-- What a run may use. -/
structure Limits where
  /-- How many values the stack holds. -/
  stack : Nat
  /-- How many callers may be suspended. -/
  depth : Nat
  /-- How many instructions are carried out. -/
  steps : Option Nat
  deriving DecidableEq

/-- What runs are given unless something else is asked for. -/
def Limits.standard : Limits := ⟨4096, 256, none⟩

/-- What a run works with and does not change. -/
structure Engine (σ : Type) where
  program : Program
  bridge : Bridge σ
  limits : Limits

/-- How a run goes on after an instruction. -/
inductive Flow where
  | next
  | jump (address : Nat)
  | halt (value : Value)
  deriving DecidableEq

/-- Work of the machine that may fail. -/
abbrev Step (σ : Type) := ExceptT Fault (StateM (Machine σ))

namespace Step

variable {σ α : Type}

/-- The fault of a stack that holds too few values. -/
def underflow : Fault := .invalidProgram "stack underflow"

/-- The fault of a window that is not open. -/
def notOpen : Fault := .invalidProgram "call without PREPCALL"

/-- The fault of a slot that does not exist. -/
def badSlot (slot : Nat) : Fault := .invalidProgram ("bad local slot " ++ toString slot)

/-- Takes the topmost value. -/
def pop : Step σ Value := do
  let m ← get
  match m.stack.back? with
  | none => throw underflow
  | some value =>
    set { m with stack := m.stack.pop }
    return value

/-- The topmost value. -/
def peek : Step σ Value := do
  match (← get).stack.back? with
  | none => throw underflow
  | some value => return value

/-- Discards the topmost values. -/
def discard (count : Nat) : Step σ Unit := do
  let m ← get
  let size := m.stack.size
  if size < count then throw underflow
  set { m with stack := m.stack.shrink (size - count) }

/-- The value in a slot. -/
def getLocal (slot : Nat) : Step σ Value := do
  let m ← get
  match m.stack[m.base + slot]? with
  | none => throw (badSlot slot)
  | some value => return value

/-- Puts a value into a slot. -/
def setLocal (slot : Nat) (value : Value) : Step σ Unit := do
  let m ← get
  let index := m.base + slot
  if m.stack.size ≤ index then throw (badSlot slot)
  set { m with stack := m.stack.setIfInBounds index value }

/-- Opens a window. -/
def openWindow : Step σ Unit :=
  modify fun m => { m with windows := m.stack.size :: m.windows }

/-- Closes the innermost window and gives its start. -/
def closeWindow : Step σ Nat := do
  let m ← get
  match m.windows with
  | [] => throw notOpen
  | start :: outer =>
    let size := m.stack.size
    set { m with windows := outer }
    if size < start then throw notOpen
    return start

/-- Closes the innermost window and takes the values in it. -/
def takeWindow : Step σ (Array Value) := do
  let start ← closeWindow
  let m ← get
  let values := m.stack.extract start m.stack.size
  set { m with stack := m.stack.shrink start }
  return values

/-- Works on the heap. -/
def onHeap (action : HeapAction α) : Step σ α :=
  ExceptT.mk fun ⟨stack, base, windows, frames, resolved, globals, ⟨heap, printed⟩, host⟩ =>
    let (result, heap) := action.run.run heap
    (result, ⟨stack, base, windows, frames, resolved, globals, ⟨heap, printed⟩, host⟩)

/-- Calls into the host. -/
def onHost (call : HostCall σ α) : Step σ α :=
  ExceptT.mk fun ⟨stack, base, windows, frames, resolved, globals, world, host⟩ =>
    let (result, world, host) := call.run.run (world, host)
    (result.mapError HostFault.toFault,
      ⟨stack, base, windows, frames, resolved, globals, world, host⟩)

/-- The heap. -/
def heap : Step σ Heap := return (← get).store.world.heap

/-- Takes a condition and jumps if it is as wanted. -/
def jumpIf (wanted : Bool) (target : Nat) : Step σ Flow := do
  let condition ← pop
  match condition.asBool? with
  | none => throw (.nonBooleanCondition condition.typeName)
  | some given => return if given = wanted then .jump target else .next

/-- Splits the operand of a static access into type and member. -/
def splitMember (operand : String) : Except Fault (String × String) :=
  match Text.unqualified? operand with
  | some parts => .ok parts
  | none => .error (.invalidProgram ("malformed static member " ++ Fault.quote operand))

end Step

namespace Engine

variable {σ : Type} (e : Engine σ)

/-- Faults if the stack has outgrown its limit. -/
def checkStack : Step σ Unit := do
  if e.limits.stack < (← get).stack.size then throw .stackOverflow

/-- Pushes a value. -/
def push (value : Value) : Step σ Unit := do
  modify fun m => { m with stack := m.stack.push value }
  e.checkStack

/-- Pushes copies of the topmost values. -/
def duplicate (count : Nat) : Step σ Unit := do
  let m ← get
  let size := m.stack.size
  if size < count then throw Step.underflow
  let copies := m.stack.extract (size - count) size
  set { m with stack := m.stack ++ copies }
  e.checkStack

/-- Computes with the two topmost values. -/
def operate (op : BinaryOp) : Step σ Unit := do
  let right ← Step.pop
  let left ← Step.pop
  e.push (.literal (← op.apply left right))

/-- The host type of a name, if there is one. It is asked for only until it is found. -/
def resolve? (name : String) : Step σ (Option TypeHandle) := do
  match (← get).resolved.lookup name with
  | some handle => return some handle
  | none =>
    match ← Step.onHost (ExceptT.lift (e.bridge.resolve name)) with
    | none => return none
    | some handle =>
      modify fun m => { m with resolved := (name, handle) :: m.resolved }
      return some handle

/-- The host type of a name. -/
def resolve (name : String) : Step σ TypeHandle := do
  match ← e.resolve? name with
  | some handle => return handle
  | none => throw (.typeNotFound name)

/-- Constructs an object. A type of the host goes before a built-in one. -/
def construct (type : String) (args : List Value) : Step σ Value := do
  match ← e.resolve? type, Builtin.constructor? type with
  | some handle, _ => Step.onHost (e.bridge.construct handle args)
  | none, some build => Step.onHeap (build args)
  | none, none => throw (.typeNotFound type)

/-- Calls a method of a value. -/
def callMethod (receiver : Value) (method : String) (args : List Value) : Step σ Value := do
  match receiver, (← Step.heap).hasBuiltins receiver with
  | .object r, false => Step.onHost (e.bridge.invoke (.object r) method args)
  | receiver, _ => Step.onHeap (Builtin.call receiver method args)

/-- Reads a field of a value. -/
def getField (receiver : Value) (field : String) : Step σ Value := do
  let h ← Step.heap
  match receiver, h.hasBuiltins receiver with
  | .object r, false => Step.onHost (e.bridge.getField (.object r) field)
  | receiver, _ => liftM (Builtin.getField h receiver field)

/-- Stores into a field of a value. Built-in fields cannot be changed. -/
def setField (receiver : Value) (field : String) (value : Value) : Step σ Unit := do
  match receiver, (← Step.heap).hasBuiltins receiver with
  | .object r, false => Step.onHost (e.bridge.setField (.object r) field value)
  | receiver, _ => throw (.memberNotFound receiver.typeName field)

/-- Enters a function. The values in the innermost window become its first locals. -/
def enter (name : String) (returnAddress : Nat) : Step σ Flow := do
  match e.program.function? name with
  | none => throw (.undefinedFunction name)
  | some f =>
    let start ← Step.closeWindow
    let m ← get
    let given := m.stack.size - start
    if given ≠ f.arity then throw (.wrongArity name f.arity given)
    if e.limits.depth ≤ m.frames.size then throw .stackOverflow
    set { m with base := start, frames := m.frames.push ⟨m.base, returnAddress⟩ }
    return .jump f.address

/-- Leaves the running function, and with it the run if nobody called it. -/
def leave : Step σ Flow := do
  let result ← Step.pop
  let m ← get
  match m.frames.back? with
  | none => return .halt result
  | some frame =>
    set { m with
      stack := m.stack.shrink m.base, base := frame.base, frames := m.frames.pop }
    e.push result
    return .jump frame.returnAddress

/-- Carries out an instruction that does not decide how the run goes on. -/
def perform (i : Instruction) : Step σ Unit := do
  match i.op with
  | .push =>
    match i.literal? with
    | some value => e.push value
    | none => throw (.invalidProgram "PUSH without a literal")
  | .pop => Step.discard i.count
  | .dup => e.duplicate i.count
  | .pushLocal => e.push (← Step.getLocal i.count)
  | .setLocal => Step.setLocal i.count (← Step.peek)
  | .pushGlobal =>
    match (← get).store.globals.get? i.name with
    | some value => e.push value
    | none => throw (.undefinedGlobal i.name)
  | .setGlobal =>
    let value ← Step.peek
    modify fun m => { m with store.globals := m.store.globals.set i.name value }
  | .makeList =>
    let items ← Step.takeWindow
    e.push (← Step.onHeap (modifyGet (·.newList items)))
  | .pushElement =>
    let index ← Step.pop
    let target ← Step.pop
    e.push (← (← Step.heap).element target index)
  | .setElement | .setElementCached =>
    let value ← Step.pop
    let index ← Step.pop
    let target ← Step.pop
    Step.onHeap (Heap.setElement target index value)
    e.push value
  | .binary op => e.operate op
  | .invert => e.push (.literal (← (← Step.pop).invert))
  | .openWindow => Step.openWindow
  | .construct =>
    let args ← Step.takeWindow
    e.push (← e.construct i.name args.toList)
  | .callStatic =>
    let args ← Step.takeWindow
    let (type, method) ← Step.splitMember i.name
    let handle ← e.resolve type
    e.push (← Step.onHost (e.bridge.invoke (.type handle) method args.toList))
  | .callMethod =>
    let args ← Step.takeWindow
    let receiver ← Step.pop
    e.push (← e.callMethod receiver i.name args.toList)
  | .pushField =>
    let receiver ← Step.pop
    e.push (← e.getField receiver i.name)
  | .setField =>
    let value ← Step.pop
    let receiver ← Step.pop
    e.setField receiver i.name value
    e.push value
  | .pushStaticField =>
    let (type, field) ← Step.splitMember i.name
    let handle ← e.resolve type
    e.push (← Step.onHost (e.bridge.getField (.type handle) field))
  | .setStaticField =>
    let value ← Step.peek
    let (type, field) ← Step.splitMember i.name
    let handle ← e.resolve type
    Step.onHost (e.bridge.setField (.type handle) field value)
  | .jump | .jumpIfFalse | .jumpIfTrue | .call | .giveBack => return

/-- Carries out the instruction at an address. -/
def step (i : Instruction) (address : Nat) : Step σ Flow := do
  match i.op with
  | .jump => return .jump i.count
  | .jumpIfFalse => Step.jumpIf false i.count
  | .jumpIfTrue => Step.jumpIf true i.count
  | .call => e.enter i.name (address + 1)
  | .giveBack => e.leave
  | _ =>
    e.perform i
    return .next

end Engine

end StackScript
