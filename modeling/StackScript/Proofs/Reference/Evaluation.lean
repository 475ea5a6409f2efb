import StackScript.Bytecode.Generation
import StackScript.Proofs.Machine.Work

/-!
# A reference evaluator

What scripts mean, told by walking their trees. Names are looked up in the locals in scope, innermost
first, and then among the globals; operands are evaluated from left to right; a place is evaluated to a
*location* before it is read or assigned, so that its receiver and its index are evaluated once.

There is no bytecode, no stack and no slot here, and the enumerator of a loop over elements is held by
the evaluator itself. What scripts ask of lists, texts and hosts is asked as the machine asks it, on the
memory of the scene (`Step.onBare`).

Loops and calls need not end, so they are given fuel for a number of turns and of nested calls. An
evaluation that uses up its fuel has no result.
-/

namespace StackScript

variable {σ α : Type}

/-- What a script works on: the locals in scope, innermost first, and the memory. -/
structure Scene (σ : Type) where
  locals : List (String × Value)
  memory : Memory σ

/-- Work on a scene that may fail, and may use up its fuel. -/
abbrev Evaluation (σ : Type) := ExceptT Fault (StateT (Scene σ) Option)

/-- How functions are called: with a name and arguments, on a memory. -/
abbrev Caller (σ : Type) := String → List Value → Memory σ → Option (Except Fault Value × Memory σ)

/-- How a statement ends. -/
inductive Signal where
  | next
  | broke
  | continued
  | gaveBack (value : Value)

/-- An engine without a program, for what scripts ask of lists, texts and the host. -/
def Bridge.engine (bridge : Bridge σ) : Engine σ := ⟨.ofCode #[], bridge, .standard⟩

namespace Evaluation

/-- No result. -/
def outOfFuel : Evaluation σ α := ExceptT.mk fun _ => none

/-- Work on the memory. -/
def onMemory (x : Step σ α) : Evaluation σ α :=
  ExceptT.mk fun s =>
    let (result, memory) := x.onBare s.memory
    some (result, { s with memory := memory })

/-- Calls a function. It has locals of its own. -/
def calling (call : Memory σ → Option (Except Fault Value × Memory σ)) : Evaluation σ Value :=
  ExceptT.mk fun s => (call s.memory).map fun (result, memory) => (result, { s with memory := memory })

/-- The result of an operator. -/
def compute (result : Except Fault Literal) : Evaluation σ Value :=
  match result with
  | .ok l => return .literal l
  | .error fault => throw fault

/-- A condition, which has to be a truth value. -/
def condition (x : Evaluation σ Value) : Evaluation σ Bool := do
  let v ← x
  match v.asBool? with
  | some given => return given
  | none => throw (.nonBooleanCondition v.typeName)

/-- Declares a local. -/
def declare (name : String) (value : Value) : Evaluation σ Unit :=
  modify fun s => { s with locals := (name, value) :: s.locals }

/-- A block: what it declares is forgotten at its end. -/
def enclosed (body : Evaluation σ Signal) : Evaluation σ Signal := do
  let outer := (← get).locals.length
  let signal ← body
  modify fun s => { s with locals := s.locals.drop (s.locals.length - outer) }
  return signal

/-- A loop: turns as long as a condition holds. -/
def repeatWhile : (fuel : Nat) → (test : Evaluation σ Bool) → (body : Evaluation σ Signal) →
    Evaluation σ Signal
  | 0, _, _ => outOfFuel
  | fuel + 1, test, body => do
    if ← test then
      match ← body with
      | .next | .continued => repeatWhile fuel test body
      | .broke => return .next
      | .gaveBack v => return .gaveBack v
    else return .next

end Evaluation

/-- Gives the innermost local of a name another value. -/
def assignLocal (name : String) (value : Value) :
    (locals : List (String × Value)) → List (String × Value)
  | [] => []
  | (own, old) :: outer =>
    if own = name then (own, value) :: outer else (own, old) :: assignLocal name value outer

/-- A place whose receiver and index have been evaluated. -/
inductive Location where
  | variable (name : String)
  | element (target index : Value)
  | field (receiver : Value) (name : String)
  | staticField (type member : String)

/-- The first operand that decides a connective. -/
def Connective.decisive : Connective → Bool
  | and => false
  | or => true

section Evaluator

open Evaluation

variable (bridge : Bridge σ)

namespace Location

/-- Reads a location. -/
def get : Location → Evaluation σ Value
  | .variable name => do
    match (← MonadState.get).locals.lookup name with
    | some value => return value
    | none => onMemory do
      match (← MonadState.get).store.globals.get? name with
      | some value => return value
      | none => throw (.undefinedGlobal name)
  | .element target index => onMemory do (← Step.heap).element target index
  | .field receiver name => onMemory (bridge.engine.getField receiver name)
  | .staticField type member => onMemory do
    let handle ← bridge.engine.resolve type
    Step.onHost (bridge.getField (.type handle) member)

/-- Stores into a location. -/
def set (value : Value) : Location → Evaluation σ Unit
  | .variable name => do
    if ((← MonadState.get).locals.lookup name).isSome then
      modify fun s => { s with locals := assignLocal name value s.locals }
    else onMemory <|
      modify fun m => { m with store.globals := m.store.globals.set name value }
  | .element target index => onMemory (Step.onHeap (Heap.setElement target index value))
  | .field receiver name => onMemory (bridge.engine.setField receiver name value)
  | .staticField type member => onMemory do
    let handle ← bridge.engine.resolve type
    Step.onHost (bridge.setField (.type handle) member value)

end Location

variable (call : Caller σ)

mutual

/-- The value of an expression. -/
def Expr.eval : Expr → Evaluation σ Value
  | .literal value _ => return .literal value
  | .read place _ => do
    let location ← place.eval
    location.get bridge
  | .assign place value _ => do
    let location ← place.eval
    let v ← value.eval
    location.set bridge v
    return v
  | .update place op value _ _ => do
    let location ← place.eval
    let old ← location.get bridge
    let v ← value.eval
    let new ← compute (op.apply old v)
    location.set bridge new
    return new
  | .negate operand _ _ => do
    let v ← operand.eval
    compute (BinaryOp.sub.apply (.int 0) v)
  | .not operand _ => do
    let v ← operand.eval
    compute v.invert
  | .binary op left right _ => do
    let a ← left.eval
    let b ← right.eval
    let result ← compute (op.base.apply a b)
    if op.isNegated then compute result.invert else return result
  | .connect op left right _ => do
    let v ← left.eval
    let given ← condition (return v)
    if given = op.decisive then return v else right.eval
  | .list items _ _ => do
    let values ← evalAll items
    onMemory (Step.onHeap (modifyGet (·.newList values.toArray)))
  | .call name args _ _ => do
    let values ← evalAll args
    calling (call name values)
  | .construct type args _ _ => do
    let values ← evalAll args
    onMemory (bridge.engine.construct type values)
  | .callStatic type member args _ _ => do
    let values ← evalAll args
    onMemory do
      let handle ← bridge.engine.resolve type
      Step.onHost (bridge.invoke (.type handle) member values)
  | .callMethod receiver name args _ _ => do
    let v ← receiver.eval
    let values ← evalAll args
    onMemory (bridge.engine.callMethod v name values)

/-- The location that a place is. -/
def Place.eval : Place → Evaluation σ Location
  | .variable name => return .variable name
  | .element target index => do
    let t ← target.eval
    let i ← index.eval
    return .element t i
  | .field receiver name => do
    let v ← receiver.eval
    return .field v name
  | .staticField type member => return .staticField type member

/-- The values of expressions one after the other. -/
def evalAll : List Expr → Evaluation σ (List Value)
  | [] => return []
  | e :: rest => do
    let v ← e.eval
    let values ← evalAll rest
    return v :: values

end

variable (fuel : Nat)

mutual

/-- How a statement ends, in a loop or outside of loops. -/
def Stmt.eval (loop : Bool) : Stmt → Evaluation σ Signal
  | .declare name value => do
    let v ← value.eval bridge call
    declare name v
    return .next
  | .giveBack value _ => do
    let v ← value.eval bridge call
    return .gaveBack v
  | .ifThen test _ body _ => do
    if ← condition (test.eval bridge call) then enclosed (evalBody loop body) else return .next
  | .ifElse test _ body _ _ alternative => do
    if ← condition (test.eval bridge call) then enclosed (evalBody loop body)
    else alternative.eval loop
  | .whileLoop test _ body _ =>
    repeatWhile fuel (condition (test.eval bridge call)) (enclosed (evalBody true body))
  | .forIn name items _ body _ => do
    let collection ← items.eval bridge call
    let enumerator ← onMemory (bridge.engine.callMethod collection "GetEnumerator" [])
    repeatWhile fuel (condition (onMemory (bridge.engine.callMethod enumerator "MoveNext" [])))
      (enclosed do
        let v ← onMemory (bridge.engine.getField enumerator "Current")
        declare name v
        enclosed (evalBody true body))
  | .breakLoop _ => return if loop then .broke else .next
  | .continueLoop _ => return if loop then .continued else .next
  | .block body _ => enclosed (evalBody loop body)
  | .expression value _ => do
    let _ ← value.eval bridge call
    return .next

/-- How a row of statements ends. Only a statement that goes on is followed by the next one. -/
def evalBody (loop : Bool) : List Stmt → Evaluation σ Signal
  | [] => return .next
  | s :: rest => do
    match ← s.eval loop with
    | .next => evalBody loop rest
    | signal => return signal

end

/-- Runs a function. If it comes to its end, it gives back null. -/
def FunctionDecl.evaluate (f : FunctionDecl) (args : List Value) (memory : Memory σ) :
    Option (Except Fault Value × Memory σ) :=
  ((evalBody bridge call fuel false f.body).run.run ⟨(f.params.zip args).reverse, memory⟩).map fun
    | (.ok (.gaveBack v), s) => (.ok v, s.memory)
    | (.ok _, s) => (.ok .null, s.memory)
    | (.error fault, s) => (.error fault, s.memory)

end Evaluator

namespace Script

/-- The function that gives the globals their first values. -/
def initializer (s : Script) : FunctionDecl where
  name := initializerName
  params := []
  body := s.globals.map fun g => .expression (.assign (.variable g.name) g.value g.line) g.line
  closeLine := s.initializerLine

/-- The function with a given name. -/
def function? (s : Script) (name : String) : Option FunctionDecl :=
  (s.initializer :: s.functions).find? (·.name == name)

/-- Calls a function of a script. -/
def evaluate (bridge : Bridge σ) (s : Script) : (fuel : Nat) → Caller σ
  | 0, _, _, _ => none
  | fuel + 1, name, args, memory =>
    match s.function? name with
    | none => some (.error (.undefinedFunction name), memory)
    | some f =>
      if f.params.length ≠ args.length then
        some (.error (.wrongArity name f.params.length args.length), memory)
      else f.evaluate bridge (s.evaluate bridge fuel) fuel args memory

end Script

end StackScript
