import StackScript.Ast
import StackScript.Bytecode.Program
import StackScript.Text.Qualified

/-!
# Code generation

The code of a tree, laid out from a given address on. Expressions leave one value on the stack.
Locals live in slots counted from the base of the frame, so a scope is the list of the names in scope,
innermost first, and leaving it discards their values.

With `folding`, an operator whose operands are literals is computed on the spot. The two ways of
generating code are one function, so that they can be compared.
-/

namespace StackScript

/-! ### Small pieces -/

/-- The slot of a local: how many locals were declared before the innermost one of that name. -/
def slot? (name : String) : (scope : List String) → Option Nat
  | [] => none
  | own :: outer => if own = name then some outer.length else slot? name outer

namespace Code

/-- A push of a literal. -/
def push (l : Literal) (line : Nat) : Instruction := ⟨.push, .literal (.literal l), line⟩

/-- The literal that a row of instructions pushes, if it does nothing else. -/
def literal? : List Instruction → Option Literal
  | [⟨.push, .literal (.literal l), _⟩] => some l
  | _ => none

/-- Discards locals, if there are any. -/
def discard (count line : Nat) : List Instruction :=
  if count = 0 then [] else [⟨.pop, .count count, line⟩]

/-- An operator behind the code of its operands. -/
def binary (folding : Bool) (op : BinaryOp) (line : Nat) (left right : List Instruction) :
    List Instruction :=
  let plain := left ++ right ++ [⟨.binary op, .none, line⟩]
  if folding then
    match literal? left, literal? right with
    | some a, some b =>
      match op.apply (.literal a) (.literal b) with
      | .ok result => [push result line]
      | .error _ => plain
    | _, _ => plain
  else plain

/-- A negation behind the code of its operand. A computed one keeps the line of its operand. -/
def invert (folding : Bool) (line : Nat) (operand : List Instruction) : List Instruction :=
  let plain := operand ++ [⟨.invert, .none, line⟩]
  if folding then
    match operand with
    | [⟨.push, .literal (.literal l), pushLine⟩] =>
      match Value.invert (.literal l) with
      | .ok result => [push result pushLine]
      | .error _ => plain
    | _ => plain
  else plain

/-- Fills in the target of the jumps that leave a loop. -/
def resolve (exit : Nat) (code : List Instruction) : List Instruction :=
  code.map fun i =>
    if i.operand = .target .unresolved then { i with operand := .target (.address exit) } else i

end Code

/-- The operation and operand that read a place. -/
def Place.access (scope : List String) : Place → Operation × Operand
  | .variable name =>
    match slot? name scope with
    | some slot => (.pushLocal, .slot slot)
    | none => (.pushGlobal, .name name)
  | .element _ _ => (.pushElement, .none)
  | .field _ name => (.pushField, .name name)
  | .staticField type member => (.pushStaticField, .name (Text.qualified type member))

/-- The operation that stores into a place. -/
def Place.store (scope : List String) : Place → Operation
  | .variable name => if (slot? name scope).isSome then .setLocal else .setGlobal
  | .element _ _ => .setElement
  | .field _ _ => .setField
  | .staticField _ _ => .setStaticField

/-- The operation that stores into a place after a compound assignment. -/
def Place.storeAgain (scope : List String) : Place → Operation
  | .element _ _ => .setElementCached
  | place => place.store scope

/-- How many values the access to a place takes from the stack. -/
def Place.operands : Place → Nat
  | .variable _ => 0
  | .element _ _ => 2
  | .field _ _ => 1
  | .staticField _ _ => 0

/-- The instruction that a connective tests its first operand with. -/
def Connective.exit : Connective → Operation
  | and => .jumpIfFalse
  | or => .jumpIfTrue

/-! ### Expressions -/

mutual

/-- The code of an expression. -/
def Expr.code (folding : Bool) (scope : List String) (start : Nat) : Expr → List Instruction
  | .literal l line => [Code.push l line]
  | .read place line =>
    let (op, operand) := place.access scope
    place.code folding scope start ++ [⟨op, operand, line⟩]
  | .assign place value line =>
    let target := place.code folding scope start
    target ++ value.code folding scope (start + target.length) ++
      [⟨place.store scope, (place.access scope).2, line⟩]
  | .update place op value readLine storeLine =>
    let (read, operand) := place.access scope
    let target := place.code folding scope start ++
      (if place.operands = 0 then [] else [⟨.dup, .count place.operands, readLine⟩]) ++
      [⟨read, operand, readLine⟩]
    target ++ value.code folding scope (start + target.length) ++
      [⟨.binary op, .none, storeLine⟩, ⟨place.storeAgain scope, operand, storeLine⟩]
  | .negate operand signLine line =>
    Code.binary folding .sub line [Code.push (.int 0) signLine]
      (operand.code folding scope (start + 1))
  | .not operand line => Code.invert folding line (operand.code folding scope start)
  | .binary op left right line =>
    let first := left.code folding scope start
    let code := Code.binary folding op.base line first
      (right.code folding scope (start + first.length))
    if op.isNegated then Code.invert folding line code else code
  | .connect op left right line =>
    let first := left.code folding scope start
    let second := right.code folding scope (start + first.length + 3)
    let exit := start + first.length + 3 + second.length
    first ++ [⟨.dup, .count 1, line⟩, ⟨op.exit, .target (.address exit), line⟩,
      ⟨.pop, .count 1, line⟩] ++ second
  | .list items openLine closeLine =>
    ⟨.openWindow, .none, openLine⟩ :: (codeAll folding scope (start + 1) items ++
      [⟨.makeList, .none, closeLine⟩])
  | .call name args openLine closeLine =>
    ⟨.openWindow, .none, openLine⟩ :: (codeAll folding scope (start + 1) args ++
      [⟨.call, .name name, closeLine⟩])
  | .construct type args openLine closeLine =>
    ⟨.openWindow, .none, openLine⟩ :: (codeAll folding scope (start + 1) args ++
      [⟨.construct, .name type, closeLine⟩])
  | .callStatic type member args openLine closeLine =>
    ⟨.openWindow, .none, openLine⟩ :: (codeAll folding scope (start + 1) args ++
      [⟨.callStatic, .name (Text.qualified type member), closeLine⟩])
  | .callMethod receiver name args openLine closeLine =>
    let first := receiver.code folding scope start
    first ++ ⟨.openWindow, .none, openLine⟩ ::
      (codeAll folding scope (start + first.length + 1) args ++
        [⟨.callMethod, .name name, closeLine⟩])

/-- The code that brings the operands of an access to a place onto the stack. -/
def Place.code (folding : Bool) (scope : List String) (start : Nat) : Place → List Instruction
  | .variable _ => []
  | .element target index =>
    let first := target.code folding scope start
    first ++ index.code folding scope (start + first.length)
  | .field receiver _ => receiver.code folding scope start
  | .staticField _ _ => []

/-- The code of expressions one after the other. -/
def codeAll (folding : Bool) (scope : List String) (start : Nat) : List Expr → List Instruction
  | [] => []
  | e :: rest =>
    let first := e.code folding scope start
    first ++ codeAll folding scope (start + first.length) rest

end

/-! ### Statements -/

/-- A loop that statements stand in: where its next turn begins, and how many locals lie outside
it. -/
structure LoopFrame where
  top : Nat
  outside : Nat

/-- The scope behind a statement. -/
def Stmt.scopeAfter (scope : List String) : Stmt → List String
  | .declare name _ => name :: scope
  | _ => scope

/-- The scope behind a row of statements. -/
def scopeAfterAll (scope : List String) (body : List Stmt) : List String :=
  body.foldl Stmt.scopeAfter scope

mutual

/-- The code of a statement. Jumps out of the loop around it are left unresolved. -/
def Stmt.code (folding : Bool) (loop : Option LoopFrame) (scope : List String) (start : Nat) :
    Stmt → List Instruction
  | .declare _ value => value.code folding scope start
  | .giveBack value line => value.code folding scope start ++ [⟨.giveBack, .none, line⟩]
  | .ifThen condition line body closeLine =>
    let test := condition.code folding scope start
    let body := blockCode folding loop scope (start + test.length + 1) body closeLine
    let exit := start + test.length + 1 + body.length
    test ++ ⟨.jumpIfFalse, .target (.address exit), line⟩ :: body
  | .ifElse condition line body closeLine elseLine alternative =>
    let test := condition.code folding scope start
    let body := blockCode folding loop scope (start + test.length + 1) body closeLine
    let turn := start + test.length + 1 + body.length + 1
    let alternative := alternative.code folding loop scope turn
    let exit := turn + alternative.length
    test ++ ⟨.jumpIfFalse, .target (.address turn), line⟩ ::
      (body ++ ⟨.jump, .target (.address exit), elseLine⟩ :: alternative)
  | .whileLoop condition line body closeLine =>
    let test := condition.code folding scope start
    let body := blockCode folding (some ⟨start, scope.length⟩) scope (start + test.length + 1) body
      closeLine
    let exit := start + test.length + 1 + body.length + 1
    test ++ ⟨.jumpIfFalse, .target (.address exit), line⟩ ::
      (Code.resolve exit body ++ [⟨.jump, .target (.address start), closeLine⟩])
  | .forIn name items line body closeLine =>
    let source := items.code folding scope start ++
      [⟨.openWindow, .none, line⟩, ⟨.callMethod, .name "GetEnumerator", line⟩]
    let top := start + source.length
    let body := blockCode folding (some ⟨top, scope.length + 1⟩) (name :: "$enumerator" :: scope)
      (top + 6) body closeLine
    let exit := top + 6 + body.length + 2
    source ++ [⟨.dup, .count 1, line⟩, ⟨.openWindow, .none, line⟩,
      ⟨.callMethod, .name "MoveNext", line⟩, ⟨.jumpIfFalse, .target (.address exit), line⟩,
      ⟨.dup, .count 1, line⟩, ⟨.pushField, .name "Current", line⟩] ++
      (Code.resolve exit body ++ [⟨.pop, .count 1, closeLine⟩,
        ⟨.jump, .target (.address top), closeLine⟩, ⟨.pop, .count 1, closeLine⟩])
  | .breakLoop line =>
    match loop with
    | none => []
    | some frame =>
      Code.discard (scope.length - frame.outside) line ++ [⟨.jump, .target .unresolved, line⟩]
  | .continueLoop line =>
    match loop with
    | none => []
    | some frame =>
      Code.discard (scope.length - frame.outside) line ++
        [⟨.jump, .target (.address frame.top), line⟩]
  | .block body closeLine => blockCode folding loop scope start body closeLine
  | .expression value line => value.code folding scope start ++ [⟨.pop, .count 1, line⟩]

/-- The code of a block: its statements, and the end of its scope. -/
def blockCode (folding : Bool) (loop : Option LoopFrame) (scope : List String) (start : Nat)
    (body : List Stmt) (closeLine : Nat) : List Instruction :=
  bodyCode folding loop scope start body ++
    Code.discard ((scopeAfterAll scope body).length - scope.length) closeLine

/-- The code of statements one after the other. -/
def bodyCode (folding : Bool) (loop : Option LoopFrame) (scope : List String) (start : Nat) :
    List Stmt → List Instruction
  | [] => []
  | s :: rest =>
    let first := s.code folding loop scope start
    first ++ bodyCode folding loop (s.scopeAfter scope) (start + first.length) rest

end

/-! ### Declarations -/

/-- The code that initialises globals. -/
def globalsCode (folding : Bool) (start : Nat) : List GlobalDecl → List Instruction
  | [] => []
  | g :: rest =>
    let first := g.value.code folding [] start ++
      [⟨.setGlobal, .name g.name, g.line⟩, ⟨.pop, .count 1, g.line⟩]
    first ++ globalsCode folding (start + first.length) rest

/-- A function that comes to its end gives back null. -/
def epilogue (line : Nat) : List Instruction :=
  [Code.push .null line, ⟨.giveBack, .none, line⟩]

/-- The code of a function. -/
def FunctionDecl.code (folding : Bool) (start : Nat) (f : FunctionDecl) : List Instruction :=
  blockCode folding none f.params.reverse start f.body f.closeLine ++ epilogue f.closeLine

/-- The code of functions one after the other, with their entries. -/
def functionsCode (folding : Bool) (start : Nat) :
    List FunctionDecl → List FunctionEntry × List Instruction
  | [] => ([], [])
  | f :: rest =>
    let first := f.code folding start
    let (entries, code) := functionsCode folding (start + first.length) rest
    (⟨f.name, f.params.length, start⟩ :: entries, first ++ code)

/-- The line that the end of the initialiser is reported under: that of the last global. -/
def Script.initializerLine (s : Script) : Nat :=
  match s.globals.getLast? with
  | some g => g.line
  | none => 1

/-- The program of a script. -/
def Script.program (folding : Bool) (s : Script) : Program :=
  let initializer := globalsCode folding 0 s.globals ++ epilogue s.initializerLine
  let (entries, code) := functionsCode folding initializer.length s.functions
  ⟨(initializer ++ code).toArray, ⟨initializerName, 0, 0⟩ :: entries, s.globals.map (·.name)⟩

end StackScript
