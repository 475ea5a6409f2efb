import StackScript.Proofs.Layout.Program

/-!
# Accesses to static members

A script calls a static member, reads it or stores into it, and a compound assignment does both of the latter.
The accesses of a script are listed in the order in which they are made where nothing jumps: arguments come
before their call, and the value of an assignment before the store (`Script.accesses`). In this order they
stand in the code, one instruction for each of them and no others (`Script.statics_program`). The instruction
has the names of the type and of the member joined into one.
-/

namespace StackScript

/-- What is done with a static member. -/
inductive StaticUse where
  | call | read | store
  deriving DecidableEq

/-- An access to a member of a type. -/
structure StaticAccess where
  use : StaticUse
  type : String
  member : String
  deriving DecidableEq

namespace StaticAccess

/-- The name by which code knows an access. -/
def operand (a : StaticAccess) : String :=
  Text.qualified a.type a.member

/-- How an access stands in code. -/
def encoded (a : StaticAccess) : StaticUse × String :=
  (a.use, a.operand)

end StaticAccess

/-! ### The accesses of a script -/

/-- The access to a place itself, if it is a static field. -/
def Place.staticAccess (use : StaticUse) : Place → List StaticAccess
  | .staticField type member => [⟨use, type, member⟩]
  | .variable _ | .element _ _ | .field _ _ => []

mutual

/-- The accesses in the operands of a place. -/
def Place.accesses : Place → List StaticAccess
  | .variable _ => []
  | .element target index => target.accesses ++ index.accesses
  | .field receiver _ => receiver.accesses
  | .staticField _ _ => []

/-- The accesses in an expression. -/
def Expr.accesses : Expr → List StaticAccess
  | .literal _ _ => []
  | .read place _ => place.accesses ++ place.staticAccess .read
  | .assign place value _ => place.accesses ++ value.accesses ++ place.staticAccess .store
  | .update place _ value _ _ =>
    place.accesses ++ place.staticAccess .read ++ value.accesses ++ place.staticAccess .store
  | .negate operand _ _ => operand.accesses
  | .not operand _ => operand.accesses
  | .binary _ left right _ => left.accesses ++ right.accesses
  | .connect _ left right _ => left.accesses ++ right.accesses
  | .list items _ _ => accessesAll items
  | .call _ args _ _ => accessesAll args
  | .construct _ args _ _ => accessesAll args
  | .callStatic type member args _ _ => accessesAll args ++ [⟨.call, type, member⟩]
  | .callMethod receiver _ args _ _ => receiver.accesses ++ accessesAll args

/-- The accesses in the expressions of a row. -/
def accessesAll : List Expr → List StaticAccess
  | [] => []
  | e :: rest => e.accesses ++ accessesAll rest

end

mutual

/-- The accesses in a statement. -/
def Stmt.accesses : Stmt → List StaticAccess
  | .declare _ value => value.accesses
  | .giveBack value _ => value.accesses
  | .ifThen condition _ body _ => condition.accesses ++ bodyAccesses body
  | .ifElse condition _ body _ _ alternative =>
    condition.accesses ++ bodyAccesses body ++ alternative.accesses
  | .whileLoop condition _ body _ => condition.accesses ++ bodyAccesses body
  | .forIn _ items _ body _ => items.accesses ++ bodyAccesses body
  | .breakLoop _ | .continueLoop _ => []
  | .block body _ => bodyAccesses body
  | .expression value _ => value.accesses

/-- The accesses in the statements of a row. -/
def bodyAccesses : List Stmt → List StaticAccess
  | [] => []
  | s :: rest => s.accesses ++ bodyAccesses rest

end

/-- All accesses in a script. -/
def Script.accesses (s : Script) : List StaticAccess :=
  s.globals.flatMap (·.value.accesses) ++ s.functions.flatMap (bodyAccesses ·.body)

/-! ### Their instructions -/

/-- What an instruction does with static members, and by which name it knows them. -/
def Instruction.static? (i : Instruction) : Option (StaticUse × String) :=
  match i.op with
  | .callStatic => some (.call, i.name)
  | .pushStaticField => some (.read, i.name)
  | .setStaticField => some (.store, i.name)
  | _ => none

namespace Code

/-- The static accesses in code. -/
def statics (code : List Instruction) : List (StaticUse × String) :=
  code.filterMap Instruction.static?

@[simp]
theorem statics_nil : statics [] = [] :=
  rfl

@[simp]
theorem statics_cons (i : Instruction) (code : List Instruction) :
    statics (i :: code) = i.static?.toList ++ statics code := by
  rw [statics, List.filterMap_cons]
  cases i.static? <;> rfl

@[simp]
theorem statics_append (code code' : List Instruction) :
    statics (code ++ code') = statics code ++ statics code' :=
  List.filterMap_append

@[simp]
theorem static?_push (l : Literal) (line : Nat) : (push l line).static? = none :=
  rfl

@[simp]
theorem statics_discard (count line : Nat) : statics (discard count line) = [] := by
  unfold discard
  split <;> rfl

/-- Resolving a jump leaves the accesses alone. -/
@[simp]
theorem statics_resolve (exit : Nat) (code : List Instruction) :
    statics (resolve exit code) = statics code := by
  rw [statics, resolve, List.filterMap_map, statics]
  congr 1
  funext i
  rw [Function.comp_apply]
  split
  case isTrue h =>
    obtain ⟨op, operand, line⟩ := i
    obtain rfl : operand = .target .unresolved := h
    cases op <;> rfl
  case isFalse => rfl

@[simp]
theorem statics_binary (folding : Bool) (op : BinaryOp) (line : Nat) (left right : List Instruction) :
    statics (binary folding op line left right) = statics left ++ statics right := by
  rcases binary_cases folding op line left right with ⟨_, _, l, _, _, rfl, rfl, _, h⟩ | h <;> rw [h]
  · rfl
  · simp [Instruction.static?]

@[simp]
theorem statics_invert (folding : Bool) (line : Nat) (operand : List Instruction) :
    statics (invert folding line operand) = statics operand := by
  rcases invert_cases folding line operand with ⟨_, l, pushLine, rfl, _, h⟩ | h <;> rw [h]
  · rfl
  · simp [Instruction.static?]

end Code

namespace Place

/-- The instruction that reads a place. -/
@[simp]
theorem static?_access (place : Place) (scope : List String) (line : Nat) :
    (Instruction.static? ⟨(place.access scope).1, (place.access scope).2, line⟩).toList =
      (place.staticAccess .read).map StaticAccess.encoded := by
  cases place with
  | «variable» name =>
    rw [access]
    split <;> rfl
  | element | field | staticField => rfl

/-- The instruction that stores into a place. -/
@[simp]
theorem static?_store (place : Place) (scope : List String) (line : Nat) :
    (Instruction.static? ⟨place.store scope, (place.access scope).2, line⟩).toList =
      (place.staticAccess .store).map StaticAccess.encoded := by
  cases place with
  | «variable» name =>
    rw [store, access]
    split <;> rfl
  | element | field | staticField => rfl

@[simp]
theorem static?_storeAgain (place : Place) (scope : List String) (line : Nat) :
    (Instruction.static? ⟨place.storeAgain scope, (place.access scope).2, line⟩).toList =
      (place.staticAccess .store).map StaticAccess.encoded := by
  cases place with
  | element => rfl
  | «variable» name => exact static?_store (.variable name) scope line
  | field receiver name => exact static?_store (.field receiver name) scope line
  | staticField type member => exact static?_store (.staticField type member) scope line

end Place

open Code in
mutual

theorem Expr.statics_code (folding : Bool) (scope : List String) (start : Nat) :
    (e : Expr) → statics (e.code folding scope start) = e.accesses.map StaticAccess.encoded
  | .literal l line => by simp [Expr.code, Expr.accesses]
  | .read place line => by simp [Expr.code, Expr.accesses, place.statics_code]
  | .assign place value line => by
    simp [Expr.code, Expr.accesses, place.statics_code, value.statics_code]
  | .update place op value readLine storeLine => by
    have hdup : statics (if place.operands = 0 then []
        else [⟨.dup, .count place.operands, readLine⟩]) = [] := by
      split <;> rfl
    have hop : Instruction.static? ⟨.binary op, .none, storeLine⟩ = none := rfl
    simp [Expr.code, Expr.accesses, place.statics_code, value.statics_code, hdup, hop]
  | .negate operand signLine line => by simp [Expr.code, Expr.accesses, operand.statics_code]
  | .not operand line => by simp [Expr.code, Expr.accesses, operand.statics_code]
  | .binary op left right line => by
    rw [Expr.code, Expr.accesses]
    split <;> simp [left.statics_code, right.statics_code]
  | .connect op left right line => by
    cases op <;> simp [Expr.code, Expr.accesses, left.statics_code, right.statics_code, Instruction.static?,
      Connective.exit]
  | .list items openLine closeLine => by
    simp [Expr.code, Expr.accesses, statics_codeAll items, Instruction.static?]
  | .call name args openLine closeLine => by
    simp [Expr.code, Expr.accesses, statics_codeAll args, Instruction.static?]
  | .construct type args openLine closeLine => by
    simp [Expr.code, Expr.accesses, statics_codeAll args, Instruction.static?]
  | .callStatic type member args openLine closeLine => by
    simp [Expr.code, Expr.accesses, statics_codeAll args, Instruction.static?]
    rfl
  | .callMethod receiver name args openLine closeLine => by
    simp [Expr.code, Expr.accesses, receiver.statics_code, statics_codeAll args, Instruction.static?]

theorem Place.statics_code (folding : Bool) (scope : List String) (start : Nat) :
    (place : Place) → statics (place.code folding scope start) =
      place.accesses.map StaticAccess.encoded
  | .variable name => by simp [Place.code, Place.accesses]
  | .element target index => by
    simp [Place.code, Place.accesses, target.statics_code, index.statics_code]
  | .field receiver name => by simp [Place.code, Place.accesses, receiver.statics_code]
  | .staticField type member => by simp [Place.code, Place.accesses]

theorem statics_codeAll {folding : Bool} {scope : List String} {start : Nat} :
    (items : List Expr) → statics (codeAll folding scope start items) =
      (accessesAll items).map StaticAccess.encoded
  | [] => by simp [codeAll, accessesAll]
  | e :: rest => by simp [codeAll, accessesAll, e.statics_code, statics_codeAll rest]

end

open Code in
mutual

theorem Stmt.statics_code (folding : Bool) (loop : Option LoopFrame) (scope : List String)
    (start : Nat) : (s : Stmt) → statics (s.code folding loop scope start) =
      s.accesses.map StaticAccess.encoded
  | .declare name value => by simp [Stmt.code, Stmt.accesses, value.statics_code]
  | .giveBack value line => by simp [Stmt.code, Stmt.accesses, value.statics_code, Instruction.static?]
  | .ifThen condition line body closeLine => by
    simp [Stmt.code, Stmt.accesses, blockCode, condition.statics_code, statics_body body,
      Instruction.static?]
  | .ifElse condition line body closeLine elseLine alternative => by
    simp [Stmt.code, Stmt.accesses, blockCode, condition.statics_code, statics_body body,
      alternative.statics_code, Instruction.static?]
  | .whileLoop condition line body closeLine => by
    simp [Stmt.code, Stmt.accesses, blockCode, condition.statics_code, statics_body body,
      Instruction.static?]
  | .forIn name items line body closeLine => by
    simp [Stmt.code, Stmt.accesses, blockCode, items.statics_code, statics_body body,
      Instruction.static?]
  | .breakLoop line => by cases loop <;> simp [Stmt.code, Stmt.accesses, Instruction.static?]
  | .continueLoop line => by cases loop <;> simp [Stmt.code, Stmt.accesses, Instruction.static?]
  | .block body closeLine => by simp [Stmt.code, Stmt.accesses, blockCode, statics_body body]
  | .expression value line => by simp [Stmt.code, Stmt.accesses, value.statics_code, Instruction.static?]

theorem statics_body {folding : Bool} {loop : Option LoopFrame} {scope : List String} {start : Nat} :
    (body : List Stmt) → statics (bodyCode folding loop scope start body) =
      (bodyAccesses body).map StaticAccess.encoded
  | [] => by simp [bodyCode, bodyAccesses]
  | s :: rest => by simp [bodyCode, bodyAccesses, s.statics_code, statics_body rest]

end

@[simp]
theorem statics_epilogue (line : Nat) : Code.statics (epilogue line) = [] :=
  rfl

theorem statics_globalsCode (folding : Bool) (start : Nat) (globals : List GlobalDecl) :
    Code.statics (globalsCode folding start globals) =
      (globals.flatMap (·.value.accesses)).map StaticAccess.encoded := by
  induction globals generalizing start with
  | nil => rfl
  | cons g rest ih => simp [globalsCode, g.value.statics_code, ih, Instruction.static?]

theorem statics_functionsCode (folding : Bool) (start : Nat) (functions : List FunctionDecl) :
    Code.statics (functionsCode folding start functions).2 =
      (functions.flatMap (bodyAccesses ·.body)).map StaticAccess.encoded := by
  induction functions generalizing start with
  | nil => rfl
  | cons f rest ih =>
    simp [functionsCode, FunctionDecl.code, blockCode, statics_body, ih]

/-- The static accesses in a program are those of its script, in the same order. -/
theorem Script.statics_program (folding : Bool) (s : Script) :
    Code.statics (s.program folding).code.toList = s.accesses.map StaticAccess.encoded := by
  simp [Script.program, Script.accesses, statics_globalsCode, statics_functionsCode]

end StackScript
