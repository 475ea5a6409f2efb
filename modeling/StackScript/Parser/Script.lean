import StackScript.Parser.Expression

/-!
# Reading scripts

Statements, declarations and whole scripts. After a fault the reader goes on at the next statement of
the block, or at the next declaration.
-/

namespace StackScript.Reading

/-! ### Statements -/

/-- Reads a declaration of a local. Without a value it begins as null. -/
def declareStmt : Reading Stmt := do
  advance
  let span ← currentSpan
  let name? ← name? "variable name"
  let value ← initialValue
  close .semicolon "';' after variable declaration"
  if let some name := name? then declare name span
  return .declare (name?.getD "") value
where
  /-- The value after an equals sign, or null. -/
  initialValue : Reading Expr := do
    if ← accept (.symbol .equal) then expression
    else
      push .null
      return .literal .null (← line)

/-- Reads a return. Without a value it returns null. -/
def returnStmt : Reading Stmt := do
  advance
  let value ← returned
  close .semicolon "';' after return value"
  emit 1
  return .giveBack value (← line)
where
  /-- The value before the semicolon, or null. -/
  returned : Reading Expr := do
    if ← check (.symbol .semicolon) then
      push .null
      return .literal .null (← line)
    else expression

/-- Reads a jump out of the innermost loop or back to its top. -/
def exitStmt (expected : String) (outsideLoop : Fault) (stmt : Nat → Stmt) : Reading Stmt := do
  let span ← currentSpan
  advance
  close .semicolon expected
  match (← get).loops with
  | [] => fail outsideLoop span
  | outside :: _ => emitExit outside
  return stmt (← line)

/-- Reads an expression in the place of a statement. Its value is discarded. -/
def expressionStmt : Reading Stmt := do
  let value ← expression
  close .semicolon "';' after expression"
  emit 1
  return .expression value (← line)

mutual

/-- Reads a statement. -/
def statement : (fuel : Nat) → Reading Stmt
  | 0 => starve (.block [] 0)
  | fuel + 1 => do
    match ← current with
    | .keyword .varKw => declareStmt
    | .keyword .returnKw => returnStmt
    | .keyword .ifKw => ifStmt fuel
    | .keyword .whileKw => whileStmt fuel
    | .keyword .forKw => forStmt fuel
    | .keyword .breakKw => exitStmt "';' after break" .breakOutsideLoop .breakLoop
    | .keyword .continueKw => exitStmt "';' after continue" .continueOutsideLoop .continueLoop
    | .symbol .leftBrace =>
      advance
      let (body, closeLine) ← block fuel
      return .block body closeLine
    | _ => expressionStmt

/-- Reads a conditional. -/
def ifStmt : (fuel : Nat) → Reading Stmt
  | 0 => starve (.block [] 0)
  | fuel + 1 => do
    advance
    let condition ← expression
    let testLine ← line
    emit 1
    let (body, closeLine) ← bracedBlock fuel "'\x7b' after condition"
    if ← accept (.keyword .elseKw) then
      let elseLine ← line
      emit 1
      join
      let alternative ← elseBranch fuel
      join
      return .ifElse condition testLine body closeLine elseLine alternative
    join
    return .ifThen condition testLine body closeLine

/-- Reads what follows `else`: another conditional, or a block. -/
def elseBranch : (fuel : Nat) → Reading Stmt
  | 0 => starve (.block [] 0)
  | fuel + 1 => do
    if ← check (.keyword .ifKw) then ifStmt fuel
    else
      let (body, closeLine) ← bracedBlock fuel "'\x7b' after else"
      return .block body closeLine

/-- Reads a loop with a condition. -/
def whileStmt : (fuel : Nat) → Reading Stmt
  | 0 => starve (.block [] 0)
  | fuel + 1 => do
    advance
    join
    let condition ← expression
    let testLine ← line
    emit 1
    openLoop
    let (body, closeLine) ← bracedBlock fuel "'\x7b' after condition"
    emit 1
    join
    closeLoop
    return .whileLoop condition testLine body closeLine

/-- Reads a loop over the elements of a value. The enumerator is a local of a scope around the loop,
under a name that no script can write. -/
def forStmt : (fuel : Nat) → Reading Stmt
  | 0 => starve (.block [] 0)
  | fuel + 1 => do
    advance
    let span ← currentSpan
    let name? ← name? "loop variable"
    unless ← accept (.keyword .inKw) do failExpecting "'in' after loop variable"
    openScope
    let source ← expression
    let testLine ← line
    emit 2
    declare "$enumerator" span
    join
    emit 4
    openLoop
    openScope
    emit 2
    if let some name := name? then declare name span
    let (body, closeLine) ← bracedBlock fuel "'\x7b' after for clause"
    closeScope
    emit 1
    join
    closeLoop
    closeScope
    return .forIn (name?.getD "") source testLine body closeLine

/-- Reads a block with its opening brace, and the line of its closing brace. -/
def bracedBlock : (fuel : Nat) → (expected : String) → Reading (List Stmt × Nat)
  | 0, _ => starve ([], 0)
  | fuel + 1, expected => do
    if ← expect .leftBrace expected then block fuel
    else return ([], ← line)

/-- Reads a block after its opening brace, and the line of its closing brace. -/
def block : (fuel : Nat) → Reading (List Stmt × Nat)
  | 0 => starve ([], 0)
  | fuel + 1 => do
    openScope
    let body ← statements fuel
    close .rightBrace "'\x7d' after block"
    closeScope
    return (body, ← line)

/-- Reads statements up to the end of the block. A block also ends where a function begins. -/
def statements : (fuel : Nat) → Reading (List Stmt)
  | 0 => starve []
  | fuel + 1 => do
    match ← current with
    | .symbol .rightBrace | .endOfInput | .keyword .funcKw => return []
    | _ =>
      let first ← statement fuel
      recoverAt atStatement
      return first :: (← statements fuel)

end

/-! ### Declarations -/

/-- Declares a global. It comes before all functions, and its name must be new. -/
def declareGlobal (name : String) (span : Span) : Reading Unit := do
  let r ← get
  if r.globalsClosed then fail (.globalAfterFunction name) span
  else if name ∈ r.globals then fail (.duplicateDeclaration name) span
  else set { r with globals := r.globals ++ [name] }

/-- Declares a function, whose name must be new. -/
def declareFunction (name : String) (span : Span) : Reading Unit := do
  let r ← get
  if name ∈ r.functions then fail (.duplicateDeclaration name) span
  else set { r with functions := r.functions ++ [name] }

/-- Reads the declaration of a global. -/
def globalDecl : Reading (List GlobalDecl) := do
  advance
  let span ← currentSpan
  let name? ← name? "global name"
  let value ← declareStmt.initialValue
  close .semicolon "';' after global declaration"
  match name? with
  | none => return []
  | some name =>
    declareGlobal name span
    emit 2
    return [⟨name, value, ← line⟩]

/-- Reads parameters up to the closing parenthesis. -/
def parameters : (fuel : Nat) → Reading (List String)
  | 0 => starve []
  | fuel + 1 => do
    let span ← currentSpan
    match ← name? "parameter name" with
    | none => return []
    | some name =>
      declare name span
      if ← accept (.symbol .comma) then
        return name :: (← parameters fuel)
      return [name]

/-- Reads the parameters between two parentheses. -/
def parameterList : Reading (List String) := do
  if ← check (.symbol .rightParen) then return []
  parameters (← remaining)

/-- Closes the function that initialises the globals. -/
def closeGlobals : Reading Unit := do
  unless (← get).globalsClosed do
    push .null
    emit 1
    modify ({ · with globalsClosed := true })

/-- Reads the declaration of a function. -/
def functionDecl : Reading (List FunctionDecl) := do
  advance
  let span ← currentSpan
  match ← name? "function name" with
  | none => return []
  | some name =>
    join
    let address := (← get).trail.size
    openScope
    close .leftParen "'(' after function name"
    let params ← parameterList
    close .rightParen "')' after parameters"
    declareFunction name span
    let (body, closeLine) ← bracedBlock (← fuel) "'\x7b' before function body"
    push .null
    emit 1
    modify ({ · with scopes := [], loops := [] })
    remark (.entered name params.length address)
    return [⟨name, params, body, closeLine⟩]

/-- Reads declarations up to the end of input, `fuel` of them at most. -/
def declarations : (fuel : Nat) → Reading (List GlobalDecl × List FunctionDecl)
  | 0 => starve ([], [])
  | fuel + 1 => do
    match ← current with
    | .endOfInput => return ([], [])
    | .keyword .varKw =>
      let globals ← globalDecl
      recoverAt atDeclaration
      let (moreGlobals, functions) ← declarations fuel
      return (globals ++ moreGlobals, functions)
    | .keyword .funcKw =>
      closeGlobals
      let functions ← functionDecl
      recoverAt atDeclaration
      let (globals, moreFunctions) ← declarations fuel
      return (globals, functions ++ moreFunctions)
    | _ =>
      failHere .statementOutsideFunction
      advance
      recoverAt atDeclaration
      declarations fuel

/-- Reads a whole script. -/
def script : Reading Script := do
  advance
  let (globals, functions) ← declarations (← remaining)
  closeGlobals
  if (← get).functions.length = 1 then failHere .noFunctions
  return ⟨globals, functions⟩

end StackScript.Reading
