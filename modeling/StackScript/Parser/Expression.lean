import StackScript.Parser.State

/-!
# Reading expressions

Expressions are read by precedence climbing: an opening token, then continuations as long as they
bind at least as tightly as asked for. Where a part is missing, the fault is reported and a null
literal stands in for the part; a script with faults is not run.

Every function takes fuel, of which each call passes on less. A script has at most so many nested
calls for each of its tokens, and `Reading.fuel` provides for all of them. Should it run out, the
reader would take note.
-/

namespace StackScript.Reading

/-- Stands in for an expression that is missing. -/
def missing : Reading Expr := return .literal .null (← line)

/-- Reports that no expression begins here. A token out of place is skipped. -/
def failOpening : Reading Expr := do
  let kind ← current
  if kind.closes then
    failHere (.expectedExpression kind.describe)
  else
    failHere (.unexpectedToken kind.describe)
    advance
  missing

/-- Assignments are only accepted behind a place; one that is left over is skipped. -/
def rejectAssignment : Reading Unit := do
  if (← current).assigns then
    failHere .invalidAssignmentTarget
    advance

mutual

/-- Reads an expression whose continuations bind at least as tightly as `least`. -/
def expressionFrom : (fuel : Nat) → (least : Precedence) → Reading Expr
  | 0, _ => starve default
  | fuel + 1, least => do
    match (← current).opening? with
    | none => failOpening
    | some opening =>
      advance
      let assignable := least = .assignment
      let first ← openWith fuel opening assignable
      let whole ← continueFrom fuel least assignable first
      if assignable then rejectAssignment
      return whole

/-- Reads the rest of what an opening token opens. -/
def openWith : (fuel : Nat) → Opening → (assignable : Bool) → Reading Expr
  | 0, _, _ => starve default
  | fuel + 1, opening, assignable => do
    match opening with
    | .literal value =>
      push value
      return .literal value (← line)
    | .variable name =>
      if ← accept (.symbol .leftParen) then
        let (args, openLine, closeLine) ← arguments fuel
        return .call name args openLine closeLine
      place fuel (.variable name) 0 assignable
    | .className type =>
      unless ← expect .colon "':' after class name" do return ← missing
      match ← memberName? with
      | none => missing
      | some member =>
        if ← accept (.symbol .leftParen) then
          let (args, openLine, closeLine) ← arguments fuel
          return .callStatic type member args openLine closeLine
        place fuel (.staticField type member) 0 assignable
    | .construct =>
      match ← current with
      | .className type =>
        advance
        unless ← expect .leftParen "'(' after class name" do return ← missing
        let (args, openLine, closeLine) ← arguments fuel
        return .construct type args openLine closeLine
      | _ =>
        failExpecting "class name after 'new'"
        missing
    | .group =>
      let inner ← expressionFrom fuel .assignment
      close .rightParen "')' after expression"
      return inner
    | .list =>
      let openLine ← line
      emit 1
      let items ← if ← check (.symbol .rightBracket) then pure [] else items fuel
      close .rightBracket "']' after array elements"
      emit 1
      return .list items openLine (← line)
    | .negate =>
      let signLine ← line
      push (.int 0)
      let operand ← expressionFrom fuel .unary
      operate .sub
      return .negate operand signLine (← line)
    | .not =>
      let operand ← expressionFrom fuel .unary
      operateNot
      return .not operand (← line)

/-- Reads continuations of `left` that bind at least as tightly as `least`. -/
def continueFrom : (fuel : Nat) → (least : Precedence) → (assignable : Bool) → (left : Expr) →
    Reading Expr
  | 0, _, _, left => starve left
  | fuel + 1, least, assignable, left => do
    match (← current).continuation? with
    | none => return left
    | some continuation =>
      if continuation.precedence.level < least.level then return left
      advance
      let left ← continueWith fuel continuation assignable left
      continueFrom fuel least assignable left

/-- Reads the rest of a continuation of `left`. -/
def continueWith : (fuel : Nat) → Continuation → (assignable : Bool) → (left : Expr) →
    Reading Expr
  | 0, _, _, left => starve left
  | fuel + 1, continuation, assignable, left => do
    match continuation with
    | .index =>
      let index ← expressionFrom fuel .assignment
      close .rightBracket "']' after index"
      place fuel (.element left index) 2 assignable
    | .member =>
      match ← memberName? with
      | none => return left
      | some name =>
        if ← accept (.symbol .leftParen) then
          let (args, openLine, closeLine) ← arguments fuel
          return .callMethod left name args openLine closeLine
        place fuel (.field left name) 1 assignable
    | .operator op =>
      let right ← expressionFrom fuel continuation.precedence.next
      operate op.base
      if op.isNegated then operateNot
      return .binary op left right (← line)
    | .connect op =>
      let opLine ← line
      emit 3
      let right ← expressionFrom fuel continuation.precedence.next
      join
      return .connect op left right opLine

/-- Reads what follows a place: an assignment to it, or nothing. `operands` is how many values the
code of the place leaves on the stack for the access. -/
def place : (fuel : Nat) → Place → (operands : Nat) → (assignable : Bool) → Reading Expr
  | 0, target, _, _ => starve (.read target 0)
  | fuel + 1, target, operands, assignable => do
    if assignable && (← check (.symbol .equal)) then
      advance
      let value ← expressionFrom fuel .assignment
      emit 1
      return .assign target value (← line)
    match (← current).compound? with
    | some op =>
      if assignable then
        advance
        let readLine ← line
        emit (if operands = 0 then 1 else 2)
        let value ← expressionFrom fuel .assignment
        operate op
        emit 1
        return .update target op value readLine (← line)
      emit 1
      return .read target (← line)
    | none =>
      emit 1
      return .read target (← line)

/-- Reads arguments after their opening parenthesis, with the lines of both parentheses. -/
def arguments : (fuel : Nat) → Reading (List Expr × Nat × Nat)
  | 0 => starve ([], 0, 0)
  | fuel + 1 => do
    let openLine ← line
    emit 1
    let args ← if ← check (.symbol .rightParen) then pure [] else items fuel
    close .rightParen "')' after arguments"
    emit 1
    return (args, openLine, ← line)

/-- Reads one or more expressions between commas. -/
def items : (fuel : Nat) → Reading (List Expr)
  | 0 => starve []
  | fuel + 1 => do
    let first ← expressionFrom fuel .assignment
    if ← accept (.symbol .comma) then
      return first :: (← items fuel)
    return [first]

end

/-- Fuel for everything that is still to be read. -/
def fuel : Reading Nat := return 16 * (← remaining) + 16

/-- Reads an expression. -/
def expression : Reading Expr := do
  expressionFrom (← fuel) .assignment

end StackScript.Reading
