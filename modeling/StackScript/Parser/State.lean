import StackScript.Bytecode.Program
import StackScript.Parser.Role
import StackScript.Parser.Trail

/-!
# The state of the reader

The reader looks at one token at a time. After a fault it is *recovering*: further faults are not
reported until it has found the next boundary between statements or declarations. Beside the tokens
it keeps track of the names in scope, of the loops it is in, and of the trail.
-/

namespace StackScript

/-- The state of reading a script. -/
structure Reader where
  upcoming : List Scanned
  current : Token
  previous : Token
  /-- The tokens read so far, last first. -/
  taken : List Token
  diagnostics : Diagnostics
  recovering : Bool
  /-- The names of functions that are taken. -/
  functions : List String
  globals : List String
  /-- No global may be declared any more. -/
  globalsClosed : Bool
  /-- The locals of the open scopes, innermost scope first. -/
  scopes : List (List String)
  /-- For each open loop, innermost first, how many scopes lie outside it. -/
  loops : List Nat
  /-- Whether constant subexpressions are computed. -/
  folding : Bool
  trail : Trail
  /-- Remarks, last first, each with the number of reports given out before it. -/
  remarks : List (Nat × Remark)
  /-- Whether fuel has run out somewhere. There is enough of it, so this never happens. -/
  starved : Bool

/-- Computations over the state of the reader. -/
abbrev Reading := StateM Reader

namespace Reading

/-! ### Tokens -/

/-- The token that stands to be read. -/
def current : Reading TokenKind := return (← get).current.kind

/-- The position of the token that stands to be read. -/
def currentSpan : Reading Span := return (← get).current.span

/-- The line of the token read last. -/
def line : Reading Nat := return (← get).previous.span.line

/-- The next token that is not stray, and what follows it. The scanned text is taken into the
diagnostics; behind the end of input there is nothing. -/
def skim (d : Diagnostics) : List Scanned → Option Token × List Scanned × Diagnostics
  | [] => (none, [], d)
  | s :: rest =>
    if s.token.kind = .stray then skim (d.absorb s) rest
    else (some s.token, rest, d.absorb s)

/-- Reads one token. At the end of input there is nothing more to read. -/
def advance : Reading Unit :=
  modify fun r =>
    let (token?, rest, d) := skim r.diagnostics r.upcoming
    { r with
      upcoming := rest, previous := r.current, current := token?.getD r.current,
      taken := r.current :: r.taken, diagnostics := d }

/-- Whether a given token stands to be read. -/
def check (kind : TokenKind) : Reading Bool := return (← current) = kind

/-- Reads a given token if it stands to be read. -/
def accept (kind : TokenKind) : Reading Bool := do
  if ← check kind then
    advance
    return true
  return false

/-! ### Fuel -/

/-- Takes note that fuel has run out. Something stands in for what was to be read. -/
def starve {α : Type} (standIn : α) : Reading α := do
  modify ({ · with starved := true })
  return standIn

/-! ### Faults -/

/-- Reports a fault, unless the reader is recovering already. -/
def fail (fault : Fault) (span : Span) : Reading Unit :=
  modify fun r =>
    if r.recovering then r
    else { r with recovering := true, diagnostics := r.diagnostics.raise fault span }

/-- Reports a fault at the token that stands to be read. -/
def failHere (fault : Fault) : Reading Unit := do
  fail fault (← currentSpan)

/-- Reports that something else was expected than the token that stands to be read. -/
def failExpecting (expected : String) : Reading Unit := do
  failHere (.expectedToken expected (← current).describe)

/-- Reads a given symbol, or reports that it is missing. -/
def expect (sign : Symbol) (expected : String) : Reading Bool := do
  if ← accept (.symbol sign) then return true
  failExpecting expected
  return false

/-- Reads a given symbol, or reports that it is missing; either way reading goes on. -/
def close (sign : Symbol) (expected : String) : Reading Unit := do
  let _ ← expect sign expected

/-- Reads a name that is not capitalised. -/
def name? (expected : String) : Reading (Option String) := do
  match ← current with
  | .identifier name =>
    advance
    return some name
  | _ =>
    failExpecting expected
    return none

/-- Reads the name of a member, which may be capitalised. -/
def memberName? : Reading (Option String) := do
  match ← current with
  | .identifier name | .className name =>
    advance
    return some name
  | _ =>
    failExpecting "member name after ':'"
    return none

/-- Skips `fuel` tokens at most, up to a token at which `stops` holds. -/
def skipUntil (stops : Reading Bool) : (fuel : Nat) → Reading Unit
  | 0 => starve ()
  | fuel + 1 => do
    unless ← stops do
      advance
      skipUntil stops fuel

/-- How many tokens are left at most. -/
def remaining : Reading Nat := return (← get).upcoming.length + 1

/-- Whether a token of this kind begins a statement, or ends a block. -/
def beginsStatement : TokenKind → Bool
  | .keyword .varKw | .keyword .funcKw | .keyword .returnKw | .keyword .ifKw | .keyword .whileKw
  | .keyword .forKw | .keyword .breakKw | .keyword .continueKw | .symbol .rightBrace
  | .endOfInput => true
  | _ => false

/-- Whether the reader stands at a boundary between statements. -/
def atStatement : Reading Bool := do
  let r ← get
  return beginsStatement r.current.kind || r.previous.kind = .symbol .semicolon

/-- Whether the reader stands at a declaration or at the end. -/
def atDeclaration : Reading Bool := do
  match ← current with
  | .keyword .varKw | .keyword .funcKw | .endOfInput => return true
  | _ => return false

/-- After a fault, goes on at the next boundary. -/
def recoverAt (boundary : Reading Bool) : Reading Unit := do
  if (← get).recovering then
    modify ({ · with recovering := false })
    skipUntil boundary (← remaining)

/-! ### The trail -/

/-- Instructions that are no literals are written. -/
def emit (count : Nat) : Reading Unit :=
  modify fun r => { r with trail := r.trail.emit count }

/-- A literal is written. -/
def push (l : Literal) : Reading Unit :=
  modify fun r => { r with trail := r.trail.push l }

/-- Jumps lead to this place. -/
def join : Reading Unit :=
  modify fun r => { r with trail := r.trail.join }

/-- Remarks on the reading. -/
def remark (what : Remark) : Reading Unit :=
  modify fun r => { r with remarks := (r.diagnostics.emitted.length, what) :: r.remarks }

/-- An operator is written, or computed if its operands are known. A failing computation is reported
at the token read last. -/
def operate (op : BinaryOp) : Reading Unit := do
  let r ← get
  match r.folding, r.trail.literals with
  | true, right :: left :: rest =>
    remark (.computed op left right r.previous.span.line)
    match op.apply (.literal left) (.literal right) with
    | .ok result => modify ({ · with trail := ⟨r.trail.size - 1, result :: rest⟩ })
    | .error fault =>
      fail (.constantFold fault.message) r.previous.span
      emit 1
  | _, _ => emit 1

/-- A negation is written, or computed if its operand is known. -/
def operateNot : Reading Unit := do
  let r ← get
  match r.folding, r.trail.literals with
  | true, operand :: rest =>
    match Value.invert (.literal operand) with
    | .ok result => modify ({ · with trail := ⟨r.trail.size, result :: rest⟩ })
    | .error fault =>
      fail (.constantFold fault.message) r.previous.span
      emit 1
  | _, _ => emit 1

/-! ### Scopes -/

/-- Opens a scope. -/
def openScope : Reading Unit :=
  modify fun r => { r with scopes := [] :: r.scopes }

/-- Closes the innermost scope and discards its locals. -/
def closeScope : Reading Unit := do
  match (← get).scopes with
  | [] => pure ()
  | names :: outer =>
    modify ({ · with scopes := outer })
    unless names.isEmpty do emit 1

/-- Declares a local in the innermost scope, where its name must be new. -/
def declare (name : String) (span : Span) : Reading Unit := do
  match (← get).scopes with
  | [] => pure ()
  | names :: outer =>
    if name ∈ names then fail (.duplicateDeclaration name) span
    modify ({ · with scopes := (name :: names) :: outer })

/-- Enters a loop. -/
def openLoop : Reading Unit :=
  modify fun r => { r with loops := r.scopes.length :: r.loops }

/-- Leaves a loop. -/
def closeLoop : Reading Unit :=
  modify fun r => { r with loops := r.loops.tail }

/-- A jump out of the scopes inside a loop is written; their locals are discarded first. -/
def emitExit (outside : Nat) : Reading Unit := do
  let scopes := (← get).scopes
  unless ((scopes.take (scopes.length - outside)).all List.isEmpty) do emit 1
  emit 1

end Reading

end StackScript
