import StackScript.Compilation
import StackScript.Machine.Run

/-!
# Sessions

A session is a compiled script on a machine of its own. Its globals are initialised once, at the
start; then the host calls functions by name as often as it likes, and what one call leaves in the
store the next one finds.

The latest failure of a call is kept in the diagnostics of the script, with the source line it
quotes.
-/

namespace StackScript

/-- A compiled script with its machine. -/
structure Session (σ : Type) where
  engine : Engine σ
  diagnostics : Diagnostics
  machine : Machine σ

namespace Session

variable {σ : Type}

/-- A session before its globals are initialised. -/
def ofCompiled (c : Compiled) (limits : Limits) (bridge : Bridge σ) (world : World) (host : σ) :
    Session σ where
  engine := ⟨c.program, bridge, limits⟩
  diagnostics := c.diagnostics
  machine := .fresh ⟨.declared c.program.globals, world, host⟩

/-- What a script sees of a call: its result, and the session after it. -/
abbrev Outcome (σ : Type) := Except Report Value × Session σ

/-- Takes over the outcome of a run. A failure is recorded. -/
def record (engine : Engine σ) (diagnostics : Diagnostics) : Engine.Outcome σ → Outcome σ
  | (.ok value, machine) => (.ok value, ⟨engine, diagnostics, machine⟩)
  | (.error report, machine) =>
    let (report, diagnostics) := diagnostics.raiseFailure report
    (.error report, ⟨engine, diagnostics, machine⟩)

/-- Initialises the globals. -/
def prepare (fuel : Nat) (s : Session σ) : Option (Outcome σ) :=
  let ⟨engine, diagnostics, machine⟩ := s
  (engine.prepare fuel machine).map (record engine diagnostics)

/-- Calls a function. -/
def call (fuel : Nat) (s : Session σ) (name : String) (args : List Value) : Option (Outcome σ) :=
  let ⟨engine, diagnostics, machine⟩ := s
  (engine.call fuel machine name args).map (record engine diagnostics)

/-- The functions of the script, in source order. -/
def functionNames (s : Session σ) : List String :=
  s.engine.program.userFunctions.map (·.name)

/-- Whether the script has a function. -/
def hasFunction (s : Session σ) (name : String) : Bool :=
  s.functionNames.contains name

/-- Calls a function if the script has it. -/
def callIfPresent (fuel : Nat) (s : Session σ) (name : String) (args : List Value) :
    Option (Option (Except Report Value) × Session σ) :=
  if s.hasFunction name then
    (s.call fuel name args).map fun (result, s) => (some result, s)
  else some (none, s)

/-- The globals. -/
def globals (s : Session σ) : Globals :=
  s.machine.store.globals

/-- Gives a global a value. -/
def setGlobal (s : Session σ) (name : String) (value : Value) : Session σ :=
  { s with machine.store.globals := s.machine.store.globals.set name value }

/-- The heap, and what has been printed. -/
def world (s : Session σ) : World :=
  s.machine.store.world

/-- The session with its world changed from outside. -/
def withWorld (s : Session σ) (world : World) : Session σ :=
  { s with machine.store.world := world }

/-- A session over a source text, with its globals initialised. -/
def start (fuel : Nat) (source : String) (limits : Limits) (bridge : Bridge σ) (world : World)
    (host : σ) : Option (Except Diagnostics (Session σ)) :=
  match compile source with
  | .error diagnostics => some (.error diagnostics)
  | .ok c =>
    ((ofCompiled c limits bridge world host).prepare fuel).map fun
      | (.ok _, s) => .ok s
      | (.error _, s) => .error s.diagnostics

end Session

/-- Compiles a source text and calls one of its functions, without a host. Of several faults in the
text the first is reported; a failure of the run quotes the text itself. -/
def run (fuel : Nat) (source name : String) (args : List Value) (world : World) :
    Option (Except Report Value × World) :=
  match compile source with
  | .error diagnostics =>
    let report := diagnostics.emitted.head?.getD
      (.ofFault (.invalidProgram "compilation failed") none)
    some (.error report, world)
  | .ok c => do
    let engine : Engine Unit := ⟨c.program, .none, .standard⟩
    let (prepared, m) ← engine.prepare fuel (.fresh ⟨.declared c.program.globals, world, ()⟩)
    let (result, m) ← match prepared with
      | .ok _ => engine.call fuel m name args
      | .error report => some (.error report, m)
    return (result.mapError (·.withSource source), m.store.world)

end StackScript
