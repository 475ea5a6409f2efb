import StackScript.Bytecode.Generation
import StackScript.Parser.Script

/-!
# Compilation

From source text to a program. A script compiles exactly when reading it finds no fault; otherwise
the diagnostics hold every fault.
-/

namespace StackScript

/-- A script as far as it could be read, with what was found in reading it. -/
structure Reading.Result where
  script : Script
  diagnostics : Diagnostics
  /-- Remarks in order, each with the number of reports given out before it. -/
  remarks : List (Nat × Remark)

/-- The reader before a source text. -/
def Reader.ofSource (folding : Bool) (source : String) : Reader where
  upcoming := Scanned.scan source
  current := ⟨.endOfInput, .start, ""⟩
  previous := ⟨.endOfInput, .start, ""⟩
  taken := []
  diagnostics := .empty
  recovering := false
  functions := [initializerName]
  globals := []
  globalsClosed := false
  scopes := []
  loops := []
  folding := folding
  trail := .empty
  remarks := []
  starved := false

/-- Reads a source text, and reports constant subexpressions that fail if `folding`. -/
def readWith (folding : Bool) (source : String) : Reading.Result :=
  let (script, reader) := Reading.script.run (.ofSource folding source)
  ⟨script, reader.diagnostics.finish, reader.remarks.reverse⟩

/-- Reads a source text. -/
def read (source : String) : Reading.Result :=
  readWith true source

/-- What compilation yields. -/
structure Compiled where
  program : Program
  diagnostics : Diagnostics

/-- Compiles what was read, unless there are faults. The code is looked through for jumps that were
left without a target before it is given out. -/
def Reading.Result.compile (folding : Bool) (r : Reading.Result) : Except Diagnostics Compiled :=
  if r.diagnostics.failed then .error r.diagnostics
  else
    let program := r.script.program folding
    match program.unresolved? with
    | none => .ok ⟨program, r.diagnostics⟩
    | some address =>
      let fault := .invalidProgram ("unresolved jump at " ++ Text.address address)
      .error (r.diagnostics.raiseFailure (.ofFault fault none)).2

/-- Compiles a source text, with constant subexpressions computed if `folding`. -/
def compileWith (folding : Bool) (source : String) : Except Diagnostics Compiled :=
  (readWith folding source).compile folding

/-- Compiles a source text. -/
def compile (source : String) : Except Diagnostics Compiled :=
  compileWith true source

end StackScript
