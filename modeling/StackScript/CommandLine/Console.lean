import StackScript.Journal

/-!
# The console

What a request writes to its two outputs, and whether it succeeds. A request may stop early; what it
has written until then stays.
-/

namespace StackScript.CommandLine

/-- What has been written to the standard output and to the error output. -/
structure Transcript where
  out : String
  err : String
  deriving DecidableEq

/-- Work at the console that may stop early, as a failure. -/
abbrev Console := ExceptT Unit (StateM Transcript)

namespace Console

/-- Writes to the standard output. -/
def write (s : String) : Console Unit :=
  modify fun t => { t with out := t.out ++ s }

/-- Writes a line to the standard output. -/
def say (line : String) : Console Unit :=
  write (line ++ "\n")

/-- Writes a line to the error output. -/
def complain (line : String) : Console Unit :=
  modify fun t => { t with err := t.err ++ line ++ "\n" }

/-- Writes entries of the journal to the error output, as far as the filter lets them through. -/
def tell (filter : Option LogLevel) (entries : Journal) : Console Unit :=
  (entries.filtered filter).forM fun e => complain e.line

/-- Writes a complaint to the error output and stops. -/
def refuse {α : Type} (line : String) : Console α := do
  complain line
  throw ()

/-- The outcome of work that was given fuel. It has to end. -/
def finished {α : Type} (outcome : Option α) : Console α :=
  match outcome with
  | some a => return a
  | none => throw ()

end Console

/-- What a request leaves behind: the exit status, and what was written. -/
structure Response where
  status : Nat
  transcript : Transcript
  deriving DecidableEq

/-- Does the work from the start. -/
def Console.respond (work : Console Unit) : Response :=
  match work.run.run ⟨"", ""⟩ with
  | (.ok _, t) => ⟨0, t⟩
  | (.error _, t) => ⟨1, t⟩

end StackScript.CommandLine
