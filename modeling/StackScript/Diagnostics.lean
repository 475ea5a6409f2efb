import StackScript.Fault

/-!
# Diagnostics

Diagnostics read the source along with the scanner, character by character, so that a report can
quote its line. A fault on a line that is still being read is held back until the whole line is
known; the end of the source releases whatever is left.

Of the faults of a running script only the latest is kept.
-/

namespace StackScript

/-- The lines read so far and the faults found in them. -/
structure Diagnostics where
  /-- The completed lines. -/
  lines : Array String
  /-- The characters of the line that is being read, last first. -/
  partialLine : List Char
  finished : Bool
  /-- Reports that wait for their line. -/
  pending : List Report
  /-- Reports that have been given out, in order. -/
  emitted : List Report
  failed : Bool

namespace Diagnostics

/-- Nothing read, nothing found. -/
def empty : Diagnostics := ⟨#[], [], false, [], [], false⟩

instance : Inhabited Diagnostics := ⟨empty⟩

/-- The text of a completed line. Lines count from one. -/
def lineText? (d : Diagnostics) (line : Nat) : Option String :=
  if line = 0 then none else d.lines[line - 1]?

/-- The report with the text of its line, unless it shows one already. -/
def annotate (d : Diagnostics) (r : Report) : Report :=
  match r.line?, r.excerpt with
  | some line, none => r.withExcerpt (d.lineText? line)
  | _, _ => r

/-- Gives a report out. -/
def emit (d : Diagnostics) (r : Report) : Diagnostics :=
  { d with emitted := d.emitted ++ [d.annotate r] }

/-- Whether the line of a report is known in full. -/
def ready (d : Diagnostics) (r : Report) : Bool :=
  d.finished || match r.line? with
    | none => true
    | some line => line ≤ d.lines.size

/-- Gives out the waiting reports whose lines are known by now. -/
def flush (d : Diagnostics) : Diagnostics :=
  let waiting := d.pending.filter (!d.ready ·)
  (d.pending.filter d.ready).foldl emit { d with pending := waiting }

/-- Completes the line that is being read. -/
def completeLine (d : Diagnostics) : Diagnostics :=
  { d with lines := d.lines.push (String.ofList d.partialLine.reverse), partialLine := [] }

/-- Reads one character of the source. Carriage returns are dropped. -/
def feed (d : Diagnostics) (c : Char) : Diagnostics :=
  if d.finished then d
  else if c = '\n' then d.completeLine.flush
  else if c = '\r' then d
  else { d with partialLine := c :: d.partialLine }

/-- Reads a row of characters. -/
def feedAll (d : Diagnostics) (text : List Char) : Diagnostics :=
  text.foldl feed d

/-- Ends the source. A last line without newline counts as a line, and every report is released. -/
def finish (d : Diagnostics) : Diagnostics :=
  if d.finished then d
  else
    let d := if d.partialLine.isEmpty then d else d.completeLine
    { d with finished := true }.flush

/-- Records a fault of the source text. -/
def raise (d : Diagnostics) (fault : Fault) (span : Span) : Diagnostics :=
  let d := { d with failed := true }
  let r := Report.ofFault fault (some span)
  if d.finished || span.line ≤ d.lines.size then d.emit r
  else { d with pending := d.pending ++ [r] }

/-- Records the failure of a run in place of the one before it, and gives back the report with its
source line. A failure without a line is shown without one. -/
def raiseFailure (d : Diagnostics) (r : Report) : Report × Diagnostics :=
  let r := match r.line? with
    | some line => r.withExcerpt (d.lineText? line)
    | none => r
  let kept := d.emitted.filter (·.fault.stage != .running)
  (r, { d with failed := true, emitted := kept }.emit r)

/-- The latest failure of a run. -/
def lastFailure? (d : Diagnostics) : Option Report :=
  d.emitted.reverse.find? (·.fault.stage == .running)

/-- How many faults are recorded, waiting ones included. -/
def errorCount (d : Diagnostics) : Nat :=
  d.emitted.length + d.pending.length

/-- The reports given out, one below the other. -/
def render (d : Diagnostics) : String :=
  String.intercalate "\n" (d.emitted.map (·.render))

end Diagnostics

end StackScript
