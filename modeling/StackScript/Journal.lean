import StackScript.Session

/-!
# The journal

What a run tells about itself, if it is asked to: entries of five levels, from errors to the trace of
every instruction with the stack it leaves. A filter lets through the entries up to a level.

The journal takes no part in what it tells of. It is read off the reading of a script, and off the
course of a run, after the fact.
-/

namespace StackScript

/-- The levels of entries, gravest first. -/
inductive LogLevel where
  | error | warn | info | debug | trace
  deriving DecidableEq

namespace LogLevel

/-- The name of a level. -/
def name : LogLevel → String
  | error => "error"
  | warn => "warn"
  | info => "info"
  | debug => "debug"
  | trace => "trace"

/-- How detailed a level is. -/
def rank : LogLevel → Nat
  | error => 1
  | warn => 2
  | info => 3
  | debug => 4
  | trace => 5

/-- The level that a filter names, in whatever case. Any other filter lets nothing through. -/
def ofFilter? (filter : String) : Option LogLevel :=
  [error, warn, info, debug, trace].find? (·.name == filter.map Char.toLower)

end LogLevel

/-- An entry of the journal. -/
structure LogEntry where
  level : LogLevel
  message : String

/-- Whether a filter lets entries of a level through. -/
def LogLevel.admits (filter : Option LogLevel) (level : LogLevel) : Bool :=
  match filter with
  | none => false
  | some most => level.rank ≤ most.rank

/-- The line of an entry. -/
def LogEntry.line (e : LogEntry) : String :=
  e.level.name ++ " " ++ e.message

/-- Entries in order. -/
abbrev Journal := Array LogEntry

/-- The entries that a filter lets through. -/
def Journal.filtered (j : Journal) (filter : Option LogLevel) : Journal :=
  j.filter fun e => LogLevel.admits filter e.level

/-- The entry of a report. -/
def Report.entry (r : Report) : LogEntry := ⟨.error, r.render⟩

/-! ### Runs -/

namespace Engine

variable {σ : Type} (e : Engine σ)

/-- The entries of one instruction: the host type it resolved, if any, and its line in the trace. -/
def stepEntries (address : Nat) (i : Instruction) (before after : Machine σ) : Journal :=
  let resolved := after.resolved.take (after.resolved.length - before.resolved.length)
  let heap := after.store.world.heap
  let line := Text.address address ++ " " ++ Text.padRight 28 (i.display heap) ++ " "
    ++ heap.inspectAll after.stack.toList
  (resolved.map fun (name, handle) =>
      LogEntry.mk .trace
        ("resolved host type " ++ Fault.quote name ++ " to " ++ handle.display)).toArray.push
    ⟨.trace, line⟩

/-- The trace of a run, added to what was told before it. -/
def narrate : (fuel : Nat) → Engine.Progress σ → Journal → Journal
  | 0, _, told => told
  | fuel + 1, p, told =>
    match e.program.code[p.address]? with
    | none => told
    | some i =>
      match e.advance p with
      | .inl (_, after) => told ++ stepEntries p.address i p.machine after
      | .inr next =>
        narrate fuel next (told ++ stepEntries p.address i p.machine next.machine)

/-- The entries of a call. The run is traced only where the filter lets the trace through. -/
def callEntries (filter : Option LogLevel) (fuel : Nat) (m : Machine σ) (name : String)
    (args : List Value) : Journal :=
  match e.start m name args with
  | .error _ => #[]
  | .ok p =>
    let opening : LogEntry := ⟨.debug,
      "calling " ++ Fault.quote name ++ " with " ++ toString args.length ++ " argument(s)"⟩
    if LogLevel.admits filter .trace then e.narrate fuel p #[opening] else #[opening]

end Engine

/-! ### Reading -/

/-- The code on which a constant operation is tried. -/
def Remark.trial (op : BinaryOp) (left right : Literal) (line : Nat) : Array Instruction :=
  #[⟨.push, .literal (.literal left), line⟩, ⟨.push, .literal (.literal right), line⟩,
    ⟨.binary op, .none, line⟩, ⟨.giveBack, .none, line⟩]

/-- The entries of a remark. -/
def Remark.entries : Remark → Journal
  | computed op left right line =>
    let code := trial op left right line
    let m : Machine Unit := .fresh ⟨.declared [], .empty, ()⟩
    let told := (Engine.bare code).narrate (code.size + 1) ⟨0, 0, m⟩ #[]
    match op.apply (.literal left) (.literal right) with
    | .error _ => told
    | .ok value => told.push ⟨.trace,
        "folded " ++ left.inspect ++ " " ++ op.mnemonic ++ " " ++ right.inspect ++ " into "
          ++ value.inspect⟩
  | entered name arity address => #[⟨.trace,
      "function " ++ Fault.quote name ++ " (" ++ toString arity ++ " params) at "
        ++ Text.address address⟩]

/-- Reports and remarks in the order in which they arose, when `given` reports have been told
already. -/
def mergeEntries (given : Nat) (reports : List Report) : List (Nat × Remark) → Journal
  | [] => (reports.map Report.entry).toArray
  | (count, remark) :: rest =>
    ((reports.take (count - given)).map Report.entry).toArray ++ remark.entries
      ++ mergeEntries (max given count) (reports.drop (count - given)) rest

/-- The closing entry of a compilation. -/
def compileEntry : Except Diagnostics Compiled → LogEntry
  | .error d => ⟨.debug, "compilation failed with " ++ toString d.errorCount ++ " error(s)"⟩
  | .ok c => ⟨.debug,
      "compiled " ++ toString c.program.code.size ++ " instruction(s), "
        ++ toString c.program.userFunctions.length ++ " function(s), "
        ++ toString c.program.globals.length ++ " global(s)"⟩

/-- The entries of reading and compiling a source text. -/
def Reading.Result.entries (r : Reading.Result) (outcome : Except Diagnostics Compiled) :
    Journal :=
  (mergeEntries 0 r.diagnostics.emitted r.remarks).push (compileEntry outcome)

/-! ### Sessions -/

namespace Session

variable {σ : Type}

/-- The entry of a result, if it is a failure. -/
def failureEntries : Except Report Value → Journal
  | .ok _ => #[]
  | .error r => #[r.entry]

/-- The entry of a session whose globals are initialised. -/
def readyEntry (s : Session σ) : LogEntry :=
  ⟨.debug, "script ready: " ++ toString s.functionNames.length ++ " function(s), "
    ++ toString s.globals.names.length ++ " global(s)"⟩

end Session

end StackScript
