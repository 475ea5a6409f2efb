import StackScript.Machine.Step

/-!
# Runs

A run carries out instructions until one of them halts or fails. It need not end, so it is given fuel
for a number of instructions, and has no outcome when the fuel is used up before.

Failures are reported with the line of their instruction and without a column.
-/

namespace StackScript

/-- Fuel for more instructions than any machine will ever carry out. -/
def patience : Nat := UInt64.size / 4

namespace Engine

variable {σ : Type} (e : Engine σ)

/-- Carries out an instruction unless as many as are allowed have been carried out before. -/
def attempt (i : Instruction) (address done : Nat) : Step σ Flow := do
  match e.limits.steps with
  | some limit => if limit ≤ done then throw (.stepLimitExceeded limit)
  | none => pure ()
  e.step i address

/-- Where a run stands: the address of the next instruction, how many were carried out before it, and
the machine. -/
structure Progress (σ : Type) where
  address : Nat
  done : Nat
  machine : Machine σ

/-- The report of a failure in an instruction. -/
def failureAt (i : Instruction) (fault : Fault) : Report :=
  .ofFault fault (some ⟨i.line, 0⟩)

/-- The report of a run that has left the code. -/
def outOfRange (address : Nat) : Report :=
  .ofFault (.invalidProgram ("instruction pointer " ++ toString address ++ " out of range")) none

/-- The result of a run, and the machine at its end. -/
abbrev Outcome (σ : Type) := Except Report Value × Machine σ

/-- Goes on with a run by one instruction. -/
def advance (p : Progress σ) : Outcome σ ⊕ Progress σ :=
  let ⟨address, done, m⟩ := p
  match e.program.code[address]? with
  | none => .inl (.error (outOfRange address), m)
  | some i =>
    match (e.attempt i address done).run.run m with
    | (.ok .next, m) => .inr ⟨address + 1, done + 1, m⟩
    | (.ok (.jump target), m) => .inr ⟨target, done + 1, m⟩
    | (.ok (.halt value), m) => .inl (.ok value, m)
    | (.error fault, m) => .inl (.error (failureAt i fault), m)

/-- Goes on with a run to its end, but by no more than `fuel` instructions. -/
def finish : (fuel : Nat) → Progress σ → Option (Outcome σ)
  | 0, _ => none
  | fuel + 1, p =>
    match e.advance p with
    | .inl outcome => some outcome
    | .inr p => finish fuel p

/-- The beginning of a call: the entry of the function, with the arguments as its first locals. -/
def start (m : Machine σ) (name : String) (args : List Value) : Except Report (Progress σ) :=
  match e.program.function? name with
  | none => .error (.ofFault (.undefinedFunction name) none)
  | some f =>
    if f.arity ≠ args.length then .error (.ofFault (.wrongArity name f.arity args.length) none)
    else .ok ⟨f.address, 0, { m.reset with stack := args.toArray }⟩

/-- Calls a function. Whatever the result, nothing is left on the stack. -/
def call (fuel : Nat) (m : Machine σ) (name : String) (args : List Value) : Option (Outcome σ) :=
  match e.start m name args with
  | .error report => some (.error report, m)
  | .ok p => (e.finish fuel p).map fun (result, m) => (result, m.reset)

/-- Gives the globals their first values, if there is anything to do for that. -/
def prepare (fuel : Nat) (m : Machine σ) : Option (Outcome σ) :=
  match e.program.function? initializerName with
  | none => some (.ok .null, m)
  | some _ => (e.call fuel m initializerName []).map fun
    | (.ok _, m) => (.ok .null, m)
    | (.error report, m) => (.error report, m)

end Engine

/-- The engine for a bare row of instructions: no host, no calls, and no more values on the stack and
no more instructions than there are instructions in the row. -/
def Engine.bare (code : Array Instruction) : Engine Unit where
  program := .ofCode code
  bridge := .none
  limits := ⟨code.size, 0, some code.size⟩

/-- Runs a bare row of instructions. One more than is allowed is enough fuel to tell how it ends. -/
def evaluate (code : Array Instruction) (world : World) : Option (Except Report Value × World) :=
  ((Engine.bare code).finish (code.size + 1) ⟨0, 0, .fresh ⟨.declared [], world, ()⟩⟩).map
    fun (result, m) => (result, m.store.world)

end StackScript
