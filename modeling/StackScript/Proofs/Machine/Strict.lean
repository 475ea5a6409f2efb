import StackScript.Proofs.Machine.Work

/-!
# The strict machine

Not everything that the machine computes with is defined everywhere. The difference of two sizes need not be a
size, the sum of two words need not be a word, a row cannot be cut behind its end, and nothing is divided by
zero. The machine is written with functions that have a result all the same, and checks its operands so that
it never uses such a result.

The strict machine is the machine with these operations as partial ones (`Strict.difference?` and those beside
it). Where one of them is applied outside its domain, the strict machine breaks off and has no outcome at all.
Otherwise it does what the machine does, instruction by instruction. So an outcome of the strict machine shows
that no check was missing on the way.

The operations are those on the stack, on addresses, on integers and on the elements of lists. Built-in
members and hosts are taken as they are.
-/

namespace StackScript

variable {σ α β : Type}

/-- Code that can be held in memory: no row takes more than half of the addresses there are, and the numbers
in instructions are machine words. -/
structure Storable (code : Array Instruction) : Prop where
  size : code.size < UInt64.size / 2
  counts : ∀ i ∈ code, i.count < UInt64.size

/-- Work of the machine that breaks off where an operation is applied outside its domain. -/
abbrev Strict (σ : Type) := ExceptT Fault (StateT (Machine σ) Option)

namespace Strict

/-- Work of the machine that is taken as it is. -/
def total (x : Step σ α) : Strict σ α := ExceptT.mk fun m => some (x.run.run m)

/-! ### Operations with a domain -/

/-- The difference of two sizes, if it is a size. -/
def difference? (a b : Nat) : Option Nat :=
  if b ≤ a then some (a - b) else none

/-- The sum of two machine words, if it is a machine word. -/
def sum? (a b : Nat) : Option Nat :=
  if a + b < UInt64.size then some (a + b) else none

/-- The quotient of two integers, which drops the fraction. There is none by zero. The one quotient that is
out of range, of the least integer by -1, wraps round as sums and products do. -/
def quotient? (m n : Int32) : Option Int32 :=
  if n = 0 then none else some (.ofInt (m.toInt.tdiv n.toInt))

/-- A row cut in two, at a position that is not behind its end. -/
def cut? (values : Array α) (start : Nat) : Option (Array α × Array α) :=
  if start ≤ values.size then some (values.shrink start, values.extract start values.size) else none

/-- A row with another element at one of its positions. -/
def replace? (values : Array α) (i : Nat) (value : α) : Option (Array α) :=
  if i < values.size then some (values.setIfInBounds i value) else none

theorem difference?_of_le {a b : Nat} (h : b ≤ a) : difference? a b = some (a - b) :=
  if_pos h

theorem sum?_of_lt {a b : Nat} (h : a + b < UInt64.size) : sum? a b = some (a + b) :=
  if_pos h

theorem cut?_of_le {values : Array α} {start : Nat} (h : start ≤ values.size) :
    cut? values start = some (values.shrink start, values.extract start values.size) :=
  if_pos h

theorem replace?_of_lt {values : Array α} {i : Nat} (h : i < values.size) (value : α) :
    replace? values i value = some (values.setIfInBounds i value) :=
  if_pos h

/-- Where there is a quotient it is the one that the machine computes. -/
theorem quotient?_of_ne {m n : Int32} (h : n ≠ 0) : quotient? m n = some (m / n) := by
  rw [quotient?, if_neg h, Option.some_inj]
  apply Int32.toInt_inj.mp
  rw [Int32.toInt_ofInt, Int32.toInt_div]

/-! ### The machine with these operations -/

/-- Discards the topmost values. -/
def discard (count : Nat) : Strict σ Unit := do
  let m ← get
  let size := m.stack.size
  if size < count then throw Step.underflow
  let (kept, _) ← cut? m.stack (← difference? size count)
  set { m with stack := kept }

/-- The value in a slot. -/
def getLocal (slot : Nat) : Strict σ Value := do
  let m ← get
  match m.stack[← sum? m.base slot]? with
  | none => throw (Step.badSlot slot)
  | some value => return value

/-- Puts a value into a slot. -/
def setLocal (slot : Nat) (value : Value) : Strict σ Unit := do
  let m ← get
  let index ← sum? m.base slot
  if m.stack.size ≤ index then throw (Step.badSlot slot)
  set { m with stack := ← replace? m.stack index value }

/-- Closes the innermost window and takes the values in it. -/
def takeWindow : Strict σ (Array Value) := do
  let start ← total Step.closeWindow
  let m ← get
  let (kept, values) ← cut? m.stack start
  set { m with stack := kept }
  return values

/-- Divides. -/
def divide (left right : Value) : Strict σ Literal :=
  match left, right with
  | .int m, .int n => do
    if n = 0 then throw .divisionByZero
    return .int (← quotient? m n)
  | left, right => liftM (left.div right)

/-- The element of a list or text at an index. -/
def element (h : Heap) (target index : Value) : Strict σ Value :=
  match target with
  | .list r => do
    let i ← index.position (h.items r).size
    (h.items r)[i]?
  | target => liftM (h.element target index)

/-- Stores an element into a list. -/
def setElement (target index value : Value) : Strict σ Unit := do
  let h ← total Step.heap
  match target with
  | .list r =>
    let i ← index.position (h.items r).size
    let items ← replace? (h.items r) i value
    total (Step.onHeap (modify (·.modifyList r fun _ => items)))
  | target => throw (.typeMismatch "list" target.typeName)

variable (e : Engine σ)

/-- Pushes copies of the topmost values. -/
def duplicate (count : Nat) : Strict σ Unit := do
  let m ← get
  let size := m.stack.size
  if size < count then throw Step.underflow
  let (_, copies) ← cut? m.stack (← difference? size count)
  set { m with stack := m.stack ++ copies }
  total e.checkStack

/-- Computes with the two topmost values. -/
def operate (op : BinaryOp) : Strict σ Unit := do
  let right ← total Step.pop
  let left ← total Step.pop
  match op with
  | .div => total (e.push (.literal (← divide left right)))
  | op => total (e.push (.literal (← op.apply left right)))

/-- Enters a function from the call at an address. -/
def enter (name : String) (address : Nat) : Strict σ Flow := do
  match e.program.function? name with
  | none => throw (.undefinedFunction name)
  | some f =>
    let start ← total Step.closeWindow
    let m ← get
    let given ← difference? m.stack.size start
    if given ≠ f.arity then throw (.wrongArity name f.arity given)
    if e.limits.depth ≤ m.frames.size then throw .stackOverflow
    let returnAddress ← sum? address 1
    set { m with base := start, frames := m.frames.push ⟨m.base, returnAddress⟩ }
    return .jump f.address

/-- Leaves the running function, and with it the run if nobody called it. -/
def leave : Strict σ Flow := do
  let result ← total Step.pop
  let m ← get
  match m.frames.back? with
  | none => return .halt result
  | some frame =>
    let (kept, _) ← cut? m.stack m.base
    set { m with stack := kept, base := frame.base, frames := m.frames.pop }
    total (e.push result)
    return .jump frame.returnAddress

/-- Carries out an instruction that does not decide how the run goes on. -/
def perform (i : Instruction) : Strict σ Unit := do
  match i.op with
  | .pop => discard i.count
  | .dup => duplicate e i.count
  | .pushLocal => total (e.push (← getLocal i.count))
  | .setLocal => setLocal i.count (← total Step.peek)
  | .makeList =>
    let items ← takeWindow
    total (e.push (← total (Step.onHeap (modifyGet (·.newList items)))))
  | .pushElement =>
    let index ← total Step.pop
    let target ← total Step.pop
    total (e.push (← element (← total Step.heap) target index))
  | .setElement | .setElementCached =>
    let value ← total Step.pop
    let index ← total Step.pop
    let target ← total Step.pop
    setElement target index value
    total (e.push value)
  | .binary op => operate e op
  | .construct =>
    let args ← takeWindow
    total (e.push (← total (e.construct i.name args.toList)))
  | .callStatic =>
    let args ← takeWindow
    let (type, method) ← Step.splitMember i.name
    let handle ← total (e.resolve type)
    total (e.push (← total (Step.onHost (e.bridge.invoke (.type handle) method args.toList))))
  | .callMethod =>
    let args ← takeWindow
    let receiver ← total Step.pop
    total (e.push (← total (e.callMethod receiver i.name args.toList)))
  | _ => total (e.perform i)

/-- Carries out the instruction at an address. -/
def step (i : Instruction) (address : Nat) : Strict σ Flow := do
  match i.op with
  | .jump | .jumpIfFalse | .jumpIfTrue => total (e.step i address)
  | .call => enter e i.name address
  | .giveBack => leave e
  | _ =>
    perform e i
    return .next

/-- Carries out an instruction unless it is one more than are allowed. `done` counts it already. -/
def attempt (i : Instruction) (address done : Nat) : Strict σ Flow := do
  match e.limits.steps with
  | some limit => if limit < done then throw (.stepLimitExceeded limit)
  | none => pure ()
  step e i address

/-! ### Runs -/

/-- What strict work yields on a machine, and the machine after it, unless it breaks off. -/
def on (x : Strict σ α) (m : Machine σ) : Option (Except Fault α × Machine σ) := x.run.run m

open Engine (Progress Outcome)

/-- Goes on with a run by one instruction. -/
def advance (p : Progress σ) : Option (Outcome σ ⊕ Progress σ) :=
  match e.program.code[p.address]? with
  | none => some (.inl (.error (Engine.outOfRange p.address), p.machine))
  | some i => do
    let done ← sum? p.done 1
    match ← (attempt e i p.address done).on p.machine with
    | (.ok .next, m) => return .inr ⟨← sum? p.address 1, done, m⟩
    | (.ok (.jump target), m) => return .inr ⟨target, done, m⟩
    | (.ok (.halt value), m) => return .inl (.ok value, m)
    | (.error fault, m) => return .inl (.error (Engine.failureAt i fault), m)

/-- Goes on with a run to its end, but by no more than `fuel` instructions. -/
def finish : (fuel : Nat) → Progress σ → Option (Outcome σ)
  | 0, _ => none
  | fuel + 1, p => do
    match ← advance e p with
    | .inl outcome => return outcome
    | .inr p => finish fuel p

/-! ### Following strict work -/

@[simp]
theorem on_pure (a : α) (m : Machine σ) : on (pure a) m = some (.ok a, m) :=
  rfl

@[simp]
theorem on_throw (fault : Fault) (m : Machine σ) :
    on (throw fault : Strict σ α) m = some (.error fault, m) :=
  rfl

@[simp]
theorem on_get (m : Machine σ) : on get m = some (.ok m, m) :=
  rfl

@[simp]
theorem on_set (m m' : Machine σ) : on (set m') m = some (.ok ⟨⟩, m') :=
  rfl

@[simp]
theorem on_total (x : Step σ α) (m : Machine σ) : (total x).on m = some (x.on m) :=
  rfl

/-- An operation yields its result, if it has one. -/
@[simp]
theorem on_option (x : Option α) (m : Machine σ) :
    on (liftM x : Strict σ α) m = x.map fun a ↦ (.ok a, m) := by
  cases x <;> rfl

@[simp]
theorem on_except (x : Except Fault α) (m : Machine σ) :
    on (liftM x : Strict σ α) m = some (x, m) := by
  cases x <;> rfl

/-- Strict work goes on unless the work before it broke off or failed. -/
theorem on_bind (x : Strict σ α) (f : α → Strict σ β) (m : Machine σ) :
    on (x >>= f) m = (x.on m).bind fun
      | (.ok a, m') => (f a).on m'
      | (.error fault, m') => some (.error fault, m') := by
  show StateT.run (ExceptT.run (x >>= f)) m = _
  rw [ExceptT.run_bind, StateT.run_bind]
  simp only [on]
  rcases StateT.run (ExceptT.run x) m with _ | ⟨fault | a, m'⟩ <;> rfl

@[simp]
theorem on_map (f : α → β) (x : Strict σ α) (m : Machine σ) :
    on (f <$> x) m = (x.on m).map fun (result, m') ↦ (result.map f, m') := by
  rw [map_eq_pure_bind, on_bind]
  rcases x.on m with _ | ⟨fault | a, m'⟩ <;> rfl

end Strict

end StackScript
