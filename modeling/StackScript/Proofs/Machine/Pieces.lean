import StackScript.Proofs.Machine.Limits

/-!
# The pieces of instructions

Whatever an instruction does is put together from a few pieces of work, one after the other
(`Engine.Made`). They are of two kinds:

* `Engine.StackPiece`: taking values from the stack and putting values there, with all that belongs to
  the stack. It neither looks at the memory of the machine nor changes it (`Step.Stackwise`).
* `Engine.MemoryPiece`: looking at the heap and the globals, and calling into heap and host. It is work
  beside the stack (`Step.Aside`).

The operations are told apart here once (`Engine.made_step`). What every piece does, and what is kept by
sequencing, then holds of all instructions, by induction over the pieces. Nothing is assumed of the code,
so that this goes for any row of instructions.
-/

namespace StackScript

variable {σ α β : Type}

/-! ### Work on the stack -/

namespace Step

/-- Work that does the same whatever is in the memory, and leaves that alone. -/
def Stackwise (x : Step σ α) : Prop :=
  ∀ m mem, x.on (m.withMemory mem) = ((x.on m).1, (x.on m).2.withMemory mem)

namespace Stackwise

/-- The memory is the same after the work as before it. -/
theorem memory_eq {x : Step σ α} (h : Stackwise x) (m : Machine σ) : (x.on m).2.memory = m.memory := by
  have hm := h m m.memory
  rw [Machine.withMemory_memory] at hm
  rw [hm, Machine.memory_withMemory]

theorem store_eq {x : Step σ α} (h : Stackwise x) (m : Machine σ) : (x.on m).2.store = m.store :=
  congrArg Memory.store (h.memory_eq m)

theorem pure (a : α) : Stackwise (pure a : Step σ α) :=
  fun _ _ ↦ rfl

theorem throw (fault : Fault) : Stackwise (throw fault : Step σ α) :=
  fun _ _ ↦ rfl

theorem bind {x : Step σ α} {f : α → Step σ β} (hx : Stackwise x) (hf : ∀ a, Stackwise (f a)) :
    Stackwise (x >>= f) := by
  intro m mem
  rw [on_bind, on_bind, hx m mem]
  rcases x.on m with ⟨fault | a, m'⟩
  · rfl
  · exact hf a m' mem

/-- Work that begins by looking at the stack. -/
theorem get_bind {f : Machine σ → Step σ α}
    (h : ∀ m mem, (f (m.withMemory mem)).on (m.withMemory mem) =
      (((f m).on m).1, ((f m).on m).2.withMemory mem)) : Stackwise (get >>= f) :=
  fun m mem ↦ h m mem

theorem pop : Stackwise (pop : Step σ Value) := by
  refine .get_bind fun m mem ↦ ?_
  rw [Machine.stack_withMemory]
  split <;> rfl

theorem peek : Stackwise (peek : Step σ Value) := by
  refine .get_bind fun m mem ↦ ?_
  rw [Machine.stack_withMemory]
  split <;> rfl

theorem discard (count : Nat) : Stackwise (discard count : Step σ Unit) := by
  refine .get_bind fun m mem ↦ ?_
  by_cases h : m.stack.size < count <;> simp only [Machine.stack_withMemory, h, ↓reduceIte] <;> rfl

theorem getLocal (slot : Nat) : Stackwise (getLocal slot : Step σ Value) := by
  refine .get_bind fun m mem ↦ ?_
  simp only [Machine.stack_withMemory, Machine.base_withMemory]
  split <;> rfl

theorem setLocal (slot : Nat) (value : Value) : Stackwise (setLocal slot value : Step σ Unit) := by
  refine .get_bind fun m mem ↦ ?_
  by_cases h : m.stack.size ≤ m.base + slot <;>
    simp only [Machine.stack_withMemory, Machine.base_withMemory, h, ↓reduceIte] <;> rfl

theorem openWindow : Stackwise (openWindow : Step σ Unit) :=
  fun _ _ ↦ rfl

theorem closeWindow : Stackwise (closeWindow : Step σ Nat) := by
  refine .get_bind fun m mem ↦ ?_
  simp only [Machine.stack_withMemory, Machine.windows_withMemory]
  split
  · rfl
  · rename_i start outer _
    by_cases h : m.stack.size < start <;> simp only [on_bind, on_set, h, ↓reduceIte] <;> rfl

theorem takeWindow : Stackwise (takeWindow : Step σ (Array Value)) :=
  .bind .closeWindow fun _ ↦ .get_bind fun _ _ ↦ rfl

end Stackwise

end Step

namespace Engine

open Step

variable (e : Engine σ)

theorem stackwise_checkStack : Stackwise e.checkStack := by
  refine .get_bind fun m mem ↦ ?_
  by_cases h : e.limits.stack < m.stack.size <;>
    simp only [Machine.stack_withMemory, h, ↓reduceIte] <;> rfl

theorem stackwise_push (value : Value) : Stackwise (e.push value) :=
  .bind (fun _ _ ↦ rfl) fun _ ↦ e.stackwise_checkStack

theorem stackwise_duplicate (count : Nat) : Stackwise (e.duplicate count) := by
  refine .get_bind fun m mem ↦ ?_
  by_cases h : m.stack.size < count <;> simp only [Machine.stack_withMemory, h, ↓reduceIte]
  · rfl
  · exact e.stackwise_checkStack { m with stack := _ } mem

theorem stackwise_enter (name : String) (returnAddress : Nat) :
    Stackwise (e.enter name returnAddress) := by
  unfold enter
  split
  · exact .throw _
  · rename_i f _
    refine .bind .closeWindow fun start ↦ .get_bind fun m mem ↦ ?_
    by_cases hgiven : m.stack.size - start = f.arity
    · by_cases hdepth : e.limits.depth ≤ m.frames.size <;>
        simp only [Machine.stack_withMemory, Machine.frames_withMemory, hgiven, hdepth, ne_eq,
          not_true_eq_false, ↓reduceIte] <;> rfl
    · simp only [Machine.stack_withMemory, hgiven, ne_eq, not_false_eq_true, ↓reduceIte]
      rfl

theorem stackwise_leave : Stackwise e.leave := by
  refine .bind .pop fun result ↦ .get_bind fun m mem ↦ ?_
  simp only [Machine.frames_withMemory]
  split
  · rfl
  · rename_i frame _
    exact (e.stackwise_push result).bind (fun _ ↦ .pure (Flow.jump frame.returnAddress))
      { m with stack := m.stack.shrink m.base, base := frame.base, frames := m.frames.pop } mem

end Engine

/-! ### Pieces -/

/-- The calls into the host that a bridge offers. -/
inductive Bridge.Offers (b : Bridge σ) : {α : Type} → HostCall σ α → Prop
  | construct (t : TypeHandle) (args : List Value) : Offers b (b.construct t args)
  | invoke (r : Receiver) (method : String) (args : List Value) : Offers b (b.invoke r method args)
  | getField (r : Receiver) (field : String) : Offers b (b.getField r field)
  | setField (r : Receiver) (field : String) (value : Value) : Offers b (b.setField r field value)

/-- The globals. -/
def Step.globals : Step σ Globals := return (← get).store.globals

/-- Gives a global a value. -/
def Step.setGlobal (name : String) (value : Value) : Step σ Unit :=
  modify fun m ↦ { m with store.globals := m.store.globals.set name value }

namespace Engine

open Step

/-- The pieces of instructions that work on the stack. -/
inductive StackPiece (e : Engine σ) : {α : Type} → Step σ α → Prop
  | throw {α : Type} {fault : Fault} (h : ¬ fault.IsLimit) (hstage : fault.stage = .running) :
    StackPiece e (throw fault : Step σ α)
  | pop : StackPiece e pop
  | peek : StackPiece e peek
  | discard (count : Nat) : StackPiece e (discard count)
  | getLocal (slot : Nat) : StackPiece e (getLocal slot)
  | setLocal (slot : Nat) (value : Value) : StackPiece e (setLocal slot value)
  | openWindow : StackPiece e openWindow
  | takeWindow : StackPiece e takeWindow
  | push (value : Value) : StackPiece e (e.push value)
  | duplicate (count : Nat) : StackPiece e (e.duplicate count)
  | enter (name : String) (returnAddress : Nat) : StackPiece e (e.enter name returnAddress)
  | leave : StackPiece e e.leave

/-- The pieces of instructions that work on the memory. -/
inductive MemoryPiece (e : Engine σ) : {α : Type} → Step σ α → Prop
  | globals : MemoryPiece e globals
  | setGlobal (name : String) (value : Value) : MemoryPiece e (setGlobal name value)
  | heap : MemoryPiece e heap
  | newList (items : Array Value) : MemoryPiece e (onHeap (modifyGet (·.newList items)))
  | setElement (target index value : Value) : MemoryPiece e (onHeap (Heap.setElement target index value))
  | build {type : String} {build : List Value → HeapAction Value}
    (h : Builtin.constructor? type = some build) (args : List Value) :
    MemoryPiece e (onHeap (build args))
  | callBuiltin (receiver : Value) (method : String) (args : List Value) :
    MemoryPiece e (onHeap (Builtin.call receiver method args))
  | resolve? (name : String) : MemoryPiece e (e.resolve? name)
  | ask {α : Type} {call : HostCall σ α} (h : e.bridge.Offers call) : MemoryPiece e (onHost call)

/-- Work that is put together from the pieces of instructions. -/
inductive Made (e : Engine σ) : {α : Type} → Step σ α → Prop
  | pure {α : Type} (a : α) : Made e (pure a)
  | bind {α β : Type} {x : Step σ α} {f : α → Step σ β} (hx : Made e x) (hf : ∀ a, Made e (f a)) :
    Made e (x >>= f)
  | stack {α : Type} {x : Step σ α} (h : e.StackPiece x) : Made e x
  | memory {α : Type} {x : Step σ α} (h : e.MemoryPiece x) : Made e x

variable {e : Engine σ}

/-- Pieces that work on the stack do so without the memory. -/
theorem StackPiece.stackwise {x : Step σ α} (h : e.StackPiece x) : Stackwise x := by
  cases h with
  | throw _ => exact .throw _
  | pop => exact .pop
  | peek => exact .peek
  | discard count => exact .discard count
  | getLocal slot => exact .getLocal slot
  | setLocal slot value => exact .setLocal slot value
  | openWindow => exact .openWindow
  | takeWindow => exact .takeWindow
  | push value => exact e.stackwise_push value
  | duplicate count => exact e.stackwise_duplicate count
  | enter name returnAddress => exact e.stackwise_enter name returnAddress
  | leave => exact e.stackwise_leave

/-- Pieces that work on the memory do so beside the stack. -/
theorem MemoryPiece.aside {x : Step σ α} (h : e.MemoryPiece x) : Aside x := by
  cases h with
  | globals =>
    refine .get_bind (fun _ ↦ .pure _) fun m m' h ↦ ?_
    rw [show m.store = m'.store from congrArg Memory.store h]
  | setGlobal name value =>
    exact .modify (fun mem ↦ ⟨mem.resolved,
      { mem.store with globals := mem.store.globals.set name value }⟩) fun _ ↦ rfl
  | heap => exact .heap
  | newList items => exact .onHeap (.modifyGet _)
  | setElement target index value => exact .onHeap (Heap.clean_setElement target index value)
  | build h args => exact .onHeap (Builtin.clean_of_constructor? h args)
  | callBuiltin receiver method args => exact .onHeap (Builtin.clean_call receiver method args)
  | resolve? name => exact e.aside_resolve? name
  | ask _ => exact .onHost _

/-! ### What instructions are made of -/

namespace Made

theorem pop : Made e pop :=
  .stack .pop

theorem peek : Made e peek :=
  .stack .peek

theorem takeWindow : Made e takeWindow :=
  .stack .takeWindow

theorem push (value : Value) : Made e (e.push value) :=
  .stack (.push value)

/-- A fault of a running script that no limit has to do with. -/
theorem fail {fault : Fault} (h : ¬ fault.IsLimit) (hstage : fault.stage = .running) :
    Made e (MonadExcept.throw fault : Step σ α) :=
  .stack (.throw h hstage)

/-- A result that was computed without looking at the machine. -/
theorem lift {x : Except Fault α}
    (h : ∀ fault, x = .error fault → ¬ fault.IsLimit ∧ fault.stage = .running) :
    Made e (liftM x : Step σ α) := by
  cases x with
  | ok a => exact .pure a
  | error fault => exact .fail (h fault rfl).1 (h fault rfl).2

theorem lift_ordinary {x : Except Fault α} (h : OrdinaryResult x) : Made e (liftM x : Step σ α) :=
  .lift fun fault hx ↦ by
    have := h fault hx
    refine ⟨fun hl ↦ ?_, this.stage_eq⟩
    cases fault <;> first | exact hl | exact this

theorem splitMember (name : String) :
    Made e (liftM (splitMember name) : Step σ (String × String)) := by
  refine .lift fun fault h ↦ ?_
  unfold Step.splitMember at h
  split at h <;> cases h
  exact ⟨id, rfl⟩

theorem resolve (name : String) : Made e (e.resolve name) := by
  refine .bind (.memory (.resolve? name)) fun found ↦ ?_
  split
  · exact .pure _
  · exact .fail id rfl

theorem construct (type : String) (args : List Value) : Made e (e.construct type args) := by
  refine .bind (.memory (.resolve? type)) fun found ↦ ?_
  split
  · exact .memory (.ask (.construct _ _))
  · rename_i build h
    exact .memory (.build h args)
  · exact .fail id rfl

theorem callMethod (receiver : Value) (method : String) (args : List Value) :
    Made e (e.callMethod receiver method args) := by
  refine .bind (.memory .heap) fun h ↦ ?_
  split
  · exact .memory (.ask (.invoke _ _ _))
  · exact .memory (.callBuiltin _ _ _)

theorem getField (receiver : Value) (field : String) : Made e (e.getField receiver field) := by
  refine .bind (.memory .heap) fun h ↦ ?_
  split
  · exact .memory (.ask (.getField _ _))
  · exact .lift_ordinary (Builtin.ordinary_getField _ _ _)

theorem setField (receiver : Value) (field : String) (value : Value) :
    Made e (e.setField receiver field value) := by
  refine .bind (.memory .heap) fun h ↦ ?_
  split
  · exact .memory (.ask (.setField _ _ _))
  · exact .fail id rfl

theorem pushGlobal (name : String) :
    Made e (do
      match (← get).store.globals.get? name with
      | some value => e.push value
      | none => MonadExcept.throw (.undefinedGlobal name) : Step σ Unit) := by
  have h : Made e (do
      let globals ← Step.globals
      match globals.get? name with
      | some value => e.push value
      | none => MonadExcept.throw (.undefinedGlobal name) : Step σ Unit) := by
    refine .bind (.memory .globals) fun globals ↦ ?_
    split
    · exact .push _
    · exact .fail id rfl
  rwa [Step.globals, bind_assoc] at h

theorem jumpIf (wanted : Bool) (target : Nat) : Made e (jumpIf wanted target) := by
  refine .bind .pop fun condition ↦ ?_
  split
  · exact .fail id rfl
  · exact .pure _

end Made

variable (e : Engine σ)

/-- Instructions that go on at the next one are made of pieces. -/
theorem made_perform (i : Instruction) : e.Made (e.perform i) := by
  obtain ⟨op, operand, line⟩ := i
  cases op with
  | push =>
    unfold perform
    dsimp only
    split
    · exact .push _
    · exact .fail id rfl
  | pop => exact .stack (.discard _)
  | dup => exact .stack (.duplicate _)
  | pushLocal => exact .bind (.stack (.getLocal _)) .push
  | setLocal => exact .bind .peek fun value ↦ .stack (.setLocal _ value)
  | pushGlobal => exact .pushGlobal _
  | setGlobal => exact .bind .peek fun value ↦ .memory (.setGlobal _ value)
  | makeList => exact .bind .takeWindow fun items ↦ .bind (.memory (.newList items)) .push
  | pushElement =>
    exact .bind .pop fun index ↦ .bind .pop fun target ↦ .bind (.memory .heap) fun h ↦
      .bind (.lift_ordinary (h.ordinary_element target index)) .push
  | setElement | setElementCached =>
    exact .bind .pop fun value ↦ .bind .pop fun index ↦ .bind .pop fun target ↦
      .bind (.memory (.setElement target index value)) fun _ ↦ .push value
  | binary op =>
    exact .bind .pop fun right ↦ .bind .pop fun left ↦
      .bind (.lift_ordinary (op.ordinary_apply left right)) fun _ ↦ .push _
  | invert => exact .bind .pop fun value ↦ .bind (.lift_ordinary value.ordinary_invert) fun _ ↦ .push _
  | openWindow => exact .stack .openWindow
  | construct => exact .bind .takeWindow fun args ↦ .bind (.construct _ _) .push
  | callStatic =>
    exact .bind .takeWindow fun args ↦ .bind (.splitMember _) fun parts ↦
      .bind (.resolve _) fun handle ↦ .bind (.memory (.ask (.invoke _ _ _))) .push
  | callMethod =>
    exact .bind .takeWindow fun args ↦ .bind .pop fun receiver ↦ .bind (.callMethod _ _ _) .push
  | pushField => exact .bind .pop fun receiver ↦ .bind (.getField _ _) .push
  | setField =>
    exact .bind .pop fun value ↦ .bind .pop fun receiver ↦ .bind (.setField _ _ _) fun _ ↦ .push value
  | pushStaticField =>
    exact .bind (.splitMember _) fun parts ↦ .bind (.resolve _) fun handle ↦
      .bind (.memory (.ask (.getField _ _))) .push
  | setStaticField =>
    exact .bind .peek fun value ↦ .bind (.splitMember _) fun parts ↦
      .bind (.resolve _) fun handle ↦ .memory (.ask (.setField _ _ _))
  | jump | jumpIfFalse | jumpIfTrue | call | giveBack => exact .pure _

/-- All instructions are made of pieces. -/
theorem made_step (i : Instruction) (address : Nat) : e.Made (e.step i address) := by
  unfold step
  split
  · exact .pure _
  · exact .jumpIf _ _
  · exact .jumpIf _ _
  · exact .stack (.enter _ _)
  · exact .stack .leave
  · exact .bind (e.made_perform i) fun _ ↦ .pure _

end Engine

end StackScript
