import StackScript.Machine.Run

/-!
# Work of the machine

Work of the machine is followed through `Step.on`: what it yields on a machine, and the machine after
it. Most work never looks at the stack. It reads and changes the *memory* of the machine, which is the
store together with the host types resolved so far, and it is the same on every machine of that
memory.

* `Detached`: the work neither reads nor changes the stack, the base, the windows and the frames, so
  that it is determined by what it does to a memory (`Step.onBare`).
* `Ordinary`: the faults of running scripts, as against those of malformed code and of exhausted limits.
  Only the handling of the stack has the latter; work that is `Clean` never has them.

The two are kept by sequencing, so that each of the calls into heap and host has both at once.
-/

namespace StackScript

variable {σ α β : Type}

/-! ### Memory -/

/-- The part of a machine that outlives a run: what is stored, and the host types found so far. -/
structure Memory (σ : Type) where
  resolved : List (String × TypeHandle)
  store : Store σ

namespace Machine

/-- The memory of a machine. -/
def memory (m : Machine σ) : Memory σ := ⟨m.resolved, m.store⟩

/-- The machine with another memory and the same stack. -/
def withMemory (m : Machine σ) (mem : Memory σ) : Machine σ :=
  { m with resolved := mem.resolved, store := mem.store }

/-- A machine of a given memory with nothing on its stack. -/
def bare (mem : Memory σ) : Machine σ := ⟨#[], 0, [], #[], mem.resolved, mem.store⟩

@[simp]
theorem memory_withMemory (m : Machine σ) (mem : Memory σ) : (m.withMemory mem).memory = mem :=
  rfl

@[simp]
theorem withMemory_memory (m : Machine σ) : m.withMemory m.memory = m :=
  rfl

@[simp]
theorem withMemory_withMemory (m : Machine σ) (mem mem' : Memory σ) :
    (m.withMemory mem).withMemory mem' = m.withMemory mem' :=
  rfl

@[simp]
theorem memory_bare (mem : Memory σ) : (bare mem).memory = mem :=
  rfl

@[simp]
theorem stack_withMemory (m : Machine σ) (mem : Memory σ) : (m.withMemory mem).stack = m.stack :=
  rfl

@[simp]
theorem base_withMemory (m : Machine σ) (mem : Memory σ) : (m.withMemory mem).base = m.base :=
  rfl

@[simp]
theorem windows_withMemory (m : Machine σ) (mem : Memory σ) :
    (m.withMemory mem).windows = m.windows :=
  rfl

@[simp]
theorem frames_withMemory (m : Machine σ) (mem : Memory σ) : (m.withMemory mem).frames = m.frames :=
  rfl

end Machine

/-! ### Following work -/

namespace Step

/-- What work yields on a machine, and the machine after it. -/
def on (x : Step σ α) (m : Machine σ) : Except Fault α × Machine σ := x.run.run m

@[simp]
theorem on_pure (a : α) (m : Machine σ) : on (pure a) m = (.ok a, m) :=
  rfl

@[simp]
theorem on_throw (f : Fault) (m : Machine σ) : on (throw f : Step σ α) m = (.error f, m) :=
  rfl

@[simp]
theorem on_get (m : Machine σ) : on get m = (.ok m, m) :=
  rfl

@[simp]
theorem on_set (m m' : Machine σ) : on (set m') m = (.ok ⟨⟩, m') :=
  rfl

@[simp]
theorem on_modify (f : Machine σ → Machine σ) (m : Machine σ) : on (modify f) m = (.ok ⟨⟩, f m) :=
  rfl

@[simp]
theorem on_lift (x : Except Fault α) (m : Machine σ) : on (liftM x : Step σ α) m = (x, m) := by
  cases x <;> rfl

/-- Work goes on from where the work before it has led, unless that failed. -/
theorem on_bind (x : Step σ α) (f : α → Step σ β) (m : Machine σ) :
    on (x >>= f) m = match x.on m with
      | (.ok a, m') => (f a).on m'
      | (.error fault, m') => (.error fault, m') := by
  show (StateT.run (ExceptT.run (x >>= f)) m) = _
  rw [ExceptT.run_bind, StateT.run_bind]
  simp only [on]
  rcases h : StateT.run (ExceptT.run x) m with ⟨a | a, m'⟩ <;> rfl

@[simp]
theorem on_map (f : α → β) (x : Step σ α) (m : Machine σ) :
    on (f <$> x) m = match x.on m with
      | (.ok a, m') => (.ok (f a), m')
      | (.error fault, m') => (.error fault, m') := by
  rw [map_eq_pure_bind, on_bind]
  rfl

theorem on_bind_ok {x : Step σ α} {f : α → Step σ β} {m m' : Machine σ} {a : α}
    (h : x.on m = (.ok a, m')) : on (x >>= f) m = (f a).on m' := by
  rw [on_bind, h]

theorem on_bind_error {x : Step σ α} {f : α → Step σ β} {m m' : Machine σ} {fault : Fault}
    (h : x.on m = (.error fault, m')) : on (x >>= f) m = (.error fault, m') := by
  rw [on_bind, h]

theorem on_ite (p : Prop) [Decidable p] (x y : Step σ α) (m : Machine σ) :
    on (if p then x else y) m = if p then x.on m else y.on m := by
  split <;> rfl

end Step

/-! ### Ordinary faults -/

/-- The faults of a running script that have nothing to do with malformed code or exhausted limits. -/
def Fault.Ordinary : Fault → Prop
  | .undefinedGlobal _ | .undefinedFunction _ | .wrongArity _ _ _ | .typeMismatch _ _
  | .divisionByZero | .indexOutOfRange _ _ | .nonBooleanCondition _ | .typeNotFound _
  | .memberNotFound _ _ | .noMatchingOverload _ _ | .hostFailure _ => True
  | _ => False

theorem Fault.Ordinary.stage_eq {fault : Fault} (h : fault.Ordinary) : fault.stage = .running := by
  cases fault <;> first | rfl | exact h.elim

/-- A result whose fault, if it has one, is ordinary. -/
def OrdinaryResult (r : Except Fault α) : Prop :=
  ∀ fault, r = .error fault → fault.Ordinary

/-- Work over any state that has no other than ordinary faults. -/
def Clean {τ : Type} (x : ExceptT Fault (StateM τ) α) : Prop :=
  ∀ s, OrdinaryResult (x.run.run s).1

namespace Clean

variable {τ : Type}

theorem pure (a : α) : Clean (pure a : ExceptT Fault (StateM τ) α) := by
  intro s fault h
  cases h

theorem throw {fault : Fault} (h : fault.Ordinary) :
    Clean (throw fault : ExceptT Fault (StateM τ) α) := by
  intro s fault' h'
  cases h'
  exact h

theorem get : Clean (get : ExceptT Fault (StateM τ) τ) := by
  intro s fault h
  cases h

theorem modify (f : τ → τ) : Clean (modify f : ExceptT Fault (StateM τ) PUnit) := by
  intro s fault h
  cases h

theorem modifyGet (f : τ → α × τ) : Clean (modifyGet f : ExceptT Fault (StateM τ) α) := by
  intro s fault h
  cases h

theorem lift {x : Except Fault α} (h : OrdinaryResult x) :
    Clean (liftM x : ExceptT Fault (StateM τ) α) := by
  intro s fault h'
  cases x with
  | ok a => cases h'
  | error f =>
    cases h'
    exact h _ rfl

theorem bind {x : ExceptT Fault (StateM τ) α} {f : α → ExceptT Fault (StateM τ) β}
    (hx : Clean x) (hf : ∀ a, Clean (f a)) : Clean (x >>= f) := by
  intro s fault h
  rw [ExceptT.run_bind, StateT.run_bind] at h
  rcases hr : StateT.run (ExceptT.run x) s with ⟨a | a, s'⟩ <;> rw [hr] at h
  · cases h
    exact hx s _ (by rw [hr])
  · exact hf a s' fault h

theorem guard {p : Prop} [Decidable p] {fault : Fault} (h : fault.Ordinary)
    {x : ExceptT Fault (StateM τ) α} (hx : Clean x) :
    Clean (do
      unless p do MonadExcept.throw fault
      x) := by
  dsimp only
  split
  · exact hx
  · exact .bind (.throw h) fun _ ↦ hx

end Clean

/-! ### Work beside the stack -/

namespace Step

/-- What work does to a memory when there is nothing on the stack. -/
def onBare (x : Step σ α) (mem : Memory σ) : Except Fault α × Memory σ :=
  ((x.on (.bare mem)).1, (x.on (.bare mem)).2.memory)

/-- Work that leaves the stack and all that belongs to it alone, and whose faults are ordinary. -/
structure Aside (x : Step σ α) : Prop where
  on_eq : ∀ m, x.on m = ((x.onBare m.memory).1, m.withMemory (x.onBare m.memory).2)
  clean : Clean x

namespace Aside

theorem ordinary {x : Step σ α} (h : Aside x) (mem : Memory σ) :
    OrdinaryResult (x.onBare mem).1 :=
  h.clean _

theorem pure (a : α) : Aside (pure a : Step σ α) :=
  ⟨fun _ ↦ rfl, .pure a⟩

theorem throw {fault : Fault} (h : fault.Ordinary) : Aside (throw fault : Step σ α) :=
  ⟨fun _ ↦ rfl, .throw h⟩

theorem lift {x : Except Fault α} (h : OrdinaryResult x) : Aside (liftM x : Step σ α) :=
  ⟨fun m ↦ by simp [onBare], .lift h⟩

theorem heap : Aside (heap : Step σ Heap) :=
  ⟨fun _ ↦ rfl, .bind .get fun _ ↦ .pure _⟩

/-- The memory after two pieces of work, one after the other. -/
theorem onBare_bind {x : Step σ α} {f : α → Step σ β} (hx : Aside x) (mem : Memory σ) :
    (x >>= f).onBare mem = match x.onBare mem with
      | (.ok a, mem') => (f a).onBare mem'
      | (.error fault, mem') => (.error fault, mem') := by
  have h := hx.on_eq (.bare mem)
  rcases hr : x.onBare mem with ⟨a | a, mem'⟩ <;>
    simp only [Machine.memory_bare, hr] at h <;> simp only [onBare, on_bind, h] <;> rfl

theorem bind {x : Step σ α} {f : α → Step σ β} (hx : Aside x) (hf : ∀ a, Aside (f a)) :
    Aside (x >>= f) := by
  refine ⟨fun m ↦ ?_, .bind hx.clean fun a ↦ (hf a).clean⟩
  rw [onBare_bind hx, on_bind, hx.on_eq m]
  rcases x.onBare m.memory with ⟨a | a, mem'⟩
  · rfl
  · simp [(hf a).on_eq]

theorem onHeap {x : HeapAction α} (h : Clean x) : Aside (onHeap x : Step σ α) := by
  refine ⟨fun m ↦ rfl, fun m ↦ ?_⟩
  exact h m.store.world.heap

theorem onHost (call : HostCall σ α) : Aside (onHost call) := by
  refine ⟨fun m ↦ rfl, fun m fault h ↦ ?_⟩
  change (call.run.run (m.store.world, m.store.host)).1.mapError HostFault.toFault = _ at h
  rcases hr : (call.run.run (m.store.world, m.store.host)).1 with f | a <;> rw [hr] at h <;> cases h
  cases f <;> trivial

end Aside

end Step

end StackScript
