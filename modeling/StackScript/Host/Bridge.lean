import StackScript.Value.Heap

/-!
# Host bridges

A script reaches the objects of its host only through a bridge: by name it asks for types, and on
types and objects for constructors, methods and fields. A bridge has a state of its own, and its calls
may change that state, the heap, and what has been printed.
-/

namespace StackScript

/-- What scripts and hosts share: the heap, and the lines printed so far. -/
structure World where
  heap : Heap
  printed : Array String

namespace World

/-- Nothing allocated, nothing printed. -/
def empty : World := ⟨.empty, #[]⟩

instance : Inhabited World := ⟨empty⟩

/-- The world with its heap changed. -/
def withHeap (w : World) (heap : Heap) : World := { w with heap := heap }

end World

/-- How a host refuses a call. -/
inductive HostFault where
  | typeNotFound (name : String)
  | memberNotFound (type member : String)
  | noMatchingOverload (member : String) (count : Nat)
  | failed (message : String)
  deriving DecidableEq

/-- The fault that a script sees. -/
def HostFault.toFault : HostFault → Fault
  | typeNotFound name => .typeNotFound name
  | memberNotFound type member => .memberNotFound type member
  | noMatchingOverload member count => .noMatchingOverload member count
  | failed message => .hostFailure message

/-- A resolved host type. -/
structure TypeHandle where
  index : Nat
  deriving DecidableEq

/-- The name of a type that is known only by its handle. -/
def TypeHandle.display (t : TypeHandle) : String := "#" ++ toString t.index

/-- What a member is looked up on. -/
inductive Receiver where
  | type (handle : TypeHandle)
  | object (ref : ObjectRef)
  deriving DecidableEq

/-- Calls into a host whose own state is a `σ`. -/
abbrev HostCall (σ : Type) := ExceptT HostFault (StateM (World × σ))

/-- What a host offers to scripts. -/
structure Bridge (σ : Type) where
  /-- The type of a given name, simple or qualified. -/
  resolve : String → StateM (World × σ) (Option TypeHandle)
  construct : TypeHandle → List Value → HostCall σ Value
  invoke : Receiver → (method : String) → List Value → HostCall σ Value
  getField : Receiver → (field : String) → HostCall σ Value
  setField : Receiver → (field : String) → Value → HostCall σ Unit

/-- The name under which a receiver is reported. -/
def Receiver.display (h : Heap) : Receiver → String
  | type handle => handle.display
  | object ref => h.typeName ref

/-- The bridge to a host without types. -/
def Bridge.none : Bridge Unit where
  resolve _ := pure .none
  construct t _ := throw (.typeNotFound t.display)
  invoke r method _ := do throw (.memberNotFound (r.display (← get).1.heap) method)
  getField r field := do throw (.memberNotFound (r.display (← get).1.heap) field)
  setField r field _ := do throw (.memberNotFound (r.display (← get).1.heap) field)

end StackScript
