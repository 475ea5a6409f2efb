import StackScript.Host.Bridge
import StackScript.Table
import StackScript.Text.Qualified

/-!
# Registries

A registry is a host whose types are declared ahead of the run. Members may be overloaded: the number
of arguments selects, and among several overloads with that number the types of the arguments do.

A type is found by its full name. A name without a point also finds a type whose last part it is,
unless several types share it.
-/

namespace StackScript

/-- What an overload accepts in one parameter. -/
inductive ParamType where
  | any | bool | int | float
  /-- An integer or another number. -/
  | number
  | string | list | object
  deriving DecidableEq

/-- Whether a parameter accepts a value. -/
def ParamType.accepts : ParamType → Value → Bool
  | any, _ => true
  | bool, .bool _ => true
  | int, .int _ => true
  | float, .float _ => true
  | number, .int _ => true
  | number, .float _ => true
  | string, .string _ => true
  | list, .list _ => true
  | object, .object _ => true
  | _, _ => false

/-- What the members of a registry do. -/
abbrev HostAction := ExceptT HostFault (StateM World)

/-- An overload of a member that is reached with an `α`. -/
structure Overload (α : Type) where
  params : List ParamType
  action : α

/-- Whether the parameters accept the arguments, one by one. -/
def Overload.accepts {α : Type} (o : Overload α) (args : List Value) : Bool :=
  (o.params.zip args).all fun (p, a) => p.accepts a

/-- The overload that a call selects. One that is alone with its number of parameters is selected
whatever the types of the arguments. -/
def selectOverload {α : Type} (overloads : List (Overload α)) (member : String)
    (args : List Value) : Except HostFault α :=
  match overloads.filter (·.params.length == args.length) with
  | [only] => .ok only.action
  | candidates =>
    match candidates.find? (·.accepts args) with
    | some o => .ok o.action
    | none => .error (.noMatchingOverload member args.length)

/-- What is called without an object: constructors and static methods. -/
abbrev StaticAction := List Value → HostAction Value

/-- What is called on an object. -/
abbrev MethodAction := ObjectRef → List Value → HostAction Value

/-- A field of objects. Without a setter it cannot be changed. -/
structure FieldAccess where
  get : ObjectRef → HostAction Value
  set? : Option (ObjectRef → Value → HostAction Unit)

/-- A declared type with its members. -/
structure TypeDef where
  name : String
  constructors : List (Overload StaticAction)
  statics : Table (List (Overload StaticAction))
  methods : Table (List (Overload MethodAction))
  staticFields : Table Value
  fields : Table FieldAccess

namespace TypeDef

/-- A type without members. -/
def named (name : String) : TypeDef := ⟨name, [], [], [], [], []⟩

/-- Adds a constructor. -/
def addConstructor (t : TypeDef) (params : List ParamType) (action : StaticAction) : TypeDef :=
  { t with constructors := t.constructors ++ [⟨params, action⟩] }

/-- Adds a static method, or an overload of it. -/
def addStatic (t : TypeDef) (name : String) (params : List ParamType) (action : StaticAction) :
    TypeDef :=
  { t with statics := Table.alter name (·.getD [] ++ [⟨params, action⟩]) t.statics }

/-- Adds a method, or an overload of it. -/
def addMethod (t : TypeDef) (name : String) (params : List ParamType) (action : MethodAction) :
    TypeDef :=
  { t with methods := Table.alter name (·.getD [] ++ [⟨params, action⟩]) t.methods }

/-- Adds a static field, or gives it a new value. -/
def addStaticField (t : TypeDef) (name : String) (value : Value) : TypeDef :=
  { t with staticFields := Table.insert name value t.staticFields }

/-- Adds a field, in place of one of the same name. -/
def addField (t : TypeDef) (name : String) (access : FieldAccess) : TypeDef :=
  { t with fields := Table.insert name access t.fields }

end TypeDef

/-- The declared types, in the order of their first declaration. A handle is an index into them. -/
structure Registry where
  types : List TypeDef

namespace Registry

/-- No types. -/
def empty : Registry := ⟨[]⟩

/-- The type of exactly this name. -/
def handle? (r : Registry) (name : String) : Option TypeHandle :=
  (r.types.findIdx? (·.name == name)).map TypeHandle.mk

/-- Declares a type, or takes up the one of that name, and changes it. -/
def define (r : Registry) (name : String) (f : TypeDef → TypeDef) : Registry :=
  match r.handle? name with
  | some handle => ⟨r.types.modify handle.index f⟩
  | none => ⟨r.types ++ [f (.named name)]⟩

/-- The types, by index, whose simple name is given. -/
def withSimpleName (r : Registry) (name : String) : List TypeHandle :=
  (r.types.zipIdx.filter fun (t, _) => Text.simpleName t.name == name).map fun (_, i) => ⟨i⟩

/-- The type that a name refers to. -/
def lookup? (r : Registry) (name : String) : Option TypeHandle :=
  match r.handle? name with
  | some handle => some handle
  | none =>
    if '.' ∈ name.toList then none
    else
      match r.withSimpleName name with
      | [handle] => some handle
      | _ => none

/-- The declaration of a type. -/
def typeDef (r : Registry) (handle : TypeHandle) : Except HostFault TypeDef :=
  match r.types[handle.index]? with
  | some t => .ok t
  | none => .error (.typeNotFound handle.display)

/-- The declaration of the type of an object. -/
def typeDefOf (r : Registry) (h : Heap) (object : ObjectRef) : Except HostFault TypeDef :=
  match r.lookup? (h.typeName object) with
  | some handle => r.typeDef handle
  | none => .error (.typeNotFound (h.typeName object))

/-- A member of a type, which has to be declared. -/
def member {α : Type} (t : TypeDef) (table : Table α) (name : String) :
    Except HostFault α :=
  match table.lookup name with
  | some found => .ok found
  | none => .error (.memberNotFound t.name name)

/-- Carries out an action of a member. -/
def perform {α : Type} (action : HostAction α) : HostCall Registry α :=
  ExceptT.mk fun (world, registry) =>
    let (result, world) := action.run.run world
    (result, world, registry)

/-- Calls a constructor. -/
def construct (handle : TypeHandle) (args : List Value) : HostCall Registry Value := do
  let (_, registry) ← get
  let t ← registry.typeDef handle
  let action ← selectOverload t.constructors t.name args
  perform (action args)

/-- Calls a method, on a type or on an object. -/
def invoke (receiver : Receiver) (method : String) (args : List Value) :
    HostCall Registry Value := do
  let (world, registry) ← get
  match receiver with
  | .type handle =>
    let t ← registry.typeDef handle
    let overloads ← member t t.statics method
    let action ← selectOverload overloads method args
    perform (action args)
  | .object ref =>
    let t ← registry.typeDefOf world.heap ref
    let overloads ← member t t.methods method
    let action ← selectOverload overloads method args
    perform (action ref args)

/-- Reads a field, of a type or of an object. -/
def getField (receiver : Receiver) (field : String) : HostCall Registry Value := do
  let (world, registry) ← get
  match receiver with
  | .type handle =>
    let t ← registry.typeDef handle
    liftM (member t t.staticFields field)
  | .object ref =>
    let t ← registry.typeDefOf world.heap ref
    let access ← member t t.fields field
    perform (access.get ref)

/-- Stores into a field, of a type or of an object. -/
def setField (receiver : Receiver) (field : String) (value : Value) : HostCall Registry Unit := do
  let (world, registry) ← get
  match receiver with
  | .type handle =>
    let t ← registry.typeDef handle
    let _ ← member t t.staticFields field
    set (world, Registry.mk (registry.types.modify handle.index (·.addStaticField field value)))
  | .object ref =>
    let t ← registry.typeDefOf world.heap ref
    match (t.fields.lookup field).bind FieldAccess.set? with
    | none => throw (.memberNotFound t.name field)
    | some store => perform (store ref value)

/-- The bridge to a registry. Only the values of static fields change. -/
def bridge : Bridge Registry where
  resolve name := return (← get).2.lookup? name
  construct := construct
  invoke := invoke
  getField := getField
  setField := setField

end Registry

end StackScript
