import StackScript.Text.Casing
import StackScript.Text.Qualified
import StackScript.Value.Heap
import StackScript.Value.Operators

/-!
# Built-in members

Lists, texts, ranges and enumerators have members without any host. They follow the protocol of host
collections, `GetEnumerator`, `MoveNext` and `Current`, so that a `for` loop treats all collections
alike.

Every value but an object of the host has built-in members only; most have none. A member that takes
other arguments than those given is told apart from one that does not exist.
-/

namespace StackScript

namespace Heap

/-- Whether a reference is to a helper of the language and not to an object of the host. -/
def isHelper (h : Heap) (r : ObjectRef) : Bool :=
  match h.object? r with
  | some (.foreign _ _) | none => false
  | some _ => true

/-- Whether the members of a value are built in. -/
def hasBuiltins (h : Heap) : Value → Bool
  | .object r => h.isHelper r
  | _ => true

/-- The name under which a value reports that it has no such member. -/
def ownerName (h : Heap) : Value → String
  | .object r => h.typeName r
  | v => v.typeName

end Heap

namespace Builtin

/-- A new object of the heap. -/
def create (object : Object) : HeapAction Value :=
  modifyGet (·.newObject object)

/-! ### Methods of lists -/

/-- The methods of lists. -/
inductive ListMethod where
  | getEnumerator | add | contains | removeAt | clear
  deriving DecidableEq

namespace ListMethod

/-- The name of a method. -/
def name : ListMethod → String
  | getEnumerator => "GetEnumerator"
  | add => "Add"
  | contains => "Contains"
  | removeAt => "RemoveAt"
  | clear => "Clear"

/-- The method with a given name. -/
def ofName? (name : String) : Option ListMethod :=
  [getEnumerator, add, contains, removeAt, clear].find? (·.name == name)

/-- Whether some element equals a value. Elements that cannot be compared with it do not. -/
def holds (items : Array Value) (value : Value) : Bool :=
  items.any fun item => match item.equals value with
    | .ok (.bool found) => found
    | _ => false

/-- Removes the element at an index and gives it back. -/
def remove (list : ListRef) (index : Int32) : HeapAction Value := do
  let items := (← get).items list
  if 0 ≤ index.toInt ∧ index.toInt < items.size then
    let i := index.toInt.toNat
    let item := items[i]?.getD .null
    modify (·.modifyList list (·.eraseIdxIfInBounds i))
    return item
  throw (.indexOutOfRange index items.size)

/-- Calls a method of a list. -/
def call (list : ListRef) (method : ListMethod) (args : List Value) : HeapAction Value :=
  match method, args with
  | getEnumerator, [] => create (.listEnumerator (.start list))
  | add, [value] => do
    modify (·.modifyList list (·.push value))
    return .null
  | contains, [value] => return .bool (holds ((← get).items list) value)
  | removeAt, [.int index] => remove list index
  | clear, [] => do
    modify (·.modifyList list fun _ => #[])
    return .null
  | method, args => throw (.noMatchingOverload method.name args.length)

end ListMethod

/-! ### Methods of texts -/

/-- The methods of texts. -/
inductive TextMethod where
  | contains | toUpper | toLower
  deriving DecidableEq

namespace TextMethod

/-- The name of a method. -/
def name : TextMethod → String
  | contains => "Contains"
  | toUpper => "ToUpper"
  | toLower => "ToLower"

/-- The method with a given name. -/
def ofName? (name : String) : Option TextMethod :=
  [contains, toUpper, toLower].find? (·.name == name)

/-- Whether a row of characters occurs within another. -/
def occurs (part : List Char) : List Char → Bool
  | [] => part.isEmpty
  | c :: rest => part.isPrefixOf (c :: rest) || occurs part rest

/-- Calls a method of a text. -/
def call (text : String) (method : TextMethod) (args : List Value) : Except Fault Value :=
  match method, args with
  | contains, [.string part] => .ok (.bool (occurs part.toList text.toList))
  | toUpper, [] => .ok (.string (Text.toUpper text))
  | toLower, [] => .ok (.string (Text.toLower text))
  | method, args => .error (.noMatchingOverload method.name args.length)

end TextMethod

/-! ### Members of helpers -/

/-- Calls a method of a helper. None of them takes arguments. -/
def callHelper (r : ObjectRef) (method : String) (args : List Value) : HeapAction Value := do
  unless args.isEmpty do throw (.noMatchingOverload method args.length)
  let h ← get
  match h.object? r, method with
  | some (.listEnumerator e), "MoveNext" =>
    let (moved, e) := e.moveNext (h.items e.items).size
    modify (·.setObject r (.listEnumerator e))
    return .bool moved
  | some (.rangeEnumerator e), "MoveNext" =>
    let (moved, e) := e.moveNext
    modify (·.setObject r (.rangeEnumerator e))
    return .bool moved
  | some (.range range), "GetEnumerator" => create (.rangeEnumerator (.start range))
  | _, _ => throw (.memberNotFound (h.typeName r) method)

/-- The field of a helper, if it has it. -/
def helperField? (h : Heap) (object : Object) (field : String) : Option Value :=
  match object, field with
  | .listEnumerator e, "Current" => some (e.current (h.items e.items))
  | .rangeEnumerator e, "Current" => some e.current
  | .range range, "Start" => some (.int range.start)
  | .range range, "End" => some (.int range.stop)
  | .range range, "Step" => some (.int range.step)
  | _, _ => none

/-! ### Members of any value -/

/-- Refuses a member that a value does not have. -/
def refuse (receiver : Value) (member : String) : HeapAction Value := do
  throw (.memberNotFound ((← get).ownerName receiver) member)

/-- Calls a built-in method. -/
def call (receiver : Value) (method : String) (args : List Value) : HeapAction Value :=
  match receiver with
  | .list r =>
    match ListMethod.ofName? method with
    | some m => m.call r args
    | none => refuse receiver method
  | .string s =>
    match TextMethod.ofName? method with
    | some m => liftM (m.call s args)
    | none => refuse receiver method
  | .object r => callHelper r method args
  | .literal _ => refuse receiver method

/-- The built-in field of a value, if it has it. -/
def field? (h : Heap) (receiver : Value) (field : String) : Option Value :=
  match receiver, field with
  | .list r, "Count" => some (.int (.ofNat (h.items r).size))
  | .string s, "Length" => some (.int (.ofNat s.length))
  | .object r, field => (h.object? r).bind (helperField? h · field)
  | _, _ => none

/-- Reads a built-in field. -/
def getField (h : Heap) (receiver : Value) (field : String) : Except Fault Value :=
  match field? h receiver field with
  | some value => .ok value
  | none => .error (.memberNotFound (h.ownerName receiver) field)

/-! ### Construction -/

/-- Constructs a range from its end, from both ends, or from both ends and the step. -/
def constructRange (args : List Value) : HeapAction Value :=
  match args.mapM Value.asInt? with
  | some [stop] => build 0 stop 1
  | some [start, stop] => build start stop 1
  | some [start, stop, step] => build start stop step
  | some _ => throw (.noMatchingOverload "Range" args.length)
  | none =>
    throw (.typeMismatch "int arguments" (String.intercalate ", " (args.map Value.typeName)))
where
  build (start stop step : Int32) : HeapAction Value := do
    create (.range (← Range.make start stop step))

/-- The types that can be constructed without a host, by their simple names. -/
def constructor? (type : String) : Option (List Value → HeapAction Value) :=
  if Text.simpleName type = "Range" then some constructRange else none

end Builtin

end StackScript
