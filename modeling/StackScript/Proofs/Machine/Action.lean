import StackScript.Proofs.Machine.Work

/-!
# Actions on the memory

All that instructions compute happens beside the stack: operators, elements of lists and texts,
built-in members, and the calls into the host. Each of these actions is `Aside`, and so its faults are
the ordinary faults of scripts.
-/

namespace StackScript

variable {σ : Type}

/-! ### Results of operators -/

theorem OrdinaryResult.ok {α : Type} (a : α) : OrdinaryResult (.ok a : Except Fault α) := by
  intro fault h
  cases h

theorem OrdinaryResult.error {α : Type} {fault : Fault} (h : fault.Ordinary) :
    OrdinaryResult (.error fault : Except Fault α) := by
  intro fault' h'
  cases h'
  exact h

theorem OrdinaryResult.bind {α β : Type} {x : Except Fault α} {f : α → Except Fault β}
    (hx : OrdinaryResult x) (hf : ∀ a, OrdinaryResult (f a)) : OrdinaryResult (x >>= f) := by
  cases x with
  | ok a => exact hf a
  | error fault => exact .error (hx fault rfl)

namespace Value

theorem ordinary_arithmetic (sign : String) (onInt : Int32 → Int32 → Int32)
    (onFloat : Float32 → Float32 → Float32) (a b : Value) :
    OrdinaryResult (arithmetic sign onInt onFloat a b) := by
  unfold arithmetic
  split
  · exact .ok _
  · split
    · exact .ok _
    · exact .error trivial

theorem ordinary_comparison (onInt : Int32 → Int32 → Bool) (onFloat : Float32 → Float32 → Bool)
    (a b : Value) : OrdinaryResult (comparison onInt onFloat a b) := by
  unfold comparison
  split
  · exact .ok _
  · split
    · exact .ok _
    · exact .error trivial

theorem ordinary_equals (a b : Value) : OrdinaryResult (a.equals b) := by
  unfold equals
  split <;> try exact .ok _
  split
  · exact .ok _
  · exact .error trivial

theorem ordinary_invert (a : Value) : OrdinaryResult a.invert := by
  unfold invert
  split
  · exact .ok _
  · exact .error trivial

theorem ordinary_position (index : Value) (length : Nat) :
    OrdinaryResult (index.position length) := by
  unfold position
  split
  · unfold StackScript.position
    split
    · exact .ok _
    · exact .error trivial
  · exact .error trivial

end Value

/-- Operators fail with ordinary faults only. -/
theorem BinaryOp.ordinary_apply (op : BinaryOp) (a b : Value) : OrdinaryResult (op.apply a b) := by
  cases op with
  | add =>
    show OrdinaryResult (a.add b)
    unfold Value.add
    split
    · exact .ok _
    · exact Value.ordinary_arithmetic _ _ _ _ _
  | sub => exact Value.ordinary_arithmetic _ _ _ _ _
  | mul => exact Value.ordinary_arithmetic _ _ _ _ _
  | div =>
    show OrdinaryResult (a.div b)
    unfold Value.div
    split
    · split
      · exact .error trivial
      · exact .ok _
    · exact Value.ordinary_arithmetic _ _ _ _ _
  | less => exact Value.ordinary_comparison _ _ _ _
  | greater => exact Value.ordinary_comparison _ _ _ _
  | equal => exact Value.ordinary_equals _ _

/-! ### Elements and built-in members -/

namespace Heap

theorem ordinary_element (h : Heap) (target index : Value) :
    OrdinaryResult (h.element target index) := by
  unfold element
  split
  · exact .bind (index.ordinary_position _) fun _ ↦ .ok _
  · exact .bind (index.ordinary_position _) fun _ ↦ .ok _
  · exact .error trivial

theorem clean_setElement (target index value : Value) : Clean (setElement target index value) := by
  unfold setElement
  split
  · exact .bind .get fun h ↦ .bind (.lift (index.ordinary_position _)) fun _ ↦ .modify _
  · exact .throw trivial

end Heap

namespace Builtin

theorem clean_create (object : Object) : Clean (create object) :=
  .modifyGet _

theorem ListMethod.clean_remove (list : ListRef) (index : Int32) : Clean (remove list index) := by
  refine .bind .get fun h ↦ ?_
  dsimp only
  split
  · exact .bind (.modify _) fun _ ↦ .pure _
  · exact .throw trivial

theorem ListMethod.clean_call (list : ListRef) (method : ListMethod) (args : List Value) :
    Clean (method.call list args) := by
  unfold ListMethod.call
  split
  · exact clean_create _
  · exact .bind (.modify _) fun _ ↦ .pure _
  · exact .bind .get fun _ ↦ .pure _
  · exact clean_remove list _
  · exact .bind (.modify _) fun _ ↦ .pure _
  · exact .throw trivial

theorem TextMethod.ordinary_call (text : String) (method : TextMethod) (args : List Value) :
    OrdinaryResult (method.call text args) := by
  unfold TextMethod.call
  split
  · exact .ok _
  · exact .ok _
  · exact .ok _
  · exact .error trivial

theorem clean_callHelper (r : ObjectRef) (method : String) (args : List Value) :
    Clean (callHelper r method args) := by
  unfold callHelper
  refine .guard (by trivial) (.bind .get fun h ↦ ?_)
  split
  · exact .bind (.modify _) fun _ ↦ .pure _
  · exact .bind (.modify _) fun _ ↦ .pure _
  · exact clean_create _
  · exact .throw trivial

theorem clean_refuse (receiver : Value) (member : String) : Clean (refuse receiver member) :=
  .bind .get fun _ ↦ .throw trivial

/-- Built-in methods fail with ordinary faults only. -/
theorem clean_call (receiver : Value) (method : String) (args : List Value) :
    Clean (call receiver method args) := by
  unfold call
  split
  · split
    · exact ListMethod.clean_call _ _ _
    · exact clean_refuse _ _
  · split
    · exact .lift (TextMethod.ordinary_call _ _ _)
    · exact clean_refuse _ _
  · exact clean_callHelper _ _ _
  · exact clean_refuse _ _

theorem ordinary_getField (h : Heap) (receiver : Value) (field : String) :
    OrdinaryResult (getField h receiver field) := by
  unfold getField
  split
  · exact .ok _
  · exact .error trivial

theorem clean_constructRange (args : List Value) : Clean (constructRange args) := by
  have clean_build (start stop step : Int32) : Clean (constructRange.build start stop step) := by
    refine .bind (.lift ?_) fun _ ↦ clean_create _
    unfold Range.make
    split
    · exact .error trivial
    · exact .ok _
  unfold constructRange
  split
  · exact clean_build _ _ _
  · exact clean_build _ _ _
  · exact clean_build _ _ _
  · exact .throw trivial
  · exact .throw trivial

theorem clean_of_constructor? {type : String} {build : List Value → HeapAction Value}
    (h : constructor? type = some build) (args : List Value) : Clean (build args) := by
  unfold constructor? at h
  split at h
  · cases h
    exact clean_constructRange args
  · cases h

end Builtin

end StackScript
