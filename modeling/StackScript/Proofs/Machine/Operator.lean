import Mathlib.Data.List.Basic
import StackScript.Proofs.Machine.Action

/-!
# Instructions that compute

Most instructions take values from the top of the stack, make one value of them beside the stack, and
push it. What they make of their operands is `Engine.apply`, which is work beside the stack. How many
operands they take is `Operation.operands?`, or, for those that take a whole argument window, the
number of values below the window, `Operation.receivers?`.

That an instruction takes its operands, applies itself and pushes the result is said once, by
`on_perform_operands` and `on_perform_window`; nothing else looks into these instructions.
-/

namespace StackScript

variable {σ α : Type}

/-! ### Operands -/

namespace Operation

/-- How many values an instruction takes that computes with values from the top of the stack. -/
def operands? : Operation → Option Nat
  | .push | .pushGlobal | .pushStaticField => some 0
  | .invert | .pushField => some 1
  | .pushElement | .binary _ | .setField => some 2
  | .setElement | .setElementCached => some 3
  | _ => none

/-- How many values an instruction takes from below the window whose values it computes with. -/
def receivers? : Operation → Option Nat
  | .makeList | .construct | .callStatic => some 0
  | .callMethod => some 1
  | _ => none

end Operation

/-! ### Taking and pushing values -/

namespace Step

theorem on_pop {m : Machine σ} {S : Array Value} {v : Value} (h : m.stack = S.push v) :
    pop.on m = (.ok v, { m with stack := S }) := by
  simp [pop, on_bind, h]

theorem on_peek {m : Machine σ} {S : Array Value} {v : Value} (h : m.stack = S.push v) :
    peek.on m = (.ok v, m) := by
  simp [peek, on_bind, h]

theorem on_closeWindow {m : Machine σ} {start : Nat} {outer : List Nat}
    (h : m.windows = start :: outer) (hs : start ≤ m.stack.size) :
    closeWindow.on m = (.ok start, { m with windows := outer }) := by
  simp [closeWindow, on_bind, h, Nat.not_lt.mpr hs]

theorem on_takeWindow {m : Machine σ} {S args : Array Value} {outer : List Nat}
    (hm : m.stack = S ++ args) (hw : m.windows = S.size :: outer) :
    takeWindow.on m = (.ok args, { m with stack := S, windows := outer }) := by
  rw [takeWindow, on_bind, on_closeWindow hw (by simp [hm])]
  simp [on_bind, hm]

end Step

namespace Engine

variable (e : Engine σ)

/-- Pushing succeeds where the stack has room. -/
theorem on_push (v : Value) (m : Machine σ) :
    (e.push v).on m =
      (if e.limits.stack < m.stack.size + 1 then .error .stackOverflow else .ok ⟨⟩,
        { m with stack := m.stack.push v }) := by
  simp only [push, checkStack, Step.on_bind, Step.on_modify, Step.on_get, Step.on_ite,
    Array.size_push]
  split <;> rfl

/-! ### Computing -/

/-- What a computing instruction makes of its operands. -/
def apply (i : Instruction) (args : List Value) : Step σ Value := do
  match i.op, args with
  | .push, [] =>
    match i.literal? with
    | some value => return value
    | none => throw (.invalidProgram "PUSH without a literal")
  | .pushGlobal, [] =>
    match (← get).store.globals.get? i.name with
    | some value => return value
    | none => throw (.undefinedGlobal i.name)
  | .pushStaticField, [] =>
    let (type, field) ← Step.splitMember i.name
    let handle ← e.resolve type
    Step.onHost (e.bridge.getField (.type handle) field)
  | .invert, [value] => return .literal (← value.invert)
  | .pushField, [receiver] => e.getField receiver i.name
  | .pushElement, [target, index] => (← Step.heap).element target index
  | .binary op, [left, right] => return .literal (← op.apply left right)
  | .setField, [receiver, value] =>
    e.setField receiver i.name value
    return value
  | .setElement, [target, index, value] | .setElementCached, [target, index, value] =>
    Step.onHeap (Heap.setElement target index value)
    return value
  | .makeList, items => Step.onHeap (modifyGet (·.newList items.toArray))
  | .construct, args => e.construct i.name args
  | .callStatic, args =>
    let (type, method) ← Step.splitMember i.name
    let handle ← e.resolve type
    Step.onHost (e.bridge.invoke (.type handle) method args)
  | .callMethod, receiver :: args => e.callMethod receiver i.name args
  | _, _ => throw Step.underflow

/-- A computing instruction takes its operands from the top of the stack, applies itself and pushes
the result. -/
theorem on_perform_operands {i : Instruction} {m : Machine σ} {S : Array Value} {args : List Value}
    (hi : i.op.operands? = some args.length) (hm : m.stack = S ++ args.toArray) :
    (e.perform i).on m = (e.apply i args >>= e.push).on { m with stack := S } := by
  obtain ⟨op, operand, line⟩ := i
  obtain ⟨stack, base, windows, frames, resolved, store⟩ := m
  obtain rfl : stack = S ++ args.toArray := hm
  cases op with
  | push =>
    obtain rfl : args = [] := List.length_eq_zero_iff.mp (Option.some.inj hi).symm
    rcases h : Instruction.literal? ⟨.push, operand, line⟩ with _ | value <;>
      simp [perform, apply, h]
  | pushGlobal =>
    obtain rfl : args = [] := List.length_eq_zero_iff.mp (Option.some.inj hi).symm
    rcases h : store.globals.get? (Instruction.name ⟨.pushGlobal, operand, line⟩) with _ | value <;>
      simp [perform, apply, Step.on_bind, h]
  | pushStaticField =>
    obtain rfl : args = [] := List.length_eq_zero_iff.mp (Option.some.inj hi).symm
    simp [perform, apply]
  | invert | pushField =>
    obtain ⟨a, rfl⟩ := List.length_eq_one_iff.mp (Option.some.inj hi).symm
    simp [perform, apply, Step.on_bind, Step.pop]
  | pushElement | binary | setField =>
    obtain ⟨a, b, rfl⟩ := List.length_eq_two.mp (Option.some.inj hi).symm
    simp [perform, apply, operate, Step.on_bind, Step.pop]
  | setElement | setElementCached =>
    obtain ⟨a, b, c, rfl⟩ := List.length_eq_three.mp (Option.some.inj hi).symm
    simp [perform, apply, Step.on_bind, Step.pop]
  | _ => cases hi

/-- The same for an instruction that takes a window, and what stands below it. -/
theorem on_perform_window {i : Instruction} {m : Machine σ} {S : Array Value}
    {receivers args : List Value} {outer : List Nat}
    (hi : i.op.receivers? = some receivers.length)
    (hm : m.stack = S ++ receivers.toArray ++ args.toArray)
    (hw : m.windows = (S.size + receivers.length) :: outer) :
    (e.perform i).on m =
      (e.apply i (receivers ++ args) >>= e.push).on { m with stack := S, windows := outer } := by
  obtain ⟨op, operand, line⟩ := i
  obtain ⟨stack, base, windows, frames, resolved, store⟩ := m
  obtain rfl : stack = S ++ receivers.toArray ++ args.toArray := hm
  obtain rfl : windows = (S.size + receivers.length) :: outer := hw
  have htake : Step.takeWindow.on (⟨S ++ receivers.toArray ++ args.toArray, base,
      (S.size + receivers.length) :: outer, frames, resolved, store⟩ : Machine σ) =
      (.ok args.toArray, ⟨S ++ receivers.toArray, base, outer, frames, resolved, store⟩) :=
    Step.on_takeWindow rfl (by simp)
  cases op with
  | makeList | construct | callStatic =>
    obtain rfl : receivers = [] := List.length_eq_zero_iff.mp (Option.some.inj hi).symm
    rw [perform]
    simp only
    rw [Step.on_bind, htake]
    simp [apply, Step.on_bind]
  | callMethod =>
    obtain ⟨a, rfl⟩ := List.length_eq_one_iff.mp (Option.some.inj hi).symm
    rw [perform]
    simp only
    rw [Step.on_bind, htake]
    simp [apply, Step.on_bind, Step.pop]
  | _ => cases hi

/-! ### Storing -/

/-- What an instruction does that stores the topmost value away and leaves it on the stack. -/
def keep (i : Instruction) (value : Value) : Step σ Unit := do
  match i.op with
  | .setGlobal => modify fun m => { m with store.globals := m.store.globals.set i.name value }
  | .setStaticField =>
    let (type, field) ← Step.splitMember i.name
    let handle ← e.resolve type
    Step.onHost (e.bridge.setField (.type handle) field value)
  | _ => throw Step.underflow

/-- A storing instruction looks at the topmost value and stores it away. -/
theorem on_perform_keep {i : Instruction} {m : Machine σ} {S : Array Value} {v : Value}
    (hi : i.op = .setGlobal ∨ i.op = .setStaticField) (hm : m.stack = S.push v) :
    (e.perform i).on m = (e.keep i v).on m := by
  obtain ⟨op, operand, line⟩ := i
  rcases hi with rfl | rfl
  · simp only [perform, keep]
    rw [Step.on_bind, Step.on_peek hm]
  · simp only [perform, keep]
    rw [Step.on_bind, Step.on_peek hm]

/-- An assignment to a local copies the topmost value into its slot. -/
theorem on_perform_setLocal {i : Instruction} {m : Machine σ} {S : Array Value} {vs : List Value}
    {v : Value} (hi : i.op = .setLocal) (hb : m.base = S.size)
    (hm : m.stack = S ++ (vs ++ [v]).toArray) (hs : i.count < (vs ++ [v]).length) :
    (e.perform i).on m =
      (.ok ⟨⟩, { m with stack := S ++ ((vs ++ [v]).set i.count v).toArray }) := by
  obtain ⟨op, operand, line⟩ := i
  obtain rfl := hi
  have hpush : m.stack = (S ++ vs.toArray).push v := by simp [hm]
  have hlt : ¬ m.stack.size ≤ m.base + Instruction.count ⟨.setLocal, operand, line⟩ := by
    simp only [hm, hb, Array.size_append, List.size_toArray]
    omega
  simp only [perform]
  rw [Step.on_bind, Step.on_peek hpush]
  simp only [Step.setLocal, Step.on_bind, Step.on_get, Step.on_set, if_neg hlt]
  rw [hm, hb]
  simp

/-- A local is pushed from its slot. -/
theorem on_perform_pushLocal {i : Instruction} {m : Machine σ} {S : Array Value} {vs : List Value}
    {v : Value} (hi : i.op = .pushLocal) (hb : m.base = S.size) (hm : m.stack = S ++ vs.toArray)
    (hs : vs[i.count]? = some v) : (e.perform i).on m = (e.push v).on m := by
  obtain ⟨op, operand, line⟩ := i
  obtain rfl := hi
  have hv : m.stack[m.base + Instruction.count ⟨.pushLocal, operand, line⟩]? = some v := by
    rw [hm, hb, Array.getElem?_append_right (Nat.le_add_right _ _)]
    simpa using hs
  simp only [perform, Step.getLocal, Step.on_bind, Step.on_get, hv, Step.on_pure]

/-- Discarding drops the topmost values. -/
theorem on_perform_pop {i : Instruction} {m : Machine σ} {S : Array Value} {args : List Value}
    (hi : i.op = .pop) (hc : i.count = args.length) (hm : m.stack = S ++ args.toArray) :
    (e.perform i).on m = (.ok ⟨⟩, { m with stack := S }) := by
  obtain ⟨op, operand, line⟩ := i
  obtain rfl := hi
  have hsize : ¬ m.stack.size < args.length := by simp [hm]
  simp only [perform, Step.discard, Step.on_bind, Step.on_get, hc, if_neg hsize]
  simp [hm]

/-- Duplicating succeeds where the stack has room. -/
theorem on_perform_dup {i : Instruction} {m : Machine σ} {S : Array Value} {args : List Value}
    (hi : i.op = .dup) (hc : i.count = args.length) (hm : m.stack = S ++ args.toArray) :
    (e.perform i).on m =
      (if e.limits.stack < m.stack.size + args.length then .error .stackOverflow else .ok ⟨⟩,
        { m with stack := S ++ args.toArray ++ args.toArray }) := by
  obtain ⟨op, operand, line⟩ := i
  obtain rfl := hi
  have hsize : ¬ m.stack.size < args.length := by simp [hm]
  simp only [perform, duplicate, checkStack, Step.on_bind, Step.on_get, Step.on_set, hc,
    if_neg hsize, Step.on_ite, Step.on_throw, Step.on_pure]
  simp only [hm, Array.size_append, List.size_toArray]
  split <;> simp_all

theorem on_perform_openWindow {i : Instruction} {m : Machine σ} (hi : i.op = .openWindow) :
    (e.perform i).on m = (.ok ⟨⟩, { m with windows := m.stack.size :: m.windows }) := by
  obtain ⟨op, operand, line⟩ := i
  obtain rfl := hi
  rfl

end Engine

/-! ### Computing happens beside the stack -/

/-- The operand of an instruction is of the sort that its operation needs. -/
def Instruction.Proper (i : Instruction) : Prop :=
  match i.op with
  | .push => i.literal?.isSome
  | .callStatic | .pushStaticField | .setStaticField => (Text.unqualified? i.name).isSome
  | _ => True

namespace Step.Aside

/-- Work that goes on from what the machine remembers is work beside the stack. -/
theorem get_bind {f : Machine σ → Step σ α} (h : ∀ m, Aside (f m))
    (hf : ∀ m m' : Machine σ, m.memory = m'.memory → f m = f m') : Aside (get >>= f) := by
  refine ⟨fun m ↦ ?_, .bind .get fun m ↦ (h m).clean⟩
  have hm : f (.bare m.memory) = f m := hf _ _ rfl
  simp [onBare, on_bind, hm, (h m).on_eq m]

/-- Changing the memory is work beside the stack. -/
theorem modify {f : Machine σ → Machine σ} (g : Memory σ → Memory σ)
    (hf : ∀ m, f m = m.withMemory (g m.memory)) : Aside (modify f : Step σ PUnit) := by
  refine ⟨fun m ↦ ?_, .modify f⟩
  simp [onBare, hf]

end Step.Aside

namespace Engine

open Step

variable (e : Engine σ)

theorem aside_splitMember {name : String} (h : (Text.unqualified? name).isSome) :
    Aside (liftM (splitMember name) : Step σ (String × String)) := by
  obtain ⟨parts, hp⟩ := Option.isSome_iff_exists.mp h
  rw [splitMember, hp]
  exact .pure _

theorem aside_resolve? (name : String) : Aside (e.resolve? name) := by
  refine .get_bind (fun m ↦ ?_) fun m m' h ↦ ?_
  · split
    · exact .pure _
    · refine .bind (.onHost _) fun found ↦ ?_
      split
      · exact .pure _
      · rename_i handle
        exact .bind (.modify (fun mem ↦ ⟨(name, handle) :: mem.resolved, mem.store⟩) fun _ ↦ rfl)
          fun _ ↦ .pure _
  · have hr : m.resolved = m'.resolved := congrArg Memory.resolved h
    rw [hr]

theorem aside_resolve (name : String) : Aside (e.resolve name) := by
  refine .bind (e.aside_resolve? name) fun found ↦ ?_
  split
  · exact .pure _
  · exact .throw trivial

theorem aside_construct (type : String) (args : List Value) : Aside (e.construct type args) := by
  refine .bind (e.aside_resolve? type) fun found ↦ ?_
  split
  · exact .onHost _
  · rename_i build h
    exact .onHeap (Builtin.clean_of_constructor? h args)
  · exact .throw trivial

theorem aside_callMethod (receiver : Value) (method : String) (args : List Value) :
    Aside (e.callMethod receiver method args) := by
  refine .bind .heap fun h ↦ ?_
  split
  · exact .onHost _
  · exact .onHeap (Builtin.clean_call _ _ _)

theorem aside_getField (receiver : Value) (field : String) : Aside (e.getField receiver field) := by
  refine .bind .heap fun h ↦ ?_
  split
  · exact .onHost _
  · exact .lift (Builtin.ordinary_getField _ _ _)

theorem aside_setField (receiver : Value) (field : String) (value : Value) :
    Aside (e.setField receiver field value) := by
  refine .bind .heap fun h ↦ ?_
  split
  · exact .onHost _
  · exact .throw trivial

theorem aside_undefinedGlobal (name : String) :
    Aside (do
      match (← get).store.globals.get? name with
      | some value => return value
      | none => throw (.undefinedGlobal name) : Step σ Value) := by
  refine .get_bind (fun m ↦ ?_) fun m m' h ↦ ?_
  · split
    · exact .pure _
    · exact .throw trivial
  · have hs : m.store = m'.store := congrArg Memory.store h
    rw [hs]

/-- What instructions compute from operands in their number is work beside the stack. -/
theorem aside_apply {i : Instruction} (h : i.Proper) {args : List Value}
    (hargs : i.op.operands? = some args.length) : Aside (e.apply i args) := by
  obtain ⟨op, operand, line⟩ := i
  cases op with
  | push =>
    obtain rfl : args = [] := List.length_eq_zero_iff.mp (Option.some.inj hargs).symm
    obtain ⟨value, hv⟩ := Option.isSome_iff_exists.mp h
    simp only [apply, hv]
    exact .pure _
  | pushGlobal =>
    obtain rfl : args = [] := List.length_eq_zero_iff.mp (Option.some.inj hargs).symm
    exact aside_undefinedGlobal _
  | pushStaticField =>
    obtain rfl : args = [] := List.length_eq_zero_iff.mp (Option.some.inj hargs).symm
    exact .bind (aside_splitMember h) fun _ ↦ .bind (e.aside_resolve _) fun _ ↦ .onHost _
  | invert =>
    obtain ⟨a, rfl⟩ := List.length_eq_one_iff.mp (Option.some.inj hargs).symm
    exact .bind (.lift a.ordinary_invert) fun _ ↦ .pure _
  | pushField =>
    obtain ⟨a, rfl⟩ := List.length_eq_one_iff.mp (Option.some.inj hargs).symm
    exact e.aside_getField a _
  | pushElement =>
    obtain ⟨a, b, rfl⟩ := List.length_eq_two.mp (Option.some.inj hargs).symm
    exact .bind .heap fun h ↦ .lift (h.ordinary_element a b)
  | binary op =>
    obtain ⟨a, b, rfl⟩ := List.length_eq_two.mp (Option.some.inj hargs).symm
    exact .bind (.lift (op.ordinary_apply a b)) fun _ ↦ .pure _
  | setField =>
    obtain ⟨a, b, rfl⟩ := List.length_eq_two.mp (Option.some.inj hargs).symm
    exact .bind (e.aside_setField a _ b) fun _ ↦ .pure _
  | setElement | setElementCached =>
    obtain ⟨a, b, c, rfl⟩ := List.length_eq_three.mp (Option.some.inj hargs).symm
    exact .bind (.onHeap (Heap.clean_setElement a b c)) fun _ ↦ .pure _
  | _ => cases hargs

/-- The same for a window and the receivers below it. -/
theorem aside_apply_window {i : Instruction} (h : i.Proper) {receivers args : List Value}
    (hr : i.op.receivers? = some receivers.length) : Aside (e.apply i (receivers ++ args)) := by
  obtain ⟨op, operand, line⟩ := i
  cases op with
  | makeList =>
    show Aside (onHeap (modifyGet (·.newList (receivers ++ args).toArray)))
    exact .onHeap (.modifyGet _)
  | construct => exact e.aside_construct _ _
  | callStatic =>
    exact .bind (aside_splitMember h) fun _ ↦ .bind (e.aside_resolve _) fun _ ↦ .onHost _
  | callMethod =>
    obtain ⟨a, rfl⟩ := List.length_eq_one_iff.mp (Option.some.inj hr).symm
    exact e.aside_callMethod a _ args
  | _ => cases hr

/-- Storing instructions work beside the stack. -/
theorem aside_keep {i : Instruction} (h : i.Proper)
    (hi : i.op = .setGlobal ∨ i.op = .setStaticField) (value : Value) :
    Aside (e.keep i value) := by
  obtain ⟨op, operand, line⟩ := i
  rcases hi with rfl | rfl
  · exact .modify (fun mem ↦ ⟨mem.resolved,
      { mem.store with globals := mem.store.globals.set _ value }⟩) fun _ ↦ rfl
  · exact .bind (aside_splitMember h) fun _ ↦ .bind (e.aside_resolve _) fun _ ↦ .onHost _

end Engine

end StackScript
