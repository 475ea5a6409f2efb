import StackScript.Proofs.Layout.Code
import StackScript.Proofs.Reference.Evaluation

/-!
# Locals and their slots

The evaluator keeps locals by their names, the machine keeps their values in slots, and between them
the enumerators of loops, which the evaluator keeps to itself. `Fills` says that the values in the slots
are those of the locals. It relates a name to the same value on both sides, as the slot of a name is
that of the innermost local with the name.
-/

namespace StackScript

/-- What a slot is for. -/
inductive Slot where
  | named (name : String)
  | enumerator (value : Value)

/-- The name that code generation gives to a slot. -/
def Slot.name : Slot → String
  | named name => name
  | enumerator _ => enumeratorName

/-- The scope that code is generated in, with given slots. -/
abbrev scopeOf (slots : List Slot) : List String := slots.map Slot.name

/-- How many of the slots are for locals. -/
def localCount : List Slot → Nat
  | [] => 0
  | .named _ :: slots => localCount slots + 1
  | .enumerator _ :: slots => localCount slots

/-- The slots of locals have the values of the locals. All rows begin with the innermost. -/
inductive Fills : List Slot → List (String × Value) → List Value → Prop
  | nil : Fills [] [] []
  | named {slots : List Slot} {locals : List (String × Value)} {values : List Value} (name : String)
      (value : Value) (rest : Fills slots locals values) :
      Fills (.named name :: slots) ((name, value) :: locals) (value :: values)
  | enumerator {slots : List Slot} {locals : List (String × Value)} {values : List Value}
      (value : Value) (rest : Fills slots locals values) :
      Fills (.enumerator value :: slots) locals (value :: values)

section Scopes

variable {slots : List Slot} {name own : String} {value : Value} {slot : Nat}

theorem slot?_named (h : own = name) :
    slot? name (scopeOf (.named own :: slots)) = some slots.length := by
  show (if own = name then some (scopeOf slots).length else _) = _
  rw [if_pos h, List.length_map]

theorem slot?_named_ne (h : own ≠ name) :
    slot? name (scopeOf (.named own :: slots)) = slot? name (scopeOf slots) :=
  if_neg h

/-- No name that can be written finds an enumerator. -/
theorem slot?_enumerator (h : name ≠ enumeratorName) :
    slot? name (scopeOf (.enumerator value :: slots)) = slot? name (scopeOf slots) :=
  if_neg (Ne.symm h)

end Scopes

namespace Fills

variable {slots : List Slot} {locals : List (String × Value)} {values : List Value} {name : String}
  {slot : Nat} {value : Value}

theorem length_eq (h : Fills slots locals values) : values.length = slots.length := by
  induction h with
  | nil => rfl
  | named _ _ _ ih => exact congrArg (· + 1) ih
  | enumerator _ _ ih => exact congrArg (· + 1) ih

theorem slot_lt (h : Fills slots locals values) (hs : slot? name (scopeOf slots) = some slot) :
    slot < values.reverse.length := by
  have hlt := slot?_lt hs
  rw [List.length_map] at hlt
  rwa [List.length_reverse, h.length_eq]

/-- A name without a slot is the name of no local. -/
theorem lookup_eq_none (h : Fills slots locals values) (hn : name ≠ enumeratorName)
    (hs : slot? name (scopeOf slots) = none) : locals.lookup name = none := by
  induction h with
  | nil => rfl
  | named own _ _ ih =>
    by_cases heq : own = name
    · rw [slot?_named heq] at hs
      cases hs
    · rw [slot?_named_ne heq] at hs
      rw [List.lookup_cons, beq_eq_false_iff_ne.mpr (Ne.symm heq)]
      exact ih hs
  | enumerator _ _ ih =>
    rw [slot?_enumerator hn] at hs
    exact ih hs

/-- The value in the slot of a name is that of its innermost local. -/
theorem exists_lookup (h : Fills slots locals values) (hn : name ≠ enumeratorName)
    (hs : slot? name (scopeOf slots) = some slot) :
    ∃ value, locals.lookup name = some value ∧ values.reverse[slot]? = some value := by
  induction h with
  | nil => cases hs
  | @named slots locals values own value rest ih =>
    rw [List.lookup_cons, List.reverse_cons]
    by_cases heq : own = name
    · rw [slot?_named heq] at hs
      obtain rfl := Option.some.inj hs
      refine ⟨value, by rw [heq, beq_self_eq_true], ?_⟩
      rw [← rest.length_eq, ← List.length_reverse, List.getElem?_concat_length]
    · rw [slot?_named_ne heq] at hs
      rw [beq_eq_false_iff_ne.mpr (Ne.symm heq), List.getElem?_append_left (rest.slot_lt hs)]
      exact ih hs
  | @enumerator slots locals values value rest ih =>
    rw [slot?_enumerator hn] at hs
    rw [List.reverse_cons, List.getElem?_append_left (rest.slot_lt hs)]
    exact ih hs

/-- An assignment to a local is one to its slot. -/
theorem assign (h : Fills slots locals values) (hn : name ≠ enumeratorName)
    (hs : slot? name (scopeOf slots) = some slot) (value : Value) :
    Fills slots (assignLocal name value locals) (values.reverse.set slot value).reverse := by
  induction h with
  | nil => cases hs
  | @named slots locals values own old rest ih =>
    rw [List.reverse_cons, assignLocal]
    by_cases heq : own = name
    · rw [slot?_named heq] at hs
      obtain rfl := Option.some.inj hs
      have hset : (values.reverse ++ [old]).set slots.length value = values.reverse ++ [value] := by
        rw [← rest.length_eq, ← List.length_reverse, List.set_append_right _ _ (Nat.le_refl _),
          Nat.sub_self, List.set_cons_zero]
      rw [if_pos heq, hset, List.reverse_append, List.reverse_reverse]
      exact .named own value rest
    · rw [slot?_named_ne heq] at hs
      rw [if_neg heq, List.set_append_left _ _ (rest.slot_lt hs), List.reverse_append]
      exact .named own old (ih hs)
  | @enumerator slots locals values old rest ih =>
    rw [slot?_enumerator hn] at hs
    rw [List.reverse_cons, List.set_append_left _ _ (rest.slot_lt hs), List.reverse_append]
    exact .enumerator old (ih hs)

/-- Without the innermost slots, the others are those of the outer locals. -/
theorem exists_suffix {inner : List Slot} (h : Fills (inner ++ slots) locals values) :
    ∃ outer, outer <:+ locals ∧ ∃ front back, values = front ++ back ∧ front.length = inner.length ∧
      Fills slots outer back := by
  induction inner generalizing locals values with
  | nil => exact ⟨locals, List.suffix_refl _, [], values, rfl, rfl, h⟩
  | cons _ inner ih =>
    cases h with
    | named name value rest =>
      obtain ⟨outer, hsuffix, front, back, rfl, hlength, hfills⟩ := ih rest
      exact ⟨outer, hsuffix.trans (List.suffix_cons _ _), value :: front, back, rfl,
        congrArg (· + 1) hlength, hfills⟩
    | enumerator value rest =>
      obtain ⟨outer, hsuffix, front, back, rfl, hlength, hfills⟩ := ih rest
      exact ⟨outer, hsuffix, value :: front, back, rfl, congrArg (· + 1) hlength, hfills⟩

/-- There are as many locals as there are slots for them. -/
theorem length_locals (h : Fills slots locals values) : locals.length = localCount slots := by
  induction h with
  | nil => rfl
  | named _ _ _ ih => exact congrArg (· + 1) ih
  | enumerator _ _ ih => exact ih

theorem append {slots' : List Slot} {locals' : List (String × Value)} {values' : List Value}
    (h : Fills slots locals values) (h' : Fills slots' locals' values') :
    Fills (slots ++ slots') (locals ++ locals') (values ++ values') := by
  induction h with
  | nil => exact h'
  | named name value _ ih => exact .named name value ih
  | enumerator value _ ih => exact .enumerator value ih

/-- The parameters of a function and its arguments. -/
theorem of_zip (params : List String) (args : List Value) (h : params.length = args.length) :
    Fills (params.reverse.map .named) (params.zip args).reverse args.reverse := by
  induction params generalizing args with
  | nil =>
    obtain rfl : args = [] := List.length_eq_zero_iff.mp h.symm
    exact .nil
  | cons name params ih =>
    obtain ⟨value, args, rfl⟩ := List.exists_cons_of_length_eq_add_one h.symm
    have hrest := ih args (Nat.succ.inj h)
    simpa using hrest.append (.named name value .nil)

end Fills

end StackScript
