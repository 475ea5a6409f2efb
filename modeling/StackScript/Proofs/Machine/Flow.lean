import StackScript.Proofs.Machine.Operator

/-!
# Instructions that decide how the run goes on

Conditional jumps, calls and returns, each on a machine whose stack is as the instruction needs it.
-/

namespace StackScript

variable {σ : Type}

namespace Instruction

/-- An instruction that goes on at the next one. -/
def IsPlain (i : Instruction) : Prop :=
  match i.op with
  | .jump | .jumpIfFalse | .jumpIfTrue | .call | .giveBack => False
  | _ => True

end Instruction

namespace Step

/-- A condition decides over a jump, unless it is no truth value. -/
theorem on_jumpIf {m : Machine σ} {S : Array Value} {v : Value} (hm : m.stack = S.push v)
    (wanted : Bool) (target : Nat) : (jumpIf wanted target).on m = match v.asBool? with
      | none => (.error (.nonBooleanCondition v.typeName), { m with stack := S })
      | some given => (.ok (if given = wanted then .jump target else .next),
          { m with stack := S }) := by
  rw [jumpIf, on_bind, on_pop hm]
  dsimp only
  rcases v.asBool? with _ | given <;> rfl

end Step

namespace Engine

open Step

variable (e : Engine σ) {i : Instruction} {m : Machine σ}

theorem step_of_isPlain (hi : i.IsPlain) (address : Nat) :
    e.step i address = (do e.perform i; return .next) := by
  obtain ⟨op, operand, line⟩ := i
  cases op <;> first | rfl | exact hi.elim

theorem on_step_of_isPlain (hi : i.IsPlain) (address : Nat) (m : Machine σ) :
    (e.step i address).on m = match (e.perform i).on m with
      | (.ok _, m') => (.ok .next, m')
      | (.error fault, m') => (.error fault, m') := by
  rw [e.step_of_isPlain hi, on_bind]
  rcases (e.perform i).on m with ⟨fault | _, m'⟩ <;> rfl

theorem step_jump (hi : i.op = .jump) (address : Nat) : e.step i address = pure (.jump i.count) := by
  simp only [step, hi]

/-- What a conditional jump waits for. -/
def wanted (op : Operation) : Bool := op = .jumpIfTrue

theorem step_branch (hi : i.op = .jumpIfFalse ∨ i.op = .jumpIfTrue) (address : Nat) :
    e.step i address = jumpIf (wanted i.op) i.count := by
  rcases hi with hi | hi <;> simp only [step, hi] <;> rfl

theorem step_call (hi : i.op = .call) (address : Nat) :
    e.step i address = e.enter i.name (address + 1) := by
  simp only [step, hi]

theorem step_giveBack (hi : i.op = .giveBack) (address : Nat) : e.step i address = e.leave := by
  simp only [step, hi]

/-! ### Calls -/

variable {name : String} (returnAddress : Nat)

theorem on_enter_none (hf : e.program.function? name = none) :
    (e.enter name returnAddress).on m = (.error (.undefinedFunction name), m) := by
  simp only [enter, hf]
  rfl

/-- The values in the innermost window become the first locals of the function. -/
theorem on_enter {f : FunctionEntry} {start : Nat} {outer : List Nat}
    (hf : e.program.function? name = some f) (hw : m.windows = start :: outer)
    (hs : start ≤ m.stack.size) : (e.enter name returnAddress).on m =
      if m.stack.size - start ≠ f.arity then
        (.error (.wrongArity name f.arity (m.stack.size - start)), { m with windows := outer })
      else if e.limits.depth ≤ m.frames.size then
        (.error .stackOverflow, { m with windows := outer })
      else (.ok (.jump f.address), { m with
        windows := outer, base := start, frames := m.frames.push ⟨m.base, returnAddress⟩ }) := by
  simp only [enter, hf]
  rw [on_bind, on_closeWindow hw hs]
  simp only [on_bind, on_get]
  split
  · rfl
  · split <;> rfl

/-- A function that is entered has as many parameters as there are values in the window. -/
theorem entered_of_ok {start : Nat} {outer : List Nat} {flow : Flow} {m' : Machine σ}
    (hw : m.windows = start :: outer) (hs : start ≤ m.stack.size)
    (h : (e.enter name returnAddress).on m = (.ok flow, m')) :
    ∃ f, e.program.function? name = some f ∧ m.stack.size - start = f.arity ∧ flow = .jump f.address ∧
      m' = { m with
        windows := outer, base := start, frames := m.frames.push ⟨m.base, returnAddress⟩ } := by
  rcases hf : e.program.function? name with _ | f
  · rw [e.on_enter_none _ hf] at h
    cases h
  · rw [e.on_enter _ hf hw hs] at h
    split at h
    · cases h
    · rename_i harity
      split at h <;> cases h
      exact ⟨f, rfl, not_not.mp harity, rfl, rfl⟩

/-- The first function ends the run. -/
theorem on_leave_halt {S : Array Value} {v : Value} (hm : m.stack = S.push v)
    (hf : m.frames = #[]) : e.leave.on m = (.ok (.halt v), { m with stack := S }) := by
  rw [leave, on_bind, on_pop hm]
  simp [on_bind, hf]

/-- A function gives its result to its caller, in place of all that stands above its base. -/
theorem on_leave {S : Array Value} {v : Value} {frames : Array Frame} {frame : Frame}
    (hm : m.stack = S.push v) (hf : m.frames = frames.push frame) :
    e.leave.on m = (if e.limits.stack < (S.shrink m.base).size + 1 then .error .stackOverflow
        else .ok (.jump frame.returnAddress),
      { m with stack := (S.shrink m.base).push v, base := frame.base, frames := frames }) := by
  rw [leave, on_bind, on_pop hm]
  simp only [on_bind, on_get, hf, Array.back?_push, on_set, Array.pop_push]
  rw [e.on_push]
  dsimp only
  by_cases hl : e.limits.stack < (S.shrink m.base).size + 1
  · simp only [if_pos hl]
  · simp only [if_neg hl]
    rfl

end Engine

end StackScript
