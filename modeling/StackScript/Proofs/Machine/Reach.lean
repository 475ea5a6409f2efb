import StackScript.Proofs.Machine.Outcome
import StackScript.Proofs.Machine.Progress

/-!
# Where runs get to

What a run does under all limits that leave it room, told between one place of it and a later one:

* `Engine.Reaches`: the run comes from one address and machine to another one.
* `Engine.Stops`: the run ends, with a value or an ordinary fault and with a memory.

How many instructions this takes, and how much room, does not matter and is not told. An instruction
that works beside the stack reaches the next address or stops (`Engine.Yields`).
-/

namespace StackScript

variable {σ α : Type}

/-- Limits that leave room for `n` values and `n` callers, and for any number of instructions. -/
structure Limits.Roomy (l : Limits) (n : Nat) : Prop where
  stack : n ≤ l.stack
  depth : n ≤ l.depth
  steps : l.steps = none

theorem Limits.Roomy.mono {l : Limits} {n k : Nat} (h : l.Roomy k) (hn : n ≤ k) : l.Roomy n :=
  ⟨Nat.le_trans hn h.stack, Nat.le_trans hn h.depth, h.steps⟩

theorem Fault.Ordinary.not_isLimit {fault : Fault} (h : fault.Ordinary) : ¬ fault.IsLimit := by
  intro hl
  cases fault <;> first | exact hl | exact h

namespace Engine

/-- With room enough, the run comes from one place to the other. -/
def Reaches (e : Engine σ) (q q' : Nat × Machine σ) : Prop :=
  ∃ n k, ∀ l : Limits, l.Roomy n → ∀ done,
    (e.within l).advances k ⟨q.1, done, q.2⟩ = .inr ⟨q'.1, done + k, q'.2⟩

/-- With room enough, the run ends with the result and the memory. -/
def Stops (e : Engine σ) (q : Nat × Machine σ) (result : Except Fault Value) (mem : Memory σ) : Prop :=
  OrdinaryResult result ∧ ∃ n k o, o.1.mapError Report.fault = result ∧ o.2.memory = mem ∧
    ∀ l : Limits, l.Roomy n → ∀ done, (e.within l).advances k ⟨q.1, done, q.2⟩ = .inl o

variable {e : Engine σ} {q q' q'' : Nat × Machine σ} {result : Except Fault Value} {mem : Memory σ}

namespace Reaches

theorem refl (q : Nat × Machine σ) : e.Reaches q q :=
  ⟨0, 0, fun _ _ _ ↦ rfl⟩

theorem trans (h : e.Reaches q q') (h' : e.Reaches q' q'') : e.Reaches q q'' := by
  obtain ⟨n, k, hk⟩ := h
  obtain ⟨n', k', hk'⟩ := h'
  refine ⟨max n n', k + k', fun l hl done ↦ ?_⟩
  rw [advances_add (hk l (hl.mono (Nat.le_max_left _ _)) done),
    hk' l (hl.mono (Nat.le_max_right _ _)) (done + k), Nat.add_assoc]

theorem stops (h : e.Reaches q q') (h' : e.Stops q' result mem) : e.Stops q result mem := by
  obtain ⟨n, k, hk⟩ := h
  obtain ⟨hordinary, n', k', o, hresult, hmem, hk'⟩ := h'
  refine ⟨hordinary, max n n', k + k', o, hresult, hmem, fun l hl done ↦ ?_⟩
  rw [advances_add (hk l (hl.mono (Nat.le_max_left _ _)) done),
    hk' l (hl.mono (Nat.le_max_right _ _)) (done + k)]

end Reaches

/-- A run that stops ends so under limits that leave room. -/
theorem finish_of_advances {p : Progress σ} {o : Outcome σ} {n : Nat} (h : e.advances n p = .inl o) :
    e.finish n p = some o := by
  induction n generalizing p with
  | zero => cases h
  | succ n ih =>
    rw [finish]
    rw [advances] at h
    rcases hp : e.advance p with o' | p' <;> rw [hp] at h
    · exact congrArg some (Sum.inl.inj h)
    · exact ih h

/-! ### One instruction -/

variable {i : Instruction} {a n : Nat} {m m' : Machine σ} {S : Array Value}

/-- Without a limit on the instructions, a run goes on as its instruction does. -/
theorem advances_one_eq (hi : e.program.code[a]? = some i) {l : Limits} (hl : l.steps = none) (done : Nat) :
    (e.within l).advances 1 ⟨a, done, m⟩ = match ((e.within l).step i a).on m with
      | (.ok .next, m') => .inr ⟨a + 1, done + 1, m'⟩
      | (.ok (.jump target), m') => .inr ⟨target, done + 1, m'⟩
      | (.ok (.halt value), m') => .inl (.ok value, m')
      | (.error fault, m') => .inl (.error (failureAt i fault), m') := by
  have hfree : ∀ n, (e.within l).limits.steps = some n → done < n := fun n hn ↦
    nomatch hl.symm.trans hn
  have hone := advances_one (e := e.within l) ⟨a, done, m⟩
  rw [(e.within l).advance_eq hi, on_attempt hfree] at hone
  exact hone

theorem reaches_next (hi : e.program.code[a]? = some i) (n : Nat)
    (h : ∀ l : Limits, l.Roomy n → ((e.within l).step i a).on m = (.ok .next, m')) :
    e.Reaches (a, m) (a + 1, m') := by
  refine ⟨n, 1, fun l hl done ↦ ?_⟩
  rw [advances_one_eq hi hl.steps, h l hl]

theorem reaches_jump (hi : e.program.code[a]? = some i) (n : Nat) {target : Nat}
    (h : ∀ l : Limits, l.Roomy n → ((e.within l).step i a).on m = (.ok (.jump target), m')) :
    e.Reaches (a, m) (target, m') := by
  refine ⟨n, 1, fun l hl done ↦ ?_⟩
  rw [advances_one_eq hi hl.steps, h l hl]

theorem stops_fault (hi : e.program.code[a]? = some i) (n : Nat) (m' : Machine σ) {fault : Fault}
    (hf : fault.Ordinary)
    (h : ∀ l : Limits, l.Roomy n → ((e.within l).step i a).on m = (.error fault, m')) :
    e.Stops (a, m) (.error fault) m'.memory := by
  refine ⟨.error hf, n, 1, (.error (failureAt i fault), m'), rfl, rfl, fun l hl done ↦ ?_⟩
  rw [advances_one_eq hi hl.steps, h l hl]

theorem stops_halt (hi : e.program.code[a]? = some i) (m' : Machine σ) {v : Value}
    (h : ∀ l : Limits, ((e.within l).step i a).on m = (.ok (.halt v), m')) :
    e.Stops (a, m) (.ok v) m'.memory := by
  refine ⟨.ok v, 0, 1, (.ok v, m'), rfl, rfl, fun l hl done ↦ ?_⟩
  rw [advances_one_eq hi hl.steps, h l]

/-- A plain instruction that succeeds leads to the next address. -/
theorem reaches_plain (hi : e.program.code[a]? = some i) (hp : i.IsPlain) (n : Nat)
    (h : ∀ l : Limits, l.Roomy n → ((e.within l).perform i).on m = (.ok ⟨⟩, m')) :
    e.Reaches (a, m) (a + 1, m') := by
  refine reaches_next hi n fun l hl ↦ ?_
  rw [on_step_of_isPlain _ hp, h l hl]

theorem stops_plain (hi : e.program.code[a]? = some i) (hp : i.IsPlain) (n : Nat) (m' : Machine σ)
    {fault : Fault} (hf : fault.Ordinary)
    (h : ∀ l : Limits, l.Roomy n → ((e.within l).perform i).on m = (.error fault, m')) :
    e.Stops (a, m) (.error fault) m'.memory := by
  refine stops_fault hi n m' hf fun l hl ↦ ?_
  rw [on_step_of_isPlain _ hp, h l hl]

/-! ### Instructions that work beside the stack -/

/-- The run goes on after work on the memory, or stops with its fault. -/
def Yields (e : Engine σ) (q : Nat × Machine σ) (result : Except Fault α × Memory σ)
    (next : α → Memory σ → Nat × Machine σ) : Prop :=
  match result with
  | (.ok a, mem) => e.Reaches q (next a mem)
  | (.error fault, mem) => e.Stops q (.error fault) mem

/-- Work beside the stack whose result is pushed. -/
theorem yields_push (m' : Machine σ) (hi : e.program.code[a]? = some i) (hp : i.IsPlain) {x : Step σ Value}
    (hx : x.Aside) (h : ∀ l, ((e.within l).perform i).on m = (x >>= (e.within l).push).on m') :
    e.Yields (a, m) (x.onBare m'.memory) fun v mem ↦
      (a + 1, { m' with stack := m'.stack.push v }.withMemory mem) := by
  have hon := hx.on_eq m'
  have hordinary := hx.ordinary m'.memory
  unfold Yields
  rcases hr : x.onBare m'.memory with ⟨fault | v, mem⟩ <;> rw [hr] at hon hordinary
  · refine stops_plain hi hp 0 (m'.withMemory mem) (hordinary fault rfl) fun l hl ↦ ?_
    rw [h l, Step.on_bind_error hon]
  · refine reaches_plain hi hp (m'.stack.size + 1) fun l hl ↦ ?_
    rw [h l, Step.on_bind_ok hon, on_push]
    exact Prod.ext (if_neg (Nat.not_lt.mpr hl.stack)) rfl

/-- An instruction that computes with values from the top of the stack. -/
theorem yields_operands {args : List Value} (hi : e.program.code[a]? = some i) (hp : i.Proper)
    (hargs : i.op.operands? = some args.length) (hm : m.stack = S ++ args.toArray) :
    e.Yields (a, m) ((e.apply i args).onBare m.memory) fun v mem ↦
      (a + 1, { m with stack := S.push v }.withMemory mem) := by
  have hplain : i.IsPlain := by
    obtain ⟨op, operand, line⟩ := i
    cases op <;> first | exact trivial | cases hargs
  exact yields_push { m with stack := S } hi hplain (e.aside_apply hp hargs)
    fun l ↦ (e.within l).on_perform_operands hargs hm

/-- An instruction that computes with the values of the innermost window. -/
theorem yields_window {receivers args : List Value} {outer : List Nat}
    (hi : e.program.code[a]? = some i) (hp : i.Proper)
    (hr : i.op.receivers? = some receivers.length)
    (hm : m.stack = S ++ receivers.toArray ++ args.toArray)
    (hw : m.windows = (S.size + receivers.length) :: outer) :
    e.Yields (a, m) ((e.apply i (receivers ++ args)).onBare m.memory) fun v mem ↦
      (a + 1, { m with stack := S.push v, windows := outer }.withMemory mem) := by
  have hplain : i.IsPlain := by
    obtain ⟨op, operand, line⟩ := i
    cases op <;> first | exact trivial | cases hr
  exact yields_push { m with stack := S, windows := outer } hi hplain
    (e.aside_apply_window hp hr) fun l ↦ (e.within l).on_perform_window hr hm hw

/-- An instruction that stores the topmost value away. -/
theorem yields_keep {v : Value} (hi : e.program.code[a]? = some i) (hp : i.Proper)
    (hop : i.op = .setGlobal ∨ i.op = .setStaticField) (hm : m.stack = S.push v) :
    e.Yields (a, m) ((e.keep i v).onBare m.memory) fun _ mem ↦ (a + 1, m.withMemory mem) := by
  have hplain : i.IsPlain := by
    obtain ⟨op, operand, line⟩ := i
    rcases hop with rfl | rfl <;> exact trivial
  have hon := (e.aside_keep hp hop v).on_eq m
  have hordinary := (e.aside_keep hp hop v).ordinary m.memory
  unfold Yields
  rcases hr : (e.keep i v).onBare m.memory with ⟨fault | _, mem⟩ <;> rw [hr] at hon hordinary
  · refine stops_plain hi hplain 0 (m.withMemory mem) (hordinary fault rfl) fun l hl ↦ ?_
    rw [(e.within l).on_perform_keep hop hm]
    exact hon
  · refine reaches_plain hi hplain 0 fun l hl ↦ ?_
    rw [(e.within l).on_perform_keep hop hm]
    exact hon

/-! ### Instructions that move values -/

theorem reaches_setLocal {vs : List Value} {v : Value} (hi : e.program.code[a]? = some i)
    (hop : i.op = .setLocal) (hb : m.base = S.size) (hm : m.stack = S ++ (vs ++ [v]).toArray)
    (hs : i.count < (vs ++ [v]).length) :
    e.Reaches (a, m) (a + 1, { m with stack := S ++ ((vs ++ [v]).set i.count v).toArray }) := by
  have hplain : i.IsPlain := by
    rw [Instruction.IsPlain, hop]
    trivial
  exact reaches_plain hi hplain 0 fun l hl ↦ (e.within l).on_perform_setLocal hop hb hm hs

theorem reaches_pushLocal {vs : List Value} {v : Value} (hi : e.program.code[a]? = some i)
    (hop : i.op = .pushLocal) (hb : m.base = S.size) (hm : m.stack = S ++ vs.toArray)
    (hs : vs[i.count]? = some v) :
    e.Reaches (a, m) (a + 1, { m with stack := m.stack.push v }) := by
  have hplain : i.IsPlain := by
    rw [Instruction.IsPlain, hop]
    trivial
  refine reaches_plain hi hplain (m.stack.size + 1) fun l hl ↦ ?_
  rw [(e.within l).on_perform_pushLocal hop hb hm hs, on_push]
  exact Prod.ext (if_neg (Nat.not_lt.mpr hl.stack)) rfl

theorem reaches_pop {args : List Value} (hi : e.program.code[a]? = some i) (hop : i.op = .pop)
    (hc : i.count = args.length) (hm : m.stack = S ++ args.toArray) :
    e.Reaches (a, m) (a + 1, { m with stack := S }) := by
  have hplain : i.IsPlain := by
    rw [Instruction.IsPlain, hop]
    trivial
  exact reaches_plain hi hplain 0 fun l hl ↦ (e.within l).on_perform_pop hop hc hm

theorem reaches_dup {args : List Value} (hi : e.program.code[a]? = some i) (hop : i.op = .dup)
    (hc : i.count = args.length) (hm : m.stack = S ++ args.toArray) :
    e.Reaches (a, m) (a + 1, { m with stack := S ++ args.toArray ++ args.toArray }) := by
  have hplain : i.IsPlain := by
    rw [Instruction.IsPlain, hop]
    trivial
  refine reaches_plain hi hplain (m.stack.size + args.length) fun l hl ↦ ?_
  rw [(e.within l).on_perform_dup hop hc hm]
  exact Prod.ext (if_neg (Nat.not_lt.mpr hl.stack)) rfl

theorem reaches_openWindow (hi : e.program.code[a]? = some i) (hop : i.op = .openWindow) :
    e.Reaches (a, m) (a + 1, { m with windows := m.stack.size :: m.windows }) := by
  have hplain : i.IsPlain := by
    rw [Instruction.IsPlain, hop]
    trivial
  exact reaches_plain hi hplain 0 fun l hl ↦ (e.within l).on_perform_openWindow hop

/-! ### Jumps, calls and returns -/

theorem reaches_always (hi : e.program.code[a]? = some i) (hop : i.op = .jump) :
    e.Reaches (a, m) (i.count, m) := by
  refine reaches_jump hi 0 fun l hl ↦ ?_
  rw [step_jump _ hop]
  rfl

/-- A condition on the stack decides where a branch leads. -/
theorem reaches_branch {v : Value} {given : Bool} (hi : e.program.code[a]? = some i)
    (hop : i.op = .jumpIfFalse ∨ i.op = .jumpIfTrue) (hm : m.stack = S.push v)
    (hv : v.asBool? = some given) : e.Reaches (a, m)
      (if given = wanted i.op then i.count else a + 1, { m with stack := S }) := by
  by_cases hg : given = wanted i.op
  · rw [if_pos hg]
    refine reaches_jump hi 0 fun l hl ↦ ?_
    rw [step_branch _ hop, Step.on_jumpIf hm]
    simp only [hv, if_pos hg]
  · rw [if_neg hg]
    refine reaches_next hi 0 fun l hl ↦ ?_
    rw [step_branch _ hop, Step.on_jumpIf hm]
    simp only [hv, if_neg hg]

theorem stops_branch {v : Value} (hi : e.program.code[a]? = some i)
    (hop : i.op = .jumpIfFalse ∨ i.op = .jumpIfTrue) (hm : m.stack = S.push v)
    (hv : v.asBool? = none) :
    e.Stops (a, m) (.error (.nonBooleanCondition v.typeName)) m.memory := by
  refine stops_fault hi 0 { m with stack := S } trivial fun l hl ↦ ?_
  rw [step_branch _ hop, Step.on_jumpIf hm]
  simp only [hv]

/-- A function is entered with the values of the innermost window as its first locals. -/
theorem reaches_call {f : FunctionEntry} {start : Nat} {outer : List Nat}
    (hi : e.program.code[a]? = some i) (hop : i.op = .call)
    (hf : e.program.function? i.name = some f) (hw : m.windows = start :: outer)
    (hs : m.stack.size = start + f.arity) : e.Reaches (a, m) (f.address,
      { m with windows := outer, base := start, frames := m.frames.push ⟨m.base, a + 1⟩ }) := by
  refine reaches_jump hi (m.frames.size + 1) fun l hl ↦ ?_
  have harity : ¬ m.stack.size - start ≠ f.arity := by omega
  have hdepth : ¬ (e.within l).limits.depth ≤ m.frames.size := Nat.not_le.mpr hl.depth
  rw [step_call _ hop, (e.within l).on_enter (a + 1) hf hw (by omega), if_neg harity, if_neg hdepth]

theorem stops_call_none (hi : e.program.code[a]? = some i) (hop : i.op = .call)
    (hf : e.program.function? i.name = none) :
    e.Stops (a, m) (.error (.undefinedFunction i.name)) m.memory := by
  refine stops_fault hi 0 m trivial fun l hl ↦ ?_
  rw [step_call _ hop, (e.within l).on_enter_none (a + 1) hf]

theorem stops_call_arity {f : FunctionEntry} {start given : Nat} {outer : List Nat}
    (hi : e.program.code[a]? = some i) (hop : i.op = .call)
    (hf : e.program.function? i.name = some f) (hw : m.windows = start :: outer)
    (hs : m.stack.size = start + given) (hg : f.arity ≠ given) :
    e.Stops (a, m) (.error (.wrongArity i.name f.arity given)) m.memory := by
  obtain rfl : given = m.stack.size - start := by omega
  refine stops_fault hi 0 { m with windows := outer } trivial fun l hl ↦ ?_
  rw [step_call _ hop, (e.within l).on_enter (a + 1) hf hw (by omega), if_pos hg.symm]

/-- A function returns to its caller with its result in place of its frame. -/
theorem reaches_giveBack {v : Value} {frames : Array Frame} {frame : Frame}
    (hi : e.program.code[a]? = some i) (hop : i.op = .giveBack) (hm : m.stack = S.push v)
    (hf : m.frames = frames.push frame) : e.Reaches (a, m) (frame.returnAddress,
      { m with stack := (S.shrink m.base).push v, base := frame.base, frames := frames }) := by
  refine reaches_jump hi ((S.shrink m.base).size + 1) fun l hl ↦ ?_
  rw [step_giveBack _ hop, (e.within l).on_leave hm hf]
  exact Prod.ext (if_neg (Nat.not_lt.mpr hl.stack)) rfl

theorem stops_giveBack {v : Value} (hi : e.program.code[a]? = some i) (hop : i.op = .giveBack)
    (hm : m.stack = S.push v) (hf : m.frames = #[]) : e.Stops (a, m) (.ok v) m.memory := by
  refine stops_halt hi { m with stack := S } fun l ↦ ?_
  rw [step_giveBack _ hop, (e.within l).on_leave_halt hm hf]

/-! ### Whole calls -/

theorem Stops.not_isLimit {o : Outcome σ} (h : OrdinaryResult (o.1.mapError Report.fault)) :
    ¬ o.IsLimit := by
  rintro ⟨r, hr, hl⟩
  have hfault : o.1.mapError Report.fault = .error r.fault := by
    rw [hr]
    rfl
  exact (h _ hfault).not_isLimit hl

/-- A call whose run stops ends so. -/
theorem Stops.endsAs {name : String} {args : List Value} {p : Progress σ}
    (hp : e.start m name args = .ok p) (h : e.Stops (p.address, p.machine) result mem) :
    ∃ o, e.EndsAs m name args o ∧ o.1.mapError Report.fault = result ∧ o.2.memory = mem := by
  obtain ⟨hordinary, n, k, o, rfl, rfl, hk⟩ := h
  have hfinish := finish_of_advances (hk ⟨n, n, none⟩ ⟨Nat.le_refl n, Nat.le_refl n, rfl⟩ p.done)
  have hcall : (e.within ⟨n, n, none⟩).call k m name args = some (o.1, o.2.reset) := by
    rw [(e.within ⟨n, n, none⟩).call_eq k hp, hfinish]
    rfl
  exact ⟨_, .of_call hcall (not_isLimit hordinary), rfl, rfl⟩

/-- A call that cannot begin ends with the reason. -/
theorem endsAs_of_start {name : String} {args : List Value} {r : Report}
    (hp : e.start m name args = .error r) : e.EndsAs m name args (.error r, m) := by
  refine .of_call ((e.within ⟨0, 0, none⟩).call_eq_of_error 0 hp) ?_
  rintro ⟨r', hr, hl⟩
  cases hr
  exact e.start_not_isLimit hp hl

end Engine

end StackScript
