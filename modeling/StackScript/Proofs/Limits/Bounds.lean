import StackScript.Proofs.Limits.Opening
import StackScript.Proofs.Machine.Growth
import StackScript.Proofs.Machine.Outcome
import StackScript.Proofs.Reading.Script
import StackScript.Proofs.Reference.Correctness

/-!
# Limits are kept

A call of a compiled program that ends with a value has kept all the limits from beginning to end
(`limits_kept`). No instruction makes the machine outgrow the limits, so the question is whether the
arguments fit, which are put on the stack before the first instruction and are not counted then. They are
counted with the first push, which every function begins with (`Engine.lt_of_finish`).
-/

namespace StackScript

variable {σ : Type}

namespace Engine

open Code

variable {e : Engine σ} {i : Instruction} {m m' : Machine σ}

/-! ### Pushes need room -/

/-- An instruction computes a value only if its operand is of the sort that it needs. -/
theorem proper_of_apply_ok {args : List Value} {value : Value}
    (hi : i.op.operands? = some args.length ∨ i.op.receivers?.isSome)
    (h : (e.apply i args).on m = (.ok value, m')) : i.Proper := by
  obtain ⟨op, operand, line⟩ := i
  cases op with
  | push =>
    obtain rfl : args = [] := by
      rcases hi with hi | hi
      · exact List.length_eq_zero_iff.mp (Option.some.inj hi).symm
      · cases hi
    rcases hl : Instruction.literal? ⟨.push, operand, line⟩ with _ | literal
    · simp [apply, hl] at h
    · exact Option.isSome_iff_exists.mpr ⟨literal, hl⟩
  | pushStaticField =>
    obtain rfl : args = [] := by
      rcases hi with hi | hi
      · exact List.length_eq_zero_iff.mp (Option.some.inj hi).symm
      · cases hi
    rcases hp : Text.unqualified? (Instruction.name ⟨.pushStaticField, operand, line⟩) with _ | parts
    · simp [apply, Step.splitMember, Step.on_bind, hp] at h
    · exact Option.isSome_iff_exists.mpr ⟨parts, hp⟩
  | callStatic =>
    rcases hp : Text.unqualified? (Instruction.name ⟨.callStatic, operand, line⟩) with _ | parts
    · simp [apply, Step.splitMember, Step.on_bind, hp] at h
    · exact Option.isSome_iff_exists.mpr ⟨parts, hp⟩
  | setStaticField => simp [Operation.operands?, Operation.receivers?] at hi
  | _ => trivial

/-- What is pushed has room on the stack. -/
theorem lt_of_push {v : Value} (h : (e.push v).on m = (.ok ⟨⟩, m')) :
    m.stack.size < e.limits.stack := by
  rw [on_push] at h
  by_cases hl : e.limits.stack < m.stack.size + 1 <;> simp only [hl, ↓reduceIte] at h
  · cases h
  · omega

/-- Instructions that take nothing from the stack push. -/
theorem lt_of_perform (hi : i.op.operands? = some 0 ∨ i.op = .pushLocal)
    (h : (e.perform i).on m = (.ok ⟨⟩, m')) : m.stack.size < e.limits.stack := by
  rcases hi with hi | hi
  · have hnone : i.op.operands? = some ([] : List Value).length := hi
    have hstack : m.stack = m.stack ++ [].toArray := by simp
    rw [e.on_perform_operands hnone hstack, Step.on_bind] at h
    rcases hx : (e.apply i []).on m with ⟨fault | value, m₁⟩ <;> simp only [hx] at h
    · cases h
    · have haside := e.aside_apply (proper_of_apply_ok (.inl hnone) hx) hnone
      obtain ⟨-, rfl⟩ := Prod.mk.inj ((haside.on_eq m).symm.trans hx)
      have hlt := lt_of_push h
      rwa [Machine.stack_withMemory] at hlt
  · obtain ⟨op, operand, line⟩ := i
    obtain rfl := hi
    rw [perform, Step.on_bind, Step.getLocal, Step.on_bind, Step.on_get] at h
    dsimp only at h
    split at h <;> rename_i hx
    · split at hx <;> cases hx
      exact lt_of_push h
    · cases h

/-- Instructions that take a window with nothing in it push. -/
theorem lt_of_perform_window (hi : i.op.receivers? = some 0) {outer : List Nat}
    (hw : m.windows = m.stack.size :: outer) (h : (e.perform i).on m = (.ok ⟨⟩, m')) :
    m.stack.size < e.limits.stack := by
  have hnone : i.op.receivers? = some ([] : List Value).length := hi
  have hstack : m.stack = m.stack ++ [].toArray ++ [].toArray := by simp
  rw [e.on_perform_window hnone hstack hw, Step.on_bind] at h
  rcases hx : (e.apply i ([] ++ [])).on { m with windows := outer } with ⟨fault | value, m₁⟩ <;>
    simp only [hx] at h
  · cases h
  · have hproper := proper_of_apply_ok (.inr (Option.isSome_iff_exists.mpr ⟨0, hi⟩)) hx
    have haside : Step.Aside (e.apply i ([] ++ [])) := e.aside_apply_window hproper hnone
    obtain ⟨-, rfl⟩ := Prod.mk.inj ((haside.on_eq _).symm.trans hx)
    have hlt := lt_of_push h
    rwa [Machine.stack_withMemory] at hlt

/-! ### Functions need room -/

/-- A run that ends with a value carries out its first instruction and goes on from there. -/
theorem exists_step_of_finish {p : Progress σ} {fuel : Nat} {value : Value}
    (hi : e.program.code[p.address]? = some i)
    (h : e.finish (fuel + 1) p = some (.ok value, m)) :
    (e.step i p.address).on p.machine = (.ok (.halt value), m) ∨
      ∃ flow q, (e.step i p.address).on p.machine = (.ok flow, q.machine) ∧
        (flow = .next ∧ q.address = p.address + 1 ∨ flow = .jump q.address) ∧
        e.finish fuel q = some (.ok value, m) := by
  rw [finish] at h
  rcases hp : e.advance p with o | q <;> rw [hp] at h
  · obtain rfl := Option.some.inj h
    obtain ⟨i', hi', hstep, -⟩ := step_of_advance_ok hp
    obtain rfl := Option.some.inj (hi.symm.trans hi')
    exact .inl hstep
  · obtain ⟨flow, hstep, hflow⟩ := e.step_of_advance hi hp
    exact .inr ⟨flow, q, hstep, hflow, h⟩

/-- An instruction of a run that ends with a value is carried out, and the run goes on behind it. -/
theorem perform_of_finish {p : Progress σ} {fuel : Nat} {value : Value} (hplain : i.IsPlain)
    (hi : e.program.code[p.address]? = some i)
    (h : e.finish (fuel + 1) p = some (.ok value, m)) :
    ∃ q, (e.perform i).on p.machine = (.ok ⟨⟩, q.machine) ∧ q.address = p.address + 1 ∧
      e.finish fuel q = some (.ok value, m) := by
  have hstep := e.on_step_of_isPlain hplain p.address p.machine
  rcases exists_step_of_finish hi h with hx | ⟨flow, q, hx, hflow, hq⟩ <;> rw [hx] at hstep <;>
    rcases hy : (e.perform i).on p.machine with ⟨fault | ⟨⟨⟩⟩, m₁⟩ <;> rw [hy] at hstep <;>
    cases hstep
  rcases hflow with ⟨-, haddress⟩ | hjump
  · exact ⟨q, rfl, haddress, hq⟩
  · cases hjump

/-- All functions of the program begin with a push. -/
def EntriesPush (e : Engine σ) : Prop :=
  ∀ name f, e.program.function? name = some f →
    ∃ code, e.program.Has f.address code ∧ PushesFirst false code

/-- From code that begins with a push a run only ends with a value if there is room for another one on
the stack. -/
theorem lt_of_finish (hentries : e.EntriesPush) {fuel : Nat} {p : Progress σ} {opened : Bool}
    {code : List Instruction} (hcode : e.program.Has p.address code) (hpush : PushesFirst opened code)
    (hopened : opened = true → ∃ outer, p.machine.windows = p.machine.stack.size :: outer)
    {value : Value} (h : e.finish fuel p = some (.ok value, m)) :
    p.machine.stack.size < e.limits.stack := by
  -- on the fuel and not on the code, as a function that is entered has code of its own
  induction fuel generalizing p opened code with
  | zero => cases h
  | succ fuel ih =>
    cases hpush with
    | @value _ i rest hi =>
      have hplain : i.IsPlain := by
        obtain ⟨op, operand, line⟩ := i
        rcases hi with hi | rfl
        · cases op <;> first | exact trivial | cases hi
        · exact trivial
      obtain ⟨q, hq, -⟩ := perform_of_finish hplain hcode.head h
      exact lt_of_perform hi hq
    | @window i rest hi =>
      have hplain : i.IsPlain := by
        obtain ⟨op, operand, line⟩ := i
        cases op <;> first | exact trivial | cases hi
      obtain ⟨outer, hw⟩ := hopened rfl
      obtain ⟨q, hq, -⟩ := perform_of_finish hplain hcode.head h
      exact lt_of_perform_window hi hw hq
    | @openWindow _ i rest hi hrest =>
      have hplain : i.IsPlain := by
        obtain ⟨op, operand, line⟩ := i
        obtain rfl := hi
        exact trivial
      obtain ⟨q, hq, haddress, hfinish⟩ := perform_of_finish hplain hcode.head h
      rw [e.on_perform_openWindow hi] at hq
      obtain ⟨-, hmachine⟩ := Prod.mk.inj hq
      have hlt := ih (haddress ▸ hcode.tail) hrest
        (fun _ ↦ ⟨p.machine.windows, by rw [← hmachine]⟩) hfinish
      rwa [← hmachine] at hlt
    | @call i rest hi =>
      -- a function that is entered without arguments begins on the same stack
      obtain ⟨outer, hw⟩ := hopened rfl
      rcases exists_step_of_finish hcode.head h with hx | ⟨flow, q, hx, hflow, hfinish⟩ <;>
        rw [e.step_call hi] at hx <;>
        obtain ⟨f, hf, -, hjump, hmachine⟩ := e.entered_of_ok _ hw (Nat.le_refl _) hx
      · cases hjump
      · obtain rfl := hjump
        rcases hflow with ⟨hnext, -⟩ | hjump
        · cases hnext
        · obtain ⟨code', hcode', hpush'⟩ := hentries _ f hf
          rw [Flow.jump.inj hjump] at hcode'
          have hlt := ih hcode' hpush' nofun hfinish
          rwa [hmachine] at hlt

end Engine

/-- The functions of the program of a script begin with a push. -/
theorem Script.entriesPush (folding : Bool) (s : Script) {e : Engine σ}
    (he : e.program = s.program folding) : e.EntriesPush := by
  intro name f hf
  have hentry := s.function?_program folding name
  rw [← he] at hentry
  rcases hs : s.function? name with _ | decl <;> simp only [hs] at hentry
  · rw [hf] at hentry
    cases hentry
  · obtain ⟨address, hfunction, hcode⟩ := hentry
    obtain rfl := Option.some.inj (hf.symm.trans hfunction)
    exact ⟨_, hcode, decl.pushesFirst folding address⟩

/-! ### Whole runs -/

/-- A run of `count` instructions that ends with a value, and is within the limits before the first and
after each of them. -/
structure Engine.Keeps (e : Engine σ) (p : Engine.Progress σ) (count : Nat) (value : Value)
    (m : Machine σ) : Prop where
  ends : e.advances count p = .inl (.ok value, m)
  steps : ∀ n, e.limits.steps = some n → count ≤ n
  fits : ∀ k < count, ∃ q, e.advances k p = .inr q ∧ q.machine.Fits e.limits.stack e.limits.depth
  fits_end : m.Fits e.limits.stack e.limits.depth

/-- A run that begins within the limits keeps them if it ends with a value. -/
theorem Engine.exists_keeps {e : Engine σ} {p : Engine.Progress σ} {fuel : Nat} {value : Value}
    {m : Machine σ} (hdone : p.done = 0) (hp : p.machine.Fits e.limits.stack e.limits.depth)
    (h : e.finish fuel p = some (.ok value, m)) : ∃ count, e.Keeps p count value m := by
  have hstep := fits_step (e := e) (Nat.le_refl e.limits.stack) (Nat.le_refl e.limits.depth)
  obtain ⟨n, q, hn, hq⟩ := exists_advances_of_finish h
  have hq' := preserves_advances hstep hp hn
  refine ⟨n + 1, ?_, fun limit hlimit ↦ ?_, fun k hk ↦ ?_, preserves_advance_ok hstep hq' hq⟩
  · rw [advances_add hn, advances_one, hq]
  · obtain ⟨_, -, -, hlt⟩ := step_of_advance_ok hq
    have := hlt limit hlimit
    rw [advances_done hn] at this
    omega
  · obtain ⟨q', hk'⟩ := exists_advances_of_le hn (Nat.le_of_lt_succ hk)
    exact ⟨q', hk', preserves_advances hstep hp hk'⟩

/-- A call of a compiled program that ends with a value keeps the limits: at each instruction, from the
first one on, the values on the stack and the suspended callers are no more than allowed, and so are the
instructions altogether. In particular the arguments leave room for another value. -/
theorem limits_kept {source : String} {c : Compiled} (h : compile source = .ok c) (bridge : Bridge σ)
    (limits : Limits) (m : Machine σ) (name : String) (args : List Value) (fuel : Nat) (value : Value)
    (m' : Machine σ)
    (hrun : Engine.call ⟨c.program, bridge, limits⟩ fuel m name args = some (.ok value, m')) :
    args.length < limits.stack ∧
      ∃ p count m₁, Engine.start ⟨c.program, bridge, limits⟩ m name args = .ok p ∧
        p.machine.stack = args.toArray ∧
        Engine.Keeps ⟨c.program, bridge, limits⟩ p count value m₁ ∧ m' = m₁.reset := by
  let e : Engine σ := ⟨c.program, bridge, limits⟩
  have hentries := (readWith true source).script.entriesPush true (e := e) (program_of_compile h).2
  rcases hp : e.start m name args with r | p
  · rw [e.call_eq_of_error fuel hp] at hrun
    cases hrun
  · rw [e.call_eq fuel hp] at hrun
    obtain ⟨⟨result, m₁⟩, hfinish, heq⟩ := Option.map_eq_some_iff.mp hrun
    cases heq
    obtain ⟨f, hf, hbegin⟩ := Engine.exists_function_of_start hp
    obtain ⟨code, hcode, hpush⟩ := hentries name f hf
    have hstack : p.machine.stack = args.toArray := by rw [hbegin]
    -- only the whole run tells that the arguments fit
    have hlt : args.length < limits.stack := by
      rw [hbegin] at hfinish
      exact Engine.lt_of_finish (p := ⟨f.address, 0, _⟩) hentries hcode hpush nofun hfinish
    have hfits : p.machine.Fits limits.stack limits.depth := by
      rw [hbegin]
      exact ⟨Nat.le_of_lt hlt, Nat.zero_le _⟩
    obtain ⟨count, hkeeps⟩ := Engine.exists_keeps (e := e) (e.start_done hp) hfits hfinish
    exact ⟨hlt, p, count, m₁, rfl, hstack, hkeeps, rfl⟩

/-- A function that hands its argument on to another one. -/
def handingOnText : String :=
  "func f(a) \x7b return g(a); \x7d func g(a) \x7b return a; \x7d"

/-- The program of that text. -/
def handingOnProgram : Program where
  code := #[Code.push .null 1, ⟨.giveBack, .none, 1⟩, ⟨.openWindow, .none, 1⟩,
    ⟨.pushLocal, .slot 0, 1⟩, ⟨.call, .name "g", 1⟩, ⟨.giveBack, .none, 1⟩, Code.push .null 1,
    ⟨.giveBack, .none, 1⟩, ⟨.pushLocal, .slot 0, 1⟩, ⟨.giveBack, .none, 1⟩, Code.push .null 1,
    ⟨.giveBack, .none, 1⟩]
  functions := [⟨"__regglobal", 0, 0⟩, ⟨"f", 1, 2⟩, ⟨"g", 1, 8⟩]
  globals := []

theorem compile_handingOnText :
    ∃ c, compile handingOnText = .ok c ∧ c.program = handingOnProgram := by
  have h : (compile handingOnText).toOption.map (·.program) = some handingOnProgram := by cbv
  rcases hc : compile handingOnText with d | c <;> rw [hc] at h
  · cases h
  · exact ⟨c, rfl, Option.some.inj h⟩

/-- That function needs room for three values, one caller and six instructions, and no more. -/
theorem limits_kept_handingOnText : ∃ c, compile handingOnText = .ok c ∧
    let e : Engine Unit := ⟨c.program, .none, ⟨3, 1, some 6⟩⟩
    let m : Machine Unit := .fresh ⟨.declared [], .empty, ()⟩
    e.call 6 m "f" [.int 5] = some (.ok (.int 5), m) ∧
      ∃ p count m₁, e.start m "f" [.int 5] = .ok p ∧ p.machine.stack = #[.int 5] ∧
        e.Keeps p count (.int 5) m₁ ∧ m = m₁.reset := by
  obtain ⟨c, hc, hprogram⟩ := compile_handingOnText
  refine ⟨c, hc, ?_⟩
  intro e m
  have hrun : e.call 6 m "f" [.int 5] = some (.ok (.int 5), m) := by
    simp only [e, hprogram]
    rfl
  exact ⟨hrun, (limits_kept hc .none ⟨3, 1, some 6⟩ m "f" [.int 5] 6 (.int 5) m hrun).2⟩

end StackScript
