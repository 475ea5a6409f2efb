import StackScript.Proofs.Machine.Pieces

/-!
# The failures of a call

Whatever a machine fails with is a fault of running, be it one of the script, of malformed code, of an
exhausted limit or of the host (`Engine.made_step` tells the pieces of instructions apart, and each of them
is `Step.Running`). A call that fails does so before its first instruction, outside of the code, or in an
instruction, which then gives the failure its line (`Engine.failure_of_call`). This goes for any program, on
any machine and with any host.
-/

namespace StackScript

variable {σ α β : Type}

/-! ### Faults of running -/

namespace Step

/-- Work whose faults are all faults of running. -/
def Running (x : Step σ α) : Prop :=
  ∀ m fault, (x.on m).1 = .error fault → fault.stage = .running

namespace Running

theorem of_clean {x : Step σ α} (h : Clean x) : Running x :=
  fun m fault hx ↦ (h m fault hx).stage_eq

theorem pure (a : α) : Running (pure a : Step σ α) :=
  fun _ _ h ↦ nomatch h

theorem throw {fault : Fault} (h : fault.stage = .running) : Running (throw fault : Step σ α) := by
  intro m fault' h'
  cases h'
  exact h

theorem modify (f : Machine σ → Machine σ) : Running (modify f : Step σ PUnit) :=
  fun _ _ h ↦ nomatch h

theorem set (m : Machine σ) : Running (set m : Step σ PUnit) :=
  fun _ _ h ↦ nomatch h

theorem bind {x : Step σ α} {f : α → Step σ β} (hx : Running x) (hf : ∀ a, Running (f a)) :
    Running (x >>= f) := by
  intro m fault h
  rw [on_bind] at h
  have hm := hx m
  rcases hr : x.on m with ⟨fault' | a, m'⟩ <;> rw [hr] at h hm
  · exact hm fault (congrArg Except.error (Except.error.inj h))
  · exact hf a m' fault h

/-- Work that begins by looking at the machine. -/
theorem get_bind {f : Machine σ → Step σ α} (h : ∀ m, Running (f m)) : Running (get >>= f) :=
  fun m ↦ h m m

theorem guard {p : Prop} [Decidable p] {fault : Fault} (h : fault.stage = .running) {x : Step σ α}
    (hx : Running x) :
    Running (do
      if p then MonadExcept.throw fault
      x : Step σ α) := by
  dsimp only
  split
  · exact .bind (.throw h) fun _ ↦ hx
  · exact hx

theorem pop : Running (pop : Step σ Value) := by
  refine .get_bind fun m ↦ ?_
  split
  · exact .throw rfl
  · exact .bind (.set _) fun _ ↦ .pure _

theorem peek : Running (peek : Step σ Value) := by
  refine .get_bind fun m ↦ ?_
  split
  · exact .throw rfl
  · exact .pure _

theorem discard (count : Nat) : Running (discard count : Step σ Unit) :=
  .get_bind fun _ ↦ .guard rfl (.set _)

theorem getLocal (slot : Nat) : Running (getLocal slot : Step σ Value) := by
  refine .get_bind fun m ↦ ?_
  split
  · exact .throw rfl
  · exact .pure _

theorem setLocal (slot : Nat) (value : Value) : Running (setLocal slot value : Step σ Unit) :=
  .get_bind fun _ ↦ .guard rfl (.set _)

theorem closeWindow : Running (closeWindow : Step σ Nat) := by
  refine .get_bind fun m ↦ ?_
  split
  · exact .throw rfl
  · exact .bind (.set _) fun _ ↦ .guard rfl (.pure _)

theorem takeWindow : Running (takeWindow : Step σ (Array Value)) :=
  .bind .closeWindow fun _ ↦ .get_bind fun _ ↦ .bind (.set _) fun _ ↦ .pure _

end Running

end Step

namespace Engine

open Step

variable (e : Engine σ)

theorem running_checkStack : Running e.checkStack := by
  refine .get_bind fun m ↦ ?_
  split
  · exact .throw rfl
  · exact .pure _

theorem running_push (value : Value) : Running (e.push value) :=
  .bind (.modify _) fun _ ↦ e.running_checkStack

theorem running_enter (name : String) (returnAddress : Nat) : Running (e.enter name returnAddress) := by
  unfold enter
  split
  · exact .throw rfl
  · exact .bind .closeWindow fun _ ↦ .get_bind fun _ ↦ .guard rfl (.guard rfl (.bind (.set _) fun _ ↦
      .pure _))

theorem running_leave : Running e.leave := by
  refine .bind .pop fun result ↦ .get_bind fun m ↦ ?_
  split
  · exact .pure _
  · exact .bind (.set _) fun _ ↦ .bind (e.running_push result) fun _ ↦ .pure _

variable {e}

theorem StackPiece.running {x : Step σ α} (h : e.StackPiece x) : Running x := by
  cases h with
  | throw _ hstage => exact .throw hstage
  | pop => exact .pop
  | peek => exact .peek
  | discard count => exact .discard count
  | getLocal slot => exact .getLocal slot
  | setLocal slot value => exact .setLocal slot value
  | openWindow => exact .modify _
  | takeWindow => exact .takeWindow
  | push value => exact e.running_push value
  | duplicate count =>
    exact .get_bind fun _ ↦ .guard rfl (.bind (.set _) fun _ ↦ e.running_checkStack)
  | enter name returnAddress => exact e.running_enter name returnAddress
  | leave => exact e.running_leave

/-- Work that is put together from the pieces of instructions fails with faults of running only. -/
theorem Made.running {x : Step σ α} (h : e.Made x) : Running x := by
  induction h with
  | pure a => exact .pure a
  | bind _ _ ihx ihf => exact .bind ihx ihf
  | stack h => exact h.running
  | memory h => exact .of_clean h.aside.clean

variable (e)

theorem running_attempt (i : Instruction) (address done : Nat) : Running (e.attempt i address done) := by
  unfold attempt
  split
  · exact .guard rfl (e.made_step i address).running
  · exact (e.made_step i address).running

/-! ### Reports of calls -/

/-- The failures that calls may have. -/
inductive Failure : Report → Prop
  /-- There is no such function. -/
  | undefined (name : String) : Failure (.ofFault (.undefinedFunction name) none)
  /-- The function takes other arguments. -/
  | arity (name : String) (expected got : Nat) : Failure (.ofFault (.wrongArity name expected got) none)
  /-- The run has left the code. -/
  | outside (address : Nat) : Failure (outOfRange address)
  /-- An instruction has failed. -/
  | instruction {i : Instruction} {fault : Fault} (hi : i ∈ e.program.code)
    (hstage : fault.stage = .running) : Failure (failureAt i fault)

variable {e}

theorem failure_of_advance {p : Progress σ} {r : Report} {m : Machine σ}
    (h : e.advance p = .inl (.error r, m)) : e.Failure r := by
  rcases hi : e.program.code[p.address]? with _ | i
  · rw [e.advance_outside hi] at h
    cases h
    exact .outside _
  · rw [e.advance_eq hi] at h
    split at h <;> cases h
    rename_i fault hfault
    exact .instruction (Array.mem_of_getElem? hi)
      (e.running_attempt i p.address p.done p.machine fault (congrArg Prod.fst hfault))

theorem failure_of_finish {fuel : Nat} {p : Progress σ} {r : Report} {m : Machine σ}
    (h : e.finish fuel p = some (.error r, m)) : e.Failure r := by
  induction fuel generalizing p with
  | zero => cases h
  | succ fuel ih =>
    rw [finish] at h
    rcases hp : e.advance p with o | q <;> rw [hp] at h
    · obtain rfl := Option.some.inj h
      exact failure_of_advance hp
    · exact ih h

theorem failure_of_call {fuel : Nat} {m m' : Machine σ} {name : String} {args : List Value} {r : Report}
    (h : e.call fuel m name args = some (.error r, m')) : e.Failure r := by
  unfold call at h
  split at h
  · rename_i hstart
    cases h
    unfold start at hstart
    split at hstart
    · cases hstart
      exact .undefined name
    · split at hstart <;> cases hstart
      exact .arity name _ _
  · obtain ⟨⟨result, m₁⟩, hfinish, heq⟩ := Option.map_eq_some_iff.mp h
    cases heq
    exact failure_of_finish hfinish

/-- All failures of calls are failures of running. -/
theorem Failure.stage_eq {r : Report} (h : e.Failure r) : r.fault.stage = .running := by
  cases h with
  | instruction _ hstage => exact hstage
  | _ => rfl

/-- The line of a failure is the line of an instruction. -/
theorem Failure.exists_line {r : Report} (h : e.Failure r) {line : Nat} (hline : r.line? = some line) :
    ∃ i ∈ e.program.code, i.line = line := by
  cases h with
  | instruction hi => exact ⟨_, hi, Option.some.inj hline⟩
  | _ => cases hline

/-- Failures are reported without a text. -/
theorem Failure.excerpt_eq {r : Report} (h : e.Failure r) : r.excerpt = none := by
  cases h <;> rfl

end Engine

end StackScript
