import StackScript.Proofs.Machine.Growth
import StackScript.Proofs.Machine.Unframed

/-!
# How a run goes on

An instruction that does not end the run goes on behind itself, jumps to its target, enters a function, or
goes back to where a caller was suspended (`Engine.Continues`). Nothing is assumed of the code. What a run may
reach is then a matter of addresses alone: those of the code, and those that the callers wait at.

The function that was called first stands where the run is, or is suspended below all others. Its address is
the *home* of the run (`Engine.Progress.home`). It moves on only while no caller is suspended.
-/

namespace StackScript

variable {σ α : Type}

/-- An instruction goes on at the next one, or decides how the run goes on. -/
theorem Instruction.isPlain_or (i : Instruction) :
    i.IsPlain ∨ i.op = .jump ∨ (i.op = .jumpIfFalse ∨ i.op = .jumpIfTrue) ∨ i.op = .call ∨
      i.op = .giveBack := by
  obtain ⟨op, operand, line⟩ := i
  cases op <;> simp [IsPlain]

namespace Step

/-- Work that does not look at the callers leaves them alone. -/
theorem Unframed.frames_eq {x : Step σ α} (h : Unframed x) (m : Machine σ) :
    (x.on m).2.frames = m.frames :=
  congrArg (·.2.frames) (h m m.frames)

/-- A conditional jump leads to its target, if anywhere else than on. -/
theorem jumpIf_ok {wanted : Bool} {target : Nat} {m m' : Machine σ} {flow : Flow}
    (h : (jumpIf wanted target).on m = (.ok flow, m')) :
    (flow = .next ∨ flow = .jump target) ∧ m'.frames = m.frames := by
  have hframes := Unframed.pop.frames_eq m
  rw [jumpIf, on_bind] at h
  rcases hpop : pop.on m with ⟨fault | condition, m₁⟩ <;> rw [hpop] at h hframes
  · cases h
  · dsimp only at h
    split at h <;> cases h
    refine ⟨?_, hframes⟩
    split
    · exact .inr rfl
    · exact .inl rfl

end Step

namespace Engine

open Step

variable {e : Engine σ} {i : Instruction} {p q : Progress σ} {m m' : Machine σ}

/-! ### Single instructions -/

/-- A function that is entered has its caller suspended on top of the others. -/
theorem enter_ok {name : String} {returnAddress : Nat} {flow : Flow}
    (h : (e.enter name returnAddress).on m = (.ok flow, m')) :
    ∃ f frame, e.program.function? name = some f ∧ flow = .jump f.address ∧
      frame.returnAddress = returnAddress ∧ m'.frames = m.frames.push frame := by
  rcases hf : e.program.function? name with _ | f
  · rw [e.on_enter_none _ hf] at h
    cases h
  · simp only [enter, hf] at h
    rw [on_bind] at h
    have hframes := Unframed.closeWindow.frames_eq m
    rcases hc : closeWindow.on m with ⟨fault | start, m₁⟩ <;> rw [hc] at h hframes
    · cases h
    · simp only [on_bind, on_get] at h
      split at h
      · cases h
      · split at h <;> cases h
        exact ⟨f, _, rfl, rfl, rfl, by rw [hframes]⟩

/-- A function that gives back goes on where its caller waits, and without a caller ends the run. -/
theorem leave_ok {flow : Flow} (h : e.leave.on m = (.ok flow, m')) :
    (∃ frame, m.frames = m'.frames.push frame ∧ flow = .jump frame.returnAddress) ∨
      m.frames = #[] ∧ ∃ value, flow = .halt value := by
  obtain ⟨S, v, hstack⟩ : ∃ (S : Array Value) (v : Value), m.stack = S.push v := by
    rcases hback : m.stack.back? with _ | v
    · simp [leave, pop, on_bind, hback] at h
    · exact (Array.back?_eq_some_iff.mp hback).imp fun S hS ↦ ⟨v, hS⟩
  rcases hback : m.frames.back? with _ | frame
  · have hempty := Array.back?_eq_none_iff.mp hback
    rw [e.on_leave_halt hstack hempty] at h
    cases h
    exact .inr ⟨hempty, v, rfl⟩
  · obtain ⟨frames, hframes⟩ := Array.back?_eq_some_iff.mp hback
    rw [e.on_leave hstack hframes] at h
    split at h <;> cases h
    exact .inl ⟨frame, hframes, rfl⟩

/-- Where an instruction leads that does not end the run, and which callers are suspended then. -/
inductive Continues (e : Engine σ) (p : Progress σ) (i : Instruction) (q : Progress σ) : Prop
  | next (op : i.op ≠ .giveBack) (address : q.address = p.address + 1)
    (frames : q.machine.frames = p.machine.frames)
  | jump (op : i.op.isJump = true) (address : q.address = i.count)
    (frames : q.machine.frames = p.machine.frames)
  | enter {f : FunctionEntry} {frame : Frame} (op : i.op = .call)
    (function : e.program.function? i.name = some f) (address : q.address = f.address)
    (returns : frame.returnAddress = p.address + 1)
    (frames : q.machine.frames = p.machine.frames.push frame)
  | leave {frame : Frame} (op : i.op = .giveBack) (address : q.address = frame.returnAddress)
    (frames : p.machine.frames = q.machine.frames.push frame)

/-- A run that goes on does so in one of these ways. -/
theorem continues_of_advance (hi : e.program.code[p.address]? = some i) (h : e.advance p = .inr q) :
    e.Continues p i q := by
  obtain ⟨flow, hstep, hflow⟩ := e.step_of_advance hi h
  have htarget {target : Nat} (hjump : flow = .jump target) : q.address = target := by
    rcases hflow with ⟨rfl, -⟩ | rfl <;> cases hjump
    rfl
  rcases i.isPlain_or with hop | hop | hop | hop | hop
  · have hframes := (e.unframed_perform i).frames_eq p.machine
    rw [e.on_step_of_isPlain hop] at hstep
    rcases hx : (e.perform i).on p.machine with ⟨fault | ⟨⟩, m⟩ <;> rw [hx] at hstep hframes <;>
      cases hstep
    obtain ⟨-, haddress⟩ | hjump := hflow
    · exact .next (fun hback ↦ by simp [Instruction.IsPlain, hback] at hop) haddress hframes
    · cases hjump
  · rw [e.step_jump hop] at hstep
    obtain ⟨hjump, hmachine⟩ := Prod.mk.inj hstep
    exact .jump (by rw [hop]; rfl) (htarget (Except.ok.inj hjump).symm) (by rw [← hmachine])
  · rw [e.step_branch hop] at hstep
    obtain ⟨rfl | rfl, hframes⟩ := jumpIf_ok hstep
    · obtain ⟨-, haddress⟩ | hjump := hflow
      · exact .next (by rcases hop with hop | hop <;> rw [hop] <;> exact nofun) haddress hframes
      · cases hjump
    · exact .jump (by rcases hop with hop | hop <;> rw [hop] <;> rfl) (htarget rfl) hframes
  · rw [e.step_call hop] at hstep
    obtain ⟨f, frame, hf, hjump, hreturns, hframes⟩ := enter_ok hstep
    exact .enter hop hf (htarget hjump) hreturns hframes
  · rw [e.step_giveBack hop] at hstep
    obtain ⟨frame, hframes, hjump⟩ | ⟨-, value, rfl⟩ := leave_ok hstep
    · exact .leave hop (htarget hjump) hframes
    · obtain ⟨hnext, -⟩ | hjump := hflow
      · cases hnext
      · cases hjump

/-- A run ends with a value when the function that was called first gives it back. -/
theorem halt_of_advance {value : Value} (h : e.advance p = .inl (.ok value, m)) :
    ∃ i, e.program.code[p.address]? = some i ∧ i.op = .giveBack ∧ p.machine.frames = #[] ∧
      m.store = p.machine.store := by
  obtain ⟨i, hi, hstep, -⟩ := e.step_of_advance_ok h
  refine ⟨i, hi, ?_⟩
  rcases i.isPlain_or with hop | hop | hop | hop | hop
  · rw [e.on_step_of_isPlain hop] at hstep
    rcases hx : (e.perform i).on p.machine with ⟨fault | ⟨⟩, m₁⟩ <;> rw [hx] at hstep <;> cases hstep
  · rw [e.step_jump hop] at hstep
    cases hstep
  · rw [e.step_branch hop] at hstep
    obtain ⟨hflow | hflow, -⟩ := jumpIf_ok hstep <;> cases hflow
  · rw [e.step_call hop] at hstep
    obtain ⟨_, _, -, hflow, -⟩ := enter_ok hstep
    cases hflow
  · rw [e.step_giveBack hop] at hstep
    have hstore := e.stackwise_leave.store_eq p.machine
    rw [hstep] at hstore
    obtain ⟨frame, -, hflow⟩ | ⟨hframes, -⟩ := leave_ok hstep
    · cases hflow
    · exact ⟨hop, hframes, hstore⟩

/-! ### The function that was called first -/

/-- The address that the function called first is at, or goes on from when its callees are done. -/
def Progress.home (p : Progress σ) : Nat :=
  (p.machine.frames[0]?.map (·.returnAddress)).getD p.address

theorem Progress.home_of_frames_eq (hp : p.machine.frames = #[]) : p.home = p.address := by
  simp [home, hp]

theorem Progress.home_of_frames {first : Frame} (hp : p.machine.frames[0]? = some first) :
    p.home = first.returnAddress := by
  simp [home, hp]

/-- The function that was called first moves on only where it runs itself, and as its code has it. -/
theorem Continues.home (h : e.Continues p i q) : q.home = p.home ∨ p.machine.frames = #[] ∧
    (i.op ≠ .giveBack ∧ q.home = p.address + 1 ∨ i.op.isJump = true ∧ q.home = i.count) := by
  rcases hframes : p.machine.frames[0]? with _ | first
  · have hempty : p.machine.frames = #[] := by simpa using hframes
    refine .inr ⟨hempty, ?_⟩
    cases h with
    | next op address frames =>
      exact .inl ⟨op, (Progress.home_of_frames_eq (frames.trans hempty)).trans address⟩
    | jump op address frames =>
      exact .inr ⟨op, (Progress.home_of_frames_eq (frames.trans hempty)).trans address⟩
    | enter op function address returns frames =>
      refine .inl ⟨by rw [op]; exact nofun, ?_⟩
      simp [Progress.home, frames, hempty, returns]
    | leave op address frames => simp [hempty] at frames
  · refine .inl ?_
    rw [Progress.home_of_frames hframes]
    cases h with
    | next op address frames | jump op address frames =>
      exact Progress.home_of_frames (frames ▸ hframes)
    | enter op function address returns frames =>
      obtain ⟨hlt, -⟩ := Array.getElem?_eq_some_iff.mp hframes
      refine Progress.home_of_frames ?_
      rw [frames, Array.getElem?_push, if_neg (Nat.ne_of_lt hlt), hframes]
    | leave op address frames =>
      rw [frames, Array.getElem?_push] at hframes
      split at hframes
      · have hempty : q.machine.frames = #[] := Array.eq_empty_of_size_eq_zero (by omega)
        rw [Progress.home_of_frames_eq hempty, address, Option.some.inj hframes]
      · exact Progress.home_of_frames hframes

end Engine

end StackScript
