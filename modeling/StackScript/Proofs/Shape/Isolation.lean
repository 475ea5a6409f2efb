import StackScript.Proofs.Shape.Discipline

/-!
# Calls are isolated

All calls share one stack, one list of windows and one row of frames, and arguments become locals where
they are. Yet a function that was called touches nothing below its arguments: the ground of the call
stays as it is for as long as the caller is suspended, whatever functions are called in between, and
when the call is over there is one more value on it.
-/

namespace StackScript

variable {σ : Type}

namespace Engine

/-- The places of a run from one place on, for as long as more than a given number of callers are
suspended. -/
inductive During (e : Engine σ) (depth : Nat) (q : Progress σ) : Progress σ → Prop
  | entry : During e depth q q
  | advance {r t : Progress σ} (h : During e depth q r) (ht : e.advance r = .inr t)
    (hd : depth < t.machine.frames.size) : During e depth q t

end Engine

section Ground

variable {e : Engine σ} {shape : Nat → Shape} {p q : Engine.Progress σ} {floors : List Nat}

/-- The ground of a call whose window begins at `start`. -/
def callGround (p : Engine.Progress σ) (start : Nat) (outer : List Nat) : Ground :=
  ⟨p.machine.stack.extract 0 start, p.machine.frames.push ⟨p.machine.base, p.address + 1⟩, outer⟩

theorem extract_append_size (below above : Array Value) :
    (below ++ above).extract 0 below.size = below := by
  rw [Array.extract_append_left, Array.extract_size]

/-- A call enters a function on a ground of its own. -/
theorem Running.enter (hp : e.program.ShapedBy shape) {g : Ground}
    (h : Running e.program shape g p.address p.machine floors) {i : Instruction}
    (hi : e.program.code[p.address]? = some i) (hop : i.op = .call)
    (hq : e.advance p = .inr q) :
    ∃ start outer, p.machine.windows = start :: outer ∧ start ≤ p.machine.stack.size ∧
      q.machine.base = start ∧
      Running e.program shape (callGround p start outer) q.address q.machine [outer.length] := by
  obtain ⟨callers, below, outer, hwithin⟩ := h
  have hholds := hwithin.holds
  obtain ⟨q', hstands⟩ := hp.stands _ i hi
  generalize hplace : (p.address, shape p.address) = place at hstands
  cases hstands with
  | jump h _ | giveBack h => rw [hop] at h; cases h
  | branch h _ _ => rw [hop] at h; simp at h
  | perform he _ _ =>
    have hplain := he.isPlain
    simp only [Instruction.IsPlain, hop] at hplain
  | @call _ k n marks _ hn =>
    obtain ⟨rfl, hs⟩ := Prod.mk.inj hplace
    rw [hs] at hholds
    obtain ⟨vs, args, hstack, rfl, hargs⟩ := hholds.split
    have hwindows : p.machine.windows = (below ++ vs.toArray).size ::
        (marks.map (below.size + ·) ++ outer) := by
      simp [hholds.windows]
    refine ⟨_, _, hwindows, by simp [hstack], ?_⟩
    obtain ⟨flow, hstep, hflow⟩ := e.step_of_advance hi hq
    rw [e.step_call hop] at hstep
    obtain ⟨f, hf, harity, rfl, hmachine⟩ := e.entered_of_ok _ hwindows (by simp [hstack]) hstep
    have haddress : f.address = q.address := by
      rcases hflow with ⟨hnext, -⟩ | hjump
      · cases hnext
      · exact Flow.jump.inj hjump
    obtain ⟨hlt, hshape⟩ := hp.entry f (List.mem_of_find?_eq_some hf)
    have hground : p.machine.stack.extract 0 (below ++ vs.toArray).size = below ++ vs.toArray := by
      rw [hstack, extract_append_size]
    have hlength : args.length = f.arity := by
      simp only [hstack, Array.size_append, List.size_toArray] at harity
      omega
    rw [← haddress, hmachine]
    refine ⟨rfl, [], _, _, hlt, by simp [callGround], .nil, ?_⟩
    rw [hshape, callGround, hground]
    exact ⟨rfl, rfl, args, hstack, hlength⟩

variable {g : Ground} {start : Nat} {outer : List Nat}

/-- While the caller is suspended, the run stays on the ground of the call. -/
theorem Engine.During.running (hp : e.program.ShapedBy shape) {r : Engine.Progress σ}
    (h : e.During p.machine.frames.size q r)
    (hq : Running e.program shape (callGround p start outer) q.address q.machine [outer.length]) :
    ∃ floors, Running e.program shape (callGround p start outer) r.address r.machine floors := by
  induction h with
  | entry => exact ⟨_, hq⟩
  | advance _ ht hd ih =>
    obtain ⟨floors, hr⟩ := ih
    obtain ⟨i, _, hadvance⟩ := hr.advance hp
    rw [ht] at hadvance
    rcases hadvance with hrunning | ⟨_, frame, _, hframes, _⟩
    · exact ⟨_, hrunning⟩
    · have hsize := congrArg Array.size hframes
      simp only [callGround, Array.size_push] at hsize
      omega

end Ground

end StackScript
