import StackScript.Proofs.Machine.Agreement

/-!
# Trials

A trial runs a bare row of instructions, with no functions to call and no host (`evaluate`). Nothing is
assumed of the row: operands may be of the wrong sort, jumps may lead anywhere, counts may be larger than any
stack, and windows may be closed when what they were opened on is gone.

Trials are contained all the same (`evaluate_contained`). The limit on its instructions brings every trial to
an end, the limit on the stack keeps it small, and the checks of the machine see to it that no operation is
applied outside its domain, since the strict machine takes the same course.
-/

namespace StackScript

variable {σ : Type}

namespace Engine

variable {e : Engine σ} {p q : Progress σ} {m : Machine σ} {i : Instruction} {n fuel : Nat}

/-! ### Instructions that are carried out -/

/-- The instruction that a run carries out next. There is none outside of the code, and none after as many as
are allowed. -/
def due? (e : Engine σ) (p : Progress σ) : Option Instruction :=
  match e.limits.steps with
  | some limit => if limit ≤ p.done then none else e.program.code[p.address]?
  | none => e.program.code[p.address]?

/-- The instructions that a run carries out, but no more than `fuel` of them. -/
def carriedOut (e : Engine σ) : (fuel : Nat) → Progress σ → List Instruction
  | 0, _ => []
  | fuel + 1, p =>
    match e.due? p with
    | none => []
    | some i =>
      i :: match e.advance p with
        | .inl _ => []
        | .inr q => e.carriedOut fuel q

/-- A run that carries out another instruction has not carried out as many as are allowed. -/
theorem lt_of_due? (hs : e.limits.steps = some n) (h : e.due? p = some i) : p.done < n := by
  simp only [due?, hs] at h
  split at h
  · cases h
  · omega

/-- A run that carries out no other instruction ends where it stands. -/
theorem advance_of_due?_eq_none (h : e.due? p = none) :
    ∃ r, e.advance p = .inl (.error r, p.machine) := by
  rcases hi : e.program.code[p.address]? with _ | i
  · exact ⟨_, e.advance_outside hi⟩
  · rcases hs : e.limits.steps with _ | limit <;> simp only [due?, hs, hi] at h
    · cases h
    · split at h
      · rename_i hle
        rw [e.advance_eq hi, on_attempt_of_le hs hle]
        exact ⟨_, rfl⟩
      · cases h

/-- No run carries out more instructions than are allowed. -/
theorem length_carriedOut_le (hs : e.limits.steps = some n) (fuel : Nat) (hp : p.done ≤ n) :
    (e.carriedOut fuel p).length + p.done ≤ n := by
  induction fuel generalizing p with
  | zero => simpa [carriedOut] using hp
  | succ fuel ih =>
    rw [carriedOut]
    rcases hi : e.due? p with _ | i
    · simpa using hp
    -- an instruction counts whether the run goes on behind it or not
    · have hlt := lt_of_due? hs hi
      rcases hadvance : e.advance p with o | q
      · simp only [List.length_cons, List.length_nil]
        omega
      · have hdone := e.advance_done hadvance
        have := ih (p := q) (by omega)
        simp only [List.length_cons]
        omega

/-- A run with a limit on its instructions ends. -/
theorem exists_finish_of_steps (hs : e.limits.steps = some n) (hp : p.done ≤ n)
    (hfuel : n < p.done + fuel) : ∃ o, e.finish fuel p = some o := by
  induction fuel generalizing p with
  | zero => omega
  | succ fuel ih =>
    rw [finish]
    rcases hi : e.due? p with _ | i
    · obtain ⟨r, hr⟩ := advance_of_due?_eq_none hi
      exact ⟨_, by rw [hr]⟩
    · have hlt := lt_of_due? hs hi
      rcases hadvance : e.advance p with o | q
      · exact ⟨o, rfl⟩
      · have hdone := e.advance_done hadvance
        exact ih (by omega) (by omega)

/-! ### Between two instructions -/

/-- The machines of a run that begins at `p`, before each of its instructions and after the last one. There is
none after an instruction that fails, since all that is left on the stack is dropped then. -/
inductive Between (e : Engine σ) (p : Progress σ) : Machine σ → Prop
  | before {k : Nat} {q : Progress σ} (h : e.advances k p = .inr q) : Between e p q.machine
  | last {k : Nat} {q : Progress σ} {value : Value} {m : Machine σ} (h : e.advances k p = .inr q)
    (hend : e.advance q = .inl (.ok value, m)) : Between e p m

/-- A run that begins within the limits on stack and callers is within them between any two instructions. -/
theorem Between.fits (hp : p.machine.Fits e.limits.stack e.limits.depth) (h : e.Between p m) :
    m.Fits e.limits.stack e.limits.depth := by
  have hstep := fits_step (e := e) (Nat.le_refl e.limits.stack) (Nat.le_refl e.limits.depth)
  cases h with
  | before h => exact preserves_advances hstep hp h
  | last h hend => exact preserves_advance_ok hstep (preserves_advances hstep hp h) hend

/-- Where trials begin. -/
def Progress.outset (world : World) : Progress Unit := ⟨0, 0, .fresh ⟨.declared [], world, ()⟩⟩

end Engine

/-- A trial on the strict machine. -/
def Strict.evaluate (code : Array Instruction) (world : World) :
    Option (Except Report Value × World) :=
  (finish (.bare code) (code.size + 1) (.outset world)).map fun (result, m) =>
    (result, m.store.world)

/-- The strict machine tries code as the machine does. -/
theorem Strict.evaluate_eq {code : Array Instruction} (hcode : Storable code) (world : World) :
    Strict.evaluate code world = StackScript.evaluate code world := by
  have hsize := hcode.size
  have hfinish : finish (.bare code) (code.size + 1) (.outset world) =
      (Engine.bare code).finish (code.size + 1) (.outset world) :=
    finish_eq rfl hcode ⟨rfl, rfl⟩ (by simp only [Engine.Progress.outset]; omega)
  rw [Strict.evaluate, hfinish]
  rfl

/-- Trials are contained, whatever the code.

A trial ends, with a value or with a report, and carries out no more instructions than there are in the row.
Between any two of them there are no more values on the stack than that, either. The strict machine, which
breaks off where an operation is applied outside its domain, ends in the same way: no size is subtracted from
a smaller one, no slot lies beyond the machine words, no row is cut behind its end, and no integer is divided
by zero. -/
theorem evaluate_contained (code : Array Instruction) (hcode : Storable code) (world : World) :
    (∃ result after, evaluate code world = some (result, after) ∧
      Strict.evaluate code world = some (result, after)) ∧
    (∀ fuel, ((Engine.bare code).carriedOut fuel (.outset world)).length ≤ code.size) ∧
    ∀ m, (Engine.bare code).Between (.outset world) m → m.stack.size ≤ code.size := by
  have hsteps : (Engine.bare code).limits.steps = some code.size := rfl
  refine ⟨?_, fun fuel ↦ ?_, fun m hm ↦ ?_⟩
  · have hends : ∃ o, (Engine.bare code).finish (code.size + 1) (.outset world) = some o :=
      Engine.exists_finish_of_steps hsteps (Nat.zero_le _)
        (by simp only [Engine.Progress.outset]; omega)
    obtain ⟨⟨result, m⟩, hfinish⟩ := hends
    have hrun : evaluate code world = some (result, m.store.world) :=
      congrArg (Option.map _) hfinish
    exact ⟨result, m.store.world, hrun, (Strict.evaluate_eq hcode world).trans hrun⟩
  · exact Engine.length_carriedOut_le (p := .outset world) hsteps fuel (Nat.zero_le _)
  · exact (hm.fits ⟨Nat.zero_le _, Nat.zero_le _⟩).stack

/-- Code that no script has. It opens a window and does not close it, divides the least integer by -1, and
stores the quotient into the last slot of all. -/
def wildCode : Array Instruction :=
  #[⟨.openWindow, .none, 1⟩, ⟨.push, .literal (.int (-2147483648)), 1⟩,
    ⟨.push, .literal (.int (-1)), 1⟩, ⟨.binary .div, .none, 1⟩, ⟨.dup, .count 1, 2⟩,
    ⟨.setLocal, .slot (UInt64.size - 1), 2⟩]

/-- That code fails at its last instruction, for want of such a slot. -/
theorem evaluate_contained_wildCode :
    let report : Report := ⟨Step.badSlot (UInt64.size - 1), some ⟨2, 0⟩, none⟩
    Storable wildCode ∧ evaluate wildCode .empty = some (.error report, .empty) ∧
      Strict.evaluate wildCode .empty = some (.error report, .empty) ∧
      (∀ fuel, ((Engine.bare wildCode).carriedOut fuel (.outset .empty)).length ≤ 6) ∧
      ∀ m, (Engine.bare wildCode).Between (.outset .empty) m → m.stack.size ≤ 6 := by
  intro report
  have hcode : Storable wildCode := ⟨by decide, by decide⟩
  have hrun : evaluate wildCode .empty = some (.error report, .empty) := rfl
  obtain ⟨⟨result, after, hresult, hstrict⟩, hcount, hstack⟩ :=
    evaluate_contained wildCode hcode .empty
  exact ⟨hcode, hrun, hstrict.trans (hresult.symm.trans hrun), hcount, hstack⟩

end StackScript
