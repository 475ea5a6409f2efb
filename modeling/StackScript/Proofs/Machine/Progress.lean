import StackScript.Proofs.Machine.Flow
import StackScript.Proofs.Machine.Limits

/-!
# Several instructions of a run

A run is cut where it is convenient: after a number of instructions it has ended, or goes on from where
it is (`Engine.advances`), and the end of the whole run is that of the rest.
-/

namespace StackScript

variable {σ : Type}

namespace Engine

/-- Where a run is after a number of instructions, unless it has ended by then. -/
def advances (e : Engine σ) : Nat → Progress σ → Outcome σ ⊕ Progress σ
  | 0, p => .inr p
  | n + 1, p =>
    match e.advance p with
    | .inl o => .inl o
    | .inr q => e.advances n q

variable {e : Engine σ} {p q : Progress σ} {o o' : Outcome σ} {n k : Nat}

theorem advances_one (p : Progress σ) : e.advances 1 p = e.advance p := by
  unfold advances
  rcases e.advance p with o | q <;> rfl

theorem advances_add (h : e.advances n p = .inr q) : e.advances (n + k) p = e.advances k q := by
  induction n generalizing p with
  | zero =>
    cases h
    rw [Nat.zero_add]
  | succ n ih =>
    rw [Nat.succ_add, advances]
    rw [advances] at h
    rcases hp : e.advance p with o | p' <;> rw [hp] at h
    · cases h
    · exact ih h

theorem advances_add_of_inl (h : e.advances n p = .inl o) : e.advances (n + k) p = .inl o := by
  induction n generalizing p with
  | zero => cases h
  | succ n ih =>
    rw [Nat.succ_add, advances]
    rw [advances] at h
    rcases hp : e.advance p with o' | p' <;> rw [hp] at h
    · exact h
    · exact ih h

/-- A run that is over after some instructions has ended so. -/
theorem finish_of_advances_inl (h : e.advances n p = .inl o) {fuel : Nat}
    (hf : e.finish fuel p = some o') : o' = o := by
  induction n generalizing p fuel with
  | zero => cases h
  | succ n ih =>
    cases fuel with
    | zero => cases hf
    | succ fuel =>
      rw [advances] at h
      rw [finish] at hf
      rcases hp : e.advance p with o₁ | p' <;> rw [hp] at h hf
      · exact (Option.some.inj hf).symm.trans (Sum.inl.inj h)
      · exact ih h hf

/-- The end of a run is the end of the rest of it. -/
theorem finish_add (h : e.advances n p = .inr q) (fuel : Nat) :
    e.finish (n + fuel) p = e.finish fuel q := by
  induction n generalizing p with
  | zero =>
    cases h
    rw [Nat.zero_add]
  | succ n ih =>
    rw [Nat.succ_add, finish]
    rw [advances] at h
    rcases hp : e.advance p with o | p' <;> rw [hp] at h
    · cases h
    · exact ih h

/-- A run that goes on after some instructions ends later. -/
theorem exists_finish (h : e.advances n p = .inr q) {fuel : Nat} (hf : e.finish fuel p = some o) :
    ∃ fuel', fuel = n + fuel' ∧ e.finish fuel' q = some o := by
  induction n generalizing p fuel with
  | zero =>
    cases h
    exact ⟨fuel, (Nat.zero_add _).symm, hf⟩
  | succ n ih =>
    cases fuel with
    | zero => cases hf
    | succ fuel =>
      rw [advances] at h
      rw [finish] at hf
      rcases hp : e.advance p with o₁ | p' <;> rw [hp] at h hf
      · cases h
      · obtain ⟨fuel', rfl, hf'⟩ := ih h hf
        exact ⟨fuel', by omega, hf'⟩

/-- What the limits leave room for: another value on the stack, and another instruction. -/
structure Room (e : Engine σ) (size done : Nat) : Prop where
  stack : size ≤ e.limits.stack
  steps : ∀ n, e.limits.steps = some n → done ≤ n

/-- An instruction that makes a value of its operands, whatever the machine, pushes the value or reaches
a limit. -/
theorem advance_operands {i : Instruction} {S : Array Value} {args : List Value} {v : Value}
    (hi : e.program.code[p.address]? = some i) (hop : i.op.operands? = some args.length)
    (hm : p.machine.stack = S ++ args.toArray) (hv : ∀ m, (e.apply i args).on m = (.ok v, m)) :
    (∃ o, e.advance p = .inl o ∧ o.IsLimit ∧ (e.limits.steps = none → e.limits.stack < S.size + 1)) ∨
      e.advance p = .inr ⟨p.address + 1, p.done + 1, { p.machine with stack := S.push v }⟩ ∧
        e.Room (S.size + 1) (p.done + 1) := by
  have hplain : i.IsPlain := by
    obtain ⟨op, operand, line⟩ := i
    cases op <;> first | exact trivial | cases hop
  rw [e.advance_eq hi]
  by_cases hs : ∃ n, e.limits.steps = some n ∧ n ≤ p.done
  · obtain ⟨n, hn, hle⟩ := hs
    rw [on_attempt_of_le hn hle]
    exact .inl ⟨_, rfl, ⟨_, rfl, trivial⟩, fun h ↦ nomatch h.symm.trans hn⟩
  · have hlt : ∀ n, e.limits.steps = some n → p.done < n := fun n hn ↦
      Nat.lt_of_not_le fun hle ↦ hs ⟨n, hn, hle⟩
    rw [on_attempt hlt, e.on_step_of_isPlain hplain, e.on_perform_operands hop hm,
      Step.on_bind_ok (hv _), e.on_push]
    dsimp only
    by_cases hl : e.limits.stack < S.size + 1
    · rw [if_pos hl]
      exact .inl ⟨_, rfl, ⟨_, rfl, trivial⟩, fun _ ↦ hl⟩
    · rw [if_neg hl]
      exact .inr ⟨rfl, Nat.le_of_not_lt hl, hlt⟩

end Engine

end StackScript
