import StackScript.Proofs.Machine.Operator

/-!
# Runs under different limits

Limits are looked at when a value has been pushed, before a caller is suspended and before an
instruction is carried out, and nowhere else. So a run under small limits goes along with the run
under larger ones until it reaches a limit (`advance_within`, `finish_within`).

A statement about runs without limits is made for all limits that are large enough: `Limits.Allow n`
says of limits that none is below `n`, and `Engine.Reaches` and `Engine.Ends` say what a run does
under all limits that allow enough.
-/

namespace StackScript

variable {σ α β : Type}

/-- Limits are compared one by one. To have no limit on the instructions is to have the largest. -/
instance : LE Limits where
  le l l' := l.stack ≤ l'.stack ∧ l.depth ≤ l'.depth ∧
    ∀ n', l'.steps = some n' → ∃ n ≤ n', l.steps = some n

/-- The faults of exhausted limits. -/
def Fault.IsLimit : Fault → Prop
  | .stackOverflow | .stepLimitExceeded _ => True
  | _ => False

namespace Step

/-- Work that does the same as other work, unless it runs into a limit. -/
def Tame (x y : Step σ α) : Prop :=
  ∀ m, (∃ fault m', x.on m = (.error fault, m') ∧ fault.IsLimit) ∨ x.on m = y.on m

namespace Tame

theorem refl (x : Step σ α) : Tame x x :=
  fun _ ↦ .inr rfl

theorem bind {x y : Step σ α} {f g : α → Step σ β} (h : Tame x y) (hf : ∀ a, Tame (f a) (g a)) :
    Tame (x >>= f) (y >>= g) := by
  intro m
  rcases h m with ⟨fault, m', hx, hl⟩ | hx
  · exact .inl ⟨fault, m', on_bind_error hx, hl⟩
  · rw [on_bind, on_bind, ← hx]
    rcases x.on m with ⟨fault | a, m'⟩
    · exact .inr rfl
    · exact hf a m'

theorem ite {p : Prop} [Decidable p] {x x' y y' : Step σ α} (h : Tame x y) (h' : Tame x' y') :
    Tame (if p then x else x') (if p then y else y') := by
  split
  · exact h
  · exact h'

/-- A limit that is reached earlier. -/
theorem limit {p q : Prop} [Decidable p] [Decidable q] {fault : Fault} (hl : fault.IsLimit)
    (hpq : q → p) {x y z z' : Step σ α} (hz : ∀ m, z.on m = (.error fault, m)) (h : Tame x y) :
    Tame (if p then z else x) (if q then z' else y) := by
  by_cases hp : p
  · rw [if_pos hp]
    exact fun m ↦ .inl ⟨fault, m, hz m, hl⟩
  · rw [if_neg hp, if_neg (hp ∘ hpq)]
    exact h

end Tame

end Step

namespace Engine

open Step

/-- The engine under other limits. -/
def within (e : Engine σ) (l : Limits) : Engine σ := { e with limits := l }

variable (e : Engine σ) {l l' : Limits}

theorem tame_checkStack (h : l ≤ l') : Tame (e.within l).checkStack (e.within l').checkStack :=
  .bind (.refl _) fun _ ↦ .limit (by trivial) (Nat.lt_of_le_of_lt h.1) (fun _ ↦ rfl) (.refl _)

theorem tame_push (h : l ≤ l') (v : Value) : Tame ((e.within l).push v) ((e.within l').push v) :=
  .bind (.refl _) fun _ ↦ e.tame_checkStack h

theorem tame_duplicate (h : l ≤ l') (n : Nat) :
    Tame ((e.within l).duplicate n) ((e.within l').duplicate n) := by
  refine .bind (.refl _) fun m ↦ .ite (.refl _) ?_
  exact .bind (.refl _) fun _ ↦ e.tame_checkStack h

theorem tame_operate (h : l ≤ l') (op : BinaryOp) :
    Tame ((e.within l).operate op) ((e.within l').operate op) :=
  .bind (.refl _) fun _ ↦ .bind (.refl _) fun _ ↦ .bind (.refl _) fun _ ↦ e.tame_push h _

theorem tame_perform (h : l ≤ l') (i : Instruction) :
    Tame ((e.within l).perform i) ((e.within l').perform i) := by
  have hpush := e.tame_push h
  obtain ⟨op, operand, line⟩ := i
  cases op with
  | push =>
    unfold perform
    dsimp only
    split
    · exact hpush _
    · exact .refl _
  | dup => exact e.tame_duplicate h _
  | pushLocal => exact .bind (.refl _) fun _ ↦ hpush _
  | pushGlobal =>
    refine .bind (.refl _) fun m ↦ ?_
    split
    · exact hpush _
    · exact .refl _
  | binary op => exact e.tame_operate h op
  | makeList => exact .bind (.refl _) fun _ ↦ .bind (.refl _) fun _ ↦ hpush _
  | construct => exact .bind (.refl _) fun _ ↦ .bind (.refl _) fun _ ↦ hpush _
  | pushElement =>
    exact .bind (.refl _) fun _ ↦ .bind (.refl _) fun _ ↦ .bind (.refl _) fun _ ↦
      .bind (.refl _) fun _ ↦ hpush _
  | setElement | setElementCached =>
    exact .bind (.refl _) fun _ ↦ .bind (.refl _) fun _ ↦ .bind (.refl _) fun _ ↦
      .bind (.refl _) fun _ ↦ hpush _
  | invert => exact .bind (.refl _) fun _ ↦ .bind (.refl _) fun _ ↦ hpush _
  | callStatic =>
    exact .bind (.refl _) fun _ ↦ .bind (.refl _) fun _ ↦ .bind (.refl _) fun _ ↦
      .bind (.refl _) fun _ ↦ hpush _
  | callMethod =>
    exact .bind (.refl _) fun _ ↦ .bind (.refl _) fun _ ↦ .bind (.refl _) fun _ ↦ hpush _
  | pushField => exact .bind (.refl _) fun _ ↦ .bind (.refl _) fun _ ↦ hpush _
  | setField =>
    exact .bind (.refl _) fun _ ↦ .bind (.refl _) fun _ ↦ .bind (.refl _) fun _ ↦ hpush _
  | pushStaticField =>
    exact .bind (.refl _) fun _ ↦ .bind (.refl _) fun _ ↦ .bind (.refl _) fun _ ↦ hpush _
  | _ => exact .refl _

theorem tame_enter (h : l ≤ l') (name : String) (returnAddress : Nat) :
    Tame ((e.within l).enter name returnAddress) ((e.within l').enter name returnAddress) := by
  rcases hf : e.program.function? name with _ | f
  · simp only [enter, within, hf]
    exact .refl _
  · simp only [enter, within, hf]
    refine .bind (.refl _) fun start ↦ .bind (.refl _) fun m ↦ .ite (.refl _) ?_
    exact .limit (by trivial) (Nat.le_trans h.2.1) (fun _ ↦ rfl) (.refl _)

theorem tame_leave (h : l ≤ l') : Tame (e.within l).leave (e.within l').leave := by
  refine .bind (.refl _) fun result ↦ .bind (.refl _) fun m ↦ ?_
  split
  · exact .refl _
  · exact .bind (.refl _) fun _ ↦ .bind (e.tame_push h _) fun _ ↦ .refl _

theorem tame_step (h : l ≤ l') (i : Instruction) (address : Nat) :
    Tame ((e.within l).step i address) ((e.within l').step i address) := by
  unfold step
  split
  · exact .refl _
  · exact .refl _
  · exact .refl _
  · exact e.tame_enter h _ _
  · exact e.tame_leave h
  · exact .bind (e.tame_perform h i) fun _ ↦ .refl _

/-! ### One instruction of a run -/

variable {e}

theorem on_attempt_of_le {i : Instruction} {address done n : Nat} (hs : e.limits.steps = some n)
    (hn : n ≤ done) (m : Machine σ) :
    (e.attempt i address done).on m = (.error (.stepLimitExceeded n), m) := by
  simp only [attempt, hs, if_pos hn]
  rfl

theorem on_attempt {i : Instruction} {address done : Nat}
    (hs : ∀ n, e.limits.steps = some n → done < n) (m : Machine σ) :
    (e.attempt i address done).on m = (e.step i address).on m := by
  unfold attempt
  split
  · rename_i n hn
    rw [if_neg (Nat.not_le.mpr (hs n hn))]
  · rfl

variable (e)

/-- The attempt under smaller limits, or after more instructions, is the same unless a limit is
reached. -/
theorem tame_attempt (h : l ≤ l') (i : Instruction) (address : Nat) {done done' : Nat}
    (hd : done' ≤ done) :
    Tame ((e.within l).attempt i address done) ((e.within l').attempt i address done') := by
  intro m
  by_cases hr : ∃ n, l.steps = some n ∧ n ≤ done
  · obtain ⟨n, hs, hn⟩ := hr
    exact .inl ⟨.stepLimitExceeded n, m, on_attempt_of_le hs hn m, trivial⟩
  · have hlt : ∀ n, l.steps = some n → done < n := fun n hs ↦
      Nat.lt_of_not_le fun hn ↦ hr ⟨n, hs, hn⟩
    have hlt' : ∀ n, l'.steps = some n → done' < n := by
      intro n' hs'
      obtain ⟨n, hn, hs⟩ := h.2.2 n' hs'
      exact Nat.lt_of_le_of_lt hd (Nat.lt_of_lt_of_le (hlt n hs) hn)
    rw [on_attempt hlt, on_attempt hlt']
    exact e.tame_step h i address m

/-- A run that ended by reaching a limit. -/
def Outcome.IsLimit (o : Outcome σ) : Prop :=
  ∃ r, o.1 = .error r ∧ r.fault.IsLimit

/-- A run goes on as its instruction does. -/
theorem advance_eq {i : Instruction} {p : Progress σ} (hi : e.program.code[p.address]? = some i) :
    e.advance p = match (e.attempt i p.address p.done).on p.machine with
      | (.ok .next, m) => .inr ⟨p.address + 1, p.done + 1, m⟩
      | (.ok (.jump target), m) => .inr ⟨target, p.done + 1, m⟩
      | (.ok (.halt value), m) => .inl (.ok value, m)
      | (.error fault, m) => .inl (.error (failureAt i fault), m) := by
  obtain ⟨address, done, m⟩ := p
  simp only [advance, hi]
  rfl

theorem advance_outside {p : Progress σ} (hi : e.program.code[p.address]? = none) :
    e.advance p = .inl (.error (outOfRange p.address), p.machine) := by
  obtain ⟨address, done, m⟩ := p
  simp only [advance, hi]

/-- A run that goes on has carried out its instruction. -/
theorem step_of_advance {i : Instruction} {p q : Progress σ}
    (hi : e.program.code[p.address]? = some i) (h : e.advance p = .inr q) :
    ∃ flow, (e.step i p.address).on p.machine = (.ok flow, q.machine) ∧
      (flow = .next ∧ q.address = p.address + 1 ∨ flow = .jump q.address) := by
  rw [e.advance_eq hi] at h
  by_cases hl : ∃ n, e.limits.steps = some n ∧ n ≤ p.done
  · obtain ⟨n, hs, hn⟩ := hl
    rw [on_attempt_of_le hs hn] at h
    cases h
  · rw [on_attempt fun n hs ↦ Nat.lt_of_not_le fun hn ↦ hl ⟨n, hs, hn⟩] at h
    rcases hx : (e.step i p.address).on p.machine with ⟨fault | flow, m'⟩ <;> rw [hx] at h
    · cases h
    · cases flow <;> cases h
      · exact ⟨_, rfl, .inl ⟨rfl, rfl⟩⟩
      · exact ⟨_, rfl, .inr rfl⟩

/-- Every instruction of a run is counted. -/
theorem advance_done {p q : Progress σ} (h : e.advance p = .inr q) : q.done = p.done + 1 := by
  rcases hi : e.program.code[p.address]? with _ | i
  · rw [e.advance_outside hi] at h
    cases h
  · rw [e.advance_eq hi] at h
    split at h <;> cases h <;> rfl

/-- Under smaller limits a run goes on as under larger ones unless it reaches a limit. -/
theorem advance_within (h : l ≤ l') (p : Progress σ) :
    (∃ o, (e.within l).advance p = .inl o ∧ o.IsLimit) ∨
      (e.within l).advance p = (e.within l').advance p := by
  rcases hi : e.program.code[p.address]? with _ | i
  · rw [(e.within l).advance_outside hi, (e.within l').advance_outside hi]
    exact .inr rfl
  · rw [(e.within l).advance_eq hi, (e.within l').advance_eq hi]
    rcases e.tame_attempt h i p.address (Nat.le_refl p.done) p.machine with
      ⟨fault, m', hx, hl⟩ | hx
    · rw [hx]
      exact .inl ⟨_, rfl, _, rfl, hl⟩
    · rw [hx]
      exact .inr rfl

/-- A run does not look at a limit on the instructions that it is far from. -/
theorem advance_within_steps {p : Progress σ} {n : Nat} (hn : p.done < n)
    (hs : ∀ n, l.steps = some n → p.done < n) :
    (e.within { l with steps := some n }).advance p = (e.within l).advance p := by
  rcases hi : e.program.code[p.address]? with _ | i
  · rw [(e.within { l with steps := some n }).advance_outside hi,
      (e.within l).advance_outside hi]
  · rw [(e.within { l with steps := some n }).advance_eq hi, (e.within l).advance_eq hi,
      on_attempt fun k hk ↦ ?_, on_attempt (e := e.within l) hs]
    · rfl
    · cases hk
      exact hn

/-! ### Whole runs -/

/-- A whole run under smaller limits ends as under larger ones or by reaching a limit. -/
theorem finish_within (h : l ≤ l') {fuel : Nat} {p : Progress σ} {o : Outcome σ}
    (ho : (e.within l').finish fuel p = some o) :
    ∃ o', (e.within l).finish fuel p = some o' ∧ (o' = o ∨ o'.IsLimit) := by
  induction fuel generalizing p with
  | zero => cases ho
  | succ fuel ih =>
    rw [finish] at ho ⊢
    rcases e.advance_within h p with ⟨o', hx, hl⟩ | hx
    · exact ⟨o', by rw [hx], .inr hl⟩
    · rw [hx]
      rcases hy : (e.within l').advance p with o' | q <;> rw [hy] at ho
      · exact ⟨o', rfl, .inl (Option.some.inj ho)⟩
      · exact ih ho

/-- A run that ends without reaching a limit ends so under larger limits, too. -/
theorem finish_within_of_le (h : l ≤ l') {fuel : Nat} {p : Progress σ} {o : Outcome σ}
    (ho : (e.within l).finish fuel p = some o) (hl : ¬ o.IsLimit) :
    (e.within l').finish fuel p = some o := by
  induction fuel generalizing p with
  | zero => cases ho
  | succ fuel ih =>
    rw [finish] at ho ⊢
    rcases e.advance_within h p with ⟨o', hx, hl'⟩ | hx
    · rw [hx] at ho
      obtain rfl := Option.some.inj ho
      exact absurd hl' hl
    · rw [← hx]
      rcases hy : (e.within l).advance p with o' | q <;> rw [hy] at ho
      · exact ho
      · exact ih ho

/-- A run that ends with fuel for so many instructions does with a limit of as many. -/
theorem finish_within_steps {fuel : Nat} {p : Progress σ} {o : Outcome σ} {n : Nat}
    (hs : l.steps = none) (hn : p.done + fuel ≤ n) (ho : (e.within l).finish fuel p = some o) :
    (e.within { l with steps := some n }).finish fuel p = some o := by
  induction fuel generalizing p with
  | zero => cases ho
  | succ fuel ih =>
    rw [finish] at ho ⊢
    rw [e.advance_within_steps (by omega) fun k hk ↦ by cases hs.symm.trans hk]
    rcases hy : (e.within l).advance p with o' | q <;> rw [hy] at ho
    · exact ho
    · exact ih (by rw [(e.within l).advance_done hy]; omega) ho

/-- More fuel does not change how a run ends. -/
theorem finish_of_le {fuel fuel' : Nat} (h : fuel ≤ fuel') {p : Progress σ} {o : Outcome σ}
    (ho : e.finish fuel p = some o) : e.finish fuel' p = some o := by
  induction fuel generalizing p fuel' with
  | zero => cases ho
  | succ fuel ih =>
    obtain ⟨k, rfl⟩ := Nat.exists_eq_add_of_le' h
    rw [Nat.add_succ, finish]
    rw [finish] at ho
    rcases hy : e.advance p with o' | q <;> rw [hy] at ho
    · exact ho
    · exact ih (Nat.le_add_left fuel k) ho

end Engine

end StackScript
