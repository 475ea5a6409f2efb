import StackScript.Proofs.Folding.Step
import StackScript.Proofs.Machine.Outcome
import StackScript.Proofs.Machine.Progress

/-!
# Runs of the two programs

A run of the folded program goes along with the run of the plain one, from corresponding addresses to
corresponding addresses (`Engine.advance_beside`). Where the folded program pushes a literal that was
computed ahead of the run, the plain program takes several instructions, which end in the same push
unless they reach a limit (`Engine.advances_computed`).

Hence a run of the plain program that reaches no limit tells how the folded one ends under the same
limits (`finish_folded`), and a run of the folded program that reaches no limit tells how the plain one
ends under limits that are large enough (`finish_plain`).
-/

namespace StackScript

variable {σ : Type} {known : Nat × Nat → Prop}

/-- Limits as large as two others, without one on the number of instructions. -/
def Limits.joined (l l' : Limits) : Limits := ⟨max l.stack l'.stack, max l.depth l'.depth, none⟩

theorem Limits.le_joined_left (l l' : Limits) : l ≤ l.joined l' :=
  ⟨Nat.le_max_left _ _, Nat.le_max_left _ _, nofun⟩

theorem Limits.le_joined_right (l l' : Limits) : l' ≤ l.joined l' :=
  ⟨Nat.le_max_right _ _, Nat.le_max_right _ _, nofun⟩

namespace Engine

/-! ### Computing a literal -/

/-- A number of instructions further on, with another stack. -/
def Progress.after (p : Progress σ) (n : Nat) (stack : Array Value) : Progress σ :=
  ⟨p.address + n, p.done + n, { p.machine with stack := stack }⟩

theorem Progress.after_after (p : Progress σ) (n k : Nat) (S S' : Array Value) :
    (p.after n S).after k S' = p.after (n + k) S' := by
  simp only [after, Nat.add_assoc]

/-- A run takes so many instructions to come to another stack, or reaches a limit, which it does only if
the stack has no room for so many more values. -/
def Comes (e : Engine σ) (p : Progress σ) (n : Nat) (S : Array Value) : Prop :=
  (∃ o, e.advances n p = .inl o ∧ o.IsLimit ∧
    (e.limits.steps = none → e.limits.stack < p.machine.stack.size + n)) ∨
  e.advances n p = .inr (p.after n S) ∧ e.Room S.size (p.done + n)

theorem Comes.trans {e : Engine σ} {n k : Nat} {p : Progress σ} {S S' : Array Value}
    (h : e.Comes p n S) (h' : e.Comes (p.after n S) k S')
    (hs : S.size ≤ p.machine.stack.size + n) : e.Comes p (n + k) S' := by
  rcases h with ⟨o, ho, hlimit, hroom⟩ | ⟨hgo, _⟩
  · exact .inl ⟨o, advances_add_of_inl ho, hlimit, fun hs ↦ by have := hroom hs; omega⟩
  · rcases h' with ⟨o, ho, hlimit, hroom⟩ | ⟨hgo', hroom⟩
    · refine .inl ⟨o, (advances_add hgo).trans ho, hlimit, fun hnone ↦ ?_⟩
      have hsize : e.limits.stack < S.size + k := hroom hnone
      omega
    · rw [Progress.after_after] at hgo'
      refine .inr ⟨(advances_add hgo).trans hgo', hroom.stack, fun limit hl ↦ ?_⟩
      have hdone : p.done + n + k ≤ limit := hroom.steps limit hl
      omega

/-- An instruction that makes a value of its operands, whatever the machine. -/
theorem Comes.operands {e : Engine σ} {i : Instruction} {p : Progress σ} (S : Array Value)
    (args : List Value) {v : Value} (hi : e.program.code[p.address]? = some i)
    (hop : i.op.operands? = some args.length) (hm : p.machine.stack = S ++ args.toArray)
    (hv : ∀ m, (e.apply i args).on m = (.ok v, m)) : e.Comes p 1 (S.push v) := by
  have hsize : S.size ≤ p.machine.stack.size := by simp [hm]
  unfold Comes
  rw [advances_one]
  rcases advance_operands hi hop hm hv with ⟨o, ho, hlimit, hroom⟩ | ⟨hgo, hroom⟩
  · exact .inl ⟨o, ho, hlimit, fun hs ↦ by have := hroom hs; omega⟩
  · refine .inr ⟨hgo, ?_, hroom.steps⟩
    simpa using hroom.stack

/-- Code that computes a literal pushes it. -/
theorem comes_computed {e : Engine σ} {block : List Instruction} {l : Literal}
    (h : Computes block l) {p : Progress σ} (hb : e.program.Has p.address block) :
    e.Comes p block.length (p.machine.stack.push (.literal l)) := by
  induction h generalizing p with
  | push l line => exact .operands _ [] hb.head rfl (by simp) fun m ↦ rfl
  | @binary left right x y r op line hl hr happly ihl ihr =>
    have hpos : 0 < left.length ∧ 0 < right.length := ⟨hl.length_pos, hr.length_pos⟩
    have hright : e.Comes p (left.length + right.length) _ :=
      (ihl hb.left.left).trans (ihr hb.left.right) (by simp; omega)
    have hop (m : Machine σ) : (e.apply ⟨.binary op, .none, line⟩ [.literal x, .literal y]).on m =
        (.ok (.literal r), m) := by
      simp [apply, happly]
    rw [List.length_append, List.length_append]
    refine hright.trans (.operands p.machine.stack [.literal x, .literal y] ?_ rfl ?_ hop)
      (by simp [Progress.after]; omega)
    · have := hb.right.head
      rwa [List.length_append] at this
    · rw [List.toArray_cons, ← Array.append_assoc]
      rfl
  | @invert operand x r line ho hinvert ih =>
    have hpos : 0 < operand.length := ho.length_pos
    have hop (m : Machine σ) : (e.apply ⟨.invert, .none, line⟩ [.literal x]).on m =
        (.ok (.literal r), m) := by
      simp [apply, hinvert]
    rw [List.length_append]
    exact (ih hb.left).trans (.operands p.machine.stack [.literal x] hb.right.head rfl
      (by simp [Progress.after]) hop) (by simp; omega)

/-! ### Going along -/

/-- Places of runs of two programs, at corresponding addresses. -/
structure Progress.Beside (known : Nat × Nat → Prop) (p p' : Progress σ) : Prop where
  address : known (p.address, p'.address)
  machine : p.machine.Beside known p'.machine

/-- Ends of two runs, with the same result and nothing different left behind. -/
def Outcome.Same (o o' : Outcome σ) : Prop :=
  o'.1 = o.1 ∧ o'.2.reset = o.2.reset

theorem Outcome.Same.isLimit_iff {o o' : Outcome σ} (h : o.Same o') : o'.IsLimit ↔ o.IsLimit := by
  rw [IsLimit, IsLimit, h.1]

/-- How runs of two programs go on. -/
inductive Moves (known : Nat × Nat → Prop) :
    Outcome σ ⊕ Progress σ → Outcome σ ⊕ Progress σ → Prop
  | ended {o o' : Outcome σ} (h : o.Same o') : Moves known (.inl o) (.inl o')
  | on {q q' : Progress σ} (h : q.Beside known q') : Moves known (.inr q) (.inr q')

namespace Moves

variable {next : Outcome σ ⊕ Progress σ} {o : Outcome σ} {q : Progress σ}

/-- Where the plain run ends, the folded one does. -/
theorem exists_ended (h : Moves known (.inl o) next) : ∃ o', next = .inl o' ∧ o.Same o' := by
  cases h with
  | ended h => exact ⟨_, rfl, h⟩

/-- Where the folded run ends, the plain one does. -/
theorem exists_ended_plain (h : Moves known next (.inl o)) : ∃ o', next = .inl o' ∧ o'.Same o := by
  cases h with
  | ended h => exact ⟨_, rfl, h⟩

/-- Where the plain run goes on, the folded one does. -/
theorem exists_on (h : Moves known (.inr q) next) : ∃ q', next = .inr q' ∧ q.Beside known q' := by
  cases h with
  | on h => exact ⟨_, rfl, h⟩

/-- Where the folded run goes on, the plain one does. -/
theorem exists_on_plain (h : Moves known next (.inr q)) : ∃ q', next = .inr q' ∧ q'.Beside known q := by
  cases h with
  | on h => exact ⟨_, rfl, h⟩

end Moves

variable {plain folded : Program} {bridge : Bridge σ} {l : Limits} {p p' : Progress σ}

/-- What stands at corresponding addresses: code that was computed ahead of the run, or instructions
that do the same. -/
theorem beside_cases (bridge : Bridge σ) (hp : plain.Beside folded known) {a b : Nat}
    (h : known (a, b)) :
    (∃ block r line, plain.Has a block ∧ folded.code[b]? = some (Code.push r line) ∧
      Computes block r ∧ known (a + block.length, b + 1)) ∨
    ∃ i i', plain.code[a]? = some i ∧ folded.code[b]? = some i' ∧ i.line = i'.line ∧
      ∀ l, Step.Together known (Engine.step (⟨plain, bridge, l⟩ : Engine σ) i a)
        (Engine.step ⟨folded, bridge, l⟩ i' b) (Flow.Beside known a b) := by
  obtain ⟨block, i, q', hstands, hblock, hi⟩ := hp.stands a b h
  cases hstands with
  | computed hc hn => exact .inl ⟨block, _, _, hblock, hi, hc, hn⟩
  | same hj hn => exact .inr ⟨i, i, hblock.head, hi, rfl, fun l ↦ step_together hp hj hn⟩
  | jump hop ht hn => exact .inr ⟨_, _, hblock.head, hi, rfl, fun l ↦ jump_together hop ht hn⟩

/-- Instructions that do the same lead the runs on together. -/
theorem advance_moves {i i' : Instruction} (hi : plain.code[p.address]? = some i)
    (hi' : folded.code[p'.address]? = some i') (hline : i.line = i'.line)
    (h : Step.Together known (Engine.step (⟨plain, bridge, l⟩ : Engine σ) i p.address)
      (Engine.step ⟨folded, bridge, l⟩ i' p'.address) (Flow.Beside known p.address p'.address))
    (hm : p.machine.Beside known p'.machine)
    (hs : ∀ n, l.steps = some n → p.done < n ∧ p'.done < n) :
    Moves known (Engine.advance ⟨plain, bridge, l⟩ p) (Engine.advance ⟨folded, bridge, l⟩ p') := by
  rw [Engine.advance_eq ⟨plain, bridge, l⟩ hi, Engine.advance_eq ⟨folded, bridge, l⟩ hi',
    on_attempt fun n hn ↦ (hs n hn).1, on_attempt fun n hn ↦ (hs n hn).2]
  have hresult := h _ _ hm
  generalize (Engine.step (⟨plain, bridge, l⟩ : Engine σ) i p.address).on p.machine = r,
    (Engine.step (⟨folded, bridge, l⟩ : Engine σ) i' p'.address).on p'.machine = r' at hresult
  cases hresult with
  | error hm₁ =>
    refine .ended ⟨?_, hm₁⟩
    simp only [failureAt, hline]
  | ok hflow hm₁ =>
    cases hflow with
    | next hn => exact .on ⟨hn, hm₁⟩
    | jump ht => exact .on ⟨ht, hm₁⟩
    | halt v => exact .ended ⟨rfl, hm₁.reset_eq⟩

/-- A push of the folded program leads the run on beside that of the plain program. -/
theorem Progress.Beside.after (h : p.Beside known p') {n k : Nat} {v : Value}
    (hk : known (p.address + n, p'.address + k)) :
    (p.after n (p.machine.stack.push v)).Beside known
      (p'.after k (p'.machine.stack.push v)) := by
  obtain ⟨callers, callers', hcallers, hframes, heq⟩ := h.machine
  refine ⟨hk, callers, callers', hcallers, hframes, ?_⟩
  simp only [Progress.after, heq]
  rfl

/-- The folded program pushes what was computed ahead of the run, if there is room. -/
theorem advance_push {r : Literal} {line : Nat}
    (hi : folded.code[p'.address]? = some (Code.push r line))
    (hroom : Engine.Room (⟨folded, bridge, l⟩ : Engine σ) (p'.machine.stack.size + 1) (p'.done + 1)) :
    Engine.advance (⟨folded, bridge, l⟩ : Engine σ) p' =
      .inr (p'.after 1 (p'.machine.stack.push (.literal r))) := by
  have hplain : (Code.push r line).IsPlain := trivial
  have hpush : (Engine.perform (⟨folded, bridge, l⟩ : Engine σ) (Code.push r line)).on p'.machine =
      (Engine.push (⟨folded, bridge, l⟩ : Engine σ) (.literal r)).on p'.machine := rfl
  rw [Engine.advance_eq ⟨folded, bridge, l⟩ hi, on_attempt fun n hn ↦ hroom.steps n hn,
    Engine.on_step_of_isPlain _ hplain, hpush, Engine.on_push, if_neg (Nat.not_lt.mpr hroom.stack)]
  rfl

/-- A run that reaches no limit has not carried out as many instructions as are allowed. -/
theorem done_lt_of_finish {e : Engine σ} {i : Instruction} {fuel n : Nat} {o : Outcome σ}
    (hi : e.program.code[p.address]? = some i) (ho : e.finish (fuel + 1) p = some o) (hl : ¬ o.IsLimit)
    (hn : e.limits.steps = some n) : p.done < n := by
  by_contra hle
  rw [finish, e.advance_eq hi, on_attempt_of_le hn (Nat.not_lt.mp hle)] at ho
  cases ho
  exact hl ⟨_, rfl, trivial⟩

/-- A run of the plain program that reaches no limit has the folded program end the same way under the
same limits. -/
theorem finish_folded (hp : plain.Beside folded known) {fuel : Nat} {o : Outcome σ}
    (h : p.Beside known p') (hd : p'.done ≤ p.done)
    (ho : Engine.finish (⟨plain, bridge, l⟩ : Engine σ) fuel p = some o) (hl : ¬ o.IsLimit) :
    ∃ o', Engine.finish (⟨folded, bridge, l⟩ : Engine σ) fuel p' = some o' ∧ o.Same o' := by
  -- A literal takes one instruction of the folded program, and may take many of the plain one.
  induction fuel using Nat.strong_induction_on generalizing p p' with
  | _ fuel ih =>
    rcases beside_cases bridge hp h.address with
      ⟨block, r, line, hblock, hi', hcomputes, hn⟩ | ⟨i, i', hi, hi', hline, htogether⟩
    · have hpos := hcomputes.length_pos
      rcases comes_computed (e := ⟨plain, bridge, l⟩) hcomputes hblock with
        ⟨o₁, ho₁, hlimit, _⟩ | ⟨hgo, hroom⟩
      · rw [finish_of_advances_inl ho₁ ho] at hl
        exact absurd hlimit hl
      · obtain ⟨fuel', rfl, ho'⟩ := exists_finish hgo ho
        have hroom' : Engine.Room (⟨folded, bridge, l⟩ : Engine σ) (p'.machine.stack.size + 1)
            (p'.done + 1) := by
          refine ⟨by simpa [h.machine.stack_eq] using hroom.stack, fun n hn ↦ ?_⟩
          have hdone := hroom.steps n hn
          omega
        obtain ⟨o', ho'', hsame⟩ := ih fuel' (by omega) (h.after hn)
          (by simp only [Progress.after]; omega) ho'
        have hadvance := advances_one p' ▸ advance_push hi' hroom'
        refine ⟨o', Engine.finish_of_le _ ?_ ((finish_add hadvance fuel').trans ho''), hsame⟩
        omega
    · cases fuel with
      | zero => cases ho
      | succ fuel =>
        have hlt (n : Nat) (hn : l.steps = some n) : p.done < n ∧ p'.done < n := by
          have := done_lt_of_finish (e := ⟨plain, bridge, l⟩) hi ho hl hn
          omega
        have hmoves := advance_moves hi hi' hline (htogether l) h.machine hlt
        rw [finish] at ho ⊢
        rcases hq : Engine.advance (⟨plain, bridge, l⟩ : Engine σ) p with o₁ | q <;>
          rw [hq] at hmoves ho
        · obtain rfl := Option.some.inj ho
          obtain ⟨o', ho', hsame⟩ := hmoves.exists_ended
          exact ⟨o', by rw [ho'], hsame⟩
        · obtain ⟨q', hq', hbeside⟩ := hmoves.exists_on
          have hdone := Engine.advance_done ⟨plain, bridge, l⟩ hq
          have hdone' := Engine.advance_done ⟨folded, bridge, l⟩ hq'
          rw [hq']
          exact ih fuel (Nat.lt_succ_self _) hbeside (by omega) ho

/-! ### Larger limits -/

variable {l' : Limits} {fuel : Nat} {o : Outcome σ}

/-- A run that reaches no limit does the same at first without a limit on the number of instructions. -/
theorem advance_unlimited (ho : Engine.finish (⟨folded, bridge, l⟩ : Engine σ) (fuel + 1) p = some o)
    (hl : ¬ o.IsLimit) : Engine.advance (⟨folded, bridge, { l with steps := none }⟩ : Engine σ) p =
      Engine.advance ⟨folded, bridge, l⟩ p := by
  have hle : l ≤ { l with steps := none } := ⟨Nat.le_refl _, Nat.le_refl _, nofun⟩
  rcases Engine.advance_within (⟨folded, bridge, l⟩ : Engine σ) hle p with ⟨o₁, hx, hlimit⟩ | hx
  · change Engine.advance (⟨folded, bridge, l⟩ : Engine σ) p = _ at hx
    rw [finish, hx] at ho
    cases ho
    exact absurd hlimit hl
  · exact hx.symm

/-- What ends behind an instruction under some limits, and behind code that was computed ahead of the run,
ends before it under larger ones. -/
theorem exists_finish_advance {q : Progress σ} (hq : Engine.advance (⟨plain, bridge, l'⟩ : Engine σ) p = .inr q)
    (ho : Engine.finish (⟨plain, bridge, l⟩ : Engine σ) fuel q = some o) (hl : ¬ o.IsLimit) :
    ∃ l₁, l₁.steps = none ∧ Engine.finish (⟨plain, bridge, l₁⟩ : Engine σ) (fuel + 1) p = some o := by
  refine ⟨l.joined l', rfl, ?_⟩
  have hgo : Engine.advance (⟨plain, bridge, l.joined l'⟩ : Engine σ) p = .inr q := by
    rcases Engine.advance_within (⟨plain, bridge, l'⟩ : Engine σ) (l.le_joined_right l') p with
      ⟨o₁, hx, _⟩ | hx
    · cases hq.symm.trans hx
    · exact hx.symm.trans hq
  rw [finish, hgo]
  exact Engine.finish_within_of_le (⟨plain, bridge, l⟩ : Engine σ) (l.le_joined_left l') ho hl

theorem exists_finish_computed {block : List Instruction} {r : Literal} (hcomputes : Computes block r)
    (hblock : plain.Has p.address block)
    (ho : Engine.finish (⟨plain, bridge, l⟩ : Engine σ) fuel
      (p.after block.length (p.machine.stack.push (.literal r))) = some o) (hl : ¬ o.IsLimit) :
    ∃ l₁ fuel₁, l₁.steps = none ∧ Engine.finish (⟨plain, bridge, l₁⟩ : Engine σ) fuel₁ p = some o := by
  let enough : Limits := ⟨p.machine.stack.size + block.length, 0, none⟩
  have ho₁ := Engine.finish_within_of_le (⟨plain, bridge, l⟩ : Engine σ) (l.le_joined_left enough) ho hl
  rcases comes_computed (e := ⟨plain, bridge, l.joined enough⟩) hcomputes hblock with
    ⟨o₁, _, _, hroom⟩ | ⟨hgo, _⟩
  · have hstack : (l.joined enough).stack < enough.stack := hroom rfl
    exact absurd hstack (Nat.not_lt.mpr (Nat.le_max_right _ _))
  · exact ⟨l.joined enough, _, rfl, (finish_add hgo fuel).trans ho₁⟩

/-- A run of the folded program that reaches no limit has the plain program end the same way, if the
limits are large enough. -/
theorem finish_plain (hp : plain.Beside folded known) {fuel : Nat} {o' : Outcome σ}
    (h : p.Beside known p')
    (ho : Engine.finish (⟨folded, bridge, l⟩ : Engine σ) fuel p' = some o') (hl : ¬ o'.IsLimit) :
    ∃ l' fuel' o, l'.steps = none ∧
      Engine.finish (⟨plain, bridge, l'⟩ : Engine σ) fuel' p = some o ∧ o.Same o' := by
  induction fuel generalizing p p' with
  | zero => cases ho
  | succ fuel ih =>
    -- The limits are enough for this instruction, and without a limit on the instructions.
    let l₁ : Limits := { l with steps := none }
    have hadvance : Engine.advance (⟨folded, bridge, l₁⟩ : Engine σ) p' =
        Engine.advance ⟨folded, bridge, l⟩ p' := advance_unlimited ho hl
    rw [finish, ← hadvance] at ho
    rcases beside_cases bridge hp h.address with
      ⟨block, r, line, hblock, hi', hcomputes, hn⟩ | ⟨i, i', hi, hi', hline, htogether⟩
    · have hv (m : Machine σ) : (Engine.apply (⟨folded, bridge, l₁⟩ : Engine σ) (Code.push r line)
          []).on m = (.ok (.literal r), m) := rfl
      rcases advance_operands (S := p'.machine.stack) hi' rfl (by simp) hv with
        ⟨o₁, hx, hlimit, _⟩ | ⟨hx, _⟩ <;> rw [hx] at ho
      · cases ho
        exact absurd hlimit hl
      · obtain ⟨l₂, fuel₂, o, -, ho₂, hsame⟩ := ih (h.after hn) ho
        obtain ⟨l₃, fuel₃, hnone, ho₃⟩ :=
          exists_finish_computed hcomputes hblock ho₂ (hsame.isLimit_iff.not.mp hl)
        exact ⟨l₃, fuel₃, o, hnone, ho₃, hsame⟩
    · have hmoves := advance_moves hi hi' hline (htogether l₁) h.machine (by rintro _ ⟨⟩)
      rcases hq' : Engine.advance (⟨folded, bridge, l₁⟩ : Engine σ) p' with o₁ | q' <;>
        rw [hq'] at hmoves ho
      · obtain rfl := Option.some.inj ho
        obtain ⟨o, hq, hsame⟩ := hmoves.exists_ended_plain
        exact ⟨l₁, 1, o, rfl, by rw [finish, hq], hsame⟩
      · obtain ⟨q, hq, hbeside⟩ := hmoves.exists_on_plain
        obtain ⟨l₂, fuel₂, o, -, ho₂, hsame⟩ := ih hbeside ho
        obtain ⟨l₃, hnone, ho₃⟩ := exists_finish_advance hq ho₂ (hsame.isLimit_iff.not.mp hl)
        exact ⟨l₃, fuel₂ + 1, o, hnone, ho₃, hsame⟩

end Engine

end StackScript
