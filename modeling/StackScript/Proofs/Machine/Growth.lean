import StackScript.Proofs.Machine.Pieces
import StackScript.Proofs.Machine.Progress

/-!
# How a machine grows

An instruction that succeeds leaves no more values on the stack than the limits allow, and no more
suspended callers, unless there were more of them before (`Engine.fits_step`). So does a run
(`Engine.fits_of_advances`).

Not all instructions look at the limits. Those that do not do not add anything.
-/

namespace StackScript

variable {σ α β : Type}

/-! ### What success keeps -/

namespace Step

/-- Work that keeps a property of the machine, if it succeeds. -/
def Preserves (P : Machine σ → Prop) (x : Step σ α) : Prop :=
  ∀ m, P m → ∀ a m', x.on m = (.ok a, m') → P m'

namespace Preserves

variable {P : Machine σ → Prop}

theorem pure (a : α) : Preserves P (pure a : Step σ α) := by
  rintro m hm a' m' h
  cases h
  exact hm

theorem throw (fault : Fault) : Preserves P (throw fault : Step σ α) :=
  fun _ _ _ _ h ↦ nomatch h

theorem bind {x : Step σ α} {f : α → Step σ β} (hx : Preserves P x) (hf : ∀ a, Preserves P (f a)) :
    Preserves P (x >>= f) := by
  intro m hm b m' h
  rw [on_bind] at h
  rcases hr : x.on m with ⟨fault | a, m₁⟩ <;> rw [hr] at h
  · cases h
  · exact hf a m₁ (hx m hm a m₁ hr) b m' h

/-- Work that begins by looking at the machine. -/
theorem get_bind {f : Machine σ → Step σ α}
    (h : ∀ m, P m → ∀ a m', (f m).on m = (.ok a, m') → P m') : Preserves P (get >>= f) :=
  h

end Preserves

/-- Work that begins with a check and succeeds has passed it. -/
theorem ok_of_guard {p : Prop} [Decidable p] {fault : Fault} {x : Step σ α} {m m' : Machine σ} {a : α}
    (h : (do
      if p then MonadExcept.throw fault
      x : Step σ α).on m = (.ok a, m')) : ¬ p ∧ x.on m = (.ok a, m') := by
  by_cases hp : p <;> simp only [hp, ↓reduceIte] at h
  · cases h
  · exact ⟨hp, h⟩

end Step

/-! ### Growth -/

/-- A machine with no more values on its stack and no more suspended callers than that. -/
structure Machine.Fits (size depth : Nat) (m : Machine σ) : Prop where
  stack : m.stack.size ≤ size
  frames : m.frames.size ≤ depth

namespace Step

open Machine

variable {size depth : Nat}

theorem fits_pop : Preserves (Fits size depth) (pop : Step σ Value) := by
  refine .get_bind fun m hm a m' h ↦ ?_
  split at h <;> cases h
  exact ⟨by simpa using Nat.le_succ_of_le hm.stack, hm.frames⟩

theorem fits_closeWindow : Preserves (Fits size depth) (closeWindow : Step σ Nat) := by
  refine .get_bind fun m hm a m' h ↦ ?_
  split at h
  · cases h
  · obtain ⟨-, h⟩ := ok_of_guard h
    cases h
    exact ⟨hm.stack, hm.frames⟩

theorem fits_takeWindow : Preserves (Fits size depth) (takeWindow : Step σ (Array Value)) := by
  refine .bind fits_closeWindow fun start ↦ .get_bind fun m hm a m' h ↦ ?_
  cases h
  have := hm.stack
  exact ⟨by simp only [Array.size_shrink]; omega, hm.frames⟩

end Step

namespace Engine

open Step Machine

variable {e : Engine σ} {size depth : Nat}

/-- What is pushed is counted. -/
theorem fits_push (hs : e.limits.stack ≤ size) (v : Value) : Preserves (Fits size depth) (e.push v) := by
  intro m hm a m' h
  rw [on_push] at h
  by_cases hl : e.limits.stack < m.stack.size + 1 <;> simp only [hl, ↓reduceIte] at h <;> cases h
  exact ⟨by rw [Array.size_push]; omega, hm.frames⟩

theorem fits_duplicate (hs : e.limits.stack ≤ size) (count : Nat) :
    Preserves (Fits size depth) (e.duplicate count) := by
  refine .get_bind fun m hm a m' h ↦ ?_
  obtain ⟨-, h⟩ := ok_of_guard h
  rw [on_bind, on_set] at h
  simp only [checkStack, on_bind, on_get, on_ite, on_throw, on_pure] at h
  split at h <;> cases h
  exact ⟨by simp only at *; omega, hm.frames⟩

theorem fits_enter (hd : e.limits.depth ≤ depth) (name : String) (returnAddress : Nat) :
    Preserves (Fits size depth) (e.enter name returnAddress) := by
  unfold enter
  split
  · exact .throw _
  · refine .bind fits_closeWindow fun start ↦ .get_bind fun m hm a m' h ↦ ?_
    obtain ⟨-, h⟩ := ok_of_guard h
    obtain ⟨hfree, h⟩ := ok_of_guard h
    cases h
    exact ⟨hm.stack, by simp only [Array.size_push]; omega⟩

theorem fits_leave (hs : e.limits.stack ≤ size) : Preserves (Fits size depth) e.leave := by
  refine .bind fits_pop fun result ↦ .get_bind fun m hm a m' h ↦ ?_
  split at h
  · cases h
    exact hm
  · rename_i frame hframe
    refine Preserves.bind (fits_push hs result) (fun _ ↦ .pure _) _ ?_ a m' h
    have := hm.stack
    have := hm.frames
    exact ⟨by simp only [Array.size_shrink]; omega, by simp only [Array.size_pop]; omega⟩

theorem StackPiece.fits (hs : e.limits.stack ≤ size) (hd : e.limits.depth ≤ depth) {x : Step σ α}
    (h : e.StackPiece x) : Preserves (Fits size depth) x := by
  cases h with
  | throw _ => exact .throw _
  | pop => exact fits_pop
  | peek | getLocal =>
    refine .get_bind fun m hm a m' h ↦ ?_
    split at h <;> cases h
    exact hm
  | discard count =>
    refine .get_bind fun m hm a m' h ↦ ?_
    obtain ⟨-, h⟩ := ok_of_guard h
    cases h
    have := hm.stack
    exact ⟨by simp only [Array.size_shrink]; omega, hm.frames⟩
  | setLocal slot value =>
    refine .get_bind fun m hm a m' h ↦ ?_
    obtain ⟨-, h⟩ := ok_of_guard h
    cases h
    exact ⟨by simpa using hm.stack, hm.frames⟩
  | openWindow =>
    intro m hm a m' h
    cases h
    exact ⟨hm.stack, hm.frames⟩
  | takeWindow => exact fits_takeWindow
  | push value => exact fits_push hs value
  | duplicate count => exact fits_duplicate hs count
  | enter name returnAddress => exact fits_enter hd name returnAddress
  | leave => exact fits_leave hs

theorem MemoryPiece.fits {x : Step σ α} (h : e.MemoryPiece x) : Preserves (Fits size depth) x := by
  intro m hm a m' hx
  rw [h.aside.on_eq] at hx
  obtain ⟨-, rfl⟩ := Prod.mk.inj hx
  exact ⟨hm.stack, hm.frames⟩

theorem Made.fits (hs : e.limits.stack ≤ size) (hd : e.limits.depth ≤ depth) {x : Step σ α}
    (h : e.Made x) : Preserves (Fits size depth) x := by
  induction h with
  | pure a => exact .pure a
  | bind _ _ hx hf => exact hx.bind hf
  | stack h => exact h.fits hs hd
  | memory h => exact h.fits

/-- An instruction that succeeds does not make the machine outgrow the limits. -/
theorem fits_step (hs : e.limits.stack ≤ size) (hd : e.limits.depth ≤ depth) (i : Instruction)
    (address : Nat) : Preserves (Fits size depth) (e.step i address) :=
  (e.made_step i address).fits hs hd

/-! ### Runs -/

variable {P : Machine σ → Prop} {p q : Progress σ} {k : Nat}

/-- What all instructions keep when they succeed, a run keeps as long as it goes on. -/
theorem preserves_advances (hstep : ∀ i address, Preserves P (e.step i address)) (hp : P p.machine)
    (h : e.advances k p = .inr q) : P q.machine := by
  induction k generalizing p with
  | zero =>
    cases h
    exact hp
  | succ k ih =>
    rw [advances] at h
    rcases hadvance : e.advance p with o | p' <;> rw [hadvance] at h
    · cases h
    · refine ih ?_ h
      rcases hi : e.program.code[p.address]? with _ | i
      · rw [e.advance_outside hi] at hadvance
        cases hadvance
      · obtain ⟨flow, hflow, -⟩ := e.step_of_advance hi hadvance
        exact hstep i p.address _ hp _ _ hflow

/-- Every instruction of a run is counted. -/
theorem advances_done (h : e.advances k p = .inr q) : q.done = p.done + k := by
  induction k generalizing p with
  | zero =>
    cases h
    rfl
  | succ k ih =>
    rw [advances] at h
    rcases hp : e.advance p with o | p' <;> rw [hp] at h
    · cases h
    · have hdone := e.advance_done hp
      have := ih h
      omega

/-- A run that ends has gone on before, and then ended with one more instruction. -/
theorem exists_advances_of_finish {fuel : Nat} {o : Outcome σ} (h : e.finish fuel p = some o) :
    ∃ n q, e.advances n p = .inr q ∧ e.advance q = .inl o := by
  induction fuel generalizing p with
  | zero => cases h
  | succ fuel ih =>
    rw [finish] at h
    rcases hp : e.advance p with o' | p' <;> rw [hp] at h
    · obtain rfl := Option.some.inj h
      exact ⟨0, p, rfl, hp⟩
    · obtain ⟨n, q, hn, hq⟩ := ih h
      exact ⟨n + 1, q, by rw [advances, hp]; exact hn, hq⟩

/-- A run that goes on after some instructions has gone on after each of them. -/
theorem exists_advances_of_le {n : Nat} (h : e.advances n p = .inr q) (hk : k ≤ n) :
    ∃ q', e.advances k p = .inr q' := by
  obtain ⟨j, rfl⟩ := Nat.exists_eq_add_of_le hk
  rcases hp : e.advances k p with o | q'
  · rw [advances_add_of_inl hp] at h
    cases h
  · exact ⟨q', rfl⟩

/-- A run that ends with a value ends with an instruction that succeeds and is not one too many. -/
theorem step_of_advance_ok {value : Value} {m : Machine σ} (h : e.advance p = .inl (.ok value, m)) :
    ∃ i, e.program.code[p.address]? = some i ∧
      (e.step i p.address).on p.machine = (.ok (.halt value), m) ∧
        ∀ n, e.limits.steps = some n → p.done < n := by
  rcases hi : e.program.code[p.address]? with _ | i
  · rw [e.advance_outside hi] at h
    cases h
  · rw [e.advance_eq hi] at h
    by_cases hl : ∃ n, e.limits.steps = some n ∧ n ≤ p.done
    · obtain ⟨n, hs, hn⟩ := hl
      rw [on_attempt_of_le hs hn] at h
      cases h
    · have hlt : ∀ n, e.limits.steps = some n → p.done < n := fun n hs ↦
        Nat.lt_of_not_le fun hn ↦ hl ⟨n, hs, hn⟩
      rw [on_attempt hlt] at h
      split at h <;> rename_i hx <;> cases h
      exact ⟨i, rfl, hx, hlt⟩

/-- It still holds when the run has come to its end. -/
theorem preserves_advance_ok (hstep : ∀ i address, Preserves P (e.step i address)) (hp : P p.machine)
    {value : Value} {m : Machine σ} (h : e.advance p = .inl (.ok value, m)) : P m := by
  obtain ⟨i, -, hx, -⟩ := e.step_of_advance_ok h
  exact hstep i p.address _ hp _ _ hx

end Engine

end StackScript
