import Mathlib.Order.Defs.Unbundled
import StackScript.Proofs.Machine.Work

/-!
# Effects of work

What work does to a state is told by a relation between the state before it and the state after it.
`Respects R` says that the work keeps to such a relation in any case, `RespectsOnFailure R` that it does
at least if it fails. As long as the relation is reflexive and transitive, both are kept by sequencing:
work may do as it pleases once nothing behind it can fail.

This goes for work on the heap, on the world, on a host and on the machine alike.
-/

namespace StackScript

variable {ε τ α β : Type}

/-- Something that can be told from a state is the same after as before. -/
def Unchanged (f : τ → β) (s s' : τ) : Prop := f s' = f s

instance (f : τ → β) : IsPreorder τ (Unchanged f) where
  refl _ := rfl
  trans _ _ _ h h' := Eq.trans h' h

/-- Work that leads to related states. -/
def Respects (R : τ → τ → Prop) (x : ExceptT ε (StateM τ) α) : Prop :=
  ∀ s, R s (x.run.run s).2

/-- Work that leads to related states where it fails. -/
def RespectsOnFailure (R : τ → τ → Prop) (x : ExceptT ε (StateM τ) α) : Prop :=
  ∀ s fault s', x.run.run s = (.error fault, s') → R s s'

variable {R : τ → τ → Prop}

theorem run_run_bind (x : ExceptT ε (StateM τ) α) (f : α → ExceptT ε (StateM τ) β) (s : τ) :
    (x >>= f).run.run s = match x.run.run s with
      | (.ok a, s') => (f a).run.run s'
      | (.error fault, s') => (.error fault, s') := by
  rw [ExceptT.run_bind, StateT.run_bind]
  rcases StateT.run (ExceptT.run x) s with ⟨a | a, s'⟩ <;> rfl

namespace Respects

theorem onFailure {x : ExceptT ε (StateM τ) α} (h : Respects R x) : RespectsOnFailure R x := by
  intro s fault s' hx
  have := h s
  rwa [hx] at this

theorem modifyGet {f : τ → α × τ} (h : ∀ s, R s (f s).2) :
    Respects R (modifyGet f : ExceptT ε (StateM τ) α) :=
  h

theorem modify {f : τ → τ} (h : ∀ s, R s (f s)) :
    Respects R (modify f : ExceptT ε (StateM τ) PUnit) :=
  h

/-- Work that begins by looking at the state. -/
theorem get_bind {f : τ → ExceptT ε (StateM τ) α} (h : ∀ s, R s ((f s).run.run s).2) :
    Respects R (get >>= f) :=
  h

variable [IsPreorder τ R]

theorem pure (a : α) : Respects R (pure a : ExceptT ε (StateM τ) α) :=
  fun s ↦ refl_of R s

theorem throw (fault : ε) : Respects R (throw fault : ExceptT ε (StateM τ) α) :=
  fun s ↦ refl_of R s

theorem get : Respects R (get : ExceptT ε (StateM τ) τ) :=
  fun s ↦ refl_of R s

theorem lift (x : Except ε α) : Respects R (liftM x : ExceptT ε (StateM τ) α) := by
  cases x with
  | ok a => exact .pure a
  | error fault => exact .throw fault

theorem bind {x : ExceptT ε (StateM τ) α} {f : α → ExceptT ε (StateM τ) β} (hx : Respects R x)
    (hf : ∀ a, Respects R (f a)) : Respects R (x >>= f) := by
  intro s
  have h := hx s
  rw [run_run_bind]
  rcases hr : x.run.run s with ⟨fault | a, s'⟩ <;> rw [hr] at h
  · exact h
  · exact trans_of R h (hf a s')

/-- Work that begins with a result that was computed without the state. -/
theorem lift_bind {x : Except ε α} {f : α → ExceptT ε (StateM τ) β} {s : τ}
    (h : ∀ a, x = .ok a → R s ((f a).run.run s).2) : R s ((liftM x >>= f).run.run s).2 := by
  cases x with
  | ok a => exact h a rfl
  | error fault => exact refl_of R s

end Respects

namespace RespectsOnFailure

/-- Work that cannot fail. -/
theorem of_succeeds {x : ExceptT ε (StateM τ) α} (h : ∀ s, ∃ a s', x.run.run s = (.ok a, s')) :
    RespectsOnFailure R x := by
  intro s fault s' hx
  obtain ⟨a, s'', hs⟩ := h s
  cases hs.symm.trans hx

variable [IsPreorder τ R]

/-- Work that may end in something that is only safe to fail. -/
theorem bind {x : ExceptT ε (StateM τ) α} {f : α → ExceptT ε (StateM τ) β} (hx : Respects R x)
    (hf : ∀ a, RespectsOnFailure R (f a)) : RespectsOnFailure R (x >>= f) := by
  intro s fault s' h
  have hs := hx s
  rw [run_run_bind] at h
  rcases hr : x.run.run s with ⟨fault' | a, s₁⟩ <;> rw [hr] at h hs
  · cases h
    exact hs
  · exact trans_of R hs (hf a s₁ fault s' h)

/-- Work that begins with a check. -/
theorem guard {p : Prop} [Decidable p] {fault : ε} {x : ExceptT ε (StateM τ) α}
    (hx : RespectsOnFailure R x) :
    RespectsOnFailure R (do
      unless p do MonadExcept.throw fault
      x) := by
  dsimp only
  split
  · exact hx
  · exact .bind (.throw _) fun _ ↦ hx

end RespectsOnFailure

end StackScript
