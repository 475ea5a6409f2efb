import Mathlib
import StackScript.Proofs.Folding.Run
import StackScript.Proofs.Reading.Script

/-!
# Folding is transparent

A script that compiles with constant subexpressions computed ahead of the run compiles without that,
too, and no call tells the two programs apart: with no limit reached both end the same way or not at
all, and what the plain program gives back under some limits the folded one gives back under the same
limits (`compile_transparent`).

The converse of the last fails on purpose. The folded program needs fewer instructions and less room on
the stack, so it may give back a value where the plain one reaches a limit.
-/

namespace StackScript

variable {σ : Type} {known : Nat × Nat → Prop} {plain folded : Program} {bridge : Bridge σ}
  {l : Limits} {m : Machine σ} {name : String} {args : List Value} {o : Engine.Outcome σ}

namespace Engine

/-- A call begins at corresponding places in the two programs, or fails in the same way. -/
theorem start_beside (hp : plain.Beside folded known) (bridge : Bridge σ) (m : Machine σ)
    (name : String) (args : List Value) :
    (∃ r, ∀ l, Engine.start ⟨plain, bridge, l⟩ m name args = .error r ∧
      Engine.start ⟨folded, bridge, l⟩ m name args = .error r) ∨
    ∃ p p', p.Beside known p' ∧ p.done = 0 ∧ p'.done = 0 ∧
      ∀ l, Engine.start ⟨plain, bridge, l⟩ m name args = .ok p ∧
        Engine.start ⟨folded, bridge, l⟩ m name args = .ok p' := by
  unfold start
  rcases function?_beside hp name with ⟨hf, hf'⟩ | ⟨f, f', hf, hf', hbeside⟩
  · refine .inl ⟨.ofFault (.undefinedFunction name) none, fun l ↦ ?_⟩
    constructor <;> simp only [hf, hf']
  · simp only [hf, hf', ← hbeside.arity]
    split
    · exact .inl ⟨_, fun _ ↦ ⟨rfl, rfl⟩⟩
    · exact .inr ⟨_, _, ⟨hbeside.address, [], [], .nil, rfl, rfl⟩, rfl, rfl, fun _ ↦ ⟨rfl, rfl⟩⟩

/-- A call of the plain program that reaches no limit is one of the folded program. -/
theorem call_folded (hp : plain.Beside folded known) {fuel : Nat}
    (ho : Engine.call ⟨plain, bridge, l⟩ fuel m name args = some o) (hl : ¬ o.IsLimit) :
    Engine.call ⟨folded, bridge, l⟩ fuel m name args = some o := by
  rcases start_beside hp bridge m name args with ⟨r, hstart⟩ | ⟨p, p', hbeside, hdone, hdone', hstart⟩
  · rw [call_eq_of_error _ (hstart l).1] at ho
    rw [call_eq_of_error _ (hstart l).2, ho]
  · rw [call_eq _ (hstart l).1] at ho
    obtain ⟨o₁, ho₁, rfl⟩ := Option.map_eq_some_iff.mp ho
    obtain ⟨o₁', ho₁', hresult, hreset⟩ := finish_folded hp hbeside (by omega) ho₁ hl
    rw [call_eq _ (hstart l).2, ho₁']
    exact congrArg some (Prod.ext hresult hreset)

/-- A call of the folded program that reaches no limit is one of the plain program, under limits that are
large enough. -/
theorem exists_call_plain (hp : plain.Beside folded known) {fuel : Nat}
    (ho : Engine.call ⟨folded, bridge, l⟩ fuel m name args = some o) (hl : ¬ o.IsLimit) :
    ∃ l' fuel', Engine.call ⟨plain, bridge, l'⟩ fuel' m name args = some o := by
  rcases start_beside hp bridge m name args with ⟨r, hstart⟩ | ⟨p, p', hbeside, hdone, hdone', hstart⟩
  · rw [call_eq_of_error _ (hstart l).2] at ho
    exact ⟨l, fuel, by rw [call_eq_of_error _ (hstart l).1, ho]⟩
  · rw [call_eq _ (hstart l).2] at ho
    obtain ⟨o₁', ho₁', rfl⟩ := Option.map_eq_some_iff.mp ho
    obtain ⟨l', fuel', o₁, _, ho₁, hresult, hreset⟩ := finish_plain hp hbeside ho₁' hl
    refine ⟨l', fuel', ?_⟩
    rw [call_eq _ (hstart l').1, ho₁]
    exact congrArg some (Prod.ext hresult.symm hreset.symm)

/-- With no limit reached, a call ends the same way in both programs. -/
theorem endsAs_iff (hp : plain.Beside folded known) :
    EndsAs ⟨folded, bridge, l⟩ m name args o ↔ EndsAs ⟨plain, bridge, l⟩ m name args o := by
  constructor
  · intro h
    obtain ⟨l₁, fuel, ho⟩ := h.exists_call
    obtain ⟨l', fuel', ho'⟩ := exists_call_plain hp ho h.free
    exact .of_call (e := ⟨plain, bridge, l⟩) ho' h.free
  · intro h
    obtain ⟨l₁, fuel, ho⟩ := h.exists_call
    exact .of_call (e := ⟨folded, bridge, l⟩) (call_folded hp ho h.free) h.free

end Engine

/-- Computing constant subexpressions ahead of the run is transparent. -/
theorem compile_transparent {source : String} {c : Compiled} (h : compile source = .ok c) :
    ∃ c', compileWith false source = .ok c' ∧
      ∀ {σ : Type} (bridge : Bridge σ) (m : Machine σ) (name : String) (args : List Value) (l : Limits),
        (∀ o, Engine.EndsAs ⟨c.program, bridge, l⟩ m name args o ↔
          Engine.EndsAs ⟨c'.program, bridge, l⟩ m name args o) ∧
        ∀ fuel v m', Engine.call ⟨c'.program, bridge, l⟩ fuel m name args = some (.ok v, m') →
          Engine.call ⟨c.program, bridge, l⟩ fuel m name args = some (.ok v, m') := by
  obtain ⟨hfailed, hprogram⟩ := program_of_compile h
  obtain ⟨hscript, hdiagnostics⟩ := readWith_false hfailed
  obtain ⟨known, hp⟩ := (readWith true source).script.exists_beside
  have hplain : compileWith false source = .ok ⟨(readWith true source).script.program false,
      (readWith true source).diagnostics⟩ := by
    rw [compileWith, Reading.Result.compile_eq, hdiagnostics, hfailed, hscript]
    rfl
  refine ⟨_, hplain, fun bridge m name args l ↦ ?_⟩
  rw [hprogram]
  refine ⟨fun o ↦ Engine.endsAs_iff hp, fun fuel v m' hcall ↦ Engine.call_folded hp hcall ?_⟩
  rintro ⟨r, hr, _⟩
  cases hr

/-- A script whose constants are computed under a sign, a comparison and a connective. -/
theorem compile_transparent_constants :
    ∃ c c', compile "func f(n) \x7b return n && -(1 + 2) * 4 <= 3; \x7d" = .ok c ∧
      compileWith false "func f(n) \x7b return n && -(1 + 2) * 4 <= 3; \x7d" = .ok c' ∧
      ∀ (m : Machine Unit) (o : Engine.Outcome Unit),
        Engine.EndsAs ⟨c.program, .none, .standard⟩ m "f" [.bool true] o ↔
          Engine.EndsAs ⟨c'.program, .none, .standard⟩ m "f" [.bool true] o := by
  have h : ∃ c, compile "func f(n) \x7b return n && -(1 + 2) * 4 <= 3; \x7d" = .ok c :=
    ⟨_, by cbv⟩
  obtain ⟨c, hc⟩ := h
  obtain ⟨c', hc', hcalls⟩ := compile_transparent hc
  exact ⟨c, c', hc, hc', fun m o ↦ (hcalls .none m "f" [.bool true] .standard).1 o⟩

end StackScript
