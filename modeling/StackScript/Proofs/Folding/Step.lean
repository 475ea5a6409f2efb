import StackScript.Proofs.Folding.Program
import StackScript.Proofs.Machine.Flow
import StackScript.Proofs.Machine.Limits
import StackScript.Proofs.Machine.Unframed

/-!
# Instructions of the two programs

While the plain and the folded program of a script run, their machines differ in nothing but the return
addresses of the suspended callers, which correspond to each other (`Machine.Beside`). An instruction
that both programs have leads from such machines to such machines (`Engine.step_together`). An
instruction that was computed ahead of the run leads where the row of instructions leads that it stands
for (`Engine.advances_computed`).
-/

namespace StackScript

variable {σ α β : Type} {known : Nat × Nat → Prop}

/-! ### Machines beside each other -/

/-- A suspended caller in runs of two programs. -/
structure Frame.Beside (known : Nat × Nat → Prop) (f f' : Frame) : Prop where
  base : f.base = f'.base
  address : known (f.returnAddress, f'.returnAddress)

/-- Machines in runs of two programs, which differ in the return addresses only. -/
def Machine.Beside (known : Nat × Nat → Prop) (m m' : Machine σ) : Prop :=
  ∃ callers callers' : List Frame, List.Forall₂ (Frame.Beside known) callers callers' ∧
    m.frames = callers.reverse.toArray ∧ m' = m.withFrames callers'.reverse.toArray

theorem Machine.Beside.reset_eq {m m' : Machine σ} (h : m.Beside known m') : m'.reset = m.reset := by
  obtain ⟨callers, callers', _, _, rfl⟩ := h
  rfl

theorem Machine.Beside.stack_eq {m m' : Machine σ} (h : m.Beside known m') : m'.stack = m.stack := by
  obtain ⟨callers, callers', _, _, rfl⟩ := h
  rfl

/-- How a run goes on in the two programs. -/
inductive Flow.Beside (known : Nat × Nat → Prop) (a b : Nat) : Flow → Flow → Prop
  | next (h : known (a + 1, b + 1)) : Beside known a b .next .next
  | jump {t t' : Nat} (h : known (t, t')) : Beside known a b (.jump t) (.jump t')
  | halt (v : Value) : Beside known a b (.halt v) (.halt v)

/-- What work comes to in the two programs: the same fault, or machines beside each other. -/
inductive Results.Beside (known : Nat × Nat → Prop) (post : α → α → Prop) :
    Except Fault α × Machine σ → Except Fault α × Machine σ → Prop
  | ok {a a' : α} {m m' : Machine σ} (h : post a a') (hm : m.Beside known m') :
    Beside known post (.ok a, m) (.ok a', m')
  | error {fault : Fault} {m m' : Machine σ} (hm : m'.reset = m.reset) :
    Beside known post (.error fault, m) (.error fault, m')

namespace Step

/-- Work that keeps the machines of the two programs beside each other. -/
def Together (known : Nat × Nat → Prop) (x x' : Step σ α) (post : α → α → Prop) : Prop :=
  ∀ m m', m.Beside known m' → Results.Beside known post (x.on m) (x'.on m')

namespace Together

variable {x x' : Step σ α} {post : α → α → Prop}

theorem pure {a a' : α} (h : post a a') : Together known (pure a : Step σ α) (pure a') post :=
  fun _ _ hm ↦ .ok h hm

theorem throw (fault : Fault) : Together known (throw fault : Step σ α) (throw fault) post :=
  fun _ _ hm ↦ .error hm.reset_eq

theorem bind {f f' : α → Step σ β} {post' : β → β → Prop} (h : Together known x x' post)
    (hf : ∀ a a', post a a' → Together known (f a) (f' a') post') :
    Together known (x >>= f) (x' >>= f') post' := by
  intro m m' hm
  have hx := h m m' hm
  rw [on_bind, on_bind]
  generalize x.on m = r, x'.on m' = r' at hx
  cases hx with
  | ok ha hm₁ => exact hf _ _ ha _ _ hm₁
  | error hm₁ => exact .error hm₁

/-- Work that does not look at the callers does the same in both programs. -/
theorem of_unframed (h : Unframed x) : Together known x x (· = ·) := by
  rintro m m' ⟨callers, callers', hcallers, hframes, rfl⟩
  have hx := h m m.frames
  change x.on m = _ at hx
  rw [h m]
  rcases hr : x.on m with ⟨fault | a, m₁⟩ <;> rw [hr] at hx
  · exact .error rfl
  · have hkeep : m₁.frames = m.frames := congrArg (·.2.frames) hx
    exact .ok rfl ⟨callers, callers', hcallers, hkeep.trans hframes, rfl⟩

end Together

end Step

namespace Engine

open Step

variable {plain folded : Program} {bridge : Bridge σ} {l : Limits}

/-- The same function is found in both programs. -/
theorem function?_beside (hp : plain.Beside folded known) (name : String) :
    (plain.function? name = none ∧ folded.function? name = none) ∨
      ∃ f f', plain.function? name = some f ∧ folded.function? name = some f' ∧
        f.Beside known f' := by
  have hfind {fs fs' : List FunctionEntry} (h : List.Forall₂ (FunctionEntry.Beside known) fs fs') :
      (fs.find? (·.name == name) = none ∧ fs'.find? (·.name == name) = none) ∨
        ∃ f f', fs.find? (·.name == name) = some f ∧ fs'.find? (·.name == name) = some f' ∧
          f.Beside known f' := by
    induction h with
    | nil => exact .inl ⟨rfl, rfl⟩
    | @cons f f' fs fs' hf _ ih =>
      rw [List.find?_cons, List.find?_cons, ← hf.name]
      rcases f.name == name
      · exact ih
      · exact .inr ⟨f, f', rfl, rfl, hf⟩
  exact hfind hp.functions

theorem enter_together (hp : plain.Beside folded known) (name : String) {a b r r' : Nat}
    (hr : known (r, r')) :
    Together known (Engine.enter (⟨plain, bridge, l⟩ : Engine σ) name r)
      (Engine.enter ⟨folded, bridge, l⟩ name r') (Flow.Beside known a b) := by
  rcases function?_beside hp name with ⟨hf, hf'⟩ | ⟨f, f', hf, hf', hbeside⟩
  · simp only [enter, hf, hf']
    exact .throw _
  · simp only [enter, hf, hf']
    refine .bind (.of_unframed .closeWindow) fun start start' hs m m' hm ↦ ?_
    subst hs
    obtain ⟨callers, callers', hcallers, hframes, rfl⟩ := hm
    have hlength : callers'.length = callers.length := hcallers.length_eq.symm
    simp only [on_bind, on_get, ← hbeside.arity, Machine.withFrames, hframes, List.size_toArray,
      List.length_reverse, hlength, on_ite, on_throw, on_set, on_pure]
    split
    · exact .error rfl
    · split
      · exact .error rfl
      · refine .ok (.jump hbeside.address) ⟨⟨m.base, r⟩ :: callers, ⟨m.base, r'⟩ :: callers',
          .cons ⟨rfl, hr⟩ hcallers, ?_, ?_⟩
        · simp
        · simp [Machine.withFrames]

theorem leave_together {a b : Nat} :
    Together known (Engine.leave (⟨plain, bridge, l⟩ : Engine σ))
      (Engine.leave ⟨folded, bridge, l⟩) (Flow.Beside known a b) := by
  refine .bind (.of_unframed .pop) fun v v' hv m m' hm ↦ ?_
  subst hv
  obtain ⟨callers, callers', hcallers, hframes, rfl⟩ := hm
  simp only [on_bind, on_get]
  cases hcallers with
  | nil =>
    rw [hframes]
    exact .ok (.halt v) ⟨[], [], .nil, hframes, rfl⟩
  | @cons f f' fs fs' hf hfs =>
    have hback : m.frames = fs.reverse.toArray.push f := by simp [hframes]
    have hback' : (f' :: fs').reverse.toArray = fs'.reverse.toArray.push f' := by simp
    have hpush : Together known (Engine.push (⟨plain, bridge, l⟩ : Engine σ) v)
        (Engine.push ⟨folded, bridge, l⟩ v) (· = ·) :=
      .of_unframed (Engine.unframed_push ⟨plain, bridge, l⟩ v)
    have hgo : Together known
        (do Engine.push (⟨plain, bridge, l⟩ : Engine σ) v; return .jump f.returnAddress)
        (do Engine.push ⟨folded, bridge, l⟩ v; return .jump f'.returnAddress)
        (Flow.Beside known a b) :=
      hpush.bind fun _ _ _ ↦ .pure (.jump hf.address)
    simp only [Machine.withFrames, hback, hback', Array.back?_push, Array.pop_push, on_bind, on_set,
      ← hf.base]
    have hresult := hgo { m with
      stack := m.stack.shrink m.base, base := f.base, frames := fs.reverse.toArray } _
      ⟨fs, fs', hfs, rfl, rfl⟩
    simpa only [on_bind, Machine.withFrames] using hresult

/-- An instruction that both programs have does the same in both. -/
theorem step_together (hp : plain.Beside folded known) {i : Instruction} {a b : Nat}
    (hi : i.op.isJump = false) (hn : i.op = .giveBack ∨ known (a + 1, b + 1)) :
    Together known (Engine.step (⟨plain, bridge, l⟩ : Engine σ) i a)
      (Engine.step ⟨folded, bridge, l⟩ i b) (Flow.Beside known a b) := by
  have hperform : Together known (Engine.perform (⟨plain, bridge, l⟩ : Engine σ) i)
      (Engine.perform ⟨folded, bridge, l⟩ i) (· = ·) :=
    .of_unframed (Engine.unframed_perform ⟨plain, bridge, l⟩ i)
  by_cases hplain : i.IsPlain
  · have hnext : known (a + 1, b + 1) := by
      rcases hn with hop | hn
      · simp [Instruction.IsPlain, hop] at hplain
      · exact hn
    rw [step_of_isPlain _ hplain, step_of_isPlain _ hplain]
    exact hperform.bind fun _ _ _ ↦ .pure (.next hnext)
  · obtain ⟨op, operand, line⟩ := i
    cases op with
    | call => exact enter_together hp _ (hn.resolve_left fun h ↦ nomatch h)
    | giveBack => exact leave_together
    | jump | jumpIfFalse | jumpIfTrue => cases hi
    | _ => exact absurd trivial hplain

/-- Jumps lead to corresponding addresses. -/
theorem jump_together {op : Operation} {a b t t' line : Nat} (hop : op.isJump = true)
    (ht : known (t, t')) (hn : known (a + 1, b + 1)) :
    Together known (Engine.step (⟨plain, bridge, l⟩ : Engine σ) (jumpTo op t line) a)
      (Engine.step ⟨folded, bridge, l⟩ (jumpTo op t' line) b) (Flow.Beside known a b) := by
  have hif (wanted : Bool) : Together (σ := σ) known (jumpIf wanted t) (jumpIf wanted t')
      (Flow.Beside known a b) := by
    refine .bind (.of_unframed .pop) fun v v' hv ↦ ?_
    subst hv
    rcases v.asBool? with _ | given
    · exact .throw _
    · dsimp only
      split
      · exact .pure (.jump ht)
      · exact .pure (.next hn)
  cases op with
  | jump => exact .pure (.jump ht)
  | jumpIfFalse => exact hif false
  | jumpIfTrue => exact hif true
  | _ => cases hop

end Engine

end StackScript
