import StackScript.Proofs.Machine.Limits

/-!
# Runs without limits

There is no engine without limits, so what a call does without them is what it does under all limits
that are large enough. `Engine.EndsAs` says this of a call, together with what it does under any
limits: it ends the same way, if it ends, unless it reaches a limit.

One run that reaches no limit is enough to know (`EndsAs.of_call`), and no call has two such ends
(`EndsAs.unique`). A call that uses up any limits, however large, does not end in this sense.
-/

namespace StackScript

variable {σ : Type}

/-- None of the limits is below `n`. -/
def Limits.Allow (l : Limits) (n : Nat) : Prop :=
  n ≤ l.stack ∧ n ≤ l.depth ∧ ∀ k, l.steps = some k → n ≤ k

namespace Engine

variable {e : Engine σ} {m : Machine σ} {name : String} {args : List Value} {o o' : Outcome σ}

/-- With no limit reached, the call ends as told. -/
structure EndsAs (e : Engine σ) (m : Machine σ) (name : String) (args : List Value)
    (o : Outcome σ) : Prop where
  free : ¬ o.IsLimit
  /-- There are limits that suffice, and no larger ones change anything. -/
  enough : ∃ n, ∀ l : Limits, l.Allow n → ∃ fuel, (e.within l).call fuel m name args = some o
  /-- Smaller limits only cut the run short. -/
  always : ∀ l fuel o', (e.within l).call fuel m name args = some o' → o' = o ∨ o'.IsLimit

/-- How a call ends, from how its run ends. -/
theorem call_eq (fuel : Nat) {p : Progress σ} (hp : e.start m name args = .ok p) :
    e.call fuel m name args = (e.finish fuel p).map fun (result, m) ↦ (result, m.reset) := by
  simp only [call, hp]

theorem call_eq_of_error (fuel : Nat) {r : Report} (hp : e.start m name args = .error r) :
    e.call fuel m name args = some (.error r, m) := by
  simp only [call, hp]

/-- A run begins with nothing counted. -/
theorem start_done {p : Progress σ} (hp : e.start m name args = .ok p) : p.done = 0 := by
  unfold start at hp
  split at hp
  · cases hp
  · split at hp <;> cases hp
    rfl

/-- A call begins at the entry of its function, with nothing but the arguments on the stack. -/
theorem exists_function_of_start {p : Progress σ} (h : e.start m name args = .ok p) :
    ∃ f, e.program.function? name = some f ∧
      p = ⟨f.address, 0, { m.reset with stack := args.toArray }⟩ := by
  unfold start at h
  split at h
  · cases h
  · rename_i f hf
    split at h <;> cases h
    exact ⟨f, hf, rfl⟩

/-- A limit is never reached before a run begins. -/
theorem start_not_isLimit {r : Report} (hp : e.start m name args = .error r) :
    ¬ r.fault.IsLimit := by
  unfold start at hp
  split at hp
  · cases hp
    exact id
  · split at hp <;> cases hp
    exact id

/-- Two runs from one place end the same way, whatever their fuel. -/
theorem finish_unique {fuel fuel' : Nat} {p : Progress σ} (h : e.finish fuel p = some o)
    (h' : e.finish fuel' p = some o') : o = o' := by
  have h₁ := e.finish_of_le (Nat.le_max_left fuel fuel') h
  have h₂ := e.finish_of_le (Nat.le_max_right fuel fuel') h'
  exact Option.some.inj (h₁.symm.trans h₂)

/-- A run that ends by itself does so under all limits that allow enough. -/
theorem finish_of_allow {l : Limits} {fuel : Nat} {p : Progress σ} (hp : p.done = 0)
    (ho : (e.within l).finish fuel p = some o) (hl : ¬ o.IsLimit) {l' : Limits}
    (h' : l'.Allow (max l.stack (max l.depth fuel))) : (e.within l').finish fuel p = some o := by
  obtain ⟨hstack, hdepth, hsteps⟩ := h'
  have hle : l ≤ { l' with steps := none } :=
    ⟨by simp only; omega, by simp only; omega, fun _ h ↦ nomatch h⟩
  have hfree := e.finish_within_of_le hle ho hl
  rcases l' with ⟨stack, depth, _ | k⟩
  · exact hfree
  · have hk := hsteps k rfl
    exact e.finish_within_steps (n := k) rfl (by omega) hfree

/-- Whatever the limits, a run ends as it does without reaching one, or by reaching one. -/
theorem finish_eq_or_isLimit {l : Limits} {fuel : Nat} {p : Progress σ}
    (ho : (e.within l).finish fuel p = some o) (hl : ¬ o.IsLimit) {l' : Limits} {fuel' : Nat}
    (ho' : (e.within l').finish fuel' p = some o') : o' = o ∨ o'.IsLimit := by
  let large : Limits := ⟨max l.stack l'.stack, max l.depth l'.depth, none⟩
  have hle : l ≤ large := ⟨Nat.le_max_left _ _, Nat.le_max_left _ _, fun _ h ↦ nomatch h⟩
  have hle' : l' ≤ large := ⟨Nat.le_max_right _ _, Nat.le_max_right _ _, fun _ h ↦ nomatch h⟩
  obtain ⟨o'', ho'', h⟩ := e.finish_within hle' (e.finish_within_of_le hle ho hl)
  rwa [finish_unique ho' ho'']

namespace EndsAs

/-- One run that reaches no limit tells how the call ends without limits. -/
theorem of_call {l : Limits} {fuel : Nat} (ho : (e.within l).call fuel m name args = some o)
    (hl : ¬ o.IsLimit) : e.EndsAs m name args o := by
  rcases hp : e.start m name args with r | p
  · have heq (l : Limits) (fuel : Nat) :
        (e.within l).call fuel m name args = some (.error r, m) :=
      (e.within l).call_eq_of_error fuel hp
    obtain rfl := Option.some.inj ((heq l fuel).symm.trans ho)
    refine ⟨hl, ⟨0, fun l' _ ↦ ⟨0, heq l' 0⟩⟩, fun l' fuel' o' ho' ↦ .inl ?_⟩
    exact Option.some.inj (ho'.symm.trans (heq l' fuel'))
  · have heq (l : Limits) (fuel : Nat) : (e.within l).call fuel m name args =
        ((e.within l).finish fuel p).map fun (result, m) ↦ (result, m.reset) :=
      (e.within l).call_eq fuel hp
    have hdone := e.start_done hp
    obtain ⟨o₁, ho₁, rfl⟩ := Option.map_eq_some_iff.mp ((heq l fuel).symm.trans ho)
    refine ⟨hl, ⟨max l.stack (max l.depth fuel), fun l' h' ↦ ⟨fuel, ?_⟩⟩,
      fun l' fuel' o' ho' ↦ ?_⟩
    · rw [heq, finish_of_allow hdone ho₁ hl h']
      rfl
    · obtain ⟨o₂, ho₂, rfl⟩ := Option.map_eq_some_iff.mp ((heq l' fuel').symm.trans ho')
      rcases finish_eq_or_isLimit ho₁ hl ho₂ with rfl | h
      · exact .inl rfl
      · exact .inr h

/-- A call has no more than one end without limits. -/
theorem unique (h : e.EndsAs m name args o) (h' : e.EndsAs m name args o') : o = o' := by
  obtain ⟨n, hn⟩ := h.enough
  obtain ⟨fuel, ho⟩ := hn ⟨n, n, none⟩ ⟨Nat.le_refl n, Nat.le_refl n, fun _ h ↦ nomatch h⟩
  rcases h'.always _ _ _ ho with heq | hl
  · exact heq
  · exact absurd hl h.free

/-- It is known by some run under some limits. -/
theorem exists_call (h : e.EndsAs m name args o) :
    ∃ l fuel, (e.within l).call fuel m name args = some o := by
  obtain ⟨n, hn⟩ := h.enough
  obtain ⟨fuel, ho⟩ := hn ⟨n, n, none⟩ ⟨Nat.le_refl n, Nat.le_refl n, fun _ h ↦ nomatch h⟩
  exact ⟨_, fuel, ho⟩

end EndsAs

end Engine

end StackScript
