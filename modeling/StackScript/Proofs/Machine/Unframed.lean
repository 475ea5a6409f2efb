import StackScript.Proofs.Machine.Operator

/-!
# Work that does not look at the callers

All instructions but calls and returns do the same whatever functions are suspended: the row of frames
is neither read nor changed (`Engine.unframed_perform`). That is kept by sequencing, and work beside
the stack is of this kind anyway.
-/

namespace StackScript

variable {σ α β : Type}

namespace Machine

/-- The machine with other suspended callers. -/
def withFrames (m : Machine σ) (frames : Array Frame) : Machine σ := { m with frames := frames }

@[simp]
theorem memory_withFrames (m : Machine σ) (frames : Array Frame) :
    (m.withFrames frames).memory = m.memory :=
  rfl

@[simp]
theorem withFrames_withFrames (m : Machine σ) (frames frames' : Array Frame) :
    (m.withFrames frames).withFrames frames' = m.withFrames frames' :=
  rfl

@[simp]
theorem reset_withFrames (m : Machine σ) (frames : Array Frame) :
    (m.withFrames frames).reset = m.reset :=
  rfl

end Machine

namespace Step

/-- Work that does the same whatever functions are suspended. -/
def Unframed (x : Step σ α) : Prop :=
  ∀ m frames, x.on (m.withFrames frames) = ((x.on m).1, (x.on m).2.withFrames frames)

namespace Unframed

theorem pure (a : α) : Unframed (pure a : Step σ α) :=
  fun _ _ ↦ rfl

theorem throw (fault : Fault) : Unframed (throw fault : Step σ α) :=
  fun _ _ ↦ rfl

theorem of_aside {x : Step σ α} (h : x.Aside) : Unframed x := by
  intro m frames
  rw [h.on_eq, h.on_eq m]
  rfl

theorem lift (x : Except Fault α) : Unframed (liftM x : Step σ α) := by
  intro m frames
  rw [on_lift, on_lift]

theorem bind {x : Step σ α} {f : α → Step σ β} (hx : Unframed x) (hf : ∀ a, Unframed (f a)) :
    Unframed (x >>= f) := by
  intro m frames
  rw [on_bind, on_bind, hx]
  rcases x.on m with ⟨fault | a, m'⟩
  · rfl
  · exact hf a m' frames

/-- Work that goes on from what the machine is, but for its frames. -/
theorem get_bind {f : Machine σ → Step σ α} (h : ∀ m, Unframed (f m))
    (hf : ∀ m frames, f (m.withFrames frames) = f m) : Unframed (get >>= f) := by
  intro m frames
  rw [on_bind, on_bind, on_get, on_get]
  dsimp only
  rw [hf]
  exact h m m frames

theorem modify {f : Machine σ → Machine σ}
    (hf : ∀ m frames, f (m.withFrames frames) = (f m).withFrames frames) :
    Unframed (modify f : Step σ PUnit) := by
  intro m frames
  rw [on_modify, on_modify, hf]

theorem ite {p : Prop} [Decidable p] {x y : Step σ α} (hx : Unframed x) (hy : Unframed y) :
    Unframed (if p then x else y) := by
  split
  · exact hx
  · exact hy

theorem pop : Unframed (pop : Step σ Value) := by
  intro m frames
  rcases h : m.stack.back? with _ | v <;> simp [Step.pop, on_bind, Machine.withFrames, h]

theorem peek : Unframed (peek : Step σ Value) := by
  intro m frames
  rcases h : m.stack.back? with _ | v <;> simp [Step.peek, on_bind, Machine.withFrames, h]

theorem discard (count : Nat) : Unframed (discard count : Step σ Unit) := by
  intro m frames
  by_cases h : m.stack.size < count <;> simp [Step.discard, on_bind, Machine.withFrames, h]

theorem getLocal (slot : Nat) : Unframed (getLocal slot : Step σ Value) := by
  intro m frames
  rcases h : m.stack[m.base + slot]? with _ | v <;>
    simp [Step.getLocal, on_bind, Machine.withFrames, h]

theorem setLocal (slot : Nat) (value : Value) : Unframed (setLocal slot value : Step σ Unit) := by
  intro m frames
  by_cases h : m.stack.size ≤ m.base + slot <;>
    simp [Step.setLocal, on_bind, Machine.withFrames, h]

theorem openWindow : Unframed (openWindow : Step σ Unit) :=
  .modify fun _ _ ↦ rfl

theorem closeWindow : Unframed (closeWindow : Step σ Nat) := by
  intro m frames
  rcases h : m.windows with _ | ⟨start, outer⟩
  · simp [Step.closeWindow, on_bind, Machine.withFrames, h]
  · by_cases hs : m.stack.size < start <;>
      simp [Step.closeWindow, on_bind, Machine.withFrames, h, hs]

theorem takeWindow : Unframed (takeWindow : Step σ (Array Value)) := by
  refine .bind closeWindow fun start m frames ↦ ?_
  simp [on_bind, Machine.withFrames]

end Unframed

end Step

namespace Engine

open Step

variable (e : Engine σ)

theorem unframed_checkStack : Unframed e.checkStack :=
  .get_bind (fun _ ↦ .ite (.throw _) (.pure _)) fun _ _ ↦ rfl

theorem unframed_push (v : Value) : Unframed (e.push v) :=
  .bind (.modify fun _ _ ↦ rfl) fun _ ↦ e.unframed_checkStack

theorem unframed_duplicate (count : Nat) : Unframed (e.duplicate count) := by
  intro m frames
  by_cases h : m.stack.size < count
  · simp [duplicate, on_bind, Machine.withFrames, h]
  · simp only [duplicate, on_bind, on_get, Machine.withFrames, if_neg h, on_set]
    exact e.unframed_checkStack { m with stack := _ } frames

theorem unframed_perform (i : Instruction) : Unframed (e.perform i) := by
  have hpush := e.unframed_push
  obtain ⟨op, operand, line⟩ := i
  cases op with
  | push =>
    unfold perform
    dsimp only
    split
    · exact hpush _
    · exact .throw _
  | pop => exact .discard _
  | dup => exact e.unframed_duplicate _
  | pushLocal => exact .bind (.getLocal _) hpush
  | setLocal => exact .bind .peek fun v ↦ .setLocal _ v
  | pushGlobal =>
    refine .get_bind (fun m ↦ ?_) fun _ _ ↦ rfl
    split
    · exact hpush _
    · exact .throw _
  | setGlobal => exact .bind .peek fun _ ↦ .modify fun _ _ ↦ rfl
  | makeList =>
    exact .bind .takeWindow fun _ ↦ .bind (.of_aside (.onHeap (.modifyGet _))) hpush
  | pushElement =>
    exact .bind .pop fun _ ↦ .bind .pop fun _ ↦ .bind (.of_aside .heap) fun _ ↦
      .bind (.lift _) hpush
  | setElement | setElementCached =>
    exact .bind .pop fun _ ↦ .bind .pop fun _ ↦ .bind .pop fun _ ↦
      .bind (.of_aside (.onHeap (Heap.clean_setElement _ _ _))) fun _ ↦ hpush _
  | binary op =>
    exact .bind .pop fun _ ↦ .bind .pop fun _ ↦ .bind (.lift _) fun _ ↦ hpush _
  | invert => exact .bind .pop fun _ ↦ .bind (.lift _) fun _ ↦ hpush _
  | openWindow => exact .openWindow
  | construct =>
    exact .bind .takeWindow fun _ ↦ .bind (.of_aside (e.aside_construct _ _)) hpush
  | callStatic =>
    exact .bind .takeWindow fun _ ↦ .bind (.lift _) fun _ ↦ .bind (.of_aside (e.aside_resolve _))
      fun _ ↦ .bind (.of_aside (.onHost _)) hpush
  | callMethod =>
    exact .bind .takeWindow fun _ ↦ .bind .pop fun _ ↦
      .bind (.of_aside (e.aside_callMethod _ _ _)) hpush
  | pushField => exact .bind .pop fun _ ↦ .bind (.of_aside (e.aside_getField _ _)) hpush
  | setField =>
    exact .bind .pop fun _ ↦ .bind .pop fun _ ↦ .bind (.of_aside (e.aside_setField _ _ _))
      fun _ ↦ hpush _
  | pushStaticField =>
    exact .bind (.lift _) fun _ ↦ .bind (.of_aside (e.aside_resolve _)) fun _ ↦
      .bind (.of_aside (.onHost _)) hpush
  | setStaticField =>
    exact .bind .peek fun _ ↦ .bind (.lift _) fun _ ↦ .bind (.of_aside (e.aside_resolve _))
      fun _ ↦ .of_aside (.onHost _)
  | jump | jumpIfFalse | jumpIfTrue | call | giveBack => exact .pure _

end Engine

end StackScript
