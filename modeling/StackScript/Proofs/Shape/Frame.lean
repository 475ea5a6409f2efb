import StackScript.Proofs.Machine.Limits
import StackScript.Proofs.Shape.Basic

/-!
# Instructions and the shape of the stack

The running function works above the base of its frame, on the stack of the shape that its code gives
to the address (`Machine.Holds`). An instruction turns the one shape into the other and leaves all that
is below the base, and all windows opened outside, as they are (`Engine.perform_meets`). It fails with
ordinary faults and exhausted limits only.
-/

namespace StackScript

variable {σ α β : Type}

/-- The faults that running compiled code may have. -/
def Fault.Sound (fault : Fault) : Prop := ∀ message, fault ≠ .invalidProgram message

theorem Fault.Ordinary.sound {fault : Fault} (h : fault.Ordinary) : fault.Sound := by
  rintro message rfl
  exact h

theorem Fault.IsLimit.sound {fault : Fault} (h : fault.IsLimit) : fault.Sound := by
  rintro message rfl
  exact h

namespace Step

/-- Work on a machine that ends as wanted, or with a fault that compiled code may have. -/
def Meets (x : Step σ α) (m : Machine σ) (post : α → Machine σ → Prop) : Prop :=
  match x.on m with
  | (.ok a, m') => post a m'
  | (.error fault, _) => fault.Sound

namespace Meets

variable {x : Step σ α} {m : Machine σ} {post : α → Machine σ → Prop}

theorem of_ok {a : α} {m' : Machine σ} (h : x.on m = (.ok a, m')) (hp : post a m') :
    x.Meets m post := by
  unfold Meets
  rw [h]
  exact hp

theorem of_error {fault : Fault} {m' : Machine σ} (h : x.on m = (.error fault, m'))
    (hf : fault.Sound) : x.Meets m post := by
  unfold Meets
  rw [h]
  exact hf

theorem bind {f : α → Step σ β} {post' : β → Machine σ → Prop} (h : x.Meets m post)
    (hf : ∀ a m', post a m' → (f a).Meets m' post') : (x >>= f).Meets m post' := by
  unfold Meets at h ⊢
  rw [on_bind]
  rcases hx : x.on m with ⟨fault | a, m'⟩ <;> rw [hx] at h
  · exact h
  · exact hf a m' h

theorem mono {post' : α → Machine σ → Prop} (h : x.Meets m post)
    (hp : ∀ a m', post a m' → post' a m') : x.Meets m post' := by
  unfold Meets at h ⊢
  rcases hx : x.on m with ⟨fault | a, m'⟩ <;> rw [hx] at h
  · exact h
  · exact hp a m' h

/-- Work beside the stack changes the memory only. -/
theorem of_aside (h : x.Aside) : x.Meets m fun _ m' ↦ m' = m.withMemory m'.memory := by
  have hclean := h.ordinary m.memory
  unfold Meets
  rw [h.on_eq m]
  rcases hr : x.onBare m.memory with ⟨fault | a, mem⟩
  · exact (hclean fault (by rw [hr])).sound
  · rfl

end Meets

end Step

theorem exists_append_of_length_eq {l : List α} {k n : Nat} (h : l.length = k + n) :
    ∃ l₁ l₂, l = l₁ ++ l₂ ∧ l₁.length = k ∧ l₂.length = n :=
  ⟨l.take k, l.drop k, (List.take_append_drop k l).symm, by simp [h], by simp [h]⟩

/-- The stack of a machine has a given shape above a given stack, over windows that were open
before. -/
structure Machine.Holds (m : Machine σ) (below : Array Value) (outer : List Nat) (sh : Shape) :
    Prop where
  base : m.base = below.size
  windows : m.windows = sh.marks.map (below.size + ·) ++ outer
  stack : ∃ vs : List Value, m.stack = below ++ vs.toArray ∧ vs.length = sh.height

namespace Machine.Holds

variable {m : Machine σ} {below : Array Value} {outer : List Nat} {sh : Shape}

theorem size_eq (h : m.Holds below outer sh) : m.stack.size = m.base + sh.height := by
  obtain ⟨vs, hm, hlength⟩ := h.stack
  simp [hm, h.base, hlength]

theorem withMemory (h : m.Holds below outer sh) (mem : Memory σ) :
    (m.withMemory mem).Holds below outer sh :=
  ⟨h.base, h.windows, h.stack⟩

/-- The topmost values are told apart from those below. -/
theorem split {k n : Nat} {marks : List Nat} (h : m.Holds below outer ⟨k + n, marks⟩) :
    ∃ vs args : List Value, m.stack = below ++ vs.toArray ++ args.toArray ∧ vs.length = k ∧
      args.length = n := by
  obtain ⟨vs, hm, hlength⟩ := h.stack
  obtain ⟨vs, args, rfl, hvs, hargs⟩ := exists_append_of_length_eq hlength
  exact ⟨vs, args, by simp [hm], hvs, hargs⟩

end Machine.Holds

namespace Engine

open Step

variable (e : Engine σ) {m : Machine σ} {below : Array Value} {outer : List Nat}

/-- A push makes the stack higher by one. -/
theorem push_meets {h : Nat} {marks : List Nat} (hm : m.Holds below outer ⟨h, marks⟩) (v : Value) :
    (e.push v).Meets m fun _ m' ↦ m'.Holds below outer ⟨h + 1, marks⟩ ∧ m'.frames = m.frames := by
  obtain ⟨vs, hs, hlength⟩ := hm.stack
  have hon := e.on_push v m
  split at hon
  · exact .of_error hon (Fault.IsLimit.sound trivial)
  · refine .of_ok hon ⟨⟨hm.base, hm.windows, vs ++ [v], ?_, by simp [hlength]⟩, rfl⟩
    simp [hs]

/-- Computing beside the stack and pushing the result. -/
theorem bind_push_meets {x : Step σ Value} (hx : x.Aside) {h : Nat} {marks : List Nat}
    (hm : m.Holds below outer ⟨h, marks⟩) :
    (x >>= e.push).Meets m fun _ m' ↦
      m'.Holds below outer ⟨h + 1, marks⟩ ∧ m'.frames = m.frames := by
  refine (Meets.of_aside hx).bind fun v m' hm' ↦ ?_
  rw [hm']
  exact e.push_meets (hm.withMemory m'.memory) v

/-- An instruction changes the shape of the stack as its effect says, and nothing below. -/
theorem perform_meets {i : Instruction} {sh sh' : Shape} (he : i.Effect sh sh') (hp : i.Proper)
    (hm : m.Holds below outer sh) :
    (e.perform i).Meets m fun _ m' ↦ m'.Holds below outer sh' ∧ m'.frames = m.frames := by
  cases he with
  | operands hi =>
    obtain ⟨vs, args, hs, hvs, hargs⟩ := hm.split
    subst hargs hvs
    unfold Meets
    rw [e.on_perform_operands hi hs]
    exact e.bind_push_meets (e.aside_apply hp hi) ⟨hm.base, hm.windows, vs, rfl, rfl⟩
  | @window _ _ _ marks hi =>
    obtain ⟨vs, args, hs, hvs, hargs⟩ := hm.split
    obtain ⟨vs, receivers, rfl, rfl, rfl⟩ := exists_append_of_length_eq hvs
    have hstack : m.stack = below ++ vs.toArray ++ receivers.toArray ++ args.toArray := by
      simp [hs]
    have hwindows : m.windows = ((below ++ vs.toArray).size + receivers.length) ::
        (marks.map (below.size + ·) ++ outer) := by
      simp [hm.windows, Nat.add_assoc]
    unfold Meets
    rw [e.on_perform_window hi hstack hwindows]
    exact e.bind_push_meets (e.aside_apply_window hp hi) ⟨hm.base, rfl, vs, rfl, rfl⟩
  | pop hi =>
    obtain ⟨vs, args, hs, hvs, hargs⟩ := hm.split
    exact .of_ok (e.on_perform_pop hi hargs.symm hs) ⟨⟨hm.base, hm.windows, vs, rfl, hvs⟩, rfl⟩
  | dup hi =>
    obtain ⟨vs, args, hs, rfl, hargs⟩ := hm.split
    have hon := e.on_perform_dup hi hargs.symm hs
    split at hon
    · exact .of_error hon (Fault.IsLimit.sound trivial)
    · refine .of_ok hon ⟨⟨hm.base, hm.windows, vs ++ args ++ args, by simp, ?_⟩, rfl⟩
      simp only [List.length_append, hargs]
  | pushLocal hi hs =>
    obtain ⟨vs, hstack, hlength⟩ := hm.stack
    obtain ⟨v, hv⟩ : ∃ v, vs[i.count]? = some v := by
      refine ⟨_, List.getElem?_eq_getElem ?_⟩
      rw [hlength]
      exact hs
    unfold Meets
    rw [e.on_perform_pushLocal hi hm.base hstack hv]
    exact e.push_meets hm v
  | setLocal hi hs =>
    obtain ⟨vs, args, hstack, rfl, hargs⟩ := hm.split
    obtain ⟨v, rfl⟩ := List.length_eq_one_iff.mp hargs
    refine .of_ok (e.on_perform_setLocal hi hm.base (by simp [hstack]) (by simpa using hs))
      ⟨⟨hm.base, hm.windows, (vs ++ [v]).set i.count v, rfl, by simp⟩, rfl⟩
  | keep hi =>
    obtain ⟨vs, args, hstack, hvs, hargs⟩ := hm.split
    obtain ⟨v, rfl⟩ := List.length_eq_one_iff.mp hargs
    have hpush : m.stack = (below ++ vs.toArray).push v := by simp [hstack]
    unfold Meets
    rw [e.on_perform_keep hi hpush]
    refine (Meets.of_aside (e.aside_keep hp hi v)).mono fun _ m' hm' ↦ ?_
    rw [hm']
    exact ⟨hm.withMemory m'.memory, rfl⟩
  | openWindow hi =>
    refine .of_ok (e.on_perform_openWindow hi) ⟨⟨hm.base, ?_, hm.stack⟩, rfl⟩
    simp [hm.windows, hm.size_eq, hm.base]

end Engine

end StackScript
