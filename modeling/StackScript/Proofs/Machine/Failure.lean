import StackScript.Proofs.Host.Discreet
import StackScript.Proofs.Machine.Growth

/-!
# Failing instructions change nothing

An instruction that fails leaves the globals, all lists and enumerators, and the host as they were
(`store_kept_of_failure`). Most instructions change nothing that can be seen until they push their result,
if at all. Of the others

* stores into a global or a static field come last in their instructions, and
* stores into elements and fields and calls of methods are followed by a push, but that finds room on the
  stack, because they have taken more values from it before (`Engine.cautious_bind_push`).

That the stack is within its limit to begin with holds all along a run (`Engine.fits_step`).
-/

namespace StackScript

variable {σ α β : Type}

/-- What scripts can see of a store is kept, apart from objects of the host. -/
structure Store.Kept (s s' : Store σ) : Prop where
  globals : s'.globals = s.globals
  heap : s.world.heap.Keeps s'.world.heap
  host : s'.host = s.host

/-- If its host satisfies a condition, the store of a machine is kept. -/
def Machine.Kept (P : σ → Prop) (m m' : Machine σ) : Prop :=
  P m.store.host → m.store.Kept m'.store

instance (P : σ → Prop) : IsPreorder (Machine σ) (Machine.Kept P) where
  refl _ _ := ⟨rfl, refl_of Heap.Keeps _, rfl⟩
  trans m m' m'' h h' hm := by
    have hkept := h hm
    have hkept' := h' (hkept.host ▸ hm)
    exact ⟨hkept'.globals.trans hkept.globals, trans_of Heap.Keeps hkept.heap hkept'.heap,
      hkept'.host.trans hkept.host⟩

namespace Step

open Machine

variable {P : σ → Prop}

theorem kept_of_stackwise {x : Step σ α} (h : Stackwise x) : Respects (Kept P) x := by
  intro m
  show Kept P m (x.on m).2
  rw [Kept, h.store_eq]
  exact fun _ ↦ ⟨rfl, refl_of Heap.Keeps _, rfl⟩

theorem kept_heap : Respects (Kept P) (heap : Step σ Heap) :=
  .bind .get fun _ ↦ .pure _

theorem kept_onHeap {x : HeapAction α} (h : Respects Heap.Keeps x) :
    Respects (Kept P) (onHeap x : Step σ α) :=
  fun m _ ↦ ⟨rfl, h m.store.world.heap, rfl⟩

theorem kept_onHost {call : HostCall σ α} (h : Respects (Bridge.Leaves P) call) :
    Respects (Kept P) (onHost call) := by
  intro m hm
  obtain ⟨hkeeps, hhost⟩ := h (m.store.world, m.store.host) hm
  exact ⟨rfl, hkeeps, hhost⟩

theorem kept_onHeap_failure {x : HeapAction α} (h : RespectsOnFailure Heap.Keeps x) :
    RespectsOnFailure (Kept P) (onHeap x : Step σ α) := by
  intro m fault m' hx _
  obtain ⟨hresult, rfl⟩ := Prod.mk.inj hx
  exact ⟨rfl, h m.store.world.heap fault _ (Prod.ext hresult rfl), rfl⟩

theorem kept_onHost_failure {call : HostCall σ α} (h : RespectsOnFailure (Bridge.Leaves P) call) :
    RespectsOnFailure (Kept P) (onHost call) := by
  intro m fault m' hx hm
  have hon : (onHost call).on m =
      ((call.run.run (m.store.world, m.store.host)).1.mapError HostFault.toFault,
        { m with store := ⟨m.store.globals, (call.run.run (m.store.world, m.store.host)).2.1,
          (call.run.run (m.store.world, m.store.host)).2.2⟩ }) := rfl
  rw [show (onHost call).on m = (.error fault, m') from hx] at hon
  -- the work fails exactly where the call does
  rcases hr : call.run.run (m.store.world, m.store.host) with ⟨hostFault | a, s⟩ <;> rw [hr] at hon <;>
    cases hon
  obtain ⟨hkeeps, hhost⟩ := h _ hostFault s hr hm
  exact ⟨rfl, hkeeps, hhost⟩

end Step

/-! ### Effects at the end of instructions -/

namespace Engine

open Step Machine

variable {e : Engine σ} {P : σ → Prop}

/-- Work that keeps the store and takes values from the stack if it succeeds. -/
structure Frees (P : σ → Prop) (count : Nat) (x : Step σ α) : Prop where
  kept : Respects (Kept P) x
  size : ∀ m a m', x.on m = (.ok a, m') → m'.stack.size + count ≤ m.stack.size

/-- Work that keeps the store where it fails, provided that there is so much room on the stack. -/
def Cautious (e : Engine σ) (P : σ → Prop) (room : Nat) (x : Step σ α) : Prop :=
  ∀ m, m.stack.size + room ≤ e.limits.stack → ∀ fault m', x.on m = (.error fault, m') → m.Kept P m'

theorem Cautious.of_failure {room : Nat} {x : Step σ α} (h : RespectsOnFailure (Kept P) x) :
    e.Cautious P room x :=
  fun m _ fault m' hx ↦ h m fault m' hx

theorem Cautious.of_kept {room : Nat} {x : Step σ α} (h : Respects (Kept P) x) :
    e.Cautious P room x :=
  .of_failure h.onFailure

/-- What is taken from the stack makes room. -/
theorem Frees.bind {room count : Nat} {x : Step σ α} {f : α → Step σ β} (hx : Frees P count x)
    (hf : ∀ a, e.Cautious P (room + count) (f a)) : e.Cautious P room (x >>= f) := by
  intro m hroom fault m' h
  have hkept : m.Kept P (x.on m).2 := hx.kept m
  rw [on_bind] at h
  rcases hr : x.on m with ⟨fault' | a, m₁⟩ <;> rw [hr] at h hkept
  · cases h
    exact hkept
  · have hsize := hx.size m a m₁ hr
    exact trans_of (Kept P) hkept (hf a m₁ (by omega) fault m' h)

/-- Where there is room, a push behind work beside the stack does not fail. -/
theorem cautious_bind_push {room : Nat} {x : Step σ α} (haside : Aside x)
    (h : RespectsOnFailure (Kept P) x) (value : α → Value) :
    e.Cautious P (room + 1) (do e.push (value (← x))) := by
  intro m hroom fault m' hx
  rw [on_bind] at hx
  rcases hr : x.on m with ⟨fault' | a, m₁⟩ <;> rw [hr] at hx
  · cases hx
    exact h m fault m' hr
  · obtain ⟨-, rfl⟩ := Prod.mk.inj ((haside.on_eq m).symm.trans hr)
    have hpush := e.on_push (value a) (m.withMemory (x.onBare m.memory).2)
    rw [if_neg (by rw [stack_withMemory]; omega)] at hpush
    cases hpush.symm.trans hx

/-! ### Pieces -/

theorem frees_pop : Frees P 1 (pop : Step σ Value) where
  kept := kept_of_stackwise .pop
  size m a m' h := by
    rcases hb : m.stack.back? with _ | v
    · simp [pop, on_bind, hb] at h
    · obtain ⟨S, hS⟩ := Array.back?_eq_some_iff.mp hb
      rw [on_pop hS] at h
      cases h
      exact Nat.le_of_eq (by rw [hS, Array.size_push])

theorem frees_peek : Frees P 0 (peek : Step σ Value) where
  kept := kept_of_stackwise .peek
  size m a m' h := by
    rcases hb : m.stack.back? with _ | v <;> simp [peek, on_bind, hb] at h
    exact Nat.le_of_eq (by rw [h.2, Nat.add_zero])

theorem frees_takeWindow : Frees P 0 (takeWindow : Step σ (Array Value)) where
  kept := kept_of_stackwise .takeWindow
  size m a m' h := (fits_takeWindow m ⟨Nat.le_refl _, Nat.le_refl m.frames.size⟩ a m' h).stack

theorem kept_push (value : Value) : Respects (Kept P) (e.push value) :=
  kept_of_stackwise (e.stackwise_push value)

theorem kept_resolve? (hb : e.bridge.Tidy P) (name : String) : Respects (Kept P) (e.resolve? name) := by
  refine .bind .get fun m ↦ ?_
  split
  · exact .pure _
  · refine .bind (kept_onHost fun s hs ↦ ?_) fun found ↦ ?_
    · show s.1.heap.Keeps ((e.bridge.resolve name).run s).2.1.heap ∧
        ((e.bridge.resolve name).run s).2.2 = s.2
      rw [hb.resolve]
      exact ⟨refl_of Heap.Keeps _, rfl⟩
    · split
      · exact .pure _
      · exact .bind (.modify fun m _ ↦ ⟨rfl, refl_of Heap.Keeps _, rfl⟩) fun _ ↦ .pure _

theorem kept_resolve (hb : e.bridge.Tidy P) (name : String) : Respects (Kept P) (e.resolve name) := by
  refine .bind (kept_resolve? hb name) fun found ↦ ?_
  split
  · exact .pure _
  · exact .throw _

theorem kept_construct (hb : e.bridge.Tidy P) (type : String) (args : List Value) :
    Respects (Kept P) (e.construct type args) := by
  refine .bind (kept_resolve? hb type) fun found ↦ ?_
  split
  · exact kept_onHost (hb.construct _ _)
  · rename_i build h
    exact kept_onHeap (Builtin.kept_of_constructor? h args)
  · exact .throw _

theorem kept_getField (hb : e.bridge.Tidy P) (receiver : Value) (field : String) :
    Respects (Kept P) (e.getField receiver field) := by
  refine .bind kept_heap fun h ↦ ?_
  split
  · exact kept_onHost (hb.getField _ _)
  · exact .lift _

theorem kept_callMethod (hb : e.bridge.Tidy P) (receiver : Value) (method : String)
    (args : List Value) : RespectsOnFailure (Kept P) (e.callMethod receiver method args) := by
  refine .bind kept_heap fun h ↦ ?_
  split
  · exact (kept_onHost (hb.invoke _ _ _)).onFailure
  · exact kept_onHeap_failure (Builtin.kept_call _ _ _)

theorem kept_setField (hb : e.bridge.Tidy P) (receiver : Value) (field : String) (value : Value) :
    RespectsOnFailure (Kept P) (e.setField receiver field value) := by
  refine .bind kept_heap fun h ↦ ?_
  split
  · exact kept_onHost_failure (hb.setField _ _ _)
  · exact (Respects.throw _).onFailure

/-! ### Instructions -/

theorem cautious_perform (hb : e.bridge.Tidy P) (i : Instruction) : e.Cautious P 0 (e.perform i) := by
  have hpush (value : Value) : Respects (Kept P) (e.push value) := kept_push value
  have hpop : Respects (Kept P) (pop : Step σ Value) := frees_pop.kept
  have hwindow : Respects (Kept P) (takeWindow : Step σ (Array Value)) := frees_takeWindow.kept
  obtain ⟨op, operand, line⟩ := i
  cases op with
  | push =>
    refine .of_kept ?_
    unfold perform
    dsimp only
    split
    · exact hpush _
    · exact .throw _
  | pop => exact .of_kept (kept_of_stackwise (.discard _))
  | dup => exact .of_kept (kept_of_stackwise (e.stackwise_duplicate _))
  | pushLocal => exact .of_kept (.bind (kept_of_stackwise (.getLocal _)) hpush)
  | setLocal =>
    exact .of_kept (.bind frees_peek.kept fun value ↦ kept_of_stackwise (.setLocal _ value))
  | pushGlobal =>
    refine .of_kept (.bind .get fun m ↦ ?_)
    split
    · exact hpush _
    · exact .throw _
  | setGlobal =>
    -- nothing comes after the effect
    exact frees_peek.bind fun value ↦ .of_failure (.of_succeeds fun _ ↦ ⟨_, _, rfl⟩)
  | makeList =>
    exact .of_kept (.bind hwindow fun items ↦
      .bind (kept_onHeap (.modifyGet fun h ↦ h.keeps_newList items)) hpush)
  | pushElement =>
    exact .of_kept (.bind hpop fun index ↦ .bind hpop fun target ↦ .bind kept_heap fun h ↦
      .bind (.lift _) hpush)
  | setElement | setElementCached =>
    -- the value that is pushed after the effect finds the room of one that was taken before
    exact frees_pop.bind fun value ↦ frees_pop.bind fun index ↦ frees_pop.bind fun target ↦
      cautious_bind_push (.onHeap (Heap.clean_setElement target index value))
        (kept_onHeap_failure (Heap.kept_setElement target index value)) fun _ ↦ value
  | binary op =>
    exact .of_kept (.bind hpop fun right ↦ .bind hpop fun left ↦ .bind (.lift _) fun _ ↦ hpush _)
  | invert => exact .of_kept (.bind hpop fun value ↦ .bind (.lift _) fun _ ↦ hpush _)
  | openWindow => exact .of_kept (kept_of_stackwise .openWindow)
  | construct =>
    exact .of_kept (.bind hwindow fun args ↦ .bind (kept_construct hb _ _) hpush)
  | callStatic =>
    exact .of_kept (.bind hwindow fun args ↦ .bind (.lift _) fun parts ↦
      .bind (kept_resolve hb _) fun handle ↦ .bind (kept_onHost (hb.invoke _ _ _)) hpush)
  | callMethod =>
    exact frees_takeWindow.bind fun args ↦ frees_pop.bind fun receiver ↦
      cautious_bind_push (e.aside_callMethod _ _ _) (kept_callMethod hb _ _ _) id
  | pushField => exact .of_kept (.bind hpop fun receiver ↦ .bind (kept_getField hb _ _) hpush)
  | setField =>
    exact frees_pop.bind fun value ↦ frees_pop.bind fun receiver ↦
      cautious_bind_push (e.aside_setField _ _ _) (kept_setField hb _ _ _) fun _ ↦ value
  | pushStaticField =>
    exact .of_kept (.bind (.lift _) fun parts ↦ .bind (kept_resolve hb _) fun handle ↦
      .bind (kept_onHost (hb.getField _ _)) hpush)
  | setStaticField =>
    exact frees_peek.bind fun value ↦ .of_failure (.bind (.lift _) fun parts ↦
      .bind (kept_resolve hb _) fun handle ↦ kept_onHost_failure (hb.setField _ _ _))
  | jump | jumpIfFalse | jumpIfTrue | call | giveBack => exact .of_kept (.pure _)

/-- An instruction that fails on a stack within its limit keeps the store. -/
theorem cautious_step (hb : e.bridge.Tidy P) (i : Instruction) (address : Nat) :
    e.Cautious P 0 (e.step i address) := by
  have hjump (wanted : Bool) (target : Nat) : Respects (Kept P) (jumpIf wanted target : Step σ Flow) := by
    refine .bind frees_pop.kept fun condition ↦ ?_
    split
    · exact .throw _
    · exact .pure _
  unfold step
  split
  · exact .of_kept (.pure _)
  · exact .of_kept (hjump _ _)
  · exact .of_kept (hjump _ _)
  · exact .of_kept (kept_of_stackwise (e.stackwise_enter _ _))
  · exact .of_kept (kept_of_stackwise e.stackwise_leave)
  · intro m hroom fault m' h
    rw [on_bind] at h
    rcases hr : (e.perform i).on m with ⟨fault' | a, m₁⟩ <;> rw [hr] at h <;> cases h
    exact cautious_perform hb i m hroom fault m' hr

/-! ### Along a run -/

/-- The condition on the host is kept up by all that instructions are made of. -/
theorem MemoryPiece.preserves_host (hb : e.bridge.Tidy P) {x : Step σ α} (h : e.MemoryPiece x) :
    Preserves (fun m ↦ P m.store.host) x := by
  intro m hm a m' hx
  have hm' : (x.on m).2 = m' := congrArg Prod.snd hx
  subst hm'
  cases h with
  | globals | setGlobal | heap | newList | setElement | build | callBuiltin => exact hm
  | ask h => exact hb.keeps h (m.store.world, m.store.host) hm
  | resolve? name =>
    have hkept : m.store.Kept ((e.resolve? name).on m).2.store := kept_resolve? hb name m hm
    rw [hkept.host]
    exact hm

theorem Made.preserves_host (hb : e.bridge.Tidy P) {x : Step σ α} (h : e.Made x) :
    Preserves (fun m ↦ P m.store.host) x := by
  induction h with
  | pure a => exact .pure a
  | bind _ _ hx hf => exact hx.bind hf
  | @stack _ x h =>
    intro m hm a m' hx
    have hstore := h.stackwise.store_eq m
    rw [hx] at hstore
    exact hstore ▸ hm
  | memory h => exact h.preserves_host hb

/-- Wherever a run gets to that begins within the limits, an instruction that fails keeps the store. -/
theorem kept_of_advances (hb : e.bridge.Tidy P) {p q : Progress σ} {n : Nat}
    (hstack : p.machine.stack.size ≤ e.limits.stack) (hp : P p.machine.store.host)
    (hrun : e.advances n p = .inr q) {i : Instruction} {address : Nat} {fault : Fault} {m : Machine σ}
    (h : (e.step i address).on q.machine = (.error fault, m)) : q.machine.store.Kept m.store := by
  -- the number of callers does not matter here, so any bound that holds at the beginning will do
  let depth := max e.limits.depth p.machine.frames.size
  have hfits : q.machine.Fits e.limits.stack depth :=
    preserves_advances (fun i address ↦ fits_step (Nat.le_refl _) (Nat.le_max_left _ _) i address)
      ⟨hstack, Nat.le_max_right _ _⟩ hrun
  have hq : P q.machine.store.host :=
    preserves_advances (P := fun m ↦ P m.store.host)
      (fun i address ↦ (e.made_step i address).preserves_host hb) hp hrun
  exact cautious_step hb i address q.machine hfits.stack fault m h hq

end Engine

open Engine

/-- Wherever a run has got to that began with no more values on the stack than allowed, an instruction
that fails leaves the store as it was: the globals with their names and values, the elements of all lists,
the positions of all enumerators, and the host with its static fields. Members of a registry are assumed to
leave lists and helpers alone. -/
theorem store_kept_of_failure (program : Program) (limits : Limits) (i : Instruction) (address n : Nat)
    (fault : Fault) :
    (∀ p q m, p.machine.stack.size ≤ limits.stack → p.machine.store.host.Discreet →
      advances ⟨program, Registry.bridge, limits⟩ n p = .inr q →
      (step ⟨program, Registry.bridge, limits⟩ i address).on q.machine = (.error fault, m) →
      q.machine.store.Kept m.store) ∧
    (∀ p q m, p.machine.stack.size ≤ limits.stack →
      advances ⟨program, Bridge.none, limits⟩ n p = .inr q →
      (step ⟨program, Bridge.none, limits⟩ i address).on q.machine = (.error fault, m) →
      q.machine.store.Kept m.store) :=
  ⟨fun _ _ _ hstack hp hrun h ↦
      kept_of_advances (e := ⟨program, Registry.bridge, limits⟩) Registry.tidy hstack hp hrun h,
    fun _ _ _ hstack hrun h ↦
      kept_of_advances (e := ⟨program, Bridge.none, limits⟩) Bridge.tidy_none hstack trivial hrun h⟩

/-- A registry of one type with a static field. -/
def fieldRegistry : Registry where
  types := [(TypeDef.named "C").addStaticField "n" (.int 1)]

/-- A row of instructions that stores an element beyond the end of a new list. -/
def beyondProgram : Program :=
  .ofCode #[⟨.openWindow, .none, 1⟩, ⟨.push, .literal (.int 5), 1⟩, ⟨.makeList, .none, 1⟩,
    ⟨.push, .literal (.int 3), 1⟩, ⟨.push, .literal (.int 9), 1⟩, ⟨.setElement, .none, 1⟩]

/-- The store fails, with the list and the static field as they were. -/
theorem store_kept_of_failure_beyond :
    let e : Engine Registry := ⟨beyondProgram, Registry.bridge, ⟨3, 0, none⟩⟩
    let p : Progress Registry := ⟨0, 0, .fresh ⟨.declared [], .empty, fieldRegistry⟩⟩
    ∃ q m, e.advances 5 p = .inr q ∧ q.machine.store.world.heap.lists = #[#[.int 5]] ∧
      (e.step ⟨.setElement, .none, 1⟩ 5).on q.machine = (.error (.indexOutOfRange 3 1), m) ∧
      q.machine.store.Kept m.store := by
  intro e p
  have hdiscreet : fieldRegistry.Discreet := by
    intro t ht
    obtain rfl := List.mem_singleton.mp ht
    constructor <;> intro _ h <;> cases h
  refine ⟨_, _, rfl, rfl, rfl, ?_⟩
  exact (store_kept_of_failure beyondProgram ⟨3, 0, none⟩ ⟨.setElement, .none, 1⟩ 5 5
    (.indexOutOfRange 3 1)).1 p _ _ (Nat.zero_le _) hdiscreet rfl rfl

end StackScript
