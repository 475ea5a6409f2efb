import StackScript.Proofs.Host.Domestic
import StackScript.Proofs.Machine.Pieces

/-!
# Work without a host

A machine can be taken off its host (`Machine.hostless`) and put over any other one (`Machine.hosted`).
Work that needs no host is the same over all of them. Of instructions that ask for no type by name, this is so
as long as all that is on the stack and in the globals is domestic (`Machine.Domestic`): the members they
look for are built in then, whatever their names are.

`Step.Alone` says this of work together with what it leaves behind and what it yields, from values that are
held between two pieces of an instruction. It is kept by sequencing, where the values yielded are held,
too.
-/

namespace StackScript

variable {σ α β : Type}

/-! ### Machines over hosts -/

namespace Machine

/-- The heap that a machine works on. -/
abbrev heap (m : Machine σ) : Heap := m.store.world.heap

/-- The machine over a host, with types of that host to remember. -/
def hosted (m : Machine Unit) (resolved : List (String × TypeHandle)) (host : σ) : Machine σ :=
  ⟨m.stack, m.base, m.windows, m.frames, resolved, ⟨m.store.globals, m.store.world, host⟩⟩

/-- The machine without its host. -/
def hostless (m : Machine σ) : Machine Unit :=
  ⟨m.stack, m.base, m.windows, m.frames, [], ⟨m.store.globals, m.store.world, ()⟩⟩

@[simp]
theorem hosted_hostless (m : Machine σ) : m.hostless.hosted m.resolved m.store.host = m :=
  rfl

section

variable (m : Machine Unit) (resolved : List (String × TypeHandle)) (host : σ)

@[simp]
theorem stack_hosted : (m.hosted resolved host).stack = m.stack :=
  rfl

@[simp]
theorem base_hosted : (m.hosted resolved host).base = m.base :=
  rfl

@[simp]
theorem windows_hosted : (m.hosted resolved host).windows = m.windows :=
  rfl

@[simp]
theorem frames_hosted : (m.hosted resolved host).frames = m.frames :=
  rfl

@[simp]
theorem globals_hosted : (m.hosted resolved host).store.globals = m.store.globals :=
  rfl

@[simp]
theorem world_hosted : (m.hosted resolved host).store.world = m.store.world :=
  rfl

end

/-- A machine whose stack and globals hold domestic values only. -/
structure Domestic (m : Machine σ) : Prop where
  stack : ∀ v ∈ m.stack, m.heap.Domestic v
  globals : ∀ name v, m.store.globals.get? name = some v → m.heap.Domestic v

end Machine

/-- The operations that ask the host for a type by its name. -/
def Operation.asking : List Operation :=
  [.construct, .callStatic, .pushStaticField, .setStaticField]

/-- A global that has been given a value has that value, and the others have theirs. -/
theorem Globals.get?_set {g : Globals} {name other : String} {value v : Value}
    (h : (g.set name value).get? other = some v) : v = value ∨ g.get? other = some v := by
  obtain ⟨entries⟩ := g
  simp only [set, get?, Table.insert] at h ⊢
  induction entries with
  | nil =>
    rw [Table.alter, List.lookup_cons] at h
    split at h
    · exact .inl (Option.some.inj h).symm
    · cases h
  | cons entry rest ih =>
    obtain ⟨key, old⟩ := entry
    rw [Table.alter] at h
    split at h <;> rw [List.lookup_cons] at h ⊢ <;> split at h
    · exact .inl (Option.some.inj h).symm
    · exact .inr h
    · exact .inr h
    · exact ih h

namespace Step

/-- Work that is the same over all hosts. -/
def Hostfree (x : Step σ α) (x₀ : Step Unit α) : Prop :=
  ∀ m resolved host, x.on (m.hosted resolved host) = ((x₀.on m).1, (x₀.on m).2.hosted resolved host)

namespace Hostfree

theorem pure (a : α) : Hostfree (pure a : Step σ α) (pure a) :=
  fun _ _ _ ↦ rfl

theorem throw (fault : Fault) : Hostfree (throw fault : Step σ α) (throw fault) :=
  fun _ _ _ ↦ rfl

theorem bind {x : Step σ α} {x₀ : Step Unit α} {f : α → Step σ β} {f₀ : α → Step Unit β}
    (hx : Hostfree x x₀) (hf : ∀ a, Hostfree (f a) (f₀ a)) : Hostfree (x >>= f) (x₀ >>= f₀) := by
  intro m resolved host
  rw [on_bind, on_bind, hx m resolved host]
  rcases x₀.on m with ⟨fault | a, m'⟩
  · rfl
  · exact hf a m' resolved host

/-- Work that begins by looking at the stack. -/
theorem get_bind {f : Machine σ → Step σ α} {f₀ : Machine Unit → Step Unit α}
    (h : ∀ m resolved host, (f (m.hosted resolved host)).on (m.hosted resolved host) =
      (((f₀ m).on m).1, ((f₀ m).on m).2.hosted resolved host)) : Hostfree (get >>= f) (get >>= f₀) :=
  h

theorem pop : Hostfree (pop : Step σ Value) pop := by
  refine .get_bind fun m resolved host ↦ ?_
  rw [Machine.stack_hosted]
  rcases m.stack.back? with - | value <;> rfl

theorem peek : Hostfree (peek : Step σ Value) peek := by
  refine .get_bind fun m resolved host ↦ ?_
  rw [Machine.stack_hosted]
  rcases m.stack.back? with - | value <;> rfl

theorem discard (count : Nat) : Hostfree (discard count : Step σ Unit) (discard count) := by
  refine .get_bind fun m resolved host ↦ ?_
  by_cases h : m.stack.size < count <;> simp only [Machine.stack_hosted, h, ↓reduceIte] <;> rfl

theorem getLocal (slot : Nat) : Hostfree (getLocal slot : Step σ Value) (getLocal slot) := by
  refine .get_bind fun m resolved host ↦ ?_
  rw [Machine.stack_hosted, Machine.base_hosted]
  rcases m.stack[m.base + slot]? with - | value <;> rfl

theorem setLocal (slot : Nat) (value : Value) :
    Hostfree (setLocal slot value : Step σ Unit) (setLocal slot value) := by
  refine .get_bind fun m resolved host ↦ ?_
  by_cases h : m.stack.size ≤ m.base + slot <;>
    simp only [Machine.stack_hosted, Machine.base_hosted, h, ↓reduceIte] <;> rfl

theorem openWindow : Hostfree (openWindow : Step σ Unit) openWindow :=
  fun _ _ _ ↦ rfl

theorem closeWindow : Hostfree (closeWindow : Step σ Nat) closeWindow := by
  refine .get_bind fun m resolved host ↦ ?_
  rw [Machine.stack_hosted, Machine.windows_hosted]
  rcases m.windows with - | ⟨start, outer⟩
  · rfl
  · by_cases h : m.stack.size < start <;> simp only [on_bind, on_set, h, ↓reduceIte] <;> rfl

theorem takeWindow : Hostfree (takeWindow : Step σ (Array Value)) takeWindow :=
  .bind .closeWindow fun _ ↦ .get_bind fun _ _ _ ↦ rfl

end Hostfree

end Step

namespace Engine

open Step

/-- The engine without its host. -/
def hostless (e : Engine σ) : Engine Unit :=
  ⟨e.program, .none, e.limits⟩

variable (e : Engine σ)

theorem hostfree_checkStack : Hostfree e.checkStack e.hostless.checkStack := by
  refine .get_bind fun m resolved host ↦ ?_
  by_cases h : e.limits.stack < m.stack.size <;>
    simp only [Machine.stack_hosted, hostless, h, ↓reduceIte] <;> rfl

theorem hostfree_push (value : Value) : Hostfree (e.push value) (e.hostless.push value) :=
  .bind (fun _ _ _ ↦ rfl) fun _ ↦ e.hostfree_checkStack

theorem hostfree_duplicate (count : Nat) :
    Hostfree (e.duplicate count) (e.hostless.duplicate count) := by
  refine .get_bind fun m resolved host ↦ ?_
  by_cases h : m.stack.size < count <;> simp only [Machine.stack_hosted, h, ↓reduceIte]
  · rfl
  · exact e.hostfree_checkStack { m with stack := _ } resolved host

theorem hostfree_enter (name : String) (returnAddress : Nat) :
    Hostfree (e.enter name returnAddress) (e.hostless.enter name returnAddress) := by
  have hprogram : e.hostless.program = e.program := rfl
  unfold enter
  rw [hprogram]
  rcases e.program.function? name with - | f
  · exact .throw _
  · refine .bind .closeWindow fun start ↦ .get_bind fun m resolved host ↦ ?_
    by_cases hgiven : m.stack.size - start = f.arity
    · by_cases hdepth : e.limits.depth ≤ m.frames.size <;>
        simp only [Machine.stack_hosted, Machine.frames_hosted, hostless, hgiven, hdepth, ne_eq,
          not_true_eq_false, ↓reduceIte] <;> rfl
    · simp only [Machine.stack_hosted, hgiven, ne_eq, not_false_eq_true, ↓reduceIte]
      rfl

theorem hostfree_leave : Hostfree e.leave e.hostless.leave := by
  refine .bind .pop fun result ↦ .get_bind fun m resolved host ↦ ?_
  rw [Machine.frames_hosted]
  rcases m.frames.back? with - | frame
  · rfl
  · exact (e.hostfree_push result).bind (fun _ ↦ .pure (Flow.jump frame.returnAddress))
      { m with stack := m.stack.shrink m.base, base := frame.base, frames := m.frames.pop } resolved host

end Engine

/-! ### Work on domestic machines -/

/-- What is domestic when certain values are. -/
def Heap.Entails (held : List Value) (v : Value) : Prop :=
  ∀ h : Heap, (∀ w ∈ held, h.Domestic w) → h.Domestic v

namespace Step

open Heap

/-- Work that a machine does the same over all hosts, that leaves it domestic, and yields domestic
values. -/
structure AloneOn (m : Machine Unit) (x : Step σ α) (x₀ : Step Unit α) (gives : α → List Value) :
    Prop where
  hosted : ∀ resolved host,
    x.on (m.hosted resolved host) = ((x₀.on m).1, (x₀.on m).2.hosted resolved host)
  domestic : (x₀.on m).2.Domestic
  shelters : m.heap.Shelters (x₀.on m).2.heap
  gives : ∀ a, (x₀.on m).1 = .ok a → ∀ v ∈ gives a, (x₀.on m).2.heap.Domestic v

/-- Such work on any domestic machine, as long as the values held beside the stack are domestic. -/
def Alone (held : List Value) (x : Step σ α) (x₀ : Step Unit α) (gives : α → List Value) : Prop :=
  ∀ m, m.Domestic → (∀ v ∈ held, m.heap.Domestic v) → AloneOn m x x₀ gives

namespace AloneOn

variable {m : Machine Unit} {gives : α → List Value}

/-- Work that does the same as other work is as much alone. -/
theorem congr {x y : Step σ α} {x₀ y₀ : Step Unit α} (hx : ∀ m, x.on m = y.on m)
    (hx₀ : ∀ m, x₀.on m = y₀.on m) (h : AloneOn m y y₀ gives) : AloneOn m x x₀ gives := by
  refine ⟨fun resolved host ↦ ?_, ?_, ?_, ?_⟩ <;> rw [hx₀]
  · rw [hx]
    exact h.hosted resolved host
  · exact h.domestic
  · exact h.shelters
  · exact h.gives

/-- Work that goes on with a result that was computed without changing the machine. -/
theorem lift_bind {x : Except Fault β} {f : β → Step σ α} {f₀ : β → Step Unit α} (hm : m.Domestic)
    (hf : ∀ b, x = .ok b → AloneOn m (f b) (f₀ b) gives) :
    AloneOn m (liftM x >>= f) (liftM x >>= f₀) gives := by
  cases x with
  | ok b => exact hf b rfl
  | error fault =>
    exact ⟨fun _ _ ↦ rfl, hm, refl_of Shelters m.heap, fun _ heq ↦ nomatch heq⟩

/-- A result that was computed without changing the machine. -/
theorem lift {x : Except Fault α} (hm : m.Domestic)
    (hx : ∀ a, x = .ok a → ∀ v ∈ gives a, m.heap.Domestic v) :
    AloneOn m (liftM x : Step σ α) (liftM x) gives := by
  cases x with
  | ok a => exact ⟨fun _ _ ↦ rfl, hm, refl_of Shelters m.heap, fun _ heq ↦ Except.ok.inj heq ▸ hx a rfl⟩
  | error fault => exact ⟨fun _ _ ↦ rfl, hm, refl_of Shelters m.heap, fun _ heq ↦ nomatch heq⟩

/-- Work that begins by looking at the machine, but not at its host. -/
theorem get_bind {f : Machine σ → Step σ α} {f₀ : Machine Unit → Step Unit α} {x : Step σ α}
    (hf : ∀ resolved host, f (m.hosted resolved host) = x) (h : AloneOn m x (f₀ m) gives) :
    AloneOn m (get >>= f) (get >>= f₀) gives := by
  refine ⟨fun resolved host ↦ ?_, h.domestic, h.shelters, h.gives⟩
  show (f (m.hosted resolved host)).on _ = _
  rw [hf]
  exact h.hosted resolved host

end AloneOn

theorem on_pop_eq (m : Machine σ) : pop.on m = match m.stack.back? with
    | none => (.error underflow, m)
    | some value => (.ok value, { m with stack := m.stack.pop }) := by
  simp only [pop, on_bind, on_get]
  rcases m.stack.back? with - | value <;> rfl

theorem on_peek_eq (m : Machine σ) : peek.on m = match m.stack.back? with
    | none => (.error underflow, m)
    | some value => (.ok value, m) := by
  simp only [peek, on_bind, on_get]
  rcases m.stack.back? with - | value <;> rfl

theorem stack_closeWindow (m : Machine σ) : (closeWindow.on m).2.stack = m.stack := by
  simp only [closeWindow, on_bind, on_get]
  split
  · rfl
  · rename_i start outer _
    by_cases h : m.stack.size < start <;> simp only [on_bind, on_set, h, ↓reduceIte] <;> rfl

theorem mem_of_mem_extract {values : Array Value} {start stop : Nat} {v : Value}
    (h : v ∈ values.extract start stop) : v ∈ values := by
  rw [← Array.mem_toList_iff, Array.toList_extract] at h
  exact Array.mem_toList_iff.mp (List.mem_of_mem_drop (List.mem_of_mem_take h))

theorem mem_of_mem_shrink {values : Array Value} {size : Nat} {v : Value}
    (h : v ∈ values.shrink size) : v ∈ values := by
  rw [Array.shrink_eq_take] at h
  exact mem_of_mem_extract h

theorem mem_of_mem_pop {values : Array Value} {v : Value} (h : v ∈ values.pop) : v ∈ values := by
  rw [← Array.mem_toList_iff, Array.toList_pop] at h
  exact Array.mem_toList_iff.mp ((List.dropLast_sublist _).subset h)

namespace Alone

variable {held : List Value} {gives : α → List Value}

theorem throw (fault : Fault) : Alone held (throw fault : Step σ α) (throw fault) gives :=
  fun m hm _ ↦ ⟨fun _ _ ↦ rfl, hm, refl_of Shelters m.heap, fun _ heq ↦ nomatch heq⟩

/-- Work that is done on the stack puts no values there but those held and those that were there. -/
theorem of_stack {x : Step σ α} {x₀ : Step Unit α} (hx : Hostfree x x₀) (hx₀ : Stackwise x₀)
    (hstack : ∀ m, ∀ v ∈ (x₀.on m).2.stack, v ∈ m.stack ∨ Entails held v)
    (hgives : ∀ m a, (x₀.on m).1 = .ok a → ∀ v ∈ gives a, v ∈ m.stack ∨ Entails held v) :
    Alone held x x₀ gives := by
  intro m hm hheld
  have hknown {v : Value} (hv : v ∈ m.stack ∨ Entails held v) : m.heap.Domestic v :=
    hv.elim (hm.stack v) fun hv ↦ hv m.heap hheld
  -- the heap is as it was, so nothing can have stopped being domestic
  have hstore := hx₀.store_eq m
  have hheap : (x₀.on m).2.heap = m.heap := congrArg (·.world.heap) hstore
  refine ⟨hx m, ⟨?_, ?_⟩, ?_, ?_⟩ <;> rw [hheap]
  · exact fun v hv ↦ hknown (hstack m v hv)
  · rw [hstore]
    exact hm.globals
  · exact refl_of Shelters m.heap
  · exact fun a ha v hv ↦ hknown (hgives m a ha v hv)

theorem pure {a : α} (ha : ∀ v ∈ gives a, v ∈ held) :
    Alone held (pure a : Step σ α) (pure a) gives := by
  refine .of_stack (.pure a) (.pure a) (fun _ _ ↦ .inl) fun _ _ heq v hv ↦ .inr fun _ hheld ↦ ?_
  obtain rfl := Except.ok.inj heq
  exact hheld v (ha v hv)

theorem lift (x : Except Fault α) :
    Alone held (liftM x : Step σ α) (liftM x) fun _ ↦ [] := by
  cases x with
  | ok a => exact .pure fun _ hv ↦ nomatch hv
  | error fault => exact .throw fault

theorem bind {x : Step σ α} {x₀ : Step Unit α} {f : α → Step σ β} {f₀ : α → Step Unit β}
    {gives' : β → List Value} (hx : Alone held x x₀ gives)
    (hf : ∀ a, Alone (held ++ gives a) (f a) (f₀ a) gives') :
    Alone held (x >>= f) (x₀ >>= f₀) gives' := by
  intro m hm hheld
  obtain ⟨hover, hdomestic, hshelters, hgives⟩ := hx m hm hheld
  rcases hx₀ : x₀.on m with ⟨fault | a, m'⟩ <;>
    simp only [hx₀] at hover hdomestic hshelters hgives
  · refine ⟨fun resolved host ↦ ?_, ?_, ?_, ?_⟩
    · rw [on_bind_error (hover resolved host), on_bind_error hx₀]
    · rw [on_bind_error hx₀]
      exact hdomestic
    · rw [on_bind_error hx₀]
      exact hshelters
    · rw [on_bind_error hx₀]
      exact fun _ heq ↦ nomatch heq
  · -- what was held before is still domestic, as the work shelters it
    have hheld' : ∀ v ∈ held ++ gives a, m'.heap.Domestic v := fun v hv ↦
      (List.mem_append.mp hv).elim (fun hv ↦ hshelters v (hheld v hv)) (hgives a rfl v)
    obtain ⟨hover', hdomestic', hshelters', hgives'⟩ := hf a m' hdomestic hheld'
    refine ⟨fun resolved host ↦ ?_, ?_, ?_, ?_⟩
    · rw [on_bind_ok (hover resolved host), on_bind_ok hx₀]
      exact hover' resolved host
    · rw [on_bind_ok hx₀]
      exact hdomestic'
    · rw [on_bind_ok hx₀]
      exact trans_of Shelters hshelters hshelters'
    · rw [on_bind_ok hx₀]
      exact hgives'

/-- Work that begins by looking at the heap. -/
theorem heap_bind {f : Heap → Step σ α} {f₀ : Heap → Step Unit α}
    (h : ∀ m : Machine Unit, m.Domestic → (∀ v ∈ held, m.heap.Domestic v) →
      AloneOn m (f m.heap) (f₀ m.heap) gives) : Alone held (heap >>= f) (heap >>= f₀) gives :=
  fun m hm hheld ↦ ⟨(h m hm hheld).hosted, (h m hm hheld).domestic, (h m hm hheld).shelters,
    (h m hm hheld).gives⟩

/-- Work on the heap that guards domestic values. -/
theorem onHeap {given : List Value} {action : HeapAction α} (h : HeapAction.Guarded given action gives)
    (hgiven : ∀ v ∈ given, v ∈ held) :
    Alone held (onHeap action : Step σ α) (onHeap action) gives := by
  intro m hm hheld
  obtain ⟨hshelters, hgives⟩ := h m.heap fun v hv ↦ hheld v (hgiven v hv)
  refine ⟨fun _ _ ↦ rfl, ⟨fun v hv ↦ ?_, fun name v hv ↦ ?_⟩, hshelters, hgives⟩
  · exact hshelters v (hm.stack v hv)
  · exact hshelters v (hm.globals name v hv)

/-! ### Pieces of instructions -/

theorem pop : Alone held (pop : Step σ Value) pop ([·]) := by
  refine .of_stack .pop .pop (fun m v hv ↦ .inl ?_) fun m a ha v hv ↦ .inl ?_
  · rw [on_pop_eq] at hv
    split at hv
    · exact hv
    · exact mem_of_mem_pop hv
  · obtain rfl := List.mem_singleton.mp hv
    rw [on_pop_eq] at ha
    split at ha
    · cases ha
    · rename_i hback
      exact Except.ok.inj ha ▸ Array.mem_of_getElem? hback

theorem peek : Alone held (peek : Step σ Value) peek ([·]) := by
  refine .of_stack .peek .peek (fun m v hv ↦ .inl ?_) fun m a ha v hv ↦ .inl ?_
  · rw [on_peek_eq] at hv
    split at hv <;> exact hv
  · obtain rfl := List.mem_singleton.mp hv
    rw [on_peek_eq] at ha
    split at ha
    · cases ha
    · rename_i hback
      exact Except.ok.inj ha ▸ Array.mem_of_getElem? hback

theorem discard (count : Nat) :
    Alone held (discard count : Step σ Unit) (discard count) fun _ ↦ [] := by
  refine .of_stack (.discard _) (.discard _) (fun m v hv ↦ .inl ?_) fun _ _ _ _ hv ↦ nomatch hv
  by_cases h : m.stack.size < count <;>
    simp only [Step.discard, on_bind, on_get, h, ↓reduceIte, on_throw, on_set] at hv
  · exact hv
  · exact mem_of_mem_shrink hv

theorem getLocal (slot : Nat) : Alone held (getLocal slot : Step σ Value) (getLocal slot) ([·]) := by
  refine .of_stack (.getLocal _) (.getLocal _) (fun m v hv ↦ .inl ?_) fun m a ha v hv ↦ .inl ?_
  · simp only [Step.getLocal, on_bind, on_get] at hv
    split at hv <;> exact hv
  · obtain rfl := List.mem_singleton.mp hv
    simp only [Step.getLocal, on_bind, on_get] at ha
    split at ha
    · cases ha
    · rename_i hfound
      exact Except.ok.inj ha ▸ Array.mem_of_getElem? hfound

theorem setLocal (slot : Nat) {value : Value} (hvalue : value ∈ held) :
    Alone held (setLocal slot value : Step σ Unit) (setLocal slot value) fun _ ↦ [] := by
  refine .of_stack (.setLocal _ _) (.setLocal _ _) (fun m v hv ↦ ?_) fun _ _ _ _ hv ↦ nomatch hv
  by_cases h : m.stack.size ≤ m.base + slot <;>
    simp only [Step.setLocal, on_bind, on_get, h, ↓reduceIte, on_throw, on_set] at hv
  · exact .inl hv
  · rcases Array.mem_or_eq_of_mem_setIfInBounds hv with hv | rfl
    · exact .inl hv
    · exact .inr fun _ hheld ↦ hheld v hvalue

theorem openWindow : Alone held (openWindow : Step σ Unit) openWindow fun _ ↦ [] :=
  .of_stack .openWindow .openWindow (fun _ _ ↦ .inl) fun _ _ _ _ hv ↦ nomatch hv

theorem closeWindow : Alone held (closeWindow : Step σ Nat) closeWindow fun _ ↦ [] := by
  refine .of_stack .closeWindow .closeWindow (fun m v hv ↦ .inl ?_) fun _ _ _ _ hv ↦ nomatch hv
  simp only [Step.closeWindow, on_bind, on_get] at hv
  split at hv
  · exact hv
  · rename_i start outer _
    by_cases h : m.stack.size < start <;> simp only [on_bind, on_set, h, ↓reduceIte] at hv <;> exact hv

theorem takeWindow :
    Alone held (takeWindow : Step σ (Array Value)) takeWindow fun values ↦ values.toList := by
  refine .bind .closeWindow fun start ↦ ?_
  refine .of_stack (.get_bind fun _ _ _ ↦ rfl) (.get_bind fun _ _ ↦ rfl) (fun m v hv ↦ .inl ?_)
    fun m a ha v hv ↦ .inl ?_
  · exact mem_of_mem_shrink hv
  · obtain rfl := Except.ok.inj ha
    exact mem_of_mem_extract (Array.mem_toList_iff.mp hv)

end Alone

end Step

namespace Engine

open Step Heap

variable (e : Engine σ) {held : List Value}

theorem alone_push {value : Value} (hvalue : Entails held value) :
    Alone held (e.push value) (e.hostless.push value) fun _ ↦ [] := by
  refine .of_stack (e.hostfree_push _) (e.hostless.stackwise_push _) (fun m v hv ↦ ?_)
    fun _ _ _ _ hv ↦ nomatch hv
  rw [on_push] at hv
  rcases Array.mem_push.mp hv with hv | rfl
  · exact .inl hv
  · exact .inr hvalue

/-- A value that has been held is pushed. -/
theorem alone_push_of_mem {value : Value} (hvalue : value ∈ held) :
    Alone held (e.push value) (e.hostless.push value) fun _ ↦ [] :=
  e.alone_push fun _ hheld ↦ hheld value hvalue

theorem alone_push_literal (l : Literal) :
    Alone held (e.push (.literal l)) (e.hostless.push (.literal l)) fun _ ↦ [] :=
  e.alone_push fun _ _ ↦ domestic_literal l

theorem alone_duplicate (count : Nat) :
    Alone held (e.duplicate count) (e.hostless.duplicate count) fun _ ↦ [] := by
  refine .of_stack (e.hostfree_duplicate _) (e.hostless.stackwise_duplicate _) (fun m v hv ↦ .inl ?_)
    fun _ _ _ _ hv ↦ nomatch hv
  by_cases h : m.stack.size < count
  · simp only [duplicate, on_bind, on_get, h, ↓reduceIte, on_throw] at hv
    exact hv
  · simp only [duplicate, checkStack, on_bind, on_get, h, ↓reduceIte, on_set, on_ite, on_throw,
      on_pure] at hv
    have hall : v ∈ m.stack ++ m.stack.extract (m.stack.size - count) m.stack.size := by
      split at hv <;> exact hv
    exact (Array.mem_append.mp hall).elim id mem_of_mem_extract

theorem alone_enter (name : String) (returnAddress : Nat) :
    Alone held (e.enter name returnAddress) (e.hostless.enter name returnAddress) fun _ ↦ [] := by
  refine .of_stack (e.hostfree_enter _ _) (e.hostless.stackwise_enter _ _) (fun m v hv ↦ .inl ?_)
    fun _ _ _ _ hv ↦ nomatch hv
  unfold enter at hv
  split at hv
  · exact hv
  · rename_i f _
    rw [on_bind] at hv
    have hstack := stack_closeWindow m
    rcases hclose : closeWindow.on m with ⟨fault | start, m'⟩ <;> rw [hclose] at hv hstack
    · exact hstack ▸ hv
    · dsimp only at hv hstack
      rw [← hstack]
      by_cases hgiven : m'.stack.size - start = f.arity
      · by_cases hdepth : e.hostless.limits.depth ≤ m'.frames.size <;>
          simp only [on_bind, on_get, hgiven, hdepth, ne_eq, not_true_eq_false, ↓reduceIte, on_throw,
            on_set, on_pure] at hv <;> exact hv
      · simp only [on_bind, on_get, hgiven, ne_eq, not_false_eq_true, ↓reduceIte, on_throw] at hv
        exact hv

theorem alone_leave : Alone held e.leave e.hostless.leave fun _ ↦ [] := by
  refine .of_stack e.hostfree_leave e.hostless.stackwise_leave (fun m v hv ↦ .inl ?_)
    fun _ _ _ _ hv ↦ nomatch hv
  rw [leave, on_bind, on_pop_eq] at hv
  rcases hback : m.stack.back? with - | value <;> simp only [hback] at hv
  · exact hv
  · rw [on_bind, on_get] at hv
    dsimp only at hv
    rcases hframe : m.frames.back? with - | frame <;> simp only [hframe] at hv
    · exact mem_of_mem_pop hv
    · have hpushed : v ∈ (m.stack.pop.shrink m.base).push value := by
        simp only [on_bind, on_set, on_push] at hv
        split at hv <;> (rename_i heq; obtain ⟨-, rfl⟩ := Prod.mk.inj heq; exact hv)
      rcases Array.mem_push.mp hpushed with hv | rfl
      · exact mem_of_mem_pop (mem_of_mem_shrink hv)
      · exact Array.mem_of_getElem? hback

/-- The value of a global, if it has one. -/
theorem alone_pushGlobal (name : String) :
    Alone held (do
      match (← get).store.globals.get? name with
      | some value => e.push value
      | none => MonadExcept.throw (.undefinedGlobal name) : Step σ Unit) (do
      match (← get).store.globals.get? name with
      | some value => e.hostless.push value
      | none => MonadExcept.throw (.undefinedGlobal name) : Step Unit Unit) fun _ ↦ [] := by
  intro m hm hheld
  have hfound : AloneOn m
      (match m.store.globals.get? name with
        | some value => e.push value
        | none => MonadExcept.throw (.undefinedGlobal name))
      (match m.store.globals.get? name with
        | some value => e.hostless.push value
        | none => MonadExcept.throw (.undefinedGlobal name)) fun _ ↦ [] := by
    rcases hvalue : m.store.globals.get? name with - | value
    · exact Alone.throw _ m hm hheld
    · exact e.alone_push_of_mem (List.mem_singleton_self value) m hm
        (List.forall_mem_singleton.mpr (hm.globals name value hvalue))
  exact .get_bind (fun _ _ ↦ rfl) hfound

theorem alone_setGlobal (name : String) {value : Value} (hvalue : value ∈ held) :
    Alone held (setGlobal name value : Step σ Unit) (setGlobal name value) fun _ ↦ [] := by
  refine fun m hm hheld ↦ ⟨fun _ _ ↦ rfl, ⟨hm.stack, fun other v hv ↦ ?_⟩, refl_of Shelters m.heap,
    fun _ _ _ hv ↦ nomatch hv⟩
  rcases Globals.get?_set hv with rfl | hv
  · exact hheld v hvalue
  · exact hm.globals other v hv

/-- The members of domestic values are built in. -/
theorem hasBuiltins_of_domestic {h : Heap} {v : Value} (hv : h.Domestic v) :
    h.hasBuiltins v = true := by
  cases v with
  | object r => exact hv.isHelper
  | literal | list => rfl

theorem alone_callMethod {receiver : Value} {method : String} {args : List Value}
    (hreceiver : receiver ∈ held) (hargs : ∀ v ∈ args, v ∈ held) :
    Alone held (e.callMethod receiver method args) (e.hostless.callMethod receiver method args)
      ([·]) := by
  -- the receiver has built-in members, so that the host is not asked whatever the method is called
  refine .heap_bind fun m hm hheld ↦ ?_
  rw [hasBuiltins_of_domestic (hheld receiver hreceiver)]
  have hcall : Alone held (onHeap (Builtin.call receiver method args) : Step σ Value)
      (onHeap (Builtin.call receiver method args)) ([·]) :=
    .onHeap (.call receiver method args) (List.forall_mem_cons.mpr ⟨hreceiver, hargs⟩)
  cases receiver <;> exact hcall m hm hheld

theorem alone_getField {receiver : Value} {field : String} (hreceiver : receiver ∈ held) :
    Alone held (e.getField receiver field) (e.hostless.getField receiver field) ([·]) := by
  refine .heap_bind fun m hm hheld ↦ ?_
  have hdomestic := hheld receiver hreceiver
  rw [hasBuiltins_of_domestic hdomestic]
  have hfield : AloneOn m (liftM (Builtin.getField m.heap receiver field) : Step σ Value)
      (liftM (Builtin.getField m.heap receiver field)) ([·]) :=
    .lift hm fun v hv ↦ List.forall_mem_singleton.mpr (domestic_getField hdomestic hv)
  cases receiver <;> exact hfield

theorem alone_setField {receiver value : Value} {field : String} (hreceiver : receiver ∈ held) :
    Alone held (e.setField receiver field value) (e.hostless.setField receiver field value)
      fun _ ↦ [] := by
  refine .heap_bind fun m hm hheld ↦ ?_
  rw [hasBuiltins_of_domestic (hheld receiver hreceiver)]
  have hrefuse : Alone held
      (MonadExcept.throw (.memberNotFound receiver.typeName field) : Step σ Unit)
      (MonadExcept.throw (.memberNotFound receiver.typeName field)) fun _ ↦ [] := .throw _
  cases receiver <;> exact hrefuse m hm hheld

theorem alone_jumpIf (wanted : Bool) (target : Nat) :
    Alone held (jumpIf wanted target : Step σ Flow) (jumpIf wanted target) fun _ ↦ [] := by
  refine .bind .pop fun condition ↦ ?_
  rcases condition.asBool? with - | given
  · exact .throw _
  · exact .pure fun _ hv ↦ nomatch hv

/-! ### Instructions -/

/-- Instructions that do not ask for a type of the host, and carry nothing but literals along, go on to
the next one without a host. -/
theorem alone_perform {i : Instruction} (hop : i.op ∉ Operation.asking)
    (hliteral : ∀ v, i.operand = .literal v → v.isLiteral = true) :
    Alone [] (e.perform i) (e.hostless.perform i) fun _ ↦ [] := by
  obtain ⟨op, operand, line⟩ := i
  cases op with
  | push =>
    rcases operand with - | v | - | - | - | -
    case literal =>
      obtain ⟨l, rfl⟩ : ∃ l, v = .literal l := by
        have hv := hliteral v rfl
        cases v with
        | literal l => exact ⟨l, rfl⟩
        | list | object => cases hv
      exact e.alone_push_literal l
    all_goals exact .throw _
  | pop => exact .discard _
  | dup => exact e.alone_duplicate _
  | pushLocal => exact .bind (.getLocal _) fun v ↦ e.alone_push_of_mem (by simp)
  | setLocal => exact .bind .peek fun v ↦ .setLocal _ (by simp)
  | pushGlobal => exact e.alone_pushGlobal _
  | setGlobal => exact .bind .peek fun v ↦ alone_setGlobal _ (by simp)
  | makeList =>
    exact .bind .takeWindow fun items ↦ .bind (.onHeap (.newList items) (by simp)) fun v ↦
      e.alone_push_of_mem (by simp)
  | pushElement =>
    refine .bind .pop fun index ↦ .bind .pop fun target ↦ .heap_bind fun m hm hheld ↦
      .lift_bind hm fun v hv ↦ ?_
    have hdomestic : m.heap.Domestic v := domestic_element (hheld target (by simp)) hv
    exact e.alone_push_of_mem (List.mem_singleton_self v) m hm
      (List.forall_mem_singleton.mpr hdomestic)
  | setElement | setElementCached =>
    exact .bind .pop fun v ↦ .bind .pop fun index ↦ .bind .pop fun target ↦
      .bind (.onHeap (.setElement target index v) (by simp)) fun _ ↦ e.alone_push_of_mem (by simp)
  | binary op =>
    exact .bind .pop fun right ↦ .bind .pop fun left ↦ .bind (.lift _) fun l ↦ e.alone_push_literal l
  | invert => exact .bind .pop fun v ↦ .bind (.lift _) fun l ↦ e.alone_push_literal l
  | openWindow => exact .openWindow
  | callMethod =>
    exact .bind .takeWindow fun args ↦ .bind .pop fun receiver ↦
      .bind (e.alone_callMethod (by simp) fun v hv ↦ by simp [Array.mem_toList_iff.mp hv]) fun v ↦
        e.alone_push_of_mem (by simp)
  | pushField =>
    exact .bind .pop fun receiver ↦ .bind (e.alone_getField (by simp)) fun v ↦
      e.alone_push_of_mem (by simp)
  | setField =>
    exact .bind .pop fun v ↦ .bind .pop fun receiver ↦ .bind (e.alone_setField (by simp)) fun _ ↦
      e.alone_push_of_mem (by simp)
  | construct | callStatic | pushStaticField | setStaticField =>
    exact absurd (by simp [Operation.asking]) hop
  | jump | jumpIfFalse | jumpIfTrue | call | giveBack => exact .pure fun _ hv ↦ nomatch hv

/-- Such instructions are carried out without a host. -/
theorem alone_step {i : Instruction} (hop : i.op ∉ Operation.asking)
    (hliteral : ∀ v, i.operand = .literal v → v.isLiteral = true) (address : Nat) :
    Alone [] (e.step i address) (e.hostless.step i address) fun _ ↦ [] := by
  have hperform := e.alone_perform hop hliteral
  unfold step
  split
  · exact .pure fun _ hv ↦ nomatch hv
  · exact alone_jumpIf _ _
  · exact alone_jumpIf _ _
  · exact e.alone_enter _ _
  · exact e.alone_leave
  · exact .bind hperform fun _ ↦ .pure fun _ hv ↦ nomatch hv

end Engine

end StackScript
