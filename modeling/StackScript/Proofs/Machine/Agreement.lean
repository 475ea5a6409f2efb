import StackScript.Proofs.Machine.Control
import StackScript.Proofs.Machine.Strict

/-!
# Where the strict machine agrees

`Strict.Agrees P x y` says of strict work `x` that on machines with `P` it does not break off, and does what
the work `y` of the machine does. That is kept by sequencing as long as `y` keeps `P`.

Most work agrees on all machines, since it checks its operands by itself. Only two pieces rely on more. The
number of a slot is added to the base of the running function before anything is checked, and what stands
above that base is dropped when the function is left. Both are safe as long as no function has been entered
(`Machine.Grounded`). In a program without functions none ever is, whatever the code
(`Engine.Made.grounded`), so the strict machine runs such a program as the machine does
(`Strict.finish_eq`).
-/

namespace StackScript

variable {σ α β : Type}

/-! ### What is checked -/

/-- A position in a row is before its end. -/
theorem Value.lt_of_position {index : Value} {length i : Nat} (h : index.position length = .ok i) :
    i < length := by
  unfold Value.position at h
  split at h
  · unfold StackScript.position at h
    split at h <;> cases h
    omega
  · cases h

namespace Heap

/-- To change the elements of a list is to replace them. -/
theorem modifyList_eq (h : Heap) (r : ListRef) (f : Array Value → Array Value) :
    h.modifyList r f = h.modifyList r fun _ ↦ f (h.items r) := by
  obtain ⟨lists, objects⟩ := h
  simp only [modifyList, items, Heap.mk.injEq, and_true]
  refine Array.ext (by simp) fun i hi hi' ↦ ?_
  simp only [Array.getElem_modify]
  split
  · rename_i heq
    subst heq
    have hlt : r.index < lists.size := by simpa using hi
    simp [hlt]
  · rfl

theorem run_setElement (r : ListRef) (index value : Value) (h : Heap) :
    (setElement (.list r) index value).run.run h = match index.position (h.items r).size with
      | .error fault => (.error fault, h)
      | .ok i => (.ok ⟨⟩, h.modifyList r (·.setIfInBounds i value)) := by
  show (do
    let i ← index.position (h.items r).size
    modify (·.modifyList r (·.setIfInBounds i value)) : HeapAction Unit).run.run h = _
  rcases index.position (h.items r).size with fault | i <;> rfl

end Heap

namespace Step

theorem on_onHeap (action : HeapAction α) (m : Machine σ) :
    (onHeap action).on m = ((action.run.run m.store.world.heap).1,
      { m with store.world.heap := (action.run.run m.store.world.heap).2 }) :=
  rfl

/-- A window that can be closed begins on the stack. -/
theorem le_of_closeWindow_ok {m m' : Machine σ} {start : Nat}
    (h : closeWindow.on m = (.ok start, m')) : start ≤ m'.stack.size := by
  rw [closeWindow, on_bind, on_get] at h
  dsimp only at h
  split at h
  · cases h
  · obtain ⟨hle, h⟩ := ok_of_guard (x := pure _) h
    cases h
    exact Nat.le_of_not_lt hle

end Step

/-! ### Machines on which no function has been entered -/

/-- A machine on which no function has been entered, so that its locals begin at the bottom of the stack. -/
structure Machine.Grounded (m : Machine σ) : Prop where
  base : m.base = 0
  frames : m.frames = #[]

namespace Engine

open Step Machine

variable {e : Engine σ}

theorem grounded_pop : Preserves Grounded (pop : Step σ Value) := by
  refine .get_bind fun m hm a m' h ↦ ?_
  split at h <;> cases h
  exact ⟨hm.base, hm.frames⟩

theorem grounded_takeWindow : Preserves Grounded (takeWindow : Step σ (Array Value)) := by
  refine .bind (.get_bind fun m hm a m' h ↦ ?_) fun start ↦ .get_bind fun m hm a m' h ↦ ?_
  · split at h
    · cases h
    · obtain ⟨-, h⟩ := ok_of_guard h
      cases h
      exact ⟨hm.base, hm.frames⟩
  · cases h
    exact ⟨hm.base, hm.frames⟩

theorem grounded_checkStack : Preserves Grounded e.checkStack := by
  refine .get_bind fun m hm a m' h ↦ ?_
  split at h <;> cases h
  exact hm

theorem grounded_push (value : Value) : Preserves Grounded (e.push value) := by
  refine .bind (fun m hm a m' h ↦ ?_) fun _ ↦ grounded_checkStack
  cases h
  exact ⟨hm.base, hm.frames⟩

theorem StackPiece.grounded (hfree : e.program.functions = []) {x : Step σ α} (h : e.StackPiece x) :
    Preserves Grounded x := by
  cases h with
  | throw _ => exact .throw _
  | pop => exact grounded_pop
  | peek | getLocal =>
    refine .get_bind fun m hm a m' h ↦ ?_
    split at h <;> cases h
    exact hm
  | discard | setLocal =>
    refine .get_bind fun m hm a m' h ↦ ?_
    obtain ⟨-, h⟩ := ok_of_guard h
    cases h
    exact ⟨hm.base, hm.frames⟩
  | openWindow =>
    intro m hm a m' h
    cases h
    exact ⟨hm.base, hm.frames⟩
  | takeWindow => exact grounded_takeWindow
  | push value => exact grounded_push value
  | duplicate count =>
    refine .get_bind fun m hm a m' h ↦ ?_
    obtain ⟨-, h⟩ := ok_of_guard h
    rw [on_bind, on_set] at h
    refine grounded_checkStack _ ?_ a m' h
    exact ⟨hm.base, hm.frames⟩
  -- there is no function to enter
  | enter name returnAddress =>
    intro m hm a m' h
    rw [e.on_enter_none returnAddress (by simp [Program.function?, hfree])] at h
    cases h
  -- nobody called the function that is left
  | leave =>
    refine .bind grounded_pop fun result ↦ .get_bind fun m hm a m' h ↦ ?_
    rw [hm.frames] at h
    cases h
    exact hm

theorem MemoryPiece.grounded {x : Step σ α} (h : e.MemoryPiece x) : Preserves Grounded x := by
  intro m hm a m' hx
  rw [h.aside.on_eq] at hx
  obtain ⟨-, rfl⟩ := Prod.mk.inj hx
  exact ⟨hm.base, hm.frames⟩

/-- A program without functions never enters one. -/
theorem Made.grounded (hfree : e.program.functions = []) {x : Step σ α} (h : e.Made x) :
    Preserves Grounded x := by
  induction h with
  | pure a => exact .pure a
  | bind _ _ hx hf => exact hx.bind hf
  | stack h => exact h.grounded hfree
  | memory h => exact h.grounded

end Engine

/-! ### Agreement -/

namespace Strict

open Step (Preserves)
open Engine (Made Progress)

/-- On machines with `P`, strict work does not break off and does what other work does. -/
def Agrees (P : Machine σ → Prop) (x : Strict σ α) (y : Step σ α) : Prop :=
  ∀ m, P m → x.on m = some (y.on m)

namespace Agrees

variable {P : Machine σ → Prop}

theorem total (x : Step σ α) : Agrees P (total x) x :=
  fun _ _ ↦ rfl

theorem lift (x : Except Fault α) : Agrees P (liftM x : Strict σ α) (liftM x) := by
  intro m _
  rw [on_except, Step.on_lift]

theorem bind {x : Strict σ α} {y : Step σ α} {f : α → Strict σ β} {g : α → Step σ β}
    (h : Agrees P x y) (hy : Preserves P y) (hf : ∀ a, Agrees P (f a) (g a)) :
    Agrees P (x >>= f) (y >>= g) := by
  intro m hm
  rw [on_bind, Step.on_bind, h m hm, Option.bind_some]
  rcases hx : y.on m with ⟨fault | a, m'⟩
  · rfl
  · exact hf a m' (hy m hm a m' hx)

/-- Strict work in the midst of work that is the same. -/
theorem total_bind {y : Step σ α} {f : α → Strict σ β} {g : α → Step σ β} (hy : Preserves P y)
    (hf : ∀ a, Agrees P (f a) (g a)) : Agrees P (Strict.total y >>= f) (y >>= g) :=
  .bind (.total y) hy hf

end Agrees

/-! ### Values on the stack -/

section

variable {P : Machine σ → Prop}

theorem agrees_discard (count : Nat) : Agrees P (discard count) (Step.discard count) := by
  intro m _
  by_cases h : m.stack.size < count
  · simp [discard, Step.discard, on_bind, Step.on_bind, h]
  · have hle : count ≤ m.stack.size := Nat.le_of_not_lt h
    simp [discard, Step.discard, on_bind, Step.on_bind, h, difference?_of_le hle,
      cut?_of_le (Nat.sub_le m.stack.size count)]

theorem agrees_duplicate (e : Engine σ) (count : Nat) :
    Agrees P (duplicate e count) (e.duplicate count) := by
  intro m _
  by_cases h : m.stack.size < count
  · simp [duplicate, Engine.duplicate, on_bind, Step.on_bind, h]
  · have hle : count ≤ m.stack.size := Nat.le_of_not_lt h
    simp [duplicate, Engine.duplicate, on_bind, Step.on_bind, h, difference?_of_le hle,
      cut?_of_le (Nat.sub_le m.stack.size count)]

/-- A window that can be closed begins on the stack. -/
theorem agrees_takeWindow : Agrees P (takeWindow : Strict σ (Array Value)) Step.takeWindow := by
  intro m _
  simp only [takeWindow, Step.takeWindow, on_bind, Step.on_bind, on_total, Option.bind_some]
  rcases hx : Step.closeWindow.on m with ⟨fault | start, m'⟩
  · rfl
  · simp [cut?_of_le (Step.le_of_closeWindow_ok hx)]

/-- A slot of a grounded machine has a position, whether there is a value or not. -/
theorem sum?_base {m : Machine σ} (hm : m.Grounded) {slot : Nat} (hslot : slot < UInt64.size) :
    sum? m.base slot = some (m.base + slot) :=
  sum?_of_lt (by rw [hm.base]; omega)

theorem agrees_getLocal {slot : Nat} (hslot : slot < UInt64.size) :
    Agrees Machine.Grounded (getLocal slot : Strict σ Value) (Step.getLocal slot) := by
  intro m hm
  have hsum := sum?_base hm hslot
  rcases hx : m.stack[m.base + slot]? with _ | value <;>
    simp [getLocal, Step.getLocal, on_bind, Step.on_bind, hsum, hx]

theorem agrees_setLocal {slot : Nat} (hslot : slot < UInt64.size) (value : Value) :
    Agrees Machine.Grounded (setLocal slot value : Strict σ Unit) (Step.setLocal slot value) := by
  intro m hm
  have hsum := sum?_base hm hslot
  by_cases h : m.stack.size ≤ m.base + slot
  · simp [setLocal, Step.setLocal, on_bind, Step.on_bind, hsum, h]
  · simp [setLocal, Step.setLocal, on_bind, Step.on_bind, hsum, h,
      replace?_of_lt (Nat.lt_of_not_le h)]

/-! ### Integers and elements -/

theorem on_divide (left right : Value) (m : Machine σ) :
    (divide left right).on m = some (left.div right, m) := by
  unfold divide
  split
  · rename_i k n
    by_cases h : n = 0
    · simp [Value.div, h]
    · simp [Value.div, h, quotient?_of_ne h, Except.map]
  · exact on_except _ _

theorem on_element (h : Heap) (target index : Value) (m : Machine σ) :
    (element h target index).on m = some (h.element target index, m) := by
  unfold element
  split
  · rename_i r
    rw [on_bind, on_except, Heap.element, Option.bind_some]
    rcases hi : index.position (h.items r).size with fault | i
    · rfl
    · show on (liftM (h.items r)[i]?) m = some (.ok ((h.items r)[i]?.getD .null), m)
      rw [Array.getElem?_eq_getElem (Value.lt_of_position hi)]
      rfl
  · exact on_except _ _

theorem agrees_setElement (target index value : Value) :
    Agrees P (setElement target index value : Strict σ Unit)
      (Step.onHeap (Heap.setElement target index value)) := by
  intro m _
  cases target with
  | list r =>
    have hheap : Step.heap.on m = (.ok m.store.world.heap, m) := rfl
    rw [Step.on_onHeap, Heap.run_setElement, setElement, on_bind, on_total, hheap, Option.bind_some]
    dsimp only
    rw [on_bind, on_except, Option.bind_some]
    rcases hi : index.position (m.store.world.heap.items r).size with fault | i
    · rfl
    · dsimp only
      rw [on_bind, on_option, replace?_of_lt (Value.lt_of_position hi), Heap.modifyList_eq]
      rfl
  | literal l => rfl
  | object r => rfl

end

/-! ### Instructions -/

variable {e : Engine σ}

theorem agrees_operate (hfree : e.program.functions = []) (op : BinaryOp) :
    Agrees Machine.Grounded (operate e op) (e.operate op) := by
  refine .total_bind Engine.grounded_pop fun right ↦ .total_bind Engine.grounded_pop fun left ↦ ?_
  have hresult := (Made.lift_ordinary (e := e) (op.ordinary_apply left right)).grounded hfree
  cases op with
  | div => exact .bind (fun m _ ↦ on_divide left right m) hresult fun _ ↦ .total _
  | _ => exact .bind (.lift _) hresult fun _ ↦ .total _

theorem agrees_perform (hfree : e.program.functions = []) {i : Instruction}
    (hcount : i.count < UInt64.size) : Agrees Machine.Grounded (perform e i) (e.perform i) := by
  have keep {α : Type} {x : Step σ α} (h : e.Made x) : Preserves Machine.Grounded x :=
    h.grounded hfree
  obtain ⟨op, operand, line⟩ := i
  cases op with
  | pop => exact agrees_discard _
  | dup => exact agrees_duplicate e _
  | pushLocal =>
    exact .bind (agrees_getLocal hcount) (keep (.stack (.getLocal _))) fun value ↦ .total _
  | setLocal => exact .total_bind (keep .peek) fun value ↦ agrees_setLocal hcount value
  | makeList =>
    exact .bind agrees_takeWindow (keep .takeWindow) fun items ↦
      .total_bind (keep (.memory (.newList items))) fun value ↦ .total _
  | pushElement =>
    exact .total_bind (keep .pop) fun index ↦ .total_bind (keep .pop) fun target ↦
      .total_bind (keep (.memory .heap)) fun h ↦
        .bind (fun m _ ↦ on_element h target index m)
          (keep (.lift_ordinary (h.ordinary_element target index))) fun value ↦ .total _
  | setElement | setElementCached =>
    exact .total_bind (keep .pop) fun value ↦ .total_bind (keep .pop) fun index ↦
      .total_bind (keep .pop) fun target ↦ .bind (agrees_setElement target index value)
        (keep (.memory (.setElement target index value))) fun _ ↦ .total _
  | binary op => exact agrees_operate hfree op
  | construct =>
    exact .bind agrees_takeWindow (keep .takeWindow) fun args ↦
      .total_bind (keep (.construct _ _)) fun value ↦ .total _
  | callStatic =>
    exact .bind agrees_takeWindow (keep .takeWindow) fun args ↦
      .bind (.lift _) (keep (.splitMember _)) fun parts ↦ .total_bind (keep (.resolve _)) fun handle ↦
        .total_bind (keep (.memory (.ask (.invoke _ _ _)))) fun value ↦ .total _
  | callMethod =>
    exact .bind agrees_takeWindow (keep .takeWindow) fun args ↦ .total_bind (keep .pop) fun receiver ↦
      .total_bind (keep (.callMethod _ _ _)) fun value ↦ .total _
  | _ => exact .total _

/-- Nobody called the function that is left. -/
theorem agrees_leave : Agrees Machine.Grounded (leave e) e.leave := by
  refine .total_bind Engine.grounded_pop fun result m hm ↦ ?_
  simp [on_bind, Step.on_bind, hm.frames]

/-- Instructions of a program without functions apply no operation outside its domain, whatever their operands
are. -/
theorem agrees_step (hfree : e.program.functions = []) {i : Instruction}
    (hcount : i.count < UInt64.size) (address : Nat) :
    Agrees Machine.Grounded (step e i address) (e.step i address) := by
  have hplain : Agrees Machine.Grounded (do perform e i; return Flow.next)
      (do e.perform i; return Flow.next) :=
    .bind (agrees_perform hfree hcount) ((e.made_perform i).grounded hfree)
      fun _ _ _ ↦ rfl
  obtain ⟨op, operand, line⟩ := i
  cases op with
  | jump | jumpIfFalse | jumpIfTrue => exact .total _
  | call =>
    intro m _
    have hnone : e.program.function? (Instruction.name ⟨.call, operand, line⟩) = none := by
      simp [Program.function?, hfree]
    simp [step, enter, Engine.step, Engine.enter, hnone]
  | giveBack => exact agrees_leave
  | _ => exact hplain

/-! ### Runs -/

theorem agrees_attempt (hfree : e.program.functions = []) {i : Instruction}
    (hcount : i.count < UInt64.size) (address done : Nat) :
    Agrees Machine.Grounded (attempt e i address (done + 1)) (e.attempt i address done) := by
  have hstep := agrees_step hfree hcount address
  unfold attempt Engine.attempt
  rcases e.limits.steps with _ | limit
  · exact hstep
  · by_cases h : limit ≤ done
    · simp only [h, Nat.lt_succ_iff, ↓reduceIte]
      exact fun _ _ ↦ rfl
    · simp only [h, Nat.lt_succ_iff, ↓reduceIte]
      exact hstep

/-- A run of a program without functions goes on strictly as it goes on. -/
theorem advance_eq (hfree : e.program.functions = []) (hcode : Storable e.program.code)
    {p : Progress σ} (hp : p.machine.Grounded) (hdone : p.done + 1 < UInt64.size) :
    advance e p = some (e.advance p) := by
  rcases hi : e.program.code[p.address]? with _ | i
  · rw [advance, hi, e.advance_outside hi]
  · have haddress : p.address + 1 < UInt64.size := by
      obtain ⟨hlt, -⟩ := Array.getElem?_eq_some_iff.mp hi
      have := hcode.size
      omega
    have hattempt := agrees_attempt hfree (hcode.counts i (Array.mem_of_getElem? hi)) p.address
      p.done p.machine hp
    rw [advance, hi, e.advance_eq hi]
    simp only [sum?_of_lt hdone, sum?_of_lt haddress, Option.bind_eq_bind, Option.bind_some, hattempt]
    rcases (e.attempt i p.address p.done).on p.machine with ⟨fault | ⟨_ | target | value⟩, m⟩ <;> rfl

/-- A program without functions runs on the strict machine as on the machine, as long as its instructions can
be counted in a machine word. -/
theorem finish_eq (hfree : e.program.functions = []) (hcode : Storable e.program.code) {fuel : Nat}
    {p : Progress σ} (hp : p.machine.Grounded) (hdone : p.done + fuel < UInt64.size) :
    finish e fuel p = e.finish fuel p := by
  induction fuel generalizing p with
  | zero => rfl
  | succ fuel ih =>
    rw [finish, Engine.finish, advance_eq hfree hcode hp (by omega)]
    rcases hadvance : e.advance p with o | q
    · rfl
    · have hq : q.machine.Grounded :=
        Engine.preserves_advances (k := 1) (fun i address ↦ (e.made_step i address).grounded hfree)
          hp ((Engine.advances_one p).trans hadvance)
      have hcounted := e.advance_done hadvance
      exact ih hq (by omega)

end Strict

end StackScript
