import StackScript.Proofs.Machine.Reach
import StackScript.Proofs.Reference.Slots

/-!
# Following an evaluation

Evaluation and run are compared through assertions about a scene and a place of the run. A run *follows*
an evaluation from one assertion to another (`Follows`) if it reaches a place for the second one whenever
the evaluation yields a value, and stops with the same fault and the same memory whenever that fails.

The assertion that all others are made of is `Floor.At`: the run is at an address, the values of the
locals in scope are on the stack, and above them temporary values and open windows.
-/

namespace StackScript

variable {σ α β : Type}

/-! ### Stacks -/

/-- What lies below the running function and stays there while it runs: the values of its callers, their
windows and their frames. -/
structure Floor where
  stack : Array Value
  windows : List Nat
  frames : Array Frame

namespace Floor

variable (k : Floor)

/-- The stack with values of locals, innermost first, and temporary values above them. -/
def above (values temps : List Value) : Array Value := k.stack ++ (values.reverse ++ temps).toArray

/-- The machine with these on its stack. -/
def machine (values temps : List Value) (inner : List Nat) (mem : Memory σ) : Machine σ :=
  ⟨k.above values temps, k.stack.size, inner ++ k.windows, k.frames, mem.resolved, mem.store⟩

theorem above_append (values temps args : List Value) :
    k.above values (temps ++ args) = k.above values temps ++ args.toArray := by
  simp [above]

theorem above_push (values temps : List Value) (v : Value) :
    k.above values (temps ++ [v]) = (k.above values temps).push v := by
  simp [above]

theorem size_above (values temps : List Value) :
    (k.above values temps).size = k.stack.size + values.length + temps.length := by
  simp [above, Nat.add_assoc]

end Floor

/-! ### Assertions -/

/-- An assertion about a scene and a place of a run. -/
abbrev Assertion (σ : Type) := Scene σ → Nat × Machine σ → Prop

/-- The run is at an address, with the values of the locals in their slots and with temporary values
above them. -/
def Floor.At (k : Floor) (slots : List Slot) (temps : List Value) (inner : List Nat) (a : Nat) :
    Assertion σ :=
  fun s q ↦ ∃ values, Fills slots s.locals values ∧ q = (a, k.machine values temps inner s.memory)

/-- Where a window begins that is opened over temporary values. -/
def Floor.height (k : Floor) (slots : List Slot) (temps : List Value) : Nat :=
  k.stack.size + slots.length + temps.length

theorem Floor.size_over_of_fills (k : Floor) {slots : List Slot} {locals : List (String × Value)}
    {values : List Value} (h : Fills slots locals values) (temps : List Value) :
    (k.above values temps).size = k.height slots temps := by
  rw [k.size_above, h.length_eq, Floor.height]

namespace Evaluation

theorem run_bind (x : Evaluation σ α) (f : α → Evaluation σ β) (s : Scene σ) :
    (x >>= f).run.run s = match x.run.run s with
      | some (.ok a, s') => (f a).run.run s'
      | some (.error fault, s') => some (.error fault, s')
      | none => none := by
  rw [ExceptT.run_bind, StateT.run_bind]
  rcases x.run.run s with _ | ⟨fault | a, s'⟩ <;> rfl

/-- What comes next may look at the scene. -/
theorem run_get_bind (f : Scene σ → Evaluation σ β) (s : Scene σ) :
    (get >>= f).run.run s = (f s).run.run s := by
  rw [run_bind]
  rfl

theorem run_modify (f : Scene σ → Scene σ) (s : Scene σ) :
    (modify f : Evaluation σ PUnit).run.run s = some (.ok ⟨⟩, f s) :=
  rfl

theorem run_onMemory (x : Step σ α) (s : Scene σ) : (onMemory x).run.run s =
    some ((x.onBare s.memory).1, { s with memory := (x.onBare s.memory).2 }) :=
  rfl

theorem run_calling (call : Memory σ → Option (Except Fault Value × Memory σ)) (s : Scene σ) :
    (calling call).run.run s =
      (call s.memory).map fun r ↦ (r.1, { s with memory := r.2 }) :=
  rfl

end Evaluation

open Evaluation

namespace Engine

/-- The run comes from any place of the one assertion to one of the other. -/
def Leads (e : Engine σ) (pre post : Assertion σ) : Prop :=
  ∀ s q, pre s q → ∃ q', post s q' ∧ e.Reaches q q'

/-- The run follows an evaluation. -/
def Follows (e : Engine σ) (pre : Assertion σ) (x : Evaluation σ α) (post : α → Assertion σ) : Prop :=
  ∀ s q, pre s q → ∀ r s', x.run.run s = some (r, s') →
    match r with
    | .ok a => ∃ q', post a s' q' ∧ e.Reaches q q'
    | .error fault => e.Stops q (.error fault) s'.memory

variable {e : Engine σ} {pre pre' middle : Assertion σ} {x : Evaluation σ α}
  {post post' : α → Assertion σ}

namespace Follows

/-! ### Rules of sequencing -/

theorem pure {a : α} (h : ∀ s q, pre s q → post a s q) : e.Follows pre (pure a) post := by
  intro s q hpre r s' hrun
  obtain ⟨rfl, rfl⟩ := Prod.mk.inj (Option.some.inj hrun)
  exact ⟨q, h s q hpre, .refl q⟩

theorem bind {f : α → Evaluation σ β} {last : β → Assertion σ} (hx : e.Follows pre x post)
    (hf : ∀ a, e.Follows (post a) (f a) last) : e.Follows pre (x >>= f) last := by
  intro s q hpre r s' hrun
  rw [run_bind] at hrun
  have hfirst := hx s q hpre
  rcases hr : x.run.run s with _ | ⟨fault | a, s₁⟩ <;> rw [hr] at hrun
  · cases hrun
  · cases hrun
    exact hfirst _ _ hr
  · obtain ⟨q₁, hpost, hreaches⟩ := hfirst _ _ hr
    have hsecond := hf a s₁ q₁ hpost r s' hrun
    rcases r with fault | b
    · exact hreaches.stops hsecond
    · obtain ⟨q₂, hlast, hreaches'⟩ := hsecond
      exact ⟨q₂, hlast, hreaches.trans hreaches'⟩

/-- The run may go ahead of the evaluation. -/
theorem before (h : e.Leads pre middle) (hx : e.Follows middle x post) : e.Follows pre x post := by
  intro s q hpre r s' hrun
  obtain ⟨q₁, hmiddle, hreaches⟩ := h s q hpre
  have hrest := hx s q₁ hmiddle r s' hrun
  rcases r with fault | a
  · exact hreaches.stops hrest
  · obtain ⟨q₂, hpost, hreaches'⟩ := hrest
    exact ⟨q₂, hpost, hreaches.trans hreaches'⟩

/-- The run may lag behind the evaluation. -/
theorem after (hx : e.Follows pre x post) (h : ∀ a, e.Leads (post a) (post' a)) :
    e.Follows pre x post' := by
  intro s q hpre r s' hrun
  have hrest := hx s q hpre r s' hrun
  rcases r with fault | a
  · exact hrest
  · obtain ⟨q₁, hpost, hreaches⟩ := hrest
    obtain ⟨q₂, hpost', hreaches'⟩ := h a s' q₁ hpost
    exact ⟨q₂, hpost', hreaches.trans hreaches'⟩

theorem mono (hx : e.Follows pre x post) (h : ∀ a s q, post a s q → post' a s q) :
    e.Follows pre x post' :=
  hx.after fun a s q hpost ↦ ⟨q, h a s q hpost, .refl q⟩

/-- What is known beside the places of the run. -/
theorem assume {p : Prop} (h : p → e.Follows pre x post) : e.Follows (fun s q ↦ p ∧ pre s q) x post :=
  fun s q hpre ↦ h hpre.1 s q hpre.2

theorem outOfFuel : e.Follows pre (outOfFuel : Evaluation σ α) post :=
  fun _ _ _ _ _ hrun ↦ nomatch hrun

end Follows

end Engine

/-! ### Code -/

namespace Engine

/-- Code does what an evaluation says. The assertions are about the address where the code begins, and
about the one where it ends. -/
def Realizes (e : Engine σ) (a : Nat) (code : List Instruction) (pre : Nat → Assertion σ)
    (x : Evaluation σ α) (post : α → Nat → Assertion σ) : Prop :=
  e.program.Has a code → e.Follows (pre a) x fun v ↦ post v (a + code.length)

/-- Code moves values only. -/
def Prepares (e : Engine σ) (a : Nat) (code : List Instruction) (pre post : Nat → Assertion σ) : Prop :=
  e.program.Has a code → e.Leads (pre a) (post (a + code.length))

namespace Realizes

variable {e : Engine σ} {a : Nat} {code code' : List Instruction} {pre middle : Nat → Assertion σ}
  {x : Evaluation σ α} {post post' : α → Nat → Assertion σ}

theorem bind {f : α → Evaluation σ β} {last : β → Nat → Assertion σ}
    (hx : e.Realizes a code pre x post)
    (hf : ∀ v, e.Realizes (a + code.length) code' (post v) (f v) last) :
    e.Realizes a (code ++ code') pre (x >>= f) last := by
  intro hcode
  rw [List.length_append, ← Nat.add_assoc]
  exact (hx hcode.left).bind fun v ↦ hf v hcode.right

/-- The code may move values before. -/
theorem before (h : e.Prepares a code pre middle)
    (hx : e.Realizes (a + code.length) code' middle x post) :
    e.Realizes a (code ++ code') pre x post := by
  intro hcode
  rw [List.length_append, ← Nat.add_assoc]
  exact (hx hcode.right).before (h hcode.left)

/-- The code may move values after. -/
theorem after (hx : e.Realizes a code pre x post)
    (h : ∀ v, e.Prepares (a + code.length) code' (post v) (post' v)) :
    e.Realizes a (code ++ code') pre x post' := by
  intro hcode
  rw [List.length_append, ← Nat.add_assoc]
  exact (hx hcode.left).after fun v ↦ h v hcode.right

/-- The same for a single instruction before. -/
theorem before_cons {i : Instruction}
    (h : e.program.code[a]? = some i → e.Leads (pre a) (middle (a + 1)))
    (hx : e.Realizes (a + 1) code middle x post) : e.Realizes a (i :: code) pre x post :=
  .before (fun hcode ↦ h hcode.head : e.Prepares a [i] pre middle) hx

/-- What is made of a value needs no code. -/
theorem map {f : α → β} {last : β → Nat → Assertion σ} (hx : e.Realizes a code pre x post)
    (h : ∀ v b s q, post v b s q → last (f v) b s q) :
    e.Realizes a code pre (x >>= fun v ↦ pure (f v)) last :=
  fun hcode ↦ (hx hcode).bind fun v ↦ .pure (h v _)

theorem weaken {pre' : Nat → Assertion σ} (h : ∀ b s q, pre b s q → pre' b s q)
    (hx : e.Realizes a code pre' x post) : e.Realizes a code pre x post :=
  fun hcode s q hpre ↦ hx hcode s q (h a s q hpre)

theorem mono (hx : e.Realizes a code pre x post) (h : ∀ v b s q, post v b s q → post' v b s q) :
    e.Realizes a code pre x post' :=
  fun hcode ↦ (hx hcode).mono fun v ↦ h v _

theorem assume {p : Prop} (h : p → e.Realizes a code pre x post) :
    e.Realizes a code (fun b s q ↦ p ∧ pre b s q) x post :=
  fun hcode ↦ .assume fun hp ↦ h hp hcode

/-- No code is needed for what is there already. -/
theorem nil {v : α} (h : ∀ s q, pre a s q → post v a s q) : e.Realizes a [] pre (pure v) post :=
  fun _ ↦ .pure h

end Realizes

end Engine

/-! ### Instructions -/

namespace Engine

variable {e : Engine σ} {i : Instruction} {k : Floor} {a b : Nat} {slots : List Slot}
  {temps args : List Value} {inner : List Nat} {v : Value}

/-- Work on the memory is followed if the run yields what the work does. -/
theorem follows_onMemory {x : Step σ α} {temps' : α → List Value} {inner' : List Nat}
    (h : ∀ values mem, values.length = slots.length →
      e.Yields (a, k.machine values temps inner mem) (x.onBare mem) fun u mem' ↦
        (b, k.machine values (temps' u) inner' mem')) :
    e.Follows (k.At slots temps inner a) (onMemory x) fun u ↦ k.At slots (temps' u) inner' b := by
  rintro s q ⟨values, hfills, rfl⟩ r s' hrun
  have hyields := h values s.memory hfills.length_eq
  rw [run_onMemory] at hrun
  rcases hr : x.onBare s.memory with ⟨fault | u, mem⟩ <;> rw [hr] at hrun hyields <;> cases hrun
  · exact hyields
  · exact ⟨_, ⟨values, hfills, rfl⟩, hyields⟩

/-- What is made of the result of work on the memory. -/
theorem Yields.of_bind {x : Step σ α} {f : α → β} (hx : x.Aside) {q : Nat × Machine σ} {mem : Memory σ}
    (next : β → Memory σ → Nat × Machine σ)
    (h : e.Yields q ((x >>= fun u ↦ Pure.pure (f u)).onBare mem) next) :
    e.Yields q (x.onBare mem) fun u mem' ↦ next (f u) mem' := by
  rw [hx.onBare_bind] at h
  rcases hr : x.onBare mem with ⟨fault | u, mem'⟩ <;> rw [hr] at h
  · exact h
  · exact h

theorem follows_operands {x : Step σ α} {f : α → Value} (hi : e.program.code[a]? = some i)
    (hp : i.Proper) (hargs : i.op.operands? = some args.length) (hx : x.Aside)
    (heq : e.apply i args = x >>= fun u ↦ Pure.pure (f u)) :
    e.Follows (k.At slots (temps ++ args) inner a) (onMemory x)
      fun u ↦ k.At slots (temps ++ [f u]) inner (a + 1) := by
  refine follows_onMemory fun values mem _ ↦
    .of_bind hx (fun v mem' ↦ (a + 1, k.machine values (temps ++ [v]) inner mem')) ?_
  have h := yields_operands (m := k.machine values (temps ++ args) inner mem) hi hp hargs
    (k.above_append values temps args)
  rw [heq] at h
  simp only [Floor.machine, k.above_push]
  exact h

theorem follows_window {x : Step σ α} {f : α → Value} {receivers : List Value}
    (hi : e.program.code[a]? = some i) (hp : i.Proper)
    (hr : i.op.receivers? = some receivers.length) (hx : x.Aside)
    (heq : e.apply i (receivers ++ args) = x >>= fun u ↦ Pure.pure (f u)) :
    e.Follows (k.At slots (temps ++ receivers ++ args) (k.height slots (temps ++ receivers) :: inner) a)
      (onMemory x) fun u ↦ k.At slots (temps ++ [f u]) inner (a + 1) := by
  refine follows_onMemory fun values mem hlength ↦
    .of_bind hx (fun v mem' ↦ (a + 1, k.machine values (temps ++ [v]) inner mem')) ?_
  have hstack : k.above values (temps ++ receivers ++ args) =
      k.above values temps ++ receivers.toArray ++ args.toArray := by
    rw [k.above_append, k.above_append]
  have hheight : k.height slots (temps ++ receivers) =
      (k.above values temps).size + receivers.length := by
    rw [k.size_above, hlength, Floor.height, List.length_append, Nat.add_assoc _ temps.length]
  have hwindows := congrArg (· :: (inner ++ k.windows)) hheight
  have h := yields_window (m := k.machine values (temps ++ receivers ++ args)
    (k.height slots (temps ++ receivers) :: inner) mem) hi hp hr hstack hwindows
  rw [heq] at h
  simp only [Floor.machine, k.above_push]
  exact h

theorem follows_keep {x : Step σ Unit} (hi : e.program.code[a]? = some i) (hp : i.Proper)
    (hop : i.op = .setGlobal ∨ i.op = .setStaticField) (heq : e.keep i v = x) :
    e.Follows (k.At slots (temps ++ [v]) inner a) (onMemory x)
      fun _ ↦ k.At slots (temps ++ [v]) inner (a + 1) := by
  refine follows_onMemory fun values mem _ ↦ ?_
  have h := yields_keep (m := k.machine values (temps ++ [v]) inner mem) hi hp hop
    (k.above_push values temps v)
  rw [heq] at h
  exact h

/-- The result of an operator is work on the memory, if trivial. -/
theorem compute_eq (result : Except Fault Literal) : (compute result : Evaluation σ Value) =
    onMemory (do return .literal (← liftM result)) := by
  cases result <;> rfl

theorem follows_compute {result : Except Fault Literal} (hi : e.program.code[a]? = some i)
    (hp : i.Proper) (hargs : i.op.operands? = some args.length)
    (heq : e.apply i args = do return .literal (← liftM result)) :
    e.Follows (k.At slots (temps ++ args) inner a) (compute result)
      fun v ↦ k.At slots (temps ++ [v]) inner (a + 1) := by
  have hx : (do return .literal (← liftM result) : Step σ Value).Aside := by
    rw [← heq]
    exact e.aside_apply hp hargs
  rw [compute_eq]
  exact follows_operands (f := id) hi hp hargs hx (by simp [heq])

/-! ### Moving values -/

theorem leads_openWindow (hi : e.program.code[a]? = some i) (hop : i.op = .openWindow) :
    e.Leads (k.At slots temps inner a) (k.At slots temps (k.height slots temps :: inner) (a + 1)) := by
  rintro s q ⟨values, hfills, rfl⟩
  refine ⟨_, ⟨values, hfills, rfl⟩, ?_⟩
  have h := reaches_openWindow (m := k.machine values temps inner s.memory) hi hop
  rw [← k.size_over_of_fills hfills]
  exact h

theorem leads_dup (hi : e.program.code[a]? = some i) (hop : i.op = .dup)
    (hc : i.count = args.length) :
    e.Leads (k.At slots (temps ++ args) inner a) (k.At slots (temps ++ args ++ args) inner (a + 1)) := by
  rintro s q ⟨values, hfills, rfl⟩
  refine ⟨_, ⟨values, hfills, rfl⟩, ?_⟩
  have h := reaches_dup (m := k.machine values (temps ++ args) inner s.memory) hi hop hc
    (k.above_append values temps args)
  simp only [Floor.machine, k.above_append]
  simp only [Floor.machine, k.above_append] at h
  exact h

theorem leads_pop (hi : e.program.code[a]? = some i) (hop : i.op = .pop)
    (hc : i.count = args.length) :
    e.Leads (k.At slots (temps ++ args) inner a) (k.At slots temps inner (a + 1)) := by
  rintro s q ⟨values, hfills, rfl⟩
  exact ⟨_, ⟨values, hfills, rfl⟩, reaches_pop hi hop hc (k.above_append values temps args)⟩

theorem leads_jump (hi : e.program.code[a]? = some i) (hop : i.op = .jump) (hc : i.count = b) :
    e.Leads (k.At slots temps inner a) (k.At slots temps inner b) := by
  rintro s q ⟨values, hfills, rfl⟩
  obtain rfl := hc
  exact ⟨_, ⟨values, hfills, rfl⟩, reaches_always hi hop⟩

/-- A condition decides where a branch leads. -/
theorem follows_condition {pre : Assertion σ} {x : Evaluation σ Value} (hi : e.program.code[a]? = some i)
    (hop : i.op = .jumpIfFalse ∨ i.op = .jumpIfTrue)
    (hx : e.Follows pre x fun v ↦ k.At slots (temps ++ [v]) inner a) :
    e.Follows pre (condition x) fun given ↦
      k.At slots temps inner (if given = wanted i.op then i.count else a + 1) := by
  refine hx.bind fun v ↦ ?_
  rintro s q ⟨values, hfills, rfl⟩ r s' hrun
  have hstack := k.above_push values temps v
  rcases hv : v.asBool? with _ | given
  · rw [hv] at hrun
    obtain ⟨rfl, rfl⟩ := Prod.mk.inj (Option.some.inj hrun)
    exact stops_branch hi hop hstack hv
  · rw [hv] at hrun
    obtain ⟨rfl, rfl⟩ := Prod.mk.inj (Option.some.inj hrun)
    exact ⟨_, ⟨values, hfills, rfl⟩, reaches_branch hi hop hstack hv⟩

/-! ### Calls -/

/-- The program calls functions as the caller does. -/
def Answers (e : Engine σ) (call : Caller σ) : Prop :=
  ∀ ⦃i : Instruction⦄ ⦃a : Nat⦄ ⦃m : Machine σ⦄ ⦃S : Array Value⦄ ⦃args : List Value⦄
    ⦃outer : List Nat⦄ ⦃r : Except Fault Value × Memory σ⦄,
    e.program.code[a]? = some i → i.op = .call → m.stack = S ++ args.toArray →
    m.windows = S.size :: outer → call i.name args m.memory = some r →
    e.Yields (a, m) r fun v mem ↦ (a + 1, { m with stack := S.push v, windows := outer }.withMemory mem)

theorem follows_calling {call : Caller σ} (h : e.Answers call) (hi : e.program.code[a]? = some i)
    (hop : i.op = .call) :
    e.Follows (k.At slots (temps ++ args) (k.height slots temps :: inner) a)
      (calling (call i.name args)) fun v ↦ k.At slots (temps ++ [v]) inner (a + 1) := by
  rintro s q ⟨values, hfills, rfl⟩ r s' hrun
  rw [run_calling] at hrun
  obtain ⟨⟨result, mem⟩, hcall, heq⟩ := Option.map_eq_some_iff.mp hrun
  obtain ⟨rfl, rfl⟩ := Prod.mk.inj heq
  have hwindows := congrArg (· :: (inner ++ k.windows)) (k.size_over_of_fills hfills temps).symm
  have hyields := h (m := k.machine values (temps ++ args) (k.height slots temps :: inner) s.memory)
    hi hop (k.above_append values temps args) hwindows hcall
  rcases result with fault | v
  · exact hyields
  · refine ⟨_, ⟨values, hfills, rfl⟩, ?_⟩
    simp only [Floor.machine, k.above_push]
    exact hyields

end Engine

end StackScript
