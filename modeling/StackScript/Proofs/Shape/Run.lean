import StackScript.Proofs.Machine.Flow
import StackScript.Proofs.Shape.Frame
import StackScript.Proofs.Shape.Program

/-!
# Runs and the shape of the stack

A run of a program with shapes is followed from the entry of some function on. What lay on the stack
below its arguments, the callers that were suspended then, and the windows that were open, are the
*ground*. Above it stand the functions called since, each suspended at an address whose shape says
what its callee has to leave behind (`Chain`), and the function that runs (`Within`).

All that a single instruction can do there is said once, by `Within.step_meets`: it goes on within the
same ground, or gives back to whatever the ground was left by, or fails soundly.
-/

namespace StackScript

variable {σ : Type}

/-- What a call finds and must not touch. -/
structure Ground where
  stack : Array Value
  frames : Array Frame
  windows : List Nat

/-- The callers suspended above the ground, innermost first, with the stack below the running function
and the windows that are open outside it. The floors are the numbers of windows that were open when
each function was entered. -/
inductive Chain (p : Program) (shape : Nat → Shape) (g : Ground) :
    (callers : List Frame) → (below : Array Value) → (outer floors : List Nat) → Prop
  | nil : Chain p shape g [] g.stack g.windows [g.windows.length]
  | cons {frame : Frame} {callers : List Frame} {below : Array Value} {vs : List Value}
    {marks outer floors : List Nat} (base : frame.base = below.size)
    (address : frame.returnAddress < p.code.size)
    (expects : shape frame.returnAddress = ⟨vs.length + 1, marks⟩)
    (rest : Chain p shape g callers below outer floors) :
    Chain p shape g (frame :: callers) (below ++ vs.toArray)
      (marks.map (below.size + ·) ++ outer) ((marks.length + outer.length) :: floors)

/-- The machine at an address, with the callers above the ground. -/
structure Within (p : Program) (shape : Nat → Shape) (g : Ground) (a : Nat) (m : Machine σ)
    (callers : List Frame) (below : Array Value) (outer floors : List Nat) : Prop where
  address : a < p.code.size
  frames : m.frames = g.frames ++ callers.reverse.toArray
  chain : Chain p shape g callers below outer floors
  holds : m.Holds below outer (shape a)

/-- The machine at an address, with some callers above the ground. -/
def Running (p : Program) (shape : Nat → Shape) (g : Ground) (a : Nat) (m : Machine σ)
    (floors : List Nat) : Prop :=
  ∃ callers below outer, Within p shape g a m callers below outer floors

/-- The machine after the function on the ground has given back a value to its caller, which is the
innermost of the frames of the ground. -/
def Ground.Returned (g : Ground) (a : Nat) (m : Machine σ) : Prop :=
  ∃ frame value, g.frames = m.frames.push frame ∧ a = frame.returnAddress ∧ m.base = frame.base ∧
    m.windows = g.windows ∧ m.stack = g.stack.push value

namespace Chain

variable {p : Program} {shape : Nat → Shape} {g : Ground} {callers : List Frame}
  {below : Array Value} {outer floors : List Nat}

theorem head_floors (h : Chain p shape g callers below outer floors) :
    ∃ rest, floors = outer.length :: rest := by
  cases h with
  | nil => exact ⟨[], rfl⟩
  | cons _ _ _ _ => exact ⟨_, by rw [List.length_append, List.length_map]⟩

end Chain

/-- The numbers of windows open at the entries of the running functions, after an instruction that
leads to a given machine. -/
def Instruction.floors (i : Instruction) (m : Machine σ) (floors : List Nat) : List Nat :=
  match i.op with
  | .call => m.windows.length :: floors
  | .giveBack => floors.tail
  | _ => floors

theorem Instruction.floors_of_isPlain {i : Instruction} (h : i.IsPlain) (m : Machine σ)
    (floors : List Nat) : i.floors m floors = floors := by
  obtain ⟨op, operand, line⟩ := i
  cases op <;> first | rfl | exact h.elim

theorem Instruction.Effect.isPlain {i : Instruction} {sh sh' : Shape} (h : i.Effect sh sh') :
    i.IsPlain := by
  obtain ⟨op, operand, line⟩ := i
  cases h with
  | operands hi | window hi => cases op <;> trivial
  | pop hi | dup hi | openWindow hi | pushLocal hi | setLocal hi => cases hi; trivial
  | keep hi => rcases hi with hi | hi <;> cases hi <;> trivial

/-- What an instruction leads to that is carried out above the ground. -/
def Follows (p : Program) (shape : Nat → Shape) (g : Ground) (i : Instruction) (a : Nat)
    (floors : List Nat) (flow : Flow) (m : Machine σ) : Prop :=
  match flow with
  | .next => Running p shape g (a + 1) m (i.floors m floors)
  | .jump target => Running p shape g target m (i.floors m floors) ∨
      i.op = .giveBack ∧ g.Returned target m
  | .halt _ => g.frames = #[]

section Step

open Step

variable {e : Engine σ} {shape : Nat → Shape} {g : Ground} {a : Nat} {m : Machine σ}
  {callers : List Frame} {below : Array Value} {outer floors : List Nat} {i : Instruction}

theorem Within.perform_meets (h : Within e.program shape g a m callers below outer floors)
    {sh' : Shape} (he : i.Effect (shape a) sh') (hp : i.Proper)
    (hn : a + 1 < e.program.code.size ∧ shape (a + 1) = sh') :
    (e.step i a).Meets m (Follows e.program shape g i a floors) := by
  rw [e.step_of_isPlain he.isPlain]
  refine (e.perform_meets he hp h.holds).bind fun _ m' ⟨hholds, hframes⟩ ↦ ?_
  refine .of_ok rfl ?_
  show Running _ _ _ _ _ _
  rw [Instruction.floors_of_isPlain he.isPlain]
  exact ⟨callers, below, outer, hn.1, hframes.trans h.frames, h.chain, hn.2 ▸ hholds⟩

theorem Within.branch_meets (h : Within e.program shape g a m callers below outer floors)
    (hi : i.op = .jumpIfFalse ∨ i.op = .jumpIfTrue) {k : Nat} {marks : List Nat}
    (hs : shape a = ⟨k + 1, marks⟩)
    (ht : i.count < e.program.code.size ∧ shape i.count = ⟨k, marks⟩)
    (hn : a + 1 < e.program.code.size ∧ shape (a + 1) = ⟨k, marks⟩) :
    (e.step i a).Meets m (Follows e.program shape g i a floors) := by
  have hholds := h.holds
  rw [hs] at hholds
  obtain ⟨vs, args, hstack, hvs, hargs⟩ := hholds.split
  obtain ⟨v, rfl⟩ := List.length_eq_one_iff.mp hargs
  have hpush : m.stack = (below ++ vs.toArray).push v := by simp [hstack]
  have hfloors (m : Machine σ) : i.floors m floors = floors := by
    rcases hi with hi | hi <;> simp only [Instruction.floors, hi]
  have hafter (b : Nat) (hb : b < e.program.code.size ∧ shape b = ⟨k, marks⟩) :
      Running e.program shape g b { m with stack := below ++ vs.toArray } floors :=
    ⟨callers, below, outer, hb.1, h.frames, h.chain, hb.2 ▸ ⟨hholds.base, hholds.windows, vs, rfl, hvs⟩⟩
  have hon := on_jumpIf hpush (Engine.wanted i.op) i.count
  rw [e.step_branch hi]
  rcases hv : v.asBool? with _ | given <;> rw [hv] at hon
  · exact .of_error hon (Fault.Ordinary.sound trivial)
  · refine .of_ok hon ?_
    by_cases hg : given = Engine.wanted i.op
    · rw [if_pos hg]
      left
      rw [hfloors]
      exact hafter _ ht
    · rw [if_neg hg]
      show Running _ _ _ _ _ _
      rw [hfloors]
      exact hafter _ hn

theorem Within.call_meets (hp : e.program.ShapedBy shape)
    (h : Within e.program shape g a m callers below outer floors) (hi : i.op = .call) {k n : Nat}
    {marks : List Nat} (hs : shape a = ⟨k + n, k :: marks⟩)
    (hn : a + 1 < e.program.code.size ∧ shape (a + 1) = ⟨k + 1, marks⟩) :
    (e.step i a).Meets m (Follows e.program shape g i a floors) := by
  have hholds := h.holds
  rw [hs] at hholds
  obtain ⟨vs, args, hstack, hvs, hargs⟩ := hholds.split
  rw [e.step_call hi]
  rcases hf : e.program.function? i.name with _ | f
  · exact .of_error (e.on_enter_none _ hf) (Fault.Ordinary.sound trivial)
  · have hwindows : m.windows = (below ++ vs.toArray).size ::
        (marks.map (below.size + ·) ++ outer) := by
      simp [hholds.windows, hvs]
    have hon := e.on_enter (a + 1) hf hwindows (by simp [hstack])
    split at hon
    · exact .of_error hon (Fault.Ordinary.sound trivial)
    · split at hon
      · exact .of_error hon (Fault.IsLimit.sound trivial)
      · rename_i harity _
        refine .of_ok hon (.inl ?_)
        have hentry := hp.entry f (List.mem_of_find?_eq_some hf)
        have hlength : args.length = f.arity := by
          simp only [hstack, Array.size_append, List.size_toArray, Decidable.not_not] at harity
          omega
        refine ⟨⟨m.base, a + 1⟩ :: callers, below ++ vs.toArray, marks.map (below.size + ·) ++ outer,
          hentry.1, by simp [h.frames], ?_, ?_⟩
        · have hfloors (m' : Machine σ) : i.floors m' floors = m'.windows.length :: floors := by
            simp only [Instruction.floors, hi]
          rw [hfloors]
          simp only [List.length_append, List.length_map]
          exact .cons hholds.base hn.1 (by rw [hn.2, hvs]) h.chain
        · rw [hentry.2]
          exact ⟨rfl, rfl, args, by simp [hstack], hlength⟩

theorem Within.giveBack_meets (h : Within e.program shape g a m callers below outer floors)
    (hi : i.op = .giveBack) {k : Nat} (hs : shape a = .locals (k + 1)) :
    (e.step i a).Meets m (Follows e.program shape g i a floors) := by
  have hholds := h.holds
  rw [hs] at hholds
  obtain ⟨vs, args, hstack, hvs, hargs⟩ := hholds.split
  obtain ⟨v, rfl⟩ := List.length_eq_one_iff.mp hargs
  have hpush : m.stack = (below ++ vs.toArray).push v := by simp [hstack]
  have hshrink : (below ++ vs.toArray).shrink m.base = below := by simp [hholds.base]
  have hfloors (m : Machine σ) : i.floors m floors = floors.tail := by
    simp only [Instruction.floors, hi]
  rw [e.step_giveBack hi]
  have hframes := h.frames
  have hchain := h.chain
  cases hchain with
  | nil =>
    by_cases hsize : g.frames.size = 0
    · have hempty : g.frames = #[] := Array.eq_empty_of_size_eq_zero hsize
      have hon := e.on_leave_halt hpush (by simp [hframes, hempty])
      exact .of_ok hon hempty
    · obtain ⟨frames, frame, hg⟩ := Array.eq_push_of_size_ne_zero hsize
      have hon := e.on_leave hpush (by simpa [hg] using hframes)
      rw [hshrink] at hon
      split at hon
      · exact .of_error hon (Fault.IsLimit.sound trivial)
      · exact .of_ok hon (.inr ⟨hi, frame, v, hg, rfl, rfl, hholds.windows, rfl⟩)
  | @cons frame callers below vs marks outer floors hbase haddress hexpects hrest =>
    have hlast : m.frames = (g.frames ++ callers.reverse.toArray).push frame := by
      simp [hframes]
    have hon := e.on_leave hpush hlast
    rw [hshrink] at hon
    split at hon
    · exact .of_error hon (Fault.IsLimit.sound trivial)
    · refine .of_ok hon (.inl ?_)
      rw [hfloors]
      refine ⟨callers, below, outer, haddress, rfl, hrest, hbase, ?_, vs ++ [v], by simp, ?_⟩
      · rw [hexpects]
        exact hholds.windows
      · simp [hexpects]

/-- Whatever an instruction does above the ground, the run goes on there, or it gives back to the
caller on the ground, or it ends soundly. -/
theorem Within.step_meets (hp : e.program.ShapedBy shape)
    (h : Within e.program shape g a m callers below outer floors)
    (hi : e.program.code[a]? = some i) :
    (e.step i a).Meets m (Follows e.program shape g i a floors) := by
  obtain ⟨q', hstands⟩ := hp.stands a i hi
  generalize hq : (a, shape a) = q at hstands
  cases hstands with
  | perform he hp hn =>
    obtain ⟨rfl, rfl⟩ := Prod.mk.inj hq
    exact h.perform_meets he hp hn
  | jump hi ht =>
    obtain ⟨rfl, rfl⟩ := Prod.mk.inj hq
    rw [e.step_jump hi]
    refine .of_ok rfl (.inl ?_)
    have hfloors : i.floors m floors = floors := by simp only [Instruction.floors, hi]
    rw [hfloors]
    exact ⟨callers, below, outer, ht.1, h.frames, h.chain, ht.2 ▸ h.holds⟩
  | branch hi ht hn =>
    obtain ⟨rfl, hs⟩ := Prod.mk.inj hq
    exact h.branch_meets hi hs ht hn
  | call hi hn =>
    obtain ⟨rfl, hs⟩ := Prod.mk.inj hq
    exact h.call_meets hp hi hs hn
  | giveBack hi =>
    obtain ⟨rfl, hs⟩ := Prod.mk.inj hq
    exact h.giveBack_meets hi hs

end Step

/-! ### Runs -/

namespace Running

open Step

variable {e : Engine σ} {shape : Nat → Shape} {g : Ground} {floors : List Nat}
  {p : Engine.Progress σ}

/-- A run goes on from above the ground, or gives back to the caller there, or ends soundly. -/
theorem advance (hp : e.program.ShapedBy shape)
    (h : Running e.program shape g p.address p.machine floors) :
    ∃ i, e.program.code[p.address]? = some i ∧ match e.advance p with
      | .inr q => Running e.program shape g q.address q.machine (i.floors q.machine floors) ∨
          i.op = .giveBack ∧ g.Returned q.address q.machine
      | .inl o => ∀ r, o.1 = .error r → r.fault.Sound := by
  obtain ⟨callers, below, outer, hwithin⟩ := h
  obtain ⟨i, hi⟩ : ∃ i, e.program.code[p.address]? = some i :=
    ⟨_, Array.getElem?_eq_getElem hwithin.address⟩
  refine ⟨i, hi, ?_⟩
  have hattempt : (e.attempt i p.address p.done).Meets p.machine
      (Follows e.program shape g i p.address floors) := by
    by_cases hl : ∃ n, e.limits.steps = some n ∧ n ≤ p.done
    · obtain ⟨n, hs, hn⟩ := hl
      exact .of_error (Engine.on_attempt_of_le hs hn _) (Fault.IsLimit.sound trivial)
    · unfold Meets
      rw [Engine.on_attempt fun n hs ↦ Nat.lt_of_not_le fun hn ↦ hl ⟨n, hs, hn⟩]
      exact hwithin.step_meets hp hi
  unfold Meets at hattempt
  rw [e.advance_eq hi]
  rcases hx : (e.attempt i p.address p.done).on p.machine with ⟨fault | flow, m'⟩ <;>
    rw [hx] at hattempt
  · rintro r ⟨⟩
    exact hattempt
  · cases flow with
    | next => exact .inl hattempt
    | jump target => exact hattempt
    | halt value => exact fun r hr ↦ nomatch hr

/-- On an empty ground there is no caller to give back to. -/
theorem advance_empty (hp : e.program.ShapedBy shape)
    (h : Running e.program shape ⟨#[], #[], []⟩ p.address p.machine floors) :
    ∃ i, e.program.code[p.address]? = some i ∧ match e.advance p with
      | .inr q => Running e.program shape ⟨#[], #[], []⟩ q.address q.machine
          (i.floors q.machine floors)
      | .inl o => ∀ r, o.1 = .error r → r.fault.Sound := by
  obtain ⟨i, hi, hadvance⟩ := h.advance hp
  refine ⟨i, hi, ?_⟩
  rcases hx : e.advance p with o | q <;> rw [hx] at hadvance
  · exact hadvance
  · rcases hadvance with hrunning | ⟨_, frame, _, hframes, _⟩
    · exact hrunning
    · have := congrArg Array.size hframes
      simp at this

/-- A whole run on an empty ground ends soundly, if it ends. -/
theorem finish_sound (hp : e.program.ShapedBy shape)
    (h : Running e.program shape ⟨#[], #[], []⟩ p.address p.machine floors) {fuel : Nat}
    {o : Engine.Outcome σ} (ho : e.finish fuel p = some o) {r : Report} (hr : o.1 = .error r) :
    r.fault.Sound := by
  induction fuel generalizing p floors with
  | zero => cases ho
  | succ fuel ih =>
    obtain ⟨i, _, hadvance⟩ := h.advance_empty hp
    rw [Engine.finish] at ho
    rcases hx : e.advance p with o' | q <;> rw [hx] at ho hadvance
    · cases ho
      exact hadvance r hr
    · exact ih hadvance ho

/-- A call begins on an empty ground. -/
theorem of_start (hp : e.program.ShapedBy shape) {m : Machine σ} {name : String}
    {args : List Value} (h : e.start m name args = .ok p) :
    Running e.program shape ⟨#[], #[], []⟩ p.address p.machine [0] := by
  unfold Engine.start at h
  split at h
  · cases h
  · rename_i f hf
    split at h
    · cases h
    · rename_i harity
      cases h
      obtain ⟨haddress, hshape⟩ := hp.entry f (List.mem_of_find?_eq_some hf)
      refine ⟨[], #[], [], haddress, by rfl, .nil, ?_⟩
      rw [hshape]
      exact ⟨rfl, rfl, args, by simp, (Decidable.not_not.mp harity).symm⟩

end Running

end StackScript
