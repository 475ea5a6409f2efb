import Mathlib
import StackScript.Proofs.Reading.Script
import StackScript.Proofs.Shape.Run

/-!
# The stack discipline of compiled code

Every address of a compiled program has a height of the stack and a number of open windows that are
the same on every path of every run (`compile_disciplined`). Where a statement begins, the height is
the number of the locals in scope, and no window is open. So a run never finds a value, a slot or a
window missing, and never leaves the code (`Program.ShapedBy.call_sound`).

The windows that count at an address are those that the running function has opened itself. To tell
them from those of its callers, a run is followed together with the numbers of windows that were open
when the running functions were entered (`Engine.Watched`).
-/

namespace StackScript

variable {σ : Type}

/-- The places of a call's run, each with the numbers of windows that were open when the functions
running there were entered, innermost first. -/
inductive Engine.Watched (e : Engine σ) (m : Machine σ) (name : String) (args : List Value) :
    Progress σ → List Nat → Prop
  | start {p : Progress σ} (h : e.start m name args = .ok p) : Watched e m name args p [0]
  | advance {p q : Progress σ} {floors : List Nat} {i : Instruction}
    (h : Watched e m name args p floors) (hi : e.program.code[p.address]? = some i)
    (hq : e.advance p = .inr q) : Watched e m name args q (i.floors q.machine floors)

/-- Wherever a run is, the stack has the shape of its address. -/
theorem Engine.Watched.running {e : Engine σ} {shape : Nat → Shape}
    (hp : e.program.ShapedBy shape) {m : Machine σ} {name : String} {args : List Value}
    {p : Progress σ} {floors : List Nat} (h : e.Watched m name args p floors) :
    Running e.program shape ⟨#[], #[], []⟩ p.address p.machine floors := by
  induction h with
  | start h => exact .of_start hp h
  | advance _ hi hq ih =>
    obtain ⟨i', hi', hadvance⟩ := ih.advance_empty hp
    rw [hq] at hadvance
    rw [hi] at hi'
    cases hi'
    exact hadvance

/-- The heights of the stack and the numbers of open windows at the addresses of a program whose
statements begin at the given sites. -/
structure Program.Disciplined (p : Program) (sites : List (Nat × List String))
    (height marks : Nat → Nat) : Prop where
  /-- Where a statement begins there is nothing but the locals in scope. -/
  site : ∀ a scope, (a, scope) ∈ sites →
    a < p.code.size ∧ height a = scope.length ∧ marks a = 0
  /-- Slots are below the height. -/
  slot : ∀ (a : Nat) (i : Instruction), p.code[a]? = some i → i.op = .pushLocal ∨ i.op = .setLocal →
    i.count < height a
  /-- Every run is within the code, and has the height and the windows of its address. -/
  run : ∀ {σ : Type} (bridge : Bridge σ) (limits : Limits) (m : Machine σ) (name : String)
    (args : List Value) (q : Engine.Progress σ) (floors : List Nat),
    Engine.Watched ⟨p, bridge, limits⟩ m name args q floors → q.address < p.code.size ∧
      q.machine.stack.size = q.machine.base + height q.address ∧
      q.machine.windows.length = floors.headD 0 + marks q.address

/-- A program with shapes is disciplined. -/
theorem Program.ShapedBy.disciplined {p : Program} {shape : Nat → Shape} (hp : p.ShapedBy shape)
    {sites : List (Nat × List String)}
    (hs : ∀ site ∈ sites, site.1 < p.code.size ∧ shape site.1 = .locals site.2.length) :
    p.Disciplined sites (fun a ↦ (shape a).height) fun a ↦ (shape a).marks.length := by
  refine ⟨fun a scope hmem ↦ ?_, fun a i hi hop ↦ ?_, fun bridge limits m name args q floors h ↦ ?_⟩
  · rw [(hs _ hmem).2]
    exact ⟨(hs _ hmem).1, rfl, rfl⟩
  · obtain ⟨q', hstands⟩ := hp.stands a i hi
    exact hstands.slot_lt hop
  · obtain ⟨callers, below, outer, hwithin⟩ := h.running hp
    obtain ⟨rest, rfl⟩ := hwithin.chain.head_floors
    refine ⟨hwithin.address, hwithin.holds.size_eq, ?_⟩
    rw [hwithin.holds.windows, List.length_append, List.length_map, Nat.add_comm]
    rfl

/-- A program with shapes has no faults of malformed code. -/
theorem Program.ShapedBy.call_sound {p : Program} {shape : Nat → Shape} (hp : p.ShapedBy shape)
    (bridge : Bridge σ) (limits : Limits) {fuel : Nat} {m m' : Machine σ} {name : String}
    {args : List Value} {r : Report}
    (h : Engine.call ⟨p, bridge, limits⟩ fuel m name args = some (.error r, m')) :
    r.fault.Sound := by
  let e : Engine σ := ⟨p, bridge, limits⟩
  unfold Engine.call at h
  rcases hstart : e.start m name args with r' | q
  · rw [hstart] at h
    cases h
    unfold Engine.start at hstart
    split at hstart
    · cases hstart
      exact fun _ h ↦ nomatch h
    · split at hstart <;> cases hstart
      exact fun _ h ↦ nomatch h
  · rw [hstart] at h
    obtain ⟨⟨result, m₁⟩, ho, heq⟩ := Option.map_eq_some_iff.mp h
    cases heq
    exact (Running.of_start (e := e) hp hstart).finish_sound (e := e) hp ho rfl

/-- Compiled code keeps to a stack discipline: at every address that a run reaches there are as many
values above the base and as many windows as on every other path there, at the beginning of a
statement just the locals in scope. And no run fails because of malformed code. -/
theorem compile_disciplined {source : String} {c : Compiled} (h : compile source = .ok c) :
    (∃ height marks,
      c.program.Disciplined ((read source).script.sites true) height marks) ∧
    ∀ {σ : Type} (bridge : Bridge σ) (limits : Limits) (fuel : Nat) (m m' : Machine σ)
      (name : String) (args : List Value) (r : Report) (message : String),
      Engine.call ⟨c.program, bridge, limits⟩ fuel m name args = some (.error r, m') →
        r.fault ≠ .invalidProgram message := by
  obtain ⟨shape, hshape, hsites⟩ :=
    (readWith true source).script.exists_shape true (written_readWith true source)
  rw [← (program_of_compile h).2] at hshape hsites
  refine ⟨⟨_, _, hshape.disciplined hsites⟩, ?_⟩
  intro σ bridge limits fuel m m' name args r message hcall
  exact hshape.call_sound bridge limits hcall message

/-- The discipline of a script with a loop that is left from an inner block. -/
theorem compile_disciplined_loop :
    ∃ c, compile "func f(n) \x7b while (n) \x7b var m = n; break; \x7d return n; \x7d" = .ok c ∧
      ∃ height marks, c.program.Disciplined ((read
        "func f(n) \x7b while (n) \x7b var m = n; break; \x7d return n; \x7d").script.sites true)
        height marks := by
  have h : ∃ c, compile "func f(n) \x7b while (n) \x7b var m = n; break; \x7d return n; \x7d" =
      .ok c := ⟨_, by cbv⟩
  obtain ⟨c, hc⟩ := h
  exact ⟨c, hc, (compile_disciplined hc).1⟩

end StackScript
