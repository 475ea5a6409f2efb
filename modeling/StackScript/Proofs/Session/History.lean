import Mathlib.Logic.Relation
import StackScript.Proofs.Layout.Ranges
import StackScript.Proofs.Machine.Globals
import StackScript.Session

/-!
# The history of a session

A session begins with a text that compiles and with a call of the initialiser that succeeds
(`Session.exists_run_of_start`). From then on it changes by calls, whatever their result, by globals that
are given values from outside, and by changes to the world outside of it (`Session.Act`). Its program, its
host and its limits stay the same.
-/

namespace StackScript

variable {σ : Type}

/-- The first function of a compiled program is the initialiser. -/
theorem function?_initializer_of_compile {source : String} {c : Compiled}
    (h : compile source = .ok c) :
    c.program.function? initializerName = some ⟨initializerName, 0, 0⟩ := by
  obtain ⟨script, -, -, -, hprogram⟩ := exists_script_of_compile h
  rw [hprogram]
  rfl

/-- Recording a failure changes neither the fault nor the place of it. -/
theorem Diagnostics.raiseFailure_report (d : Diagnostics) (r : Report) :
    (d.raiseFailure r).1.fault = r.fault ∧ (d.raiseFailure r).1.span = r.span := by
  unfold raiseFailure
  dsimp only
  split <;> exact ⟨rfl, rfl⟩

namespace Session

@[simp]
theorem engine_record (e : Engine σ) (d : Diagnostics) (o : Engine.Outcome σ) :
    (record e d o).2.engine = e := by
  obtain ⟨_ | _, _⟩ := o <;> rfl

@[simp]
theorem machine_record (e : Engine σ) (d : Diagnostics) (o : Engine.Outcome σ) :
    (record e d o).2.machine = o.2 := by
  obtain ⟨_ | _, _⟩ := o <;> rfl

variable {s s' s'' : Session σ} {fuel : Nat} {name : String} {args : List Value}

/-- A call of a session is one of its engine. -/
theorem exists_call {o : Outcome σ} (h : s.call fuel name args = some o) :
    ∃ o', s.engine.call fuel s.machine name args = some o' ∧ o = record s.engine s.diagnostics o' := by
  obtain ⟨o', ho, heq⟩ := Option.map_eq_some_iff.mp h
  exact ⟨o', ho, heq.symm⟩

/-- A session starts with a call of the initialiser that succeeds. -/
theorem exists_run_of_start {source : String} {limits : Limits} {bridge : Bridge σ} {world : World}
    {host : σ} (h : start fuel source limits bridge world host = some (.ok s)) :
    ∃ c value, compile source = .ok c ∧ s.engine = ⟨c.program, bridge, limits⟩ ∧
      s.diagnostics = c.diagnostics ∧
      s.engine.call fuel (.fresh ⟨.declared c.program.globals, world, host⟩) initializerName [] =
        some (.ok value, s.machine) := by
  unfold start at h
  split at h
  · cases h
  · rename_i c hc
    obtain ⟨o, hprepare, hok⟩ := Option.map_eq_some_iff.mp h
    obtain ⟨o', hrun, rfl⟩ := Option.map_eq_some_iff.mp hprepare
    simp only [Engine.prepare, function?_initializer_of_compile hc] at hrun
    obtain ⟨⟨result, m⟩, hcall, heq⟩ := Option.map_eq_some_iff.mp hrun
    rcases result with report | value <;> cases heq <;> cases hok
    exact ⟨c, value, hc, rfl, rfl, hcall⟩

/-- What may be done with a session. -/
inductive Act : Session σ → Session σ → Prop
  | call {s s' : Session σ} {fuel : Nat} {name : String} {args : List Value}
    {result : Except Report Value} (h : s.call fuel name args = some (result, s')) : Act s s'
  | callIfPresent {s s' : Session σ} {fuel : Nat} {name : String} {args : List Value}
    {result : Option (Except Report Value)} (h : s.callIfPresent fuel name args = some (result, s')) :
    Act s s'
  | setGlobal (s : Session σ) (name : String) (value : Value) : Act s (s.setGlobal name value)
  | withWorld (s : Session σ) (world : World) : Act s (s.withWorld world)

/-- A session after some others. -/
def Later : Session σ → Session σ → Prop :=
  Relation.ReflTransGen Act

/-- A call of a function that may be missing is a call, or nothing. -/
theorem callIfPresent_eq {answer : Option (Except Report Value)}
    (h : s.callIfPresent fuel name args = some (answer, s')) :
    answer = none ∧ s' = s ∨ ∃ result, answer = some result ∧ s.call fuel name args = some (result, s') := by
  unfold callIfPresent at h
  split at h
  · obtain ⟨⟨result, s₁⟩, hcall, heq⟩ := Option.map_eq_some_iff.mp h
    cases heq
    exact .inr ⟨result, rfl, hcall⟩
  · cases h
    exact .inl ⟨rfl, rfl⟩

theorem Act.engine_eq (h : Act s s') : s'.engine = s.engine := by
  have hcall {s s' : Session σ} {fuel : Nat} {name : String} {args : List Value}
      {result : Except Report Value} (h : s.call fuel name args = some (result, s')) :
      s'.engine = s.engine := by
    obtain ⟨o, -, heq⟩ := exists_call h
    rw [show s' = (record s.engine s.diagnostics o).2 from congrArg Prod.snd heq, engine_record]
  cases h with
  | call h => exact hcall h
  | callIfPresent h =>
    obtain ⟨-, rfl⟩ | ⟨result, -, h⟩ := callIfPresent_eq h
    · rfl
    · exact hcall h
  | setGlobal | withWorld => rfl

theorem Later.engine_eq (h : Later s s') : s'.engine = s.engine := by
  induction h with
  | refl => rfl
  | tail _ h ih => exact h.engine_eq.trans ih

/-- All that is done to the globals is to give them values. -/
theorem Act.globals (h : Act s s') : s.globals.Later s'.globals := by
  have hcall {s s' : Session σ} {fuel : Nat} {name : String} {args : List Value}
      {result : Except Report Value} (h : s.call fuel name args = some (result, s')) :
      s.globals.Later s'.globals := by
    obtain ⟨o, ho, heq⟩ := exists_call h
    rw [show s' = (record s.engine s.diagnostics o).2 from congrArg Prod.snd heq, Session.globals,
      Session.globals, machine_record]
    exact Engine.later_call ho
  cases h with
  | call h => exact hcall h
  | callIfPresent h =>
    obtain ⟨-, rfl⟩ | ⟨result, -, h⟩ := callIfPresent_eq h
    · exact .refl _
    · exact hcall h
  | setGlobal name value => exact .set s.globals name value
  | withWorld => exact .refl _

theorem Later.globals (h : Later s s') : s.globals.Later s'.globals := by
  induction h with
  | refl => exact .refl _
  | tail _ h ih => exact ih.trans h.globals

end Session

end StackScript
