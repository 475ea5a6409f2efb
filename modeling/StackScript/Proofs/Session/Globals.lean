import StackScript.Proofs.Layout.Initializer
import StackScript.Proofs.Machine.Control
import StackScript.Proofs.Session.History

/-!
# The globals of a session

Declared globals have names from the beginning, and get their values from the initialiser. A value may call
functions, and these may call others and give globals values of their own, but the initialiser itself only
goes on to its end past the stores of all declared globals (`Engine.Progress.Stored`). So when a session
starts, every name among its globals has a value, and whatever is done with the session afterwards, names are
only added behind those that there are, each with a value (`globals_kept`).
-/

namespace StackScript

variable {σ : Type}

namespace Engine

variable {e : Engine σ} {p q : Progress σ} {m : Machine σ} {stop : Nat} {stores : List (Nat × String)}

/-- In a run of the initialiser the globals have values whose stores are behind it. -/
structure Progress.Stored (stop : Nat) (stores : List (Nat × String)) (p : Progress σ) : Prop where
  home : p.home ≤ stop + 1
  values : ∀ a name, (a, name) ∈ stores → a < p.home → (p.machine.store.globals.get? name).isSome

/-- A store that succeeds gives its global a value. -/
theorem isSome_of_advance {name : String} {line : Nat}
    (hi : e.program.code[p.address]? = some ⟨.setGlobal, .name name, line⟩) (h : e.advance p = .inr q) :
    (q.machine.store.globals.get? name).isSome := by
  obtain ⟨flow, hstep, -⟩ := e.step_of_advance hi h
  rw [e.on_step_of_isPlain (i := ⟨.setGlobal, .name name, line⟩) trivial, perform, Step.on_bind] at hstep
  rcases hpeek : Step.peek.on p.machine with ⟨fault | value, m⟩ <;> rw [hpeek] at hstep
  · cases hstep
  · obtain ⟨-, hmachine⟩ := Prod.mk.inj hstep
    have hvalue := m.store.globals.get?_set_self name value
    rw [← hmachine]
    exact Option.isSome_iff_exists.mpr ⟨value, hvalue⟩

/-- One instruction keeps that. -/
theorem Progress.Stored.advance (hprogram : e.program.Initializes stop stores) (h : p.Stored stop stores)
    (hq : e.advance p = .inr q) : q.Stored stop stores := by
  have hlater := (e.later_advance p).1 q hq
  rcases hi : e.program.code[p.address]? with _ | i
  · rw [e.advance_outside hi] at hq
    cases hq
  rcases (continues_of_advance hi hq).home with hhome | ⟨hframes, hmove⟩
  · exact ⟨hhome ▸ h.home, fun a name hstore ha ↦ hlater.isSome (h.values a name hstore (hhome ▸ ha))⟩
  -- Now the initialiser itself runs, and is not yet at its last instruction.
  have haddress := Progress.home_of_frames_eq hframes
  have hle : p.address ≤ stop := by
    refine Nat.le_of_lt_succ (Nat.lt_of_le_of_ne (haddress ▸ h.home) fun heq ↦ ?_)
    obtain ⟨j, hj, hback⟩ := hprogram.ending
    obtain rfl : i = j := Option.some.inj (hi.symm.trans (heq ▸ hj))
    rcases hmove with ⟨hnot, -⟩ | ⟨hjump, -⟩
    · exact hnot hback
    · rw [hback] at hjump
      cases hjump
  have hbefore (a : Nat) (name : String) (hstore : (a, name) ∈ stores) (ha : a < p.address) :
      (q.machine.store.globals.get? name).isSome :=
    hlater.isSome (h.values a name hstore (haddress ▸ ha))
  rcases hmove with ⟨-, hhome⟩ | ⟨hjump, hhome⟩
  · refine ⟨by omega, fun a name hstore ha ↦ ?_⟩
    rcases Nat.lt_or_eq_of_le (Nat.le_of_lt_succ (hhome ▸ ha)) with ha | rfl
    · exact hbefore a name hstore ha
    · obtain ⟨-, line, hline⟩ := hprogram.store _ name hstore
      exact isSome_of_advance hline hq
  · obtain ⟨hcount, hpassed⟩ := hprogram.jump p.address i hle hi hjump
    refine ⟨by omega, fun a name hstore ha ↦ ?_⟩
    exact hbefore a name hstore (hpassed (a, name) hstore (hhome ▸ ha))

/-- A run of the initialiser that ends with a value has given values to all globals. -/
theorem Progress.Stored.finish (hprogram : e.program.Initializes stop stores) (h : p.Stored stop stores)
    {fuel : Nat} {value : Value} (hfinish : e.finish fuel p = some (.ok value, m)) :
    ∀ a name, (a, name) ∈ stores → (m.store.globals.get? name).isSome := by
  induction fuel generalizing p with
  | zero => cases hfinish
  | succ fuel ih =>
    rw [Engine.finish] at hfinish
    rcases hp : e.advance p with o | q <;> rw [hp] at hfinish
    · obtain rfl := Option.some.inj hfinish
      obtain ⟨i, hi, hback, hframes, hstore⟩ := halt_of_advance hp
      intro a name hmem
      have hstop : stop < p.address := Nat.lt_of_not_le fun hle ↦ hprogram.ongoing _ i hle hi hback
      rw [hstore]
      refine h.values a name hmem ?_
      rw [Progress.home_of_frames_eq hframes]
      exact Nat.lt_trans (hprogram.store a name hmem).1 hstop
    · exact ih (h.advance hprogram hp) hfinish

end Engine

namespace Session

/-- When a session starts, all declared globals have values. -/
theorem isSome_of_start {source : String} {fuel : Nat} {limits : Limits} {bridge : Bridge σ}
    {world : World} {host : σ} {s : Session σ}
    (h : start fuel source limits bridge world host = some (.ok s)) :
    ∃ script : Script, script.Derives (Scanned.tokens (Scanned.scan source)) ∧ script.Lawful ∧
      (Globals.declared (script.globals.map (·.name))).Later s.globals ∧
      ∀ name ∈ script.globals.map (·.name), (s.globals.get? name).isSome := by
  obtain ⟨c, value, hc, hengine, -, hcall⟩ := exists_run_of_start h
  obtain ⟨script, hderives, hlawful, -, hprogram⟩ := exists_script_of_compile hc
  have hengine : s.engine.program = script.program true := by rw [hengine, ← hprogram]
  have hinitializes := script.initializes_program true
  rw [← hengine] at hinitializes
  have hlater := Engine.later_call hcall
  rw [hprogram] at hlater
  refine ⟨script, hderives, hlawful, hlater, fun name hname ↦ ?_⟩
  rw [← map_snd_globalStores true 0] at hname
  obtain ⟨⟨a, _⟩, hstore, rfl⟩ := List.mem_map.mp hname
  rcases hp : s.engine.start (.fresh ⟨.declared c.program.globals, world, host⟩) initializerName [] with
    r | p
  · rw [Engine.call_eq_of_error fuel hp] at hcall
    cases hcall
  · rw [Engine.call_eq fuel hp] at hcall
    obtain ⟨⟨_, m⟩, hfinish, heq⟩ := Option.map_eq_some_iff.mp hcall
    obtain ⟨f, hf, rfl⟩ := Engine.exists_function_of_start hp
    rw [hengine] at hf
    obtain rfl : ⟨initializerName, 0, 0⟩ = f := Option.some.inj hf
    obtain ⟨rfl, hmachine⟩ := Prod.mk.inj heq
    rw [Session.globals, ← hmachine]
    -- The run begins at home in the initialiser, before all stores.
    refine Engine.Progress.Stored.finish hinitializes ⟨?_, fun _ _ _ ha ↦ ?_⟩ hfinish a _ hstore
    · exact Nat.zero_le _
    · exact (Nat.not_lt_zero _ ha).elim

end Session

/-- Among the globals of a session no name comes twice. The declared ones come first, in the order of the
text. Exactly the names among the globals have values. Whatever is done with the session, names are only
added behind the others, and no global is ever lost. -/
theorem globals_kept {source : String} {fuel : Nat} {limits : Limits} {bridge : Bridge σ} {world : World}
    {host : σ} {s : Session σ} (h : Session.start fuel source limits bridge world host = some (.ok s)) :
    ∃ script : Script, script.Derives (Scanned.tokens (Scanned.scan source)) ∧
      ∀ s' : Session σ, s.Later s' →
        s'.globals.names.Nodup ∧ script.globals.map (·.name) <+: s'.globals.names ∧
        (∀ name, name ∈ s'.globals.names ↔ (s'.globals.get? name).isSome) ∧
        ∀ s'', s'.Act s'' → s'.globals.names <+: s''.globals.names ∧
          ∀ name, (s'.globals.get? name).isSome → (s''.globals.get? name).isSome := by
  obtain ⟨script, hderives, hlawful, hlater, hvalues⟩ := Session.isSome_of_start h
  refine ⟨script, hderives, fun s' hs' ↦ ?_⟩
  have hsince := hs'.globals
  have hall := hlater.trans hsince
  refine ⟨hall.nodup ?_, ?_, fun name ↦ ⟨fun hname ↦ ?_, Globals.mem_names_of_isSome⟩, fun s'' h ↦
    ⟨h.globals.names_prefix, fun name ↦ h.globals.isSome⟩⟩
  · rw [Globals.names_declared]
    exact hlawful.globals
  · simpa using hall.names_prefix
  · rcases hall.mem_or_isSome hname with hdeclared | hvalue
    · rw [Globals.names_declared] at hdeclared
      exact hsince.isSome (hvalues name hdeclared)
    · exact hvalue

/-- A text with a function that gives a value to a global of its own, and then fails. -/
def failingText : String := "var a = 1; func f() \x7b b = a; return c; \x7d"

/-- The globals of a session over that text, after the failure of the function and a global from outside. -/
theorem globals_kept_failingText : ∃ s s' : Session Unit,
    Session.start 9 failingText .standard .none .empty () = some (.ok s) ∧ s.Later s' ∧
      s'.globals.names = ["a", "b", "c"] ∧
      ∃ script : Script, script.Derives (Scanned.tokens (Scanned.scan failingText)) ∧
        script.globals.map (·.name) <+: s'.globals.names ∧ s'.globals.names.Nodup := by
  obtain ⟨s, r, s₁, hstart, hcall, hnames⟩ : ∃ (s : Session Unit) (r : Report) (s₁ : Session Unit),
      Session.start 9 failingText .standard .none .empty () = some (.ok s) ∧
      s.call 9 "f" [] = some (.error r, s₁) ∧ (s₁.setGlobal "c" .null).globals.names = ["a", "b", "c"] :=
    ⟨_, _, _, by cbv, by cbv, by cbv⟩
  have hlater : s.Later (s₁.setGlobal "c" .null) :=
    .tail (.single (.call hcall)) (.setGlobal s₁ "c" .null)
  obtain ⟨script, hderives, hkept⟩ := globals_kept hstart
  obtain ⟨hnodup, hprefix, -⟩ := hkept _ hlater
  exact ⟨s, _, hstart, hlater, hnames, script, hderives, hprefix, hnodup⟩

end StackScript
