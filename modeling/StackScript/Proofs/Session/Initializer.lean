import StackScript.Proofs.Machine.Control
import StackScript.Proofs.Session.History

/-!
# The initialiser after the start

The code of the initialiser comes first in a program, and no jump from behind leads into it. A run that has
begun behind it gets there only by a call of the name that is reserved for it
(`Engine.Progress.Beyond.advance`). That name is one that a script can write and a host can ask for, so it is
only almost true that globals are initialised once: the initialiser runs again if it is called by its name,
and not otherwise (`initializer_entered_by_name`).
-/

namespace StackScript

variable {σ : Type}

/-! ### Code behind an address -/

/-- No jump leads before code that is laid out in closed ranges. -/
theorem Tiled.le_count {start : Nat} {pieces : List (FunctionEntry × List Instruction)}
    (h : Tiled start pieces) : ∀ i ∈ pieces.flatMap (·.2), i.op.isJump = true → start ≤ i.count := by
  induction pieces generalizing start with
  | nil => exact fun i hi ↦ absurd hi List.not_mem_nil
  | cons first rest ih =>
    obtain ⟨-, hclosed, hrest⟩ := h
    intro i hi hjump
    rcases List.mem_append.mp hi with hi | hi
    · exact (hclosed.jumps i hi hjump).1
    · exact Nat.le_trans (Nat.le_add_right _ _) (ih hrest i hi hjump)

/-- An address behind which the code of a program is left by calls of one function only. -/
structure Program.Parted (p : Program) (limit : Nat) (name : String) : Prop where
  jump : ∀ (a : Nat) (i : Instruction), limit ≤ a → p.code[a]? = some i → i.op.isJump = true →
    limit ≤ i.count
  entry : ∀ other f, other ≠ name → p.function? other = some f → limit ≤ f.address

/-- The range of the initialiser is parted from the others. -/
theorem Script.parted_program (folding : Bool) {s : Script} (hw : s.Written) :
    (s.program folding).Parted ((s.program folding).limit 0) initializerName := by
  have hlimit : (s.program folding).limit 0 = _ :=
    (s.between_program folding hw (show (s.pieces folding)[0]? = some _ from rfl)).1
  have htiled := (s.tiled_pieces folding hw).2.2
  rw [Nat.zero_add] at hlimit htiled
  rw [hlimit]
  refine ⟨fun a i ha hi hjump ↦ htiled.le_count i ?_ hjump, fun other f hother hf ↦ ?_⟩
  · rw [← Array.getElem?_toList, s.code_program, pieces, List.flatMap_cons,
      List.getElem?_append_right ha] at hi
    exact List.mem_of_getElem? hi
  · have hname : f.name = other := by simpa using List.find?_some hf
    have hmem := List.mem_of_find?_eq_some hf
    rw [s.functions_program, pieces, List.map_cons] at hmem
    rcases List.mem_cons.mp hmem with rfl | hmem
    · exact (hother hname.symm).elim
    · obtain ⟨piece, hpiece, rfl⟩ := List.mem_map.mp hmem
      exact htiled.le_address piece hpiece

/-! ### Runs behind an address -/

namespace Engine

variable {e : Engine σ} {p q : Progress σ} {limit n : Nat} {name : String}

/-- A run that is behind an address, and all whose callers are. -/
structure Progress.Beyond (limit : Nat) (p : Progress σ) : Prop where
  address : limit ≤ p.address
  frames : ∀ frame ∈ p.machine.frames, limit ≤ frame.returnAddress

/-- An instruction keeps the run there, unless it calls the one function. -/
theorem Progress.Beyond.advance (hp : e.program.Parted limit name) (h : p.Beyond limit) {i : Instruction}
    (hi : e.program.code[p.address]? = some i) (hcall : ¬ (i.op = .call ∧ i.name = name))
    (hq : e.advance p = .inr q) : q.Beyond limit := by
  have haddress := h.address
  cases continues_of_advance hi hq with
  | next op address frames => exact ⟨by omega, frames ▸ h.frames⟩
  | jump op address frames => exact ⟨address ▸ hp.jump _ i haddress hi op, frames ▸ h.frames⟩
  | enter op function address returns frames =>
    refine ⟨address ▸ hp.entry _ _ (fun hname ↦ hcall ⟨op, hname⟩) function, fun frame hframe ↦ ?_⟩
    rw [frames] at hframe
    rcases Array.mem_push.mp hframe with hframe | rfl
    · exact h.frames frame hframe
    · omega
  | leave op address frames =>
    have hframes := h.frames
    rw [frames] at hframes
    exact ⟨address ▸ hframes _ (Array.mem_push_self), fun frame hframe ↦
      hframes frame (Array.mem_push.mpr (.inl hframe))⟩

/-- One of the first instructions of a run calls a function of a given name. -/
def CallsWithin (e : Engine σ) (p : Progress σ) (n : Nat) (name : String) : Prop :=
  ∃ k q i, k < n ∧ e.advances k p = .inr q ∧ e.program.code[q.address]? = some i ∧ i.op = .call ∧
    i.name = name

/-- A run stays there until it calls the one function. -/
theorem Progress.Beyond.advances (hp : e.program.Parted limit name) (h : p.Beyond limit)
    (hq : e.advances n p = .inr q) : q.Beyond limit ∨ e.CallsWithin p n name := by
  induction n generalizing p with
  | zero =>
    cases hq
    exact .inl h
  | succ n ih =>
    rw [Engine.advances] at hq
    rcases hadvance : e.advance p with o | p' <;> rw [hadvance] at hq
    · cases hq
    rcases hi : e.program.code[p.address]? with _ | i
    · rw [e.advance_outside hi] at hadvance
      cases hadvance
    by_cases hcall : i.op = .call ∧ i.name = name
    · exact .inr ⟨0, p, i, Nat.succ_pos n, rfl, hi, hcall⟩
    · rcases ih (h.advance hp hi hcall hadvance) hq with hbeyond | ⟨k, r, j, hk, hr, hj⟩
      · exact .inl hbeyond
      · refine .inr ⟨k + 1, r, j, Nat.succ_lt_succ hk, ?_, hj⟩
        rw [Engine.advances, hadvance]
        exact hr

/-- A failure in a run has a place in the text, or is one of malformed code. -/
theorem span_of_finish {fuel : Nat} {r : Report} {m : Machine σ}
    (h : e.finish fuel p = some (.error r, m)) :
    r.span ≠ none ∨ ∃ message, r.fault = .invalidProgram message := by
  induction fuel generalizing p with
  | zero => cases h
  | succ fuel ih =>
    rw [finish] at h
    rcases hp : e.advance p with o | q <;> rw [hp] at h
    · cases h
      rcases hi : e.program.code[p.address]? with _ | i
      · rw [e.advance_outside hi] at hp
        cases hp
        exact .inr ⟨_, rfl⟩
      · rw [e.advance_eq hi] at hp
        split at hp <;> cases hp
        exact .inl (Option.some_ne_none _)
    · exact ih h

end Engine

/-- The functions of a program are the initialiser and those that a session knows of. -/
theorem Program.LaidOut.function?_eq_none_iff {p : Program} {script : Script} (h : p.LaidOut script)
    (name : String) : p.function? name = none ↔
      (p.userFunctions.map (·.name)).contains name = false ∧ name ≠ initializerName := by
  have hnone : p.function? name = none ↔ name ∉ p.functions.map (·.name) := by
    simp [Program.function?]
  rw [hnone, h.names, h.userFunctions, List.mem_cons, not_or, and_comm, List.contains_eq_mem,
    decide_eq_false_iff_not]

namespace Session

variable {s s' : Session σ} {fuel : Nat} {name : String} {args : List Value}

/-- A call is refused for want of its function if there is no such function. That is the only failure of
this kind without a place in the text. -/
theorem call_undefined_iff : (∃ s', s.call fuel name args =
      some (.error (.ofFault (.undefinedFunction name) none), s')) ↔
    s.engine.program.function? name = none := by
  constructor
  · rintro ⟨s', hs'⟩
    obtain ⟨⟨result, m⟩, ho, heq⟩ := exists_call hs'
    rcases result with r | value
    · have hreport : Report.ofFault (.undefinedFunction name) none = (s.diagnostics.raiseFailure r).1 :=
        Except.error.inj (congrArg Prod.fst heq)
      obtain ⟨hfault, hspan⟩ := s.diagnostics.raiseFailure_report r
      rw [← hreport] at hfault hspan
      rcases hp : s.engine.start s.machine name args with r' | p
      · rw [Engine.call_eq_of_error fuel hp] at ho
        cases ho
        unfold Engine.start at hp
        split at hp
        · assumption
        · split at hp <;> cases hp
          cases hfault
      · rw [Engine.call_eq fuel hp] at ho
        obtain ⟨⟨_, m'⟩, hfinish, ho⟩ := Option.map_eq_some_iff.mp ho
        cases ho
        rcases Engine.span_of_finish hfinish with hplace | ⟨message, hmessage⟩
        · exact (hplace hspan.symm).elim
        · cases hfault.trans hmessage
    · cases congrArg Prod.fst heq
  · intro hnone
    have hcall : s.engine.call fuel s.machine name args =
        some (.error (.ofFault (.undefinedFunction name) none), s.machine) := by
      simp only [Engine.call, Engine.start, hnone]
    exact ⟨_, Option.map_eq_some_iff.mpr ⟨_, hcall, rfl⟩⟩

end Session

/-- Once a session has started, no call carries out an instruction of the initialiser, whatever has been done
with the session before, unless the call itself is one of the name that is reserved for the initialiser, or
the script has made a call of that name by then. And exactly those calls are refused for want of a function
that name neither a function of the script nor the initialiser. -/
theorem initializer_entered_by_name {source : String} {startFuel : Nat} {limits : Limits}
    {bridge : Bridge σ} {world : World} {host : σ} {s s' : Session σ}
    (h : Session.start startFuel source limits bridge world host = some (.ok s)) (hs : s.Later s')
    (name : String) (args : List Value) :
    (∀ p n q, s'.engine.start s'.machine name args = .ok p → s'.engine.advances n p = .inr q →
      q.address < s'.engine.program.limit 0 →
        name = initializerName ∨ s'.engine.CallsWithin p n initializerName) ∧
    ∀ fuel, (∃ s'', s'.call fuel name args =
        some (.error (.ofFault (.undefinedFunction name) none), s'')) ↔
      s'.hasFunction name = false ∧ name ≠ initializerName := by
  obtain ⟨c, value, hc, hengine, -, -⟩ := Session.exists_run_of_start h
  obtain ⟨script, -, hlawful, hw, hprogram⟩ := exists_script_of_compile hc
  have hprogram : s'.engine.program = script.program true := by
    rw [hs.engine_eq, hengine, ← hprogram]
  have hparted := script.parted_program true hw
  have hlaid := script.laidOut hw hlawful.functions
  rw [← hprogram] at hparted hlaid
  refine ⟨fun p n q hp hq hlt ↦ ?_, fun fuel ↦ ?_⟩
  · by_cases hname : name = initializerName
    · exact .inl hname
    · obtain ⟨f, hf, rfl⟩ := Engine.exists_function_of_start hp
      have hbeyond : Engine.Progress.Beyond (s'.engine.program.limit 0)
          ⟨f.address, 0, { s'.machine.reset with stack := args.toArray }⟩ :=
        ⟨hparted.entry name f hname hf, nofun⟩
      rcases hbeyond.advances hparted hq with hq' | hcalls
      · exact (Nat.not_lt_of_le hq'.address hlt).elim
      · exact .inr hcalls
  · rw [Session.call_undefined_iff, hlaid.function?_eq_none_iff]
    rfl

/-- A text with a function that calls the initialiser. -/
def renewingText : String := "var a = 1; func main() \x7b a = 2; __regglobal(); return a; \x7d"

/-- A session over that text, a global of which has been given a value from outside: the function gets to the
initialiser after a call of its name. -/
theorem initializer_entered_by_name_renewingText : ∃ s s' : Session Unit,
    Session.start 9 renewingText .standard .none .empty () = some (.ok s) ∧ s.Later s' ∧
      ∃ p q, s'.engine.start s'.machine "main" [] = .ok p ∧ s'.engine.advances 5 p = .inr q ∧
        q.address < s'.engine.program.limit 0 ∧
        ("main" = initializerName ∨ s'.engine.CallsWithin p 5 initializerName) := by
  obtain ⟨s, p, q, hstart, hp, hq, hlt⟩ : ∃ (s : Session Unit) (p q : Engine.Progress Unit),
      Session.start 9 renewingText .standard .none .empty () = some (.ok s) ∧
      s.engine.start (s.setGlobal "a" .null).machine "main" [] = .ok p ∧
      s.engine.advances 5 p = .inr q ∧ q.address < s.engine.program.limit 0 :=
    ⟨_, _, _, by cbv, by cbv, by cbv, by cbv⟩
  have hlater : s.Later (s.setGlobal "a" .null) := .single (.setGlobal s "a" .null)
  have hentered := (initializer_entered_by_name hstart hlater "main" []).1 p 5 q hp hq hlt
  exact ⟨s, _, hstart, hlater, p, q, hp, hq, hlt, hentered⟩

/-- In a session over that text there is no function with the name of the initialiser, and yet a call of that
name ends with a value, and a call of the function gives back what the initialiser has made of the global
again. -/
theorem initializer_called_again : ∃ s : Session Unit,
    Session.start 9 renewingText .standard .none .empty () = some (.ok s) ∧
      s.hasFunction initializerName = false ∧
      (∃ s', s.call 9 initializerName [] = some (.ok .null, s')) ∧
      ∃ s', s.call 99 "main" [] = some (.ok (.int 1), s') := by
  refine ⟨_, by cbv, by cbv, ⟨_, by cbv⟩, _, by cbv⟩

end StackScript
