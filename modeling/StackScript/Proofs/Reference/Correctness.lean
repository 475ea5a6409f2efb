import Mathlib
import StackScript.Proofs.Folding.Transparency
import StackScript.Proofs.Reference.Statement

/-!
# Compiled scripts do what they say

The program of a script does what the reference evaluator says of the script. A function is entered with
its arguments as its first locals, and each call it makes is one of a smaller evaluation, so that
programs answer calls as evaluations do by induction on the fuel of these (`Script.answers`).

The machine splits the operand of a static access at its last point, so this holds of scripts whose
static members have names without points. Of others it is false (`compile_dotted`).
-/

namespace StackScript

open Engine Evaluation

variable {σ : Type} {e : Engine σ} {call : Caller σ} {k : Floor} {a : Nat}

/-! ### The functions of a program -/

/-- Globals are initialised by assignments. -/
theorem bodyCode_globals (folding : Bool) (start : Nat) (globals : List GlobalDecl) :
    bodyCode folding none [] start
      (globals.map fun g ↦ .expression (.assign (.variable g.name) g.value g.line) g.line) =
      globalsCode folding start globals := by
  induction globals generalizing start with
  | nil =>
    rw [List.map_nil, bodyCode]
    rfl
  | cons g rest ih =>
    have hassign : Stmt.code folding none [] start
        (.expression (.assign (.variable g.name) g.value g.line) g.line) =
        g.value.code folding [] start ++
          [⟨.setGlobal, .name g.name, g.line⟩, ⟨.pop, .count 1, g.line⟩] := by
      rw [Stmt.code, Expr.code, Place.code, Place.access_global rfl, Place.store_global rfl]
      simp
    rw [List.map_cons, bodyCode, globalsCode, hassign]
    exact congrArg _ (ih _)

theorem Script.scopeAfterAll_initializer (s : Script) : scopeAfterAll [] s.initializer.body = [] := by
  show scopeAfterAll [] (s.globals.map _) = []
  induction s.globals with
  | nil => rfl
  | cons _ _ ih => exact ih

/-- The program of a script consists of its functions, of which the first initialises the globals. -/
theorem Script.program_eq (folding : Bool) (s : Script) : s.program folding =
    ⟨(functionsCode folding 0 (s.initializer :: s.functions)).2.toArray,
      (functionsCode folding 0 (s.initializer :: s.functions)).1, s.globals.map (·.name)⟩ := by
  have hinitializer : s.initializer.code folding 0 =
      globalsCode folding 0 s.globals ++ epilogue s.initializerLine := by
    have hbody : blockCode folding none [] 0 s.initializer.body s.initializer.closeLine =
        globalsCode folding 0 s.globals := by
      rw [blockCode, s.scopeAfterAll_initializer]
      exact (List.append_nil _).trans (bodyCode_globals folding 0 s.globals)
    exact congrArg (· ++ _) hbody
  rw [Script.program, functionsCode, hinitializer, Nat.zero_add]
  rfl

/-- A function is found in the program where its code is. -/
theorem exists_entry (folding : Bool) (name : String) (start : Nat) (functions : List FunctionDecl) :
    match functions.find? (·.name == name) with
    | none => (functionsCode folding start functions).1.find? (·.name == name) = none
    | some f => ∃ before after, (functionsCode folding start functions).2 =
        before ++ f.code folding (start + before.length) ++ after ∧
      (functionsCode folding start functions).1.find? (·.name == name) =
        some ⟨name, f.params.length, start + before.length⟩ := by
  induction functions generalizing start with
  | nil => rfl
  | cons f rest ih =>
    rw [functionsCode, List.find?_cons]
    by_cases hname : f.name = name
    · rw [beq_iff_eq.mpr hname]
      refine ⟨[], (functionsCode folding (start + (f.code folding start).length) rest).2, rfl, ?_⟩
      rw [List.find?_cons, beq_iff_eq.mpr hname, hname]
      rfl
    · have hne : (f.name == name) = false := beq_eq_false_iff_ne.mpr hname
      have hrest := ih (start + (f.code folding start).length)
      simp only [hne, List.find?_cons]
      rcases hf : rest.find? (·.name == name) with _ | g <;> simp only [hf] at hrest ⊢
      · exact hrest
      · obtain ⟨before, after, hcode, hentry⟩ := hrest
        refine ⟨f.code folding start ++ before, after, ?_, ?_⟩
        · rw [hcode, List.length_append, ← Nat.add_assoc]
          simp only [List.append_assoc]
        · rw [List.length_append, ← Nat.add_assoc]
          exact hentry

/-- A function of a script has an entry in the program, and its code is there. -/
theorem Script.function?_program (folding : Bool) (s : Script) (name : String) :
    match s.function? name with
    | none => (s.program folding).function? name = none
    | some f => ∃ address, (s.program folding).function? name = some ⟨name, f.params.length, address⟩ ∧
      (s.program folding).Has address (f.code folding address) := by
  have hentry := exists_entry folding name 0 (s.initializer :: s.functions)
  rw [s.program_eq, function?]
  rcases hf : (s.initializer :: s.functions).find? (·.name == name) with _ | f <;>
    simp only [hf] at hentry ⊢
  · exact hentry
  · obtain ⟨before, after, hcode, hfind⟩ := hentry
    exact ⟨_, hfind, .of_eq hcode (Nat.zero_add _).symm⟩

/-- A function that is written, and whose static members have simple names. -/
structure FunctionDecl.Plain (f : FunctionDecl) : Prop where
  written : f.Written
  simple : ∀ m ∈ bodyStaticMembers f.body, Text.IsSimple m

theorem Script.plain_initializer {s : Script} (hw : s.Written)
    (hm : ∀ m ∈ s.staticMembers, Text.IsSimple m) : s.initializer.Plain := by
  have hglobals (globals : List GlobalDecl) (hw : ∀ g ∈ globals, g.Written)
      (hm : ∀ m ∈ globals.flatMap (·.value.staticMembers), Text.IsSimple m) :
      let body := globals.map fun g ↦ Stmt.expression (.assign (.variable g.name) g.value g.line) g.line
      writtenBody body ∧ ∀ m ∈ bodyStaticMembers body, Text.IsSimple m := by
    induction globals with
    | nil => exact ⟨trivial, fun _ h ↦ nomatch h⟩
    | cons g rest ih =>
      obtain ⟨hg, hrest⟩ := List.forall_mem_cons.mp hw
      obtain ⟨hvalue, hmembers⟩ := List.forall_mem_append.mp hm
      obtain ⟨hbody, hsimple⟩ := ih hrest hmembers
      exact ⟨⟨hg, hbody⟩, List.forall_mem_append.mpr ⟨hvalue, hsimple⟩⟩
  obtain ⟨hbody, hsimple⟩ := hglobals s.globals hw.1 (List.forall_mem_append.mp hm).1
  exact ⟨⟨List.not_mem_nil, hbody⟩, hsimple⟩

theorem Script.plain_of_function? {s : Script} (hw : s.Written)
    (hm : ∀ m ∈ s.staticMembers, Text.IsSimple m) {name : String} {f : FunctionDecl}
    (hf : s.function? name = some f) : f.Plain := by
  rcases List.mem_cons.mp (List.mem_of_find?_eq_some hf) with rfl | hmem
  · exact s.plain_initializer hw hm
  · refine ⟨hw.2 f hmem, fun m h ↦ (List.forall_mem_append.mp hm).2 m ?_⟩
    exact List.mem_flatMap.mpr ⟨f, hmem, h⟩

/-! ### Running a function -/

/-- A function begins with its arguments as its locals. -/
theorem Floor.machine_of_args (k : Floor) {m : Machine σ} {args : List Value}
    (h : m.stack = k.stack ++ args.toArray) : k.machine args.reverse [] [] m.memory =
      { m with windows := k.windows, base := k.stack.size, frames := k.frames } := by
  rw [Floor.machine, Floor.above, List.reverse_reverse, List.append_nil, ← h]
  rfl

/-- A function that comes to its end returns null. -/
theorem leads_epilogue {slots : List Slot} {line : Nat} (hcode : e.program.Has a (epilogue line)) :
    e.Leads (k.Left slots a) (k.Returns e (.null : Value)) := by
  rintro s q ⟨locals, hsuffix, hat⟩
  obtain ⟨q', hat', hreaches⟩ := leads_push hcode.head _ q hat
  exact ⟨q', hat'.returns hcode.tail.head rfl, hreaches⟩

/-- What a function gives back when its body has ended. -/
def Signal.result : Signal → Value
  | .gaveBack v => v
  | _ => .null

/-- The code of a function returns what the body gives back. -/
theorem FunctionDecl.follows (f : FunctionDecl) (k : Floor) (hcall : e.Answers call) (hf : f.Plain)
    (hcode : e.program.Has a (f.code false a)) (fuel : Nat) :
    e.Follows (k.At (f.params.reverse.map .named) [] [] a) (evalBody e.bridge call fuel false f.body)
      fun signal ↦ k.Returns e signal.result := by
  have hscope : scopeOf (f.params.reverse.map .named) = f.params.reverse := by
    simp [scopeOf, Function.comp_def, Slot.name]
  have hnone : Around none (f.params.reverse.map .named) := fun l hl ↦ nomatch hl
  have hbody := realizesBody hcall k fuel none _ hnone a f.body hf.written.2 hf.simple
  rw [FunctionDecl.code, blockCode, ← hscope, ← scopeOf_slotsAfterAll] at hcode
  refine (hbody hcode.left.left).after fun signal ↦ ?_
  cases signal with
  | next =>
    intro s q hat
    obtain ⟨q₁, hleft, hreaches⟩ :=
      prepares_discard (suffix_slotsAfterAll _ f.body) f.closeLine hcode.left.right s q hat
    rw [Nat.add_assoc, ← List.length_append] at hleft
    obtain ⟨q₂, hreturns, hreaches'⟩ := leads_epilogue hcode.right s q₁ hleft
    exact ⟨q₂, hreturns, hreaches.trans hreaches'⟩
  | broke | continued =>
    rintro s q ⟨l, hl, -⟩
    cases hl
  | gaveBack v => exact fun s q h ↦ ⟨q, h, .refl q⟩

/-- From its entry a function comes to where it returns the result of its evaluation. -/
theorem FunctionDecl.returns (f : FunctionDecl) (k : Floor) (hcall : e.Answers call) (hf : f.Plain)
    (hcode : e.program.Has a (f.code false a)) {fuel : Nat} {args : List Value}
    (hargs : f.params.length = args.length) {mem mem' : Memory σ} {r : Except Fault Value}
    (hrun : f.evaluate e.bridge call fuel args mem = some (r, mem')) :
    match r with
    | .ok v => ∃ q, k.Returns e v ⟨[], mem'⟩ q ∧ e.Reaches (a, k.machine args.reverse [] [] mem) q
    | .error fault => e.Stops (a, k.machine args.reverse [] [] mem) (.error fault) mem' := by
  obtain ⟨⟨result, s⟩, hbody, heq⟩ := Option.map_eq_some_iff.mp hrun
  have hfollows := f.follows k hcall hf hcode fuel ⟨_, mem⟩ _
    ⟨args.reverse, .of_zip f.params args hargs, rfl⟩ result s hbody
  rcases result with fault | signal
  · cases heq
    exact hfollows
  · cases signal <;> cases heq <;> exact hfollows

/-! ### Calls -/

/-- Programs answer calls as their scripts are evaluated. -/
theorem Script.answers {s : Script} (hw : s.Written) (hm : ∀ m ∈ s.staticMembers, Text.IsSimple m)
    (he : e.program = s.program false) (fuel : Nat) : e.Answers (s.evaluate e.bridge fuel) := by
  induction fuel with
  | zero => exact fun _ _ _ _ _ _ _ _ _ _ _ h ↦ nomatch h
  | succ fuel ih =>
    intro i a m S args outer r hi hop hstack hwindows hrun
    have hentry := s.function?_program false i.name
    rw [← he] at hentry
    rw [Script.evaluate] at hrun
    rcases hf : s.function? i.name with _ | f <;> simp only [hf] at hrun hentry
    · obtain rfl := Option.some.inj hrun
      exact stops_call_none hi hop hentry
    · obtain ⟨address, hfunction, hcode⟩ := hentry
      have hsize : m.stack.size = S.size + args.length := by
        simp [hstack]
      split at hrun
      · rename_i hne
        obtain rfl := Option.some.inj hrun
        exact stops_call_arity hi hop hfunction hwindows hsize hne
      · rename_i hlength
        obtain ⟨r, mem'⟩ := r
        have heq : f.params.length = args.length := not_not.mp hlength
        -- The function runs above the values of its caller.
        let floor : Floor := ⟨S, outer, m.frames.push ⟨m.base, a + 1⟩⟩
        have hcall := reaches_call hi hop hfunction hwindows (hsize.trans (congrArg _ heq.symm))
        rw [← floor.machine_of_args hstack] at hcall
        have hreturns := f.returns floor ih (s.plain_of_function? hw hm hf) hcode heq hrun
        rcases r with fault | v
        · exact hcall.stops hreturns
        · obtain ⟨⟨b, m'⟩, ⟨j, rest, hj, hopj, hm'⟩, hreaches⟩ := hreturns
          obtain rfl := hm'
          have hback := reaches_giveBack (m := ⟨(S ++ rest).push v, S.size, outer,
            m.frames.push ⟨m.base, a + 1⟩, mem'.resolved, mem'.store⟩) hj hopj rfl rfl
          have hshrink : (S ++ rest).shrink S.size = S := by
            simp
          rw [hshrink] at hback
          exact hcall.trans (hreaches.trans hback)

/-- A call from outside ends as the evaluation of the function. -/
theorem Script.endsAs {s : Script} (hw : s.Written) (hm : ∀ m ∈ s.staticMembers, Text.IsSimple m)
    (he : e.program = s.program false) {m : Machine σ} {name : String} {args : List Value} {fuel : Nat}
    {r : Except Fault Value} {mem : Memory σ}
    (hrun : s.evaluate e.bridge fuel name args m.memory = some (r, mem)) :
    ∃ o, e.EndsAs m name args o ∧ o.1.mapError Report.fault = r ∧ o.2.memory = mem := by
  cases fuel with
  | zero => exact nomatch hrun
  | succ fuel =>
    have hentry := s.function?_program false name
    rw [← he] at hentry
    rw [Script.evaluate] at hrun
    rcases hf : s.function? name with _ | f <;> simp only [hf] at hrun hentry
    · cases hrun
      exact ⟨_, endsAs_of_start (by simp only [start, hentry]; rfl), rfl, rfl⟩
    · obtain ⟨address, hfunction, hcode⟩ := hentry
      split at hrun
      · rename_i hne
        cases hrun
        exact ⟨_, endsAs_of_start (by simp only [start, hfunction, if_pos hne]; rfl), rfl, rfl⟩
      · rename_i hlength
        have heq : f.params.length = args.length := not_not.mp hlength
        let floor : Floor := ⟨#[], [], #[]⟩
        have hstart : e.start m name args =
            .ok ⟨address, 0, floor.machine args.reverse [] [] m.memory⟩ := by
          have hstack : args.toArray = floor.stack ++ args.toArray := Array.empty_append.symm
          have hmachine := floor.machine_of_args (m := { m.reset with stack := args.toArray }) hstack
          simp only [start, hfunction, if_neg hlength]
          exact congrArg (fun m' ↦ Except.ok (Progress.mk address 0 m')) hmachine.symm
        refine Stops.endsAs hstart ?_
        have hreturns := f.returns floor (s.answers hw hm he fuel) (s.plain_of_function? hw hm hf) hcode
          heq hrun
        rcases r with fault | v
        · exact hreturns
        · obtain ⟨⟨b, m'⟩, ⟨j, rest, hj, hopj, hm'⟩, hreaches⟩ := hreturns
          obtain rfl := hm'
          exact hreaches.stops (stops_giveBack hj hopj rfl rfl)

/-- With no limit reached, a call of a compiled script ends as the evaluation of the script says, with the
same value or the same fault. It leaves the same globals, the same lists, and the same host behind.

The names of static members must have no points in them, as the machine splits the operand of a static
access at its last point. -/
theorem compile_correct {source : String} {c : Compiled} (h : compile source = .ok c)
    (hm : ∀ member ∈ (read source).script.staticMembers, Text.IsSimple member) (bridge : Bridge σ)
    (l : Limits) (m : Machine σ) (name : String) (args : List Value) (fuel : Nat)
    (r : Except Fault Value) (mem : Memory σ)
    (hrun : (read source).script.evaluate bridge fuel name args m.memory = some (r, mem)) :
    ∃ o, EndsAs ⟨c.program, bridge, l⟩ m name args o ∧ o.1.mapError Report.fault = r ∧
      o.2.memory = mem := by
  obtain ⟨-, hprogram⟩ := program_of_compile h
  have hw : (read source).script.Written := written_readWith true source
  obtain ⟨known, hp⟩ := (read source).script.exists_beside
  obtain ⟨o, ho, hresult, hmem⟩ := Script.endsAs (e := ⟨(read source).script.program false, bridge, l⟩)
    hw hm rfl hrun
  rw [hprogram]
  exact ⟨o, (endsAs_iff hp).mpr ho, hresult, hmem⟩

/-- A host of one type that answers every call with 3, and keeps the names of the methods called. -/
def Bridge.noting : Bridge (List String) where
  resolve name := pure (if name = "C" then some ⟨0⟩ else .none)
  construct t _ := throw (.typeNotFound t.display)
  invoke _ method _ := do
    modify fun (world, called) ↦ (world, called ++ [method])
    return .int 3
  getField _ field := throw (.memberNotFound "C" field)
  setField _ field _ := throw (.memberNotFound "C" field)

set_option maxRecDepth 40000 in
/-- A loop that is left in its second turn, after a call of the host in the first. -/
theorem compile_correct_loop : ∃ source, source =
      "func f(s) \x7b for x in [2, 1] \x7b if (x == 1) \x7b break; \x7d s += C:m(x); \x7d return s; \x7d" ∧
    ∃ c, compile source = .ok c ∧ ∀ l, ∃ o,
      EndsAs ⟨c.program, .noting, l⟩ (.fresh ⟨.declared [], .empty, []⟩) "f" [.int 4] o ∧
      o.1.mapError Report.fault = .ok (.int 7) ∧ o.2.store.host = ["m"] := by
  obtain ⟨source, hsource, r, hr, hfailed, hmembers, hrun⟩ : ∃ source, source =
        "func f(s) \x7b for x in [2, 1] \x7b if (x == 1) \x7b break; \x7d s += C:m(x); \x7d return s; \x7d" ∧
      ∃ r, read source = r ∧ r.diagnostics.failed = false ∧ r.script.staticMembers = ["m"] ∧
        (r.script.evaluate .noting 4 "f" [.int 4] (Machine.fresh ⟨.declared [], .empty, []⟩).memory).map
          (fun (v, mem) ↦ (v, mem.store.host)) = some (.ok (.int 7), ["m"]) :=
    ⟨_, rfl, _, by cbv, by cbv, by cbv, by cbv⟩
  obtain ⟨c, hc⟩ := exists_compile hr hfailed
  have hm : ∀ member ∈ r.script.staticMembers, Text.IsSimple member := by
    rw [hmembers]
    decide
  obtain ⟨⟨v, mem⟩, hevaluate, heq⟩ := Option.map_eq_some_iff.mp hrun
  obtain ⟨rfl, hhost⟩ := Prod.mk.inj heq
  obtain rfl := hr
  refine ⟨source, hsource, c, hc, fun l ↦ ?_⟩
  obtain ⟨o, ho, hresult, hmem⟩ := compile_correct hc hm .noting l _ "f" [.int 4] 4 _ mem hevaluate
  exact ⟨o, ho, hresult, (congrArg (·.store.host) hmem).trans hhost⟩

/-- Of a static member with a point in its name the machine asks the wrong type. -/
theorem compile_dotted : ∃ (c : Compiled) (bridge : Bridge Unit),
    compile "func main() \x7b return C:a.b(); \x7d" = .ok c ∧
    ((read "func main() \x7b return C:a.b(); \x7d").script.evaluate bridge 2 "main" []
      (Machine.fresh ⟨.declared [], .empty, ()⟩).memory).map (·.1) = some (.ok (.int 7)) ∧
    (Engine.call ⟨c.program, bridge, .standard⟩ 5 (.fresh ⟨.declared [], .empty, ()⟩) "main" []).map
      (·.1.mapError Report.fault) = some (.error (.typeNotFound "C.a")) := by
  let bridge : Bridge Unit := { Bridge.none with
    resolve := fun name ↦ pure (if name = "C" then some ⟨0⟩ else none)
    invoke := fun _ method _ ↦ pure (if method = "a.b" then .int 7 else .null) }
  obtain ⟨c, hc, hcall⟩ : ∃ c, compile "func main() \x7b return C:a.b(); \x7d" = .ok c ∧
      (Engine.call ⟨c.program, bridge, .standard⟩ 5 (.fresh ⟨.declared [], .empty, ()⟩) "main" []).map
        (·.1.mapError Report.fault) = some (.error (.typeNotFound "C.a")) :=
    ⟨_, by cbv, by cbv⟩
  exact ⟨c, bridge, hc, by cbv, hcall⟩

end StackScript
