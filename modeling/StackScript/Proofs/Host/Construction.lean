import StackScript.Compilation
import StackScript.Proofs.Machine.Growth
import StackScript.Proofs.Machine.Recall
import StackScript.Proofs.Syntax.StaticMember

/-!
# Which type a construction means

A name refers to the first type of exactly this name or, if there is none and the name is simple, to the
only type whose simple name it is (`Registry.Refers`). This is what a registry finds (`Registry.refers_iff`),
and at any time in a run a construction goes by it: the constructors of the type that the name refers to are
called if there is one, the name `Range` stands for built-in ranges if it refers to no type, and names with
another last part are a fault (`constructs_referent`).

That several types have the simple name `Range` does not keep a construction from making a built-in range, and
nor does a qualifier that no type has (`constructs_hidden_range`).
-/

namespace StackScript

variable {σ : Type} {name : String} {t : TypeDef} {handle : TypeHandle}

namespace Registry

/-! ### What a name refers to -/

/-- The type that a name refers to. -/
inductive Refers (r : Registry) (name : String) : TypeDef → Prop
  /-- The first one of this name. -/
  | full {t : TypeDef} (h : r.types.find? (·.name = name) = some t) : Refers r name t
  /-- The only one with this simple name. -/
  | simple {t : TypeDef} (hnone : ∀ t ∈ r.types, t.name ≠ name) (hsimple : Text.IsSimple name)
    (h : r.types.filter (Text.simpleName ·.name = name) = [t]) : Refers r name t

variable {r : Registry}

/-- Where a type is found by its name, it has that name. -/
theorem mem_and_name_of_find? (h : r.types.find? (·.name = name) = some t) :
    t ∈ r.types ∧ t.name = name :=
  ⟨List.mem_of_find?_eq_some h, by simpa using List.find?_some h⟩

theorem typeDef_eq_ok_iff : r.typeDef handle = .ok t ↔ r.types[handle.index]? = some t := by
  rw [typeDef]
  rcases r.types[handle.index]? with _ | t' <;> simp

theorem handle?_eq_none_iff : r.handle? name = none ↔ ∀ t ∈ r.types, t.name ≠ name := by
  rw [handle?, Option.map_eq_none_iff, List.findIdx?_eq_none_iff]
  simp

theorem exists_typeDef_of_handle? (h : r.handle? name = some handle) :
    ∃ t, r.typeDef handle = .ok t ∧ r.types.find? (·.name = name) = some t := by
  obtain ⟨i, hi, rfl⟩ := Option.map_eq_some_iff.mp h
  obtain ⟨hlt, hname, hfirst⟩ := List.findIdx?_eq_some_iff_getElem.mp hi
  refine ⟨r.types[i], typeDef_eq_ok_iff.mpr (List.getElem?_eq_getElem hlt),
    List.find?_eq_some_iff_getElem.mpr ⟨by simpa using hname, i, hlt, rfl, fun j hj ↦ ?_⟩⟩
  simpa using hfirst j hj

/-- The entries with a given simple name, without their indices. -/
theorem map_fst_filter_zipIdx (types : List TypeDef) (name : String) :
    (types.zipIdx.filter fun (t, _) ↦ Text.simpleName t.name == name).map Prod.fst =
      types.filter (Text.simpleName ·.name = name) := by
  conv_rhs => rw [← List.zipIdx_map_fst 0 types, List.filter_map]
  rfl

theorem exists_typeDef_of_withSimpleName (h : r.withSimpleName name = [handle]) :
    ∃ t, r.typeDef handle = .ok t ∧ r.types.filter (Text.simpleName ·.name = name) = [t] := by
  obtain ⟨⟨t, i⟩, hentry, rfl⟩ := List.map_eq_singleton_iff.mp h
  have hmem : (t, i) ∈ r.types.zipIdx :=
    List.mem_of_mem_filter (hentry ▸ List.mem_singleton_self (t, i))
  refine ⟨t, typeDef_eq_ok_iff.mpr (List.mk_mem_zipIdx_iff_getElem?.mp hmem), ?_⟩
  rw [← map_fst_filter_zipIdx, hentry]
  rfl

/-- A registry finds nothing but what a name refers to. -/
theorem exists_refers_of_lookup? (h : r.lookup? name = some handle) :
    ∃ t, r.typeDef handle = .ok t ∧ r.Refers name t := by
  rw [lookup?] at h
  rcases hhandle : r.handle? name with _ | own <;> rw [hhandle] at h
  · dsimp only at h
    split at h
    · cases h
    · rename_i hsimple
      split at h
      · rename_i found hfound
        cases h
        obtain ⟨t, ht, honly⟩ := exists_typeDef_of_withSimpleName hfound
        exact ⟨t, ht, .simple (handle?_eq_none_iff.mp hhandle) hsimple honly⟩
      · cases h
  · cases h
    obtain ⟨t, ht, hfirst⟩ := exists_typeDef_of_handle? hhandle
    exact ⟨t, ht, .full hfirst⟩

/-- And it finds all of that. -/
theorem Refers.exists_lookup? (h : r.Refers name t) : ∃ handle, r.lookup? name = some handle := by
  cases h with
  | full hfirst =>
    rcases hhandle : r.handle? name with _ | handle
    · obtain ⟨hmem, hname⟩ := mem_and_name_of_find? hfirst
      exact absurd hname (handle?_eq_none_iff.mp hhandle t hmem)
    · exact ⟨handle, by rw [lookup?, hhandle]⟩
  | simple hnone hsimple honly =>
    have hlength : (r.withSimpleName name).length = 1 := by
      rw [withSimpleName, List.length_map, ← List.length_map Prod.fst, map_fst_filter_zipIdx, honly]
      rfl
    obtain ⟨handle, hhandle⟩ := List.length_eq_one_iff.mp hlength
    exact ⟨handle, by rw [lookup?, handle?_eq_none_iff.mpr hnone, if_neg hsimple, hhandle]⟩

/-- A name refers to one type at most. -/
theorem Refers.unique {t' : TypeDef} (h : r.Refers name t) (h' : r.Refers name t') : t = t' := by
  cases h with
  | full hfirst =>
    obtain ⟨hmem, hname⟩ := mem_and_name_of_find? hfirst
    cases h' with
    | full hfirst' => exact Option.some.inj (hfirst.symm.trans hfirst')
    | simple hnone => exact absurd hname (hnone t hmem)
  | simple hnone _ honly =>
    cases h' with
    | full hfirst' =>
      obtain ⟨hmem, hname⟩ := mem_and_name_of_find? hfirst'
      exact absurd hname (hnone t' hmem)
    | simple _ _ honly' => exact (List.cons.inj (honly.symm.trans honly')).1

/-- A registry finds exactly what a name refers to. -/
theorem refers_iff :
    r.Refers name t ↔ ∃ handle, r.lookup? name = some handle ∧ r.typeDef handle = .ok t := by
  constructor
  · intro h
    obtain ⟨handle, hlookup⟩ := h.exists_lookup?
    obtain ⟨t', ht', h'⟩ := exists_refers_of_lookup? hlookup
    exact ⟨handle, hlookup, h.unique h' ▸ ht'⟩
  · rintro ⟨handle, hlookup, ht⟩
    obtain ⟨t', ht', h'⟩ := exists_refers_of_lookup? hlookup
    exact Except.ok.inj (ht'.symm.trans ht) ▸ h'

theorem lookup?_eq_none_iff : r.lookup? name = none ↔ ∀ t, ¬ r.Refers name t := by
  constructor
  · intro hnone t ht
    obtain ⟨handle, hlookup, -⟩ := refers_iff.mp ht
    rw [hnone] at hlookup
    cases hlookup
  · intro h
    refine Option.eq_none_iff_forall_ne_some.mpr fun handle hlookup ↦ ?_
    obtain ⟨t, -, ht⟩ := exists_refers_of_lookup? hlookup
    exact h t ht

end Registry

/-- Calls the constructor of a type that the arguments select. -/
def TypeDef.build (t : TypeDef) (args : List Value) : HostCall Registry Value := do
  let action ← selectOverload t.constructors t.name args
  Registry.perform (action args)

/-- A registry constructs by the declaration of the type. -/
theorem Registry.run_construct {s : World × Registry} (ht : s.2.typeDef handle = .ok t)
    (args : List Value) : (construct handle args).run.run s = (t.build args).run.run s := by
  show ((do
    let t ← s.2.typeDef handle
    t.build args : HostCall Registry Value)).run.run s = _
  rw [ht]
  rfl

/-- What is seen of a call of the host is what it does to the world and the host. -/
theorem Step.on_onHost_congr {α : Type} {call call' : HostCall σ α} {m : Machine σ}
    (h : call.run.run (m.store.world, m.store.host) = call'.run.run (m.store.world, m.store.host)) :
    (onHost call).on m = (onHost call').on m := by
  let after (ran : Except HostFault α × World × σ) : Except Fault α × Machine σ :=
    (ran.1.mapError HostFault.toFault, { m with store := ⟨m.store.globals, ran.2.1, ran.2.2⟩ })
  exact congrArg after h

namespace Engine

open Step

/-! ### Machines in the middle of a run -/

/-- A machine as it may be in the middle of a run, whatever has been done with it before. -/
def Midway (e : Engine σ) (m : Machine σ) : Prop :=
  ∃ m₀ name args p n q, Used e.bridge m₀ ∧ e.start m₀ name args = .ok p ∧ e.advances n p = .inr q ∧
    q.machine = m

/-- It remembers nothing wrong. -/
theorem Midway.recalls {find : σ → String → Option TypeHandle} {e : Engine σ} {m : Machine σ}
    (hb : e.bridge.Lasting find) (hm : e.Midway m) : m.Recalls find := by
  obtain ⟨m₀, name, args, p, n, q, hused, hstart, hrun, rfl⟩ := hm
  have hp : p.machine.Recalls find := by
    obtain ⟨r, hr, -⟩ | ⟨p₁, p₂, hp₁, -, halike⟩ := e.start_alike name args (.refl (hused.recalls hb))
    · rw [hstart] at hr
      cases hr
    · obtain rfl := Except.ok.inj (hstart.symm.trans hp₁)
      exact halike.machine.left
  -- a machine is carried through each instruction alike with itself
  refine preserves_advances (fun i address m hm flow m' hx ↦ ?_) hp hrun
  have hstep := (uniform_step hb i address m m (.refl hm)).2.left
  rw [hx] at hstep
  exact hstep

/-! ### Constructions -/

/-- A construction asks for the type first, and the rest depends on the answer. -/
theorem on_construct (program : Program) (limits : Limits) {m : Machine Registry}
    (hm : m.Recalls Registry.lookup?) (name : String) (args : List Value) :
    ∃ resolved, (construct ⟨program, Registry.bridge, limits⟩ name args).on m =
      (match m.store.host.lookup? name, Builtin.constructor? name with
        | some handle, _ => onHost (Registry.construct handle args)
        | none, some build => onHeap (build args)
        | none, none => throw (.typeNotFound name) : Step Registry Value).on (m.recalling resolved) := by
  obtain ⟨resolved, hresolve, -⟩ :=
    on_resolve? (e := ⟨program, Registry.bridge, limits⟩) Registry.lasting name hm
  refine ⟨resolved, ?_⟩
  rw [construct, on_bind, hresolve]
  rfl

end Engine

open Engine

/-- At any time in a run, a construction calls the constructors of the type that the name refers to. If it
refers to none, the name `Range` stands for built-in ranges, and names with another last part are a fault. -/
theorem constructs_referent {program : Program} {limits : Limits} {m m' : Machine Registry}
    {args : Array Value} (hm : Midway ⟨program, Registry.bridge, limits⟩ m)
    (hw : Step.takeWindow.on m = (.ok args, m')) (name : String) (line : Nat) :
    let e : Engine Registry := ⟨program, Registry.bridge, limits⟩
    let constructed := (e.perform ⟨.construct, .name name, line⟩).on m
    ∃ resolved,
      (∀ t, m.store.host.Refers name t →
        constructed = (do e.push (← Step.onHost (t.build args.toList))).on (m'.recalling resolved)) ∧
      ((∀ t, ¬ m.store.host.Refers name t) → name = "Range" →
        constructed = (do e.push (← Step.onHeap (Builtin.constructRange args.toList))).on
          (m'.recalling resolved)) ∧
      ((∀ t, ¬ m.store.host.Refers name t) → Text.simpleName name ≠ "Range" →
        constructed = (.error (.typeNotFound name), m'.recalling resolved)) := by
  intro e constructed
  -- taking the arguments changes neither the registry nor what the machine remembers
  obtain ⟨hstore, hrecalls⟩ : m'.store = m.store ∧ m'.Recalls Registry.lookup? := by
    have hkept := (Step.Uniform.of_stackwise Step.Stackwise.takeWindow m m
      (.refl (hm.recalls Registry.lasting))).2.left
    have hstore := Step.Stackwise.takeWindow.store_eq m
    rw [hw] at hkept hstore
    exact ⟨hstore, hkept⟩
  obtain ⟨resolved, hconstruct⟩ :=
    on_construct program limits hrecalls name args.toList
  have hperform : constructed = (e.construct name args.toList >>= e.push).on m' := by
    show (e.perform ⟨.construct, .name name, line⟩).on m = _
    rw [perform, Step.on_bind, hw]
    rfl
  rw [hstore] at hconstruct
  refine ⟨resolved, fun t ht ↦ ?_, fun hnone hname ↦ ?_, fun hnone hname ↦ ?_⟩
  · obtain ⟨handle, hlookup, htype⟩ := Registry.refers_iff.mp ht
    rw [hlookup] at hconstruct
    have htype' : m'.store.host.typeDef handle = .ok t := by
      rw [hstore]
      exact htype
    rw [hperform, Step.on_bind, hconstruct, Step.on_bind,
      ← Step.on_onHost_congr (m := m'.recalling resolved) (Registry.run_construct htype' args.toList)]
  · rw [Registry.lookup?_eq_none_iff.mpr hnone, Builtin.constructor?, hname, if_pos (by decide)]
      at hconstruct
    rw [hperform, Step.on_bind, hname, hconstruct, Step.on_bind]
  · rw [Registry.lookup?_eq_none_iff.mpr hnone, Builtin.constructor?, if_neg hname] at hconstruct
    rw [hperform, Step.on_bind, hconstruct]
    rfl

/-- A function that constructs an object. -/
def constructingProgram : Program where
  code := #[⟨.openWindow, .none, 1⟩, ⟨.push, .literal (.int 5), 1⟩, ⟨.construct, .name "B", 1⟩,
    ⟨.giveBack, .none, 1⟩]
  functions := [⟨"f", 0, 0⟩]
  globals := []

/-- Before its construction is carried out, a simple name, that of ranges and an unknown one. -/
theorem constructs_referent_simple :
    let t : TypeDef := (TypeDef.named "A.B").addConstructor [.int] fun args ↦ return args.headD .null
    let e : Engine Registry := ⟨constructingProgram, Registry.bridge, .standard⟩
    let i (name : String) : Instruction := ⟨.construct, .name name, 1⟩
    ∃ m m', Midway e m ∧ Step.takeWindow.on m = (.ok #[.int 5], m') ∧ m.store.host.Refers "B" t ∧
      (∃ resolved, (e.perform (i "B")).on m =
        (do e.push (← Step.onHost (t.build [.int 5]))).on (m'.recalling resolved)) ∧
      (∃ resolved, (e.perform (i "Range")).on m =
        (do e.push (← Step.onHeap (Builtin.constructRange [.int 5]))).on (m'.recalling resolved)) ∧
      ∃ resolved, (e.perform (i "X.B")).on m = (.error (.typeNotFound "X.B"), m'.recalling resolved) := by
  intro t e i
  let store : Store Registry := ⟨.declared [], .empty, ⟨[t]⟩⟩
  obtain ⟨m, m', hm, hw, hhost⟩ : ∃ m m', Midway e m ∧ Step.takeWindow.on m = (.ok #[.int 5], m') ∧
      m.store.host = ⟨[t]⟩ :=
    ⟨_, _, ⟨.fresh store, "f", [], _, 2, _, .fresh store, rfl, rfl, rfl⟩, rfl, rfl⟩
  have hrefers : m.store.host.Refers "B" t := by
    rw [hhost]
    have hname : decide (Text.simpleName t.name = "B") = true := by decide
    exact .simple (by decide) (by decide) (List.filter_cons_of_pos hname)
  have hnone (name : String) (h : (Registry.mk [t]).lookup? name = none) :
      ∀ t, ¬ m.store.host.Refers name t := by
    rw [hhost]
    exact Registry.lookup?_eq_none_iff.mp h
  obtain ⟨resolved, hbuild, -, -⟩ := constructs_referent hm hw "B" 1
  obtain ⟨resolved', -, hrange, -⟩ := constructs_referent hm hw "Range" 1
  obtain ⟨resolved'', -, -, hfault⟩ := constructs_referent hm hw "X.B" 1
  have hrangeless := hnone "Range" (by cbv)
  have hqualified := hnone "X.B" (by cbv)
  exact ⟨m, m', hm, hw, hrefers, ⟨resolved, hbuild t hrefers⟩, ⟨resolved', hrange hrangeless rfl⟩,
    resolved'', hfault hqualified (by decide)⟩

/-- With two types whose simple name is `Range` the name refers to none, and stands for built-in ranges
all the same; and so does a qualified name that is not that of a type. -/
theorem constructs_hidden_range :
    let r : Registry := ⟨[.named "A.Range", .named "B.Range"]⟩
    let machine : Machine Registry := .fresh ⟨.declared [], .empty, r⟩
    ∃ c, compile "func f() \x7b return new Range(3); \x7d func g() \x7b return new X.Range(3); \x7d" = .ok c ∧
      r.types.map (Text.simpleName ·.name) = ["Range", "Range"] ∧ r.lookup? "Range" = none ∧
      r.lookup? "X.Range" = none ∧
      (Engine.call ⟨c.program, Registry.bridge, .standard⟩ 4 machine "f" []).map
        (fun o ↦ (o.1.mapError Report.fault, o.2.store.world.heap.objects)) =
          some (.ok (.object ⟨0⟩), #[.range ⟨0, 3, 1⟩]) ∧
      (Engine.call ⟨c.program, Registry.bridge, .standard⟩ 4 machine "g" []).map
        (fun o ↦ (o.1.mapError Report.fault, o.2.store.world.heap.objects)) =
          some (.ok (.object ⟨0⟩), #[.range ⟨0, 3, 1⟩]) := by
  intro r machine
  refine ⟨_, by cbv, by cbv, by cbv, by cbv, by cbv, by cbv⟩

end StackScript
