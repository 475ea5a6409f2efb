import Mathlib.Data.List.Forall2
import StackScript.Proofs.Host.Naming

/-!
# Which overload is called

Of overloads with the right number of parameters, one that is alone is called whatever the arguments are, and
of several the first that accepts the arguments (`Overload.Selected`). That is the overload that a registry
selects (`Overload.select_eq_ok_iff`).

The overloads of a member are those that were declared, in this order, however often the type was taken up for
it; a construction or a call of a method carries out the selected one and nothing else, or is refused and
changes nothing (`Registry.dispatches`). Further overloads come behind, so they never come before one that
accepts the arguments (`Overload.Selected.append`); one that was alone and does not accept them may lose its
place.
-/

namespace StackScript

variable {α : Type}

namespace Overload

/-! ### Selection -/

/-- Every parameter accepts its argument, and none is missing. -/
def Takes (o : Overload α) (args : List Value) : Prop :=
  List.Forall₂ (fun p v ↦ p.accepts v = true) o.params args

/-- The overloads with as many parameters as there are arguments. -/
def counted (os : List (Overload α)) (args : List Value) : List (Overload α) :=
  os.filter fun o ↦ o.params.length == args.length

/-- An overload is selected if it is the only one with as many parameters as there are arguments, or the first
of several that takes them. -/
inductive Selected (os : List (Overload α)) (args : List Value) (o : Overload α) : Prop
  | alone (h : counted os args = [o])
  | first {before after : List (Overload α)} (h : counted os args = before ++ o :: after)
    (hseveral : before ++ after ≠ []) (htakes : o.Takes args)
    (hbefore : ∀ earlier ∈ before, ¬ earlier.Takes args)

variable {os more : List (Overload α)} {args : List Value} {o o' : Overload α} {a : α} {member : String}

theorem mem_counted : o ∈ counted os args ↔ o ∈ os ∧ o.params.length = args.length := by
  rw [counted, List.mem_filter, beq_iff_eq]

theorem counted_append (os more : List (Overload α)) (args : List Value) :
    counted (os ++ more) args = counted os args ++ counted more args :=
  List.filter_append ..

theorem accepts_iff (h : o.params.length = args.length) : o.accepts args = true ↔ o.Takes args := by
  rw [accepts, List.all_eq_true, Takes, List.forall₂_iff_zip]
  exact ⟨fun hall ↦ ⟨h, fun hentry ↦ hall _ hentry⟩, fun ⟨_, hall⟩ entry hentry ↦ hall hentry⟩

theorem Takes.length_eq (h : o.Takes args) : o.params.length = args.length :=
  List.Forall₂.length_eq h

/-- A selected overload was declared, with as many parameters as there are arguments. -/
theorem Selected.mem_counted (h : Selected os args o) : o ∈ counted os args := by
  cases h with
  | alone h => exact h ▸ List.mem_singleton_self o
  | first h => exact h ▸ List.mem_append_right _ List.mem_cons_self

/-- Where several are counted, the first that takes the arguments is found. -/
theorem find?_counted_eq_some_iff : (counted os args).find? (·.accepts args) = some o ↔
    ∃ before after, counted os args = before ++ o :: after ∧ o.Takes args ∧
      ∀ earlier ∈ before, ¬ earlier.Takes args := by
  have hcount {other : Overload α} (h : other ∈ counted os args) :
      other.accepts args = true ↔ other.Takes args := accepts_iff (Overload.mem_counted.mp h).2
  rw [List.find?_eq_some_iff_append]
  constructor
  · rintro ⟨haccepts, before, after, h, hbefore⟩
    refine ⟨before, after, h, (hcount ?_).mp haccepts, fun earlier hearlier htakes ↦ ?_⟩
    · exact h ▸ List.mem_append_right _ List.mem_cons_self
    · have hrefused := hbefore earlier hearlier
      rw [(hcount (h ▸ List.mem_append_left _ hearlier)).mpr htakes] at hrefused
      cases hrefused
  · rintro ⟨before, after, h, htakes, hbefore⟩
    refine ⟨(hcount ?_).mpr htakes, before, after, h, fun earlier hearlier ↦ ?_⟩
    · exact h ▸ List.mem_append_right _ List.mem_cons_self
    · rw [Bool.not_eq_true', Bool.eq_false_iff, Ne, hcount (h ▸ List.mem_append_left _ hearlier)]
      exact hbefore earlier hearlier

/-- What is selected, told without the list being split. -/
theorem selected_iff : Selected os args o ↔ counted os args = [o] ∨
    (∀ only, counted os args ≠ [only]) ∧ (counted os args).find? (·.accepts args) = some o := by
  constructor
  · rintro (h | ⟨h, hseveral, htakes, hbefore⟩)
    · exact .inl h
    · refine .inr ⟨fun only honly ↦ hseveral ?_, find?_counted_eq_some_iff.mpr ⟨_, _, h, htakes, hbefore⟩⟩
      have hlength := congrArg List.length (h.symm.trans honly)
      rw [List.length_append, List.length_cons, List.length_singleton] at hlength
      exact List.length_eq_zero_iff.mp (by rw [List.length_append]; omega)
  · rintro (h | ⟨hmany, hfind⟩)
    · exact .alone h
    · obtain ⟨before, after, h, htakes, hbefore⟩ := find?_counted_eq_some_iff.mp hfind
      refine .first h (fun hempty ↦ hmany o ?_) htakes hbefore
      obtain ⟨rfl, rfl⟩ := List.append_eq_nil_iff.mp hempty
      exact h

/-- At most one overload is selected. -/
theorem Selected.unique (h : Selected os args o) (h' : Selected os args o') : o = o' := by
  rcases selected_iff.mp h with honly | ⟨hmany, hfind⟩ <;>
    rcases selected_iff.mp h' with honly' | ⟨hmany', hfind'⟩
  · exact (List.cons.inj (honly.symm.trans honly')).1
  · exact absurd honly (hmany' o)
  · exact absurd honly' (hmany o')
  · exact Option.some.inj (hfind.symm.trans hfind')

/-- A call selects the overload that is selected. -/
theorem select_of_selected (h : Selected os args o) (member : String) :
    selectOverload os member args = .ok o.action := by
  rw [selectOverload, ← counted]
  rcases selected_iff.mp h with honly | ⟨hmany, hfind⟩
  · rw [honly]
  · split
    · rename_i only honly
      exact absurd honly (hmany only)
    · rw [hfind]

/-- Where none is selected, a call fails. -/
theorem select_of_none (h : ∀ o, ¬ Selected os args o) (member : String) :
    selectOverload os member args = .error (.noMatchingOverload member args.length) := by
  rw [selectOverload, ← counted]
  split
  · rename_i only honly
    exact absurd (.alone honly) (h only)
  · rename_i hmany
    split
    · rename_i o hfind
      exact absurd (selected_iff.mpr (.inr ⟨fun only ↦ hmany only, hfind⟩)) (h o)
    · rfl

/-- An overload that takes the arguments stays selected when others come behind it. -/
theorem Selected.append (h : Selected os args o) (htakes : o.Takes args) (more : List (Overload α)) :
    Selected (os ++ more) args o := by
  obtain ⟨before, after, hcounted, hbefore⟩ : ∃ before after, counted os args = before ++ o :: after ∧
      ∀ earlier ∈ before, ¬ earlier.Takes args := by
    cases h with
    | alone h => exact ⟨[], [], h, List.forall_mem_nil _⟩
    | first h _ _ hbefore => exact ⟨_, _, h, hbefore⟩
  have hall : counted (os ++ more) args = before ++ o :: (after ++ counted more args) := by
    rw [counted_append, hcounted, List.append_assoc, List.cons_append]
  by_cases hseveral : before ++ (after ++ counted more args) = []
  · obtain ⟨hb, ha⟩ := List.append_eq_nil_iff.mp hseveral
    exact .alone (by rw [hall, hb, ha, List.nil_append])
  · exact .first hall hseveral htakes hbefore

end Overload

namespace Registry

open Overload

variable {r : Registry} {s : World × Registry} {handle : TypeHandle} {type : String}
  {call : HostCall Registry Value} {os : List (Overload α)} {apply : α → HostAction Value}
  {member : String} {args : List Value}

/-! ### Calls -/

/-- How a call goes by the overloads of a member. At most one of them is selected, with as many parameters as
there are arguments, and then its action is all that happens; where none is selected, nothing does. -/
structure GoesBy (os : List (Overload α)) (apply : α → HostAction Value) (member : String)
    (args : List Value) (call : HostCall Registry Value) (s : World × Registry) : Prop where
  unique : ∀ o o', Selected os args o → Selected os args o' → o = o'
  counted : ∀ o, Selected os args o → o ∈ os ∧ o.params.length = args.length
  called : ∀ o, Selected os args o → call.run.run s = (perform (apply o.action)).run.run s
  refused : (∀ o, ¬ Selected os args o) →
    call.run.run s = (.error (.noMatchingOverload member args.length), s)

/-- A call that selects among overloads goes by them. -/
theorem goesBy_of_run_eq (h : call.run.run s = (do
    let action ← selectOverload os member args
    perform (apply action) : HostCall Registry Value).run.run s) : GoesBy os apply member args call s where
  unique _ _ ho ho' := ho.unique ho'
  counted _ ho := mem_counted.mp ho.mem_counted
  called o ho := by
    rw [h, select_of_selected ho]
    rfl
  refused hnone := by
    rw [h, select_of_none hnone]
    rfl

/-- The declaration of a type of a given name. -/
theorem exists_typeDef_of_typeName? (h : r.typeName? handle = some type) :
    ∃ t ∈ r.types, r.typeDef handle = .ok t ∧ t.name = type := by
  obtain ⟨t, ht, rfl⟩ := Option.map_eq_some_iff.mp h
  exact ⟨t, List.mem_of_getElem? ht, typeDef_eq_ok_iff.mpr ht, rfl⟩

theorem typeDef_of_typeName?_eq_none (h : r.typeName? handle = none) :
    r.typeDef handle = .error (.typeNotFound handle.display) := by
  rw [typeDef, Option.map_eq_none_iff.mp h]

/-- A method is looked up in the declaration of a type, and called. -/
theorem run_invoke_type (s : World × Registry) (handle : TypeHandle) (method : String)
    (args : List Value) : (bridge.invoke (.type handle) method args).run.run s = (do
      let t ← s.2.typeDef handle
      let overloads ← Registry.member t t.statics method
      let action ← selectOverload overloads method args
      perform (action args) : HostCall Registry Value).run.run s :=
  rfl

/-- The same for an object, whose type goes by the name of its class. -/
theorem run_invoke_object (s : World × Registry) (object : ObjectRef) (method : String)
    (args : List Value) : (bridge.invoke (.object object) method args).run.run s = (do
      let t ← s.2.typeDefOf s.1.heap object
      let overloads ← Registry.member t t.methods method
      let action ← selectOverload overloads method args
      perform (action object args) : HostCall Registry Value).run.run s :=
  rfl

theorem run_construct_unknown (h : s.2.typeName? handle = none) (args : List Value) :
    (bridge.construct handle args).run.run s = (.error (.typeNotFound handle.display), s) := by
  show (do
    let t ← s.2.typeDef handle
    t.build args : HostCall Registry Value).run.run s = _
  rw [typeDef_of_typeName?_eq_none h]
  rfl

theorem run_invoke_unknown (h : s.2.typeName? handle = none) (method : String) (args : List Value) :
    (bridge.invoke (.type handle) method args).run.run s =
      (.error (.typeNotFound handle.display), s) := by
  rw [run_invoke_type, typeDef_of_typeName?_eq_none h]
  rfl

theorem run_invoke_object_unknown {object : ObjectRef}
    (h : s.2.lookup? (s.1.heap.typeName object) = none) (method : String) (args : List Value) :
    (bridge.invoke (.object object) method args).run.run s =
      (.error (.typeNotFound (s.1.heap.typeName object)), s) := by
  rw [run_invoke_object, typeDefOf, h]
  rfl

/-- Calls of a member that was never declared are refused, and change nothing; others go by its overloads. -/
structure GoesByMember (type : String) (os : List (Overload α)) (apply : α → HostAction Value)
    (member : String) (args : List Value) (call : HostCall Registry Value) (s : World × Registry) :
    Prop where
  undeclared : os = [] → call.run.run s = (.error (.memberNotFound type member), s)
  declared : os ≠ [] → GoesBy os apply member args call s

theorem goesByMember_of_run_eq {t : TypeDef} {table : Table (List (Overload α))}
    (hlookup : (table.lookup member).getD [] = os) (hne : table.lookup member ≠ some [])
    (h : call.run.run s = (do
      let overloads ← Registry.member t table member
      let action ← selectOverload overloads member args
      perform (apply action) : HostCall Registry Value).run.run s) :
    GoesByMember t.name os apply member args call s := by
  rcases hentry : table.lookup member with _ | entered
  · rw [hentry] at hlookup
    refine ⟨fun _ ↦ ?_, fun hsome ↦ absurd hlookup.symm hsome⟩
    rw [h, Registry.member, hentry]
    rfl
  · rw [hentry] at hlookup hne
    obtain rfl : entered = os := hlookup
    refine ⟨fun hnil ↦ absurd (congrArg some hnil) hne, fun _ ↦ goesBy_of_run_eq ?_⟩
    rw [h, Registry.member, hentry]
    rfl

/-- The selected overload of a member was declared, so the call carries it out. -/
theorem GoesByMember.called_selected {o : Overload α} (h : GoesByMember type os apply member args call s)
    (ho : Selected os args o) : call.run.run s = (perform (apply o.action)).run.run s :=
  (h.declared (List.ne_nil_of_mem (mem_counted.mp ho.mem_counted).1)).called o ho

/-! ### Histories -/

section Records

variable {declared : String → List Member}

theorem Records.goesBy_construct (h : s.2.Records declared) (hhandle : s.2.typeName? handle = some type)
    (args : List Value) : GoesBy ((declared type).filterMap Member.constructor?) (· args) type args
      (bridge.construct handle args) s := by
  obtain ⟨t, hmem, ht, rfl⟩ := exists_typeDef_of_typeName? hhandle
  refine goesBy_of_run_eq ?_
  rw [← (h.types t hmem).constructors]
  exact run_construct ht args

theorem Records.goesBy_invoke_type (h : s.2.Records declared)
    (hhandle : s.2.typeName? handle = some type) (method : String) (args : List Value) :
    GoesByMember type ((declared type).filterMap (Member.static? method)) (· args) method args
      (bridge.invoke (.type handle) method args) s := by
  obtain ⟨t, hmem, ht, rfl⟩ := exists_typeDef_of_typeName? hhandle
  have hdeclared := h.types t hmem
  refine goesByMember_of_run_eq (hdeclared.statics method) (hdeclared.statics_ne method) ?_
  rw [run_invoke_type, ht]
  rfl

theorem Records.goesBy_invoke_object (h : s.2.Records declared) {object : ObjectRef}
    (hobject : s.2.lookup? (s.1.heap.typeName object) = some handle)
    (hhandle : s.2.typeName? handle = some type) (method : String) (args : List Value) :
    GoesByMember type ((declared type).filterMap (Member.method? method)) (· object args) method args
      (bridge.invoke (.object object) method args) s := by
  obtain ⟨t, hmem, ht, rfl⟩ := exists_typeDef_of_typeName? hhandle
  have hdeclared := h.types t hmem
  refine goesByMember_of_run_eq (hdeclared.methods method) (hdeclared.methods_ne method) ?_
  rw [run_invoke_object, typeDefOf, hobject]
  dsimp only
  rw [ht]
  rfl

end Records

/-- The constructors of a type after a history. -/
def constructorsOf (acts : List Act) (type : String) : List (Overload StaticAction) :=
  (declared acts type).filterMap Member.constructor?

/-- The overloads of a static method. -/
def staticsOf (acts : List Act) (type method : String) : List (Overload StaticAction) :=
  (declared acts type).filterMap (Member.static? method)

/-- The overloads of a method. -/
def methodsOf (acts : List Act) (type method : String) : List (Overload MethodAction) :=
  (declared acts type).filterMap (Member.method? method)

/-- Members that are declared later come behind. -/
theorem filterMap_declared_append {β : Type} (f : Member → Option β) (acts more : List Act)
    (type : String) : (declared (acts ++ more) type).filterMap f =
      (declared acts type).filterMap f ++ (declared more type).filterMap f := by
  rw [declared, List.flatMap_append, List.filterMap_append]
  rfl

/-- Taking up types again changes neither the world nor what names refer to. -/
theorem lookup?_of_reopened {acts more : List Act} {w : World}
    (h : ∀ act ∈ more, ∃ name ∈ (history acts w).2.names, ∃ members, act = .define name members) :
    (history (acts ++ more) w).1 = (history acts w).1 ∧
      (history (acts ++ more) w).2.lookup? = (history acts w).2.lookup? := by
  constructor
  · rw [history_append]
    generalize history acts w = s at h ⊢
    replace h : ∀ act ∈ more, ∃ name members, act = .define name members := fun act hact ↦
      let ⟨name, _, members, heq⟩ := h act hact
      ⟨name, members, heq⟩
    induction more generalizing s with
    | nil => rfl
    | cons act rest ih =>
      obtain ⟨name, members, rfl⟩ := h act List.mem_cons_self
      exact ih _ fun act hact ↦ h act (List.mem_cons_of_mem _ hact)
  · obtain ⟨new, hnames, hnew⟩ := exists_names_history_append acts more w
    obtain rfl : new = [] := List.eq_nil_iff_forall_not_mem.mpr fun own hown ↦ by
      obtain ⟨hmore, hold⟩ := hnew own hown
      obtain ⟨act, hact, heq⟩ := List.mem_filterMap.mp hmore
      obtain ⟨name, hname, members, rfl⟩ := h act hact
      obtain rfl : name = own := Option.some.inj heq
      exact hold hname
    exact lookup?_congr (hnames.trans (List.append_nil _))

/-- The calls that can be made of a type after a history go by the overloads that were declared under its
name, in this order. -/
structure Dispatches (acts : List Act) (w : World) (handle : TypeHandle) (type : String)
    (args : List Value) : Prop where
  construct : GoesBy (constructorsOf acts type) (· args) type args (bridge.construct handle args)
    (history acts w)
  static : ∀ method, GoesByMember type (staticsOf acts type method) (· args) method args
    (bridge.invoke (.type handle) method args) (history acts w)
  object : ∀ object method,
    (history acts w).2.lookup? ((history acts w).1.heap.typeName object) = some handle →
    GoesByMember type (methodsOf acts type method) (· object args) method args
      (bridge.invoke (.object object) method args) (history acts w)

theorem dispatches_of_typeName? {acts : List Act} {w : World}
    (hhandle : (history acts w).2.typeName? handle = some type) (args : List Value) :
    Dispatches acts w handle type args :=
  have hrecords := records_history acts w
  ⟨hrecords.goesBy_construct hhandle args, fun method ↦ hrecords.goesBy_invoke_type hhandle method args,
    fun _ method hobject ↦ hrecords.goesBy_invoke_object hobject hhandle method args⟩

/-- After every history calls go by the overloads that were declared. One that takes the arguments and is
selected stays so whatever is declared further: later calls carry it out. For objects this is said of those
that are still of the same type, which is so if types have only been taken up again. -/
theorem dispatches (acts more : List Act) (w : World) (args : List Value) :
    let s := history acts w
    let s' := history (acts ++ more) w
    (∀ handle, s.2.typeName? handle = none →
      (bridge.construct handle args).run.run s = (.error (.typeNotFound handle.display), s) ∧
      ∀ method, (bridge.invoke (.type handle) method args).run.run s =
        (.error (.typeNotFound handle.display), s)) ∧
    (∀ object method, s.2.lookup? (s.1.heap.typeName object) = none →
      (bridge.invoke (.object object) method args).run.run s =
        (.error (.typeNotFound (s.1.heap.typeName object)), s)) ∧
    (∀ object handle, s.2.lookup? (s.1.heap.typeName object) = some handle →
      (s.2.typeName? handle).isSome) ∧
    (∀ handle type, s.2.typeName? handle = some type →
      Dispatches acts w handle type args ∧
      (∀ o, Selected (constructorsOf acts type) args o → o.Takes args →
        Selected (constructorsOf (acts ++ more) type) args o ∧
        (bridge.construct handle args).run.run s' = (perform (o.action args)).run.run s') ∧
      (∀ method o, Selected (staticsOf acts type method) args o → o.Takes args →
        Selected (staticsOf (acts ++ more) type method) args o ∧
        (bridge.invoke (.type handle) method args).run.run s' = (perform (o.action args)).run.run s') ∧
      ∀ object method o, Selected (methodsOf acts type method) args o → o.Takes args →
        Selected (methodsOf (acts ++ more) type method) args o ∧
        (s'.2.lookup? (s'.1.heap.typeName object) = some handle →
          (bridge.invoke (.object object) method args).run.run s' =
            (perform (o.action object args)).run.run s')) ∧
    ((∀ act ∈ more, ∃ name ∈ s.2.names, ∃ members, act = .define name members) →
      s'.1 = s.1 ∧ s'.2.lookup? = s.2.lookup?) := by
  intro s s'
  refine ⟨fun handle hnone ↦ ?_, fun object method hnone ↦ ?_, fun object handle hsome ↦ ?_,
    fun handle type hhandle ↦ ?_, lookup?_of_reopened⟩
  · exact ⟨run_construct_unknown hnone args, fun method ↦ run_invoke_unknown hnone method args⟩
  · exact run_invoke_object_unknown hnone method args
  · have hmeans := (lookup?_eq_some_iff (records_history acts w).nodup).mp hsome
    exact Option.isSome_iff_exists.mpr hmeans.exists_typeName?
  · obtain ⟨new, hnames, -⟩ := exists_names_history_append acts more w
    have hlater : Dispatches (acts ++ more) w handle type args :=
      dispatches_of_typeName? (typeName?_of_names_eq hnames hhandle) args
    have happend {β : Type} (f : Member → Option (Overload β)) {o : Overload β}
        (ho : Selected ((declared acts type).filterMap f) args o) (htakes : o.Takes args) :
        Selected ((declared (acts ++ more) type).filterMap f) args o := by
      rw [filterMap_declared_append]
      exact ho.append htakes _
    refine ⟨dispatches_of_typeName? hhandle args, fun o ho htakes ↦ ?_, fun method o ho htakes ↦ ?_,
      fun object method o ho htakes ↦ ?_⟩
    · have ho' := happend _ ho htakes
      exact ⟨ho', hlater.construct.called o ho'⟩
    · have ho' := happend _ ho htakes
      exact ⟨ho', (hlater.static method).called_selected ho'⟩
    · have ho' := happend _ ho htakes
      exact ⟨ho', fun hobject ↦ (hlater.object object method hobject).called_selected ho'⟩

/-- A constructor that is alone with its number of parameters is called whatever the argument is; with a second
one beside it, one is called that takes the argument, or none. -/
example :
    let one : Member := .constructor ⟨[.int], fun _ ↦ return .int 1⟩
    let two : Member := .constructor ⟨[.number], fun _ ↦ return .int 2⟩
    let built (acts : List Act) (arg : Value) :=
      ((bridge.construct ⟨0⟩ [arg]).run.run (history acts .empty)).1
    built [.define "C" [one]] (.bool true) = .ok (.int 1) ∧
      built [.define "C" [one], .define "C" [two]] (.bool true) =
        .error (.noMatchingOverload "C" 1) ∧
      built [.define "C" [one], .define "C" [two]] (.int 5) = .ok (.int 1) := by
  refine ⟨?_, ?_, ?_⟩ <;> cbv

end Registry

end StackScript
