import StackScript.Builtin
import StackScript.Proofs.Host.Lasting

/-!
# Hosts that leave lists and helpers alone

A heap *keeps* what another one has if all lists and helpers of that one are in it as they were
(`Heap.Keeps`); there may be more of them, and objects of the host may have changed.

Built-in members that fail have kept everything. A registry whose members keep everything, whether they
fail or not, is *discreet* (`Registry.Discreet`). Of the calls of such a registry only storing into a static
field changes anything but objects of the host, and it does not fail then. `Bridge.Tidy` says this of a
bridge.
-/

namespace StackScript

variable {σ α : Type}

/-! ### What heaps keep -/

/-- The lists and helpers of a heap are in another one as they were. -/
structure Heap.Keeps (h h' : Heap) : Prop where
  lists : ∀ (i : Nat) items, h.lists[i]? = some items → h'.lists[i]? = some items
  helpers : ∀ r object, h.isHelper r = true → h.object? r = some object → h'.object? r = some object

namespace Heap

instance : IsPreorder Heap Keeps where
  refl _ := ⟨fun _ _ h ↦ h, fun _ _ _ h ↦ h⟩
  trans h h' h'' hk hk' := by
    refine ⟨fun i items hi ↦ hk'.lists i items (hk.lists i items hi), fun r object hr ho ↦ ?_⟩
    have ho' := hk.helpers r object hr ho
    have hr' : h'.isHelper r = true := by
      rw [isHelper, ho']
      rwa [isHelper, ho] at hr
    exact hk'.helpers r object hr' ho'

/-- A new list is beside the others. -/
theorem keeps_newList (h : Heap) (items : Array Value) : h.Keeps (h.newList items).2 where
  lists i items' hi := by
    obtain ⟨hlt, -⟩ := Array.getElem?_eq_some_iff.mp hi
    rw [newList, Array.getElem?_push_lt hlt, ← Array.getElem?_eq_getElem hlt, hi]
  helpers _ _ _ ho := ho

/-- A new object is beside the others. -/
theorem keeps_newObject (h : Heap) (object : Object) : h.Keeps (h.newObject object).2 where
  lists _ _ hi := hi
  helpers r object' _ ho := by
    obtain ⟨hlt, -⟩ := Array.getElem?_eq_some_iff.mp ho
    rw [newObject, object?, Array.getElem?_push_lt hlt, ← Array.getElem?_eq_getElem hlt]
    exact ho

/-- An element is stored last of all. -/
theorem kept_setElement (target index value : Value) :
    RespectsOnFailure Keeps (setElement target index value) := by
  unfold setElement
  split
  · refine .bind .get fun h ↦ .bind (.lift _) fun i ↦ ?_
    exact .of_succeeds fun _ ↦ ⟨_, _, rfl⟩
  · exact (Respects.throw _).onFailure

end Heap

namespace Builtin

open Heap

theorem kept_create (object : Object) : Respects Keeps (create object) :=
  .modifyGet fun h ↦ h.keeps_newObject object

/-- Built-in constructors only make something new. -/
theorem kept_of_constructor? {type : String} {build : List Value → HeapAction Value}
    (h : constructor? type = some build) (args : List Value) : Respects Keeps (build args) := by
  unfold constructor? at h
  split at h <;> cases h
  have hbuild (start stop step : Int32) : Respects Keeps (constructRange.build start stop step) :=
    .bind (.lift _) fun _ ↦ kept_create _
  unfold constructRange
  split
  · exact hbuild _ _ _
  · exact hbuild _ _ _
  · exact hbuild _ _ _
  · exact .throw _
  · exact .throw _

theorem ListMethod.kept_remove (list : ListRef) (index : Int32) :
    RespectsOnFailure Keeps (remove list index) := by
  refine .bind .get fun h ↦ ?_
  dsimp only
  split
  · exact .of_succeeds fun _ ↦ ⟨_, _, rfl⟩
  · exact (Respects.throw _).onFailure

/-- Methods of lists change a list only when they succeed. -/
theorem ListMethod.kept_call (list : ListRef) (method : ListMethod) (args : List Value) :
    RespectsOnFailure Keeps (call list method args) := by
  unfold call
  split
  · exact (kept_create _).onFailure
  · exact .of_succeeds fun _ ↦ ⟨_, _, rfl⟩
  · exact .of_succeeds fun _ ↦ ⟨_, _, rfl⟩
  · exact kept_remove list _
  · exact .of_succeeds fun _ ↦ ⟨_, _, rfl⟩
  · exact (Respects.throw _).onFailure

/-- Enumerators move only when they succeed. -/
theorem kept_callHelper (r : ObjectRef) (method : String) (args : List Value) :
    RespectsOnFailure Keeps (callHelper r method args) := by
  refine .guard (.bind .get fun h ↦ ?_)
  split
  · exact .of_succeeds fun _ ↦ ⟨_, _, rfl⟩
  · exact .of_succeeds fun _ ↦ ⟨_, _, rfl⟩
  · exact (kept_create _).onFailure
  · exact (Respects.throw _).onFailure

/-- Built-in methods change something only when they succeed. -/
theorem kept_call (receiver : Value) (method : String) (args : List Value) :
    RespectsOnFailure Keeps (call receiver method args) := by
  have hrefuse : RespectsOnFailure Keeps (refuse receiver method) :=
    (Respects.bind .get fun _ ↦ .throw _).onFailure
  unfold call
  split
  · split
    · exact ListMethod.kept_call _ _ _
    · exact hrefuse
  · split
    · exact (Respects.lift _).onFailure
    · exact hrefuse
  · exact kept_callHelper _ _ _
  · exact hrefuse

end Builtin

/-! ### Calls of the host -/

/-- If the host satisfies a condition, nothing but objects of the host is changed. -/
def Bridge.Leaves (P : σ → Prop) (s s' : World × σ) : Prop :=
  P s.2 → s.1.heap.Keeps s'.1.heap ∧ s'.2 = s.2

instance (P : σ → Prop) : IsPreorder (World × σ) (Bridge.Leaves P) where
  refl _ _ := ⟨refl_of Heap.Keeps _, rfl⟩
  trans s s' s'' h h' hs := by
    obtain ⟨hkeeps, heq⟩ := h hs
    obtain ⟨hkeeps', heq'⟩ := h' (heq ▸ hs)
    exact ⟨trans_of Heap.Keeps hkeeps hkeeps', heq'.trans heq⟩

/-- Under a condition on the host, which all calls keep up, storing into a field is the only call that
changes anything but objects of the host, and does so only if it succeeds. -/
structure Bridge.Tidy (b : Bridge σ) (P : σ → Prop) : Prop where
  resolve : ∀ name s, ((b.resolve name).run s).2 = s
  construct : ∀ t args, Respects (Leaves P) (b.construct t args)
  invoke : ∀ receiver method args, Respects (Leaves P) (b.invoke receiver method args)
  getField : ∀ receiver field, Respects (Leaves P) (b.getField receiver field)
  setField : ∀ receiver field value, RespectsOnFailure (Leaves P) (b.setField receiver field value)
  keeps : ∀ {α : Type} {call : HostCall σ α}, b.Offers call → Respects (fun s s' ↦ P s.2 → P s'.2) call

/-- A host without types changes nothing. -/
theorem Bridge.tidy_none : Bridge.none.Tidy fun _ ↦ True where
  resolve _ _ := rfl
  construct _ _ := .throw _
  invoke _ _ _ := .bind .get fun _ ↦ .throw _
  getField _ _ := .bind .get fun _ ↦ .throw _
  setField _ _ _ := .bind .get fun _ ↦ (Respects.throw _).onFailure
  keeps _ _ _ := trivial

/-! ### Discreet registries -/

/-- A member that leaves lists and helpers alone. -/
def HostAction.Discreet (action : HostAction α) : Prop :=
  Respects (fun w w' : World ↦ w.heap.Keeps w'.heap) action

/-- A type all of whose members leave lists and helpers alone. -/
structure TypeDef.Discreet (t : TypeDef) : Prop where
  constructors : ∀ o ∈ t.constructors, ∀ args, HostAction.Discreet (o.action args)
  statics : ∀ p ∈ t.statics, ∀ o ∈ p.2, ∀ args, HostAction.Discreet (o.action args)
  methods : ∀ p ∈ t.methods, ∀ o ∈ p.2, ∀ r args, HostAction.Discreet (o.action r args)
  getters : ∀ p ∈ t.fields, ∀ r, HostAction.Discreet (p.2.get r)
  setters : ∀ p ∈ t.fields, ∀ set, p.2.set? = some set → ∀ r value, HostAction.Discreet (set r value)

/-- A registry all of whose types do. -/
def Registry.Discreet (r : Registry) : Prop :=
  ∀ t ∈ r.types, t.Discreet

theorem mem_of_lookup {table : Table α} {name : String} {found : α} (h : table.lookup name = some found) :
    (name, found) ∈ table := by
  obtain ⟨before, after, rfl, -⟩ := List.lookup_eq_some_iff.mp h
  exact List.mem_append_right before List.mem_cons_self

/-- An overload that is selected is one of those that were given. -/
theorem exists_of_selectOverload {overloads : List (Overload α)} {member : String} {args : List Value}
    {action : α} (h : selectOverload overloads member args = .ok action) :
    ∃ o ∈ overloads, o.action = action := by
  unfold selectOverload at h
  split at h
  · rename_i only honly
    have hmem : only ∈ overloads.filter (·.params.length == args.length) := by
      rw [honly]
      exact List.mem_singleton_self only
    exact ⟨only, List.mem_of_mem_filter hmem, Except.ok.inj h⟩
  · split at h
    · rename_i o ho
      exact ⟨o, List.mem_of_mem_filter (List.mem_of_find?_eq_some ho), Except.ok.inj h⟩
    · cases h

namespace Registry

variable {r : Registry}

theorem mem_of_typeDef {handle : TypeHandle} {t : TypeDef} (h : r.typeDef handle = .ok t) :
    t ∈ r.types := by
  unfold typeDef at h
  split at h <;> cases h
  rename_i ht
  exact List.mem_of_getElem? ht

theorem mem_of_typeDefOf {h : Heap} {object : ObjectRef} {t : TypeDef}
    (ht : r.typeDefOf h object = .ok t) : t ∈ r.types := by
  unfold typeDefOf at ht
  split at ht
  · exact mem_of_typeDef ht
  · cases ht

theorem mem_of_member {t : TypeDef} {table : Table α} {name : String} {found : α}
    (h : member t table name = .ok found) : (name, found) ∈ table := by
  unfold member at h
  split at h <;> cases h
  rename_i hfound
  exact mem_of_lookup hfound

/-- A discreet member is carried out. -/
theorem leaves_perform {action : HostAction α} {s : World × Registry}
    (h : s.2.Discreet → HostAction.Discreet action) :
    Bridge.Leaves Discreet s ((perform action).run.run s).2 :=
  fun hs ↦ ⟨h hs s.1, rfl⟩

theorem leaves_construct (handle : TypeHandle) (args : List Value) :
    Respects (Bridge.Leaves Discreet) (construct handle args) := by
  refine .get_bind fun (world, r) ↦ Respects.lift_bind fun t ht ↦ Respects.lift_bind fun action ha ↦ ?_
  obtain ⟨o, ho, rfl⟩ := exists_of_selectOverload ha
  exact leaves_perform fun hr ↦ (hr t (mem_of_typeDef ht)).constructors o ho args

theorem leaves_invoke (receiver : Receiver) (method : String) (args : List Value) :
    Respects (Bridge.Leaves Discreet) (invoke receiver method args) := by
  refine .get_bind fun (world, r) ↦ ?_
  cases receiver with
  | type handle =>
    refine Respects.lift_bind fun t ht ↦ Respects.lift_bind fun overloads hm ↦
      Respects.lift_bind fun action ha ↦ ?_
    obtain ⟨o, ho, rfl⟩ := exists_of_selectOverload ha
    exact leaves_perform fun hr ↦ (hr t (mem_of_typeDef ht)).statics _ (mem_of_member hm) o ho args
  | object ref =>
    refine Respects.lift_bind fun t ht ↦ Respects.lift_bind fun overloads hm ↦
      Respects.lift_bind fun action ha ↦ ?_
    obtain ⟨o, ho, rfl⟩ := exists_of_selectOverload ha
    exact leaves_perform fun hr ↦ (hr t (mem_of_typeDefOf ht)).methods _ (mem_of_member hm) o ho ref args

theorem leaves_getField (receiver : Receiver) (field : String) :
    Respects (Bridge.Leaves Discreet) (getField receiver field) := by
  refine .get_bind fun (world, r) ↦ ?_
  cases receiver with
  | type handle =>
    refine Respects.lift_bind fun t ht ↦ ?_
    exact Respects.lift _ (world, r)
  | object ref =>
    refine Respects.lift_bind fun t ht ↦ Respects.lift_bind fun access hm ↦ ?_
    exact leaves_perform fun hr ↦ (hr t (mem_of_typeDefOf ht)).getters _ (mem_of_member hm) ref

/-- A static field gets its value last of all. -/
theorem leaves_setField (receiver : Receiver) (field : String) (value : Value) :
    RespectsOnFailure (Bridge.Leaves Discreet) (setField receiver field value) := by
  cases receiver with
  | type handle =>
    refine .bind .get fun s ↦ ?_
    exact .bind (.lift _) fun t ↦ .bind (.lift _) fun old ↦ .of_succeeds fun _ ↦ ⟨_, _, rfl⟩
  | object ref =>
    refine Respects.onFailure (.get_bind fun (world, r) ↦ Respects.lift_bind fun t ht ↦ ?_)
    split
    · exact refl_of (Bridge.Leaves Discreet) _
    · rename_i store hstore
      obtain ⟨access, haccess, hset⟩ := Option.bind_eq_some_iff.mp hstore
      exact leaves_perform fun hr ↦
        (hr t (mem_of_typeDefOf ht)).setters _ (mem_of_lookup haccess) store hset ref value

/-- Static fields are no members that do anything. -/
theorem discreet_addStaticField (hr : r.Discreet) (index : Nat) (field : String) (value : Value) :
    Discreet ⟨r.types.modify index (·.addStaticField field value)⟩ := by
  intro t ht
  obtain ⟨i, hi⟩ := List.mem_iff_getElem?.mp ht
  rw [List.getElem?_modify] at hi
  rcases ho : r.types[i]? with _ | old <;> rw [ho] at hi
  · cases hi
  · have hold := hr old (List.mem_of_getElem? ho)
    obtain rfl := Option.some.inj hi
    split
    · exact ⟨hold.constructors, hold.statics, hold.methods, hold.getters, hold.setters⟩
    · exact hold

/-- A discreet registry stays discreet. -/
theorem discreet_of_offers {call : HostCall Registry α} (h : bridge.Offers call) :
    Respects (fun s s' ↦ s.2.Discreet → s'.2.Discreet) call := by
  have hsame {call : HostCall Registry Value} (h : Respects (Unchanged Prod.snd) call) :
      Respects (fun s s' : World × Registry ↦ s.2.Discreet → s'.2.Discreet) call :=
    fun s hs ↦ (h s : (call.run.run s).2.2 = s.2) ▸ hs
  have : IsPreorder (World × Registry) fun s s' ↦ s.2.Discreet → s'.2.Discreet :=
    { refl := fun _ h ↦ h, trans := fun _ _ _ h h' hs ↦ h' (h hs) }
  rcases h with ⟨t, args⟩ | ⟨receiver, method, args⟩ | ⟨receiver, field⟩ | ⟨receiver, field, value⟩
  · exact hsame (unchanged_construct t args)
  · exact hsame (unchanged_invoke receiver method args)
  · exact hsame (unchanged_getField receiver field)
  · refine respects_setField ?_ ?_ receiver field value
    · exact fun world r index field value hr ↦ discreet_addStaticField hr index field value
    · exact fun action s hs ↦ hs

/-- A discreet registry is tidy. -/
theorem tidy : bridge.Tidy Discreet where
  resolve _ _ := rfl
  construct := leaves_construct
  invoke := leaves_invoke
  getField := leaves_getField
  setField := leaves_setField
  keeps := discreet_of_offers

end Registry

end StackScript
