import StackScript.Proofs.Host.Construction
import StackScript.Proofs.Host.Seclusion
import StackScript.Proofs.Machine.Globals

/-!
# Histories of registries

A registry begins without types. Types are declared in it with any members, and may be taken up again
later; in between, requests are made of it. Such a history (`Registry.history`) tells all that is known of a
registry:

* its types have the names that were declared, each once, in the order in which they first came up
  (`Registry.names_history`);
* a type has the constructors and methods that were declared under its name, in this order
  (`Registry.records_history`).

Requests do not come into it, as no request changes more than the values of static fields.
-/

namespace StackScript

variable {α β : Type}

/-! ### Members -/

/-- A member as it is declared. -/
inductive Member where
  | constructor (overload : Overload StaticAction)
  | static (name : String) (overload : Overload StaticAction)
  | method (name : String) (overload : Overload MethodAction)
  | staticField (name : String) (value : Value)
  | field (name : String) (access : FieldAccess)

namespace Member

/-- The constructor that is declared. -/
def constructor? : Member → Option (Overload StaticAction)
  | constructor o => some o
  | _ => none

/-- The overload of a static method that is declared. -/
def static? (name : String) : Member → Option (Overload StaticAction)
  | static own o => if own = name then some o else none
  | _ => none

/-- The overload of a method that is declared. -/
def method? (name : String) : Member → Option (Overload MethodAction)
  | method own o => if own = name then some o else none
  | _ => none

end Member

namespace TypeDef

/-- Declares a member of a type. -/
def add (t : TypeDef) : Member → TypeDef
  | .constructor o => t.addConstructor o.params o.action
  | .static name o => t.addStatic name o.params o.action
  | .method name o => t.addMethod name o.params o.action
  | .staticField name value => t.addStaticField name value
  | .field name access => t.addField name access

/-- Declares members of a type one after the other. -/
def addAll (t : TypeDef) (members : List Member) : TypeDef :=
  members.foldl add t

@[simp]
theorem name_addAll (t : TypeDef) (members : List Member) : (t.addAll members).name = t.name := by
  induction members generalizing t with
  | nil => rfl
  | cons m rest ih => exact (ih (t.add m)).trans (by cases m <;> rfl)

/-- The constructors and methods of a type are those of some members, in the order of these. -/
structure Declared (t : TypeDef) (members : List Member) : Prop where
  constructors : t.constructors = members.filterMap Member.constructor?
  statics : ∀ name, (t.statics.lookup name).getD [] = members.filterMap (Member.static? name)
  /-- A method is entered with an overload. -/
  statics_ne : ∀ name, t.statics.lookup name ≠ some []
  methods : ∀ name, (t.methods.lookup name).getD [] = members.filterMap (Member.method? name)
  methods_ne : ∀ name, t.methods.lookup name ≠ some []

theorem declared_named (name : String) : (named name).Declared [] :=
  ⟨rfl, fun _ ↦ rfl, fun _ ↦ nofun, fun _ ↦ rfl, fun _ ↦ nofun⟩

variable {t : TypeDef} {members : List Member}

/-- An overload is entered behind those that are there. -/
theorem getD_lookup_alter (table : Table (List (Overload α))) (name key : String) (o : Overload α) :
    ((Table.alter name (·.getD [] ++ [o]) table).lookup key).getD [] =
      (table.lookup key).getD [] ++ (if name = key then some o else none).toList := by
  rw [Table.lookup_alter]
  by_cases hkey : key = name
  · simp [hkey]
  · simp [hkey, Ne.symm hkey]

theorem lookup_alter_ne {table : Table (List (Overload α))} {key : String}
    (h : table.lookup key ≠ some []) (name : String) (o : Overload α) :
    (Table.alter name (·.getD [] ++ [o]) table).lookup key ≠ some [] := by
  rw [Table.lookup_alter]
  split
  · simp
  · exact h

theorem append_toList_filterMap {f : Member → Option α} {os : List α}
    (h : os = members.filterMap f) (m : Member) : os ++ (f m).toList = (members ++ [m]).filterMap f := by
  rw [List.filterMap_append, h]
  cases hm : f m <;> simp [hm]

theorem Declared.add (h : t.Declared members) (m : Member) :
    (t.add m).Declared (members ++ [m]) where
  constructors := by
    rw [← append_toList_filterMap h.constructors m]
    cases m <;> simp [TypeDef.add, addConstructor, addStatic, addMethod, addStaticField, addField,
      Member.constructor?]
  statics name := by
    rw [← append_toList_filterMap (h.statics name) m]
    cases m with
    | static own o => exact getD_lookup_alter t.statics own name o
    | constructor | method | staticField | field => exact (List.append_nil _).symm
  statics_ne name := by
    cases m with
    | static own o => exact lookup_alter_ne (h.statics_ne name) own o
    | constructor | method | staticField | field => exact h.statics_ne name
  methods name := by
    rw [← append_toList_filterMap (h.methods name) m]
    cases m with
    | method own o => exact getD_lookup_alter t.methods own name o
    | constructor | static | staticField | field => exact (List.append_nil _).symm
  methods_ne name := by
    cases m with
    | method own o => exact lookup_alter_ne (h.methods_ne name) own o
    | constructor | static | staticField | field => exact h.methods_ne name

theorem Declared.addAll (h : t.Declared members) (more : List Member) :
    (t.addAll more).Declared (members ++ more) := by
  induction more generalizing t members with
  | nil => simpa [TypeDef.addAll] using h
  | cons m rest ih => simpa [TypeDef.addAll] using ih (h.add m)

/-- The values of static fields do not come into it. -/
theorem Declared.addStaticField (h : t.Declared members) (name : String) (value : Value) :
    (t.addStaticField name value).Declared members :=
  ⟨h.constructors, h.statics, h.statics_ne, h.methods, h.methods_ne⟩

end TypeDef

/-! ### Acts -/

/-- What a request leaves behind. -/
def Request.after {σ : Type} (b : Bridge σ) (s : World × σ) : Request → World × σ
  | resolve name => ((b.resolve name).run s).2
  | construct t args => ((b.construct t args).run.run s).2
  | invoke r method args => ((b.invoke r method args).run.run s).2
  | getField r field => ((b.getField r field).run.run s).2
  | setField r field value => ((b.setField r field value).run.run s).2

namespace Registry

/-- What is done with a registry: a type is declared, or taken up again, or a request is made. -/
inductive Act where
  | define (name : String) (members : List Member)
  | ask (request : Request)

namespace Act

/-- What an act leaves behind. -/
def after (s : World × Registry) : Act → World × Registry
  | define name members => (s.1, s.2.define name (·.addAll members))
  | ask request => request.after bridge s

/-- The name under which a type is declared. -/
def defined? : Act → Option String
  | define name _ => some name
  | ask _ => none

/-- The members that are declared of a type. -/
def membersOf (type : String) : Act → List Member
  | define name members => if name = type then members else []
  | ask _ => []

end Act

/-- A registry after a history that began in a given world. -/
def history (acts : List Act) (w : World) : World × Registry :=
  acts.foldl Act.after (w, .empty)

/-- The members that were declared of a type. -/
def declared (acts : List Act) (type : String) : List Member :=
  acts.flatMap (Act.membersOf type)

/-- The names of the types. -/
def names (r : Registry) : List String :=
  r.types.map (·.name)

variable {r : Registry} {name : String}

/-! ### Names -/

theorem handle?_eq_none_iff_notMem : r.handle? name = none ↔ name ∉ r.names := by
  rw [handle?_eq_none_iff]
  simp [names]

theorem names_modify (types : List TypeDef) (index : Nat) {f : TypeDef → TypeDef}
    (hf : ∀ t, (f t).name = t.name) : (types.modify index f).map (·.name) = types.map (·.name) := by
  refine List.ext_getElem? fun i ↦ ?_
  rw [List.getElem?_map, List.getElem?_map, List.getElem?_modify]
  rcases types[i]? with _ | t
  · rfl
  · by_cases h : index = i <;> simp [h, hf]

/-- A name that is new comes last. -/
theorem names_define (r : Registry) (name : String) {f : TypeDef → TypeDef}
    (hf : ∀ t, (f t).name = t.name) :
    (r.define name f).names = if name ∈ r.names then r.names else r.names ++ [name] := by
  unfold define
  split
  · rename_i handle hhandle
    rw [if_pos (not_not.mp fun h ↦ by rw [handle?_eq_none_iff_notMem.mpr h] at hhandle; cases hhandle)]
    exact names_modify _ _ hf
  · rename_i hnone
    rw [if_neg (handle?_eq_none_iff_notMem.mp hnone)]
    simp [names, hf, TypeDef.named]

/-- A request leaves the names of the types. -/
theorem names_after_request (request : Request) (s : World × Registry) :
    (request.after bridge s).2.names = s.2.names := by
  cases request with
  | resolve name => rfl
  | construct t args => exact congrArg names (unchanged_construct t args s)
  | invoke receiver method args => exact congrArg names (unchanged_invoke receiver method args s)
  | getField receiver field => exact congrArg names (unchanged_getField receiver field s)
  | setField receiver field value =>
    exact respects_setField (R := Unchanged fun s ↦ s.2.names)
      (fun world r index field value ↦ names_addStaticField r.types index field value)
      (fun _ _ ↦ rfl) receiver field value s

/-- An act adds at most the name that it declares. -/
theorem names_after (act : Act) (s : World × Registry) :
    (act.after s).2.names = s.2.names ++ act.defined?.toList.removeAll s.2.names := by
  cases act with
  | define name members =>
    rw [show (Act.define name members).after s = (s.1, s.2.define name (·.addAll members)) from rfl,
      names_define _ _ fun t ↦ t.name_addAll members]
    by_cases h : name ∈ s.2.names <;> simp [Act.defined?, List.removeAll, h]
  | ask request => exact (names_after_request request s).trans (List.append_nil _).symm

theorem history_append (acts more : List Act) (w : World) :
    history (acts ++ more) w = more.foldl Act.after (history acts w) :=
  List.foldl_append

/-- The types have the names that were declared, each once, in the order of their first declaration. -/
theorem names_history (acts : List Act) (w : World) :
    (history acts w).2.names = (acts.filterMap Act.defined?).eraseDups := by
  induction acts using List.reverseRecOn with
  | nil => rfl
  | append_singleton acts act ih =>
    rw [history_append, List.foldl_cons, List.foldl_nil, names_after, ih, List.filterMap_append,
      List.eraseDups_append]
    congr 1
    have hact : [act].filterMap Act.defined? = act.defined?.toList := by
      rcases h : act.defined? with _ | name <;> simp [h]
    rw [hact]
    generalize acts.filterMap Act.defined? = known
    rcases act.defined? with _ | name
    · rfl
    · by_cases h : name ∈ known <;> simp [List.removeAll, List.eraseDups_cons, h]

theorem nodup_names_after {s : World × Registry} (h : s.2.names.Nodup) (act : Act) :
    (act.after s).2.names.Nodup := by
  rw [names_after]
  rcases act.defined? with _ | name
  · simpa [List.removeAll] using h
  · by_cases hname : name ∈ s.2.names
    · simpa [List.removeAll, hname] using h
    · simpa [List.removeAll, hname, List.nodup_append] using ⟨h, fun own hown heq ↦ hname (heq ▸ hown)⟩

/-! ### Members -/

/-- Every type has its own name, and the constructors and methods that were declared under it. -/
structure Records (r : Registry) (known : String → List Member) : Prop where
  nodup : r.names.Nodup
  types : ∀ t ∈ r.types, t.Declared (known t.name)
  unknown : ∀ name ∉ r.names, known name = []

/-- Where every type has its own name, a name is found where it stands. -/
theorem handle?_eq_some_iff (h : r.names.Nodup) {handle : TypeHandle} :
    r.handle? name = some handle ↔ r.names[handle.index]? = some name := by
  rw [handle?_eq, Option.map_eq_some_iff]
  constructor
  · rintro ⟨i, hi, rfl⟩
    obtain ⟨hlt, hname, -⟩ := List.findIdx?_eq_some_iff_getElem.mp hi
    exact List.getElem?_eq_some_iff.mpr ⟨hlt, beq_iff_eq.mp hname⟩
  · intro hname
    obtain ⟨hlt, hname⟩ := List.getElem?_eq_some_iff.mp hname
    refine ⟨handle.index, List.findIdx?_eq_some_iff_getElem.mpr ⟨hlt, beq_iff_eq.mpr hname, ?_⟩, rfl⟩
    intro j hj heq
    have hj' := (List.Nodup.getElem_inj_iff h).mp ((beq_iff_eq.mp heq).trans hname.symm)
    omega

variable {known : String → List Member}

/-- A type of a registry in which one was declared was there before, and is changed if it has this name, or it
is a new one. -/
theorem mem_types_define (h : r.names.Nodup) {f : TypeDef → TypeDef} {t' : TypeDef}
    (ht' : t' ∈ (r.define name f).types) :
    (∃ t ∈ r.types, t' = if t.name = name then f t else t) ∨ name ∉ r.names ∧ t' = f (.named name) := by
  unfold Registry.define at ht'
  split at ht'
  · rename_i handle hhandle
    have hat := (handle?_eq_some_iff h).mp hhandle
    obtain ⟨i, hi⟩ := List.mem_iff_getElem?.mp ht'
    rw [List.getElem?_modify] at hi
    obtain ⟨t, ht, rfl⟩ := Option.map_eq_some_iff.mp hi
    have hname : r.names[i]? = some t.name := by rw [names, List.getElem?_map, ht, Option.map_some]
    refine .inl ⟨t, List.mem_of_getElem? ht, ?_⟩
    by_cases hindex : handle.index = i
    · have hown : t.name = name := by
        rw [hindex, hname] at hat
        exact Option.some.inj hat
      rw [if_pos hindex, if_pos hown]
    · -- No other type has the name of this one.
      have hne : t.name ≠ name := fun heq ↦ by
        rw [heq, ← hat] at hname
        exact hindex ((List.getElem?_inj (List.getElem?_eq_some_iff.mp hat).1 h).mp hname.symm)
      rw [if_neg hindex, if_neg hne]
  · rename_i hnone
    rcases List.mem_append.mp ht' with ht | ht
    · have hne : t'.name ≠ name := fun heq ↦
        handle?_eq_none_iff_notMem.mp hnone (heq ▸ List.mem_map_of_mem ht)
      exact .inl ⟨t', ht, (if_neg hne).symm⟩
    · exact .inr ⟨handle?_eq_none_iff_notMem.mp hnone, List.mem_singleton.mp ht⟩

theorem Records.define (h : r.Records known) (name : String) (members : List Member) :
    (r.define name (·.addAll members)).Records fun type ↦
      known type ++ (Act.define name members).membersOf type := by
  have hmembers (type : String) : (Act.define name members).membersOf type =
      if name = type then members else [] := rfl
  refine ⟨nodup_names_after (s := (.empty, r)) h.nodup (.define name members), fun t' ht' ↦ ?_,
    fun type htype ↦ ?_⟩
  · rw [hmembers]
    rcases mem_types_define h.nodup ht' with ⟨t, ht, rfl⟩ | ⟨hnew, rfl⟩
    · have hdeclared := h.types t ht
      by_cases hname : t.name = name
      · simpa [hname] using hname ▸ hdeclared.addAll members
      · simpa [hname, Ne.symm hname] using hdeclared
    · rw [TypeDef.name_addAll, show (TypeDef.named name).name = name from rfl, h.unknown name hnew,
        if_pos rfl]
      exact (TypeDef.declared_named name).addAll members
  · rw [names_define _ _ fun t ↦ t.name_addAll members] at htype
    have hout : type ∉ r.names ∧ name ≠ type := by
      by_cases hmem : name ∈ r.names
      · rw [if_pos hmem] at htype
        exact ⟨htype, fun heq ↦ htype (heq ▸ hmem)⟩
      · rw [if_neg hmem, List.mem_append, List.mem_singleton, not_or] at htype
        exact ⟨htype.1, Ne.symm htype.2⟩
    rw [h.unknown type hout.1, hmembers, if_neg hout.2]
    rfl

/-- A value of a static field is no constructor or method. -/
theorem Records.addStaticField (h : r.Records known) (index : Nat) (field : String) (value : Value) :
    Records ⟨r.types.modify index (·.addStaticField field value)⟩ known := by
  have hnames : names ⟨r.types.modify index (·.addStaticField field value)⟩ = r.names :=
    names_addStaticField r.types index field value
  refine ⟨hnames ▸ h.nodup, fun t' ht' ↦ ?_, hnames ▸ h.unknown⟩
  obtain ⟨i, hi⟩ := List.mem_iff_getElem?.mp ht'
  rw [List.getElem?_modify] at hi
  obtain ⟨t, ht, rfl⟩ := Option.map_eq_some_iff.mp hi
  have hdeclared := h.types t (List.mem_of_getElem? ht)
  split
  · exact hdeclared.addStaticField field value
  · exact hdeclared

/-- A request leaves the types with their constructors and methods. -/
theorem Records.request {s : World × Registry} (h : s.2.Records known) (request : Request) :
    (request.after bridge s).2.Records known := by
  have hsame {call : HostCall Registry Value} (hcall : Respects (Unchanged Prod.snd) call) :
      (call.run.run s).2.2.Records known := (hcall s : (call.run.run s).2.2 = s.2) ▸ h
  cases request with
  | resolve name => exact h
  | construct t args => exact hsame (unchanged_construct t args)
  | invoke receiver method args => exact hsame (unchanged_invoke receiver method args)
  | getField receiver field => exact hsame (unchanged_getField receiver field)
  | setField receiver field value =>
    have : IsPreorder (World × Registry) fun s s' ↦ s.2.Records known → s'.2.Records known :=
      { refl := fun _ h ↦ h, trans := fun _ _ _ h h' hs ↦ h' (h hs) }
    exact respects_setField (R := fun s s' ↦ s.2.Records known → s'.2.Records known)
      (fun world r index field value hr ↦ hr.addStaticField index field value)
      (fun action s hs ↦ hs) receiver field value s h

/-- What is declared of types comes behind what was. -/
theorem Records.after {s : World × Registry} (h : s.2.Records known) (act : Act) :
    (act.after s).2.Records fun type ↦ known type ++ act.membersOf type := by
  cases act with
  | define name members => exact h.define name members
  | ask request =>
    simp only [Act.membersOf, List.append_nil]
    exact h.request request

/-- A type has the constructors and methods that were declared under its name, in this order. -/
theorem records_history (acts : List Act) (w : World) :
    (history acts w).2.Records (declared acts) := by
  induction acts using List.reverseRecOn with
  | nil => exact ⟨List.nodup_nil, fun _ ht ↦ (nomatch ht), fun _ _ ↦ rfl⟩
  | append_singleton acts act ih =>
    have hdeclared : declared (acts ++ [act]) = fun type ↦ declared acts type ++ act.membersOf type := by
      funext type
      simp [declared]
    rw [history_append, hdeclared]
    exact ih.after act

end Registry

end StackScript
