import Mathlib.Data.List.Nodup
import StackScript.Proofs.Host.History
import StackScript.Proofs.Syntax.StaticMember

/-!
# Names of types

A name means the type of exactly this name or, where there is none and the name is simple, the only type whose
simple name it is (`Registry.Means`). That is the type it resolves to in a registry in which every type has its
own name (`Registry.lookup?_eq_some_iff`), and registries are of this kind at any time.

Beside its types a registry may keep an index, which finds them by their names without a search
(`Registry.Indexed`). Types and index are changed apart, by a declaration that looks into the index alone, yet
through all histories they stay inverse to each other (`Registry.Indexed.inverse_history`).

As new types come behind the old ones, a type keeps its handle; and a simple name changes its meaning only
with a new type that has this simple name (`Registry.resolves_named`).
-/

namespace StackScript

/-- A name without points is its own last part. -/
theorem Text.simpleName_of_isSimple {name : String} (h : IsSimple name) : simpleName name = name := by
  have hall : ∀ c ∈ name.toList.reverse, (c != '.') = true := fun c hc ↦
    bne_iff_ne.mpr fun heq ↦ h (heq ▸ List.mem_reverse.mp hc)
  rw [simpleName, List.takeWhile_eq_self_iff.mpr hall, List.reverse_reverse, String.ofList_toList]

namespace Registry

variable {r r' : Registry} {name : String} {handle : TypeHandle}

/-! ### What names mean -/

/-- The name of a type. -/
def typeName? (r : Registry) (handle : TypeHandle) : Option String :=
  r.types[handle.index]?.map (·.name)

/-- A name means the type of exactly this name or, where there is none and the name is simple, the only one
whose simple name it is. -/
def Means (r : Registry) (name : String) (handle : TypeHandle) : Prop :=
  r.typeName? handle = some name ∨
    (∀ other, r.typeName? other ≠ some name) ∧ Text.IsSimple name ∧
      ∀ other, (∃ own, r.typeName? other = some own ∧ Text.simpleName own = name) ↔ other = handle

theorem typeName?_eq : r.typeName? handle = r.names[handle.index]? :=
  List.getElem?_map.symm

theorem mem_withSimpleName : handle ∈ r.withSimpleName name ↔
    ∃ own, r.typeName? handle = some own ∧ Text.simpleName own = name := by
  rw [withSimpleName_eq, typeName?_eq]
  constructor
  · intro h
    obtain ⟨⟨own, i⟩, hentry, rfl⟩ := List.mem_map.mp h
    obtain ⟨hmem, hown⟩ := List.mem_filter.mp hentry
    exact ⟨own, List.mk_mem_zipIdx_iff_getElem?.mp hmem, beq_iff_eq.mp hown⟩
  · rintro ⟨own, hat, hown⟩
    exact List.mem_map.mpr ⟨(own, handle.index),
      List.mem_filter.mpr ⟨List.mk_mem_zipIdx_iff_getElem?.mpr hat, beq_iff_eq.mpr hown⟩, rfl⟩

theorem nodup_withSimpleName (r : Registry) (name : String) : (r.withSimpleName name).Nodup := by
  have hhandles (p : TypeDef × Nat → Bool) :
      ((r.types.zipIdx.filter p).map (TypeHandle.mk ∘ Prod.snd)).Nodup := by
    have hindices : ((r.types.zipIdx.filter p).map Prod.snd).Nodup :=
      (List.filter_sublist.map Prod.snd).nodup (List.zipIdx_map_snd 0 r.types ▸ List.nodup_range')
    rw [← List.map_map]
    exact hindices.map fun i j h ↦ congrArg TypeHandle.index h
  exact hhandles _

theorem withSimpleName_eq_singleton_iff : r.withSimpleName name = [handle] ↔
    ∀ other, (∃ own, r.typeName? other = some own ∧ Text.simpleName own = name) ↔ other = handle := by
  simp only [← mem_withSimpleName]
  constructor
  · intro h other
    rw [h, List.mem_singleton]
  · intro h
    refine List.perm_singleton.mp ((List.perm_ext_iff_of_nodup (nodup_withSimpleName r name)
      (List.nodup_singleton handle)).mpr fun other ↦ ?_)
    rw [h other, List.mem_singleton]

/-- In a registry in which every type has its own name, a name resolves to what it means. -/
theorem lookup?_eq_some_iff (h : r.names.Nodup) : r.lookup? name = some handle ↔ r.Means name handle := by
  have hexact {other : TypeHandle} : r.handle? name = some other ↔ r.typeName? other = some name := by
    rw [handle?_eq_some_iff h, typeName?_eq]
  rw [lookup?, Means]
  rcases hhandle : r.handle? name with _ | own
  · have hnone (other : TypeHandle) : r.typeName? other ≠ some name := fun heq ↦ by
      rw [hexact.mpr heq] at hhandle
      cases hhandle
    simp only [hnone, false_or, ne_eq, not_false_eq_true, implies_true, true_and]
    rw [← withSimpleName_eq_singleton_iff]
    by_cases hsimple : '.' ∈ name.toList
    · rw [if_pos hsimple]
      exact iff_of_false (Option.some_ne_none handle).symm fun h ↦ h.1 hsimple
    · rw [if_neg hsimple]
      refine Iff.trans ?_ (and_iff_right hsimple).symm
      split
      · rename_i only honly
        rw [honly]
        simp
      · rename_i hmany
        exact iff_of_false (Option.some_ne_none handle).symm fun h ↦ hmany handle h
  · have hown := hexact.mp hhandle
    constructor
    · exact fun heq ↦ .inl (Option.some.inj heq ▸ hown)
    · rintro (heq | ⟨hnone, -⟩)
      · exact hhandle.symm.trans (hexact.mpr heq)
      · exact absurd hown (hnone own)

/-- What a name means is a type. -/
theorem Means.exists_typeName? (h : r.Means name handle) : ∃ own, r.typeName? handle = some own := by
  rcases h with hname | ⟨-, -, honly⟩
  · exact ⟨name, hname⟩
  · obtain ⟨own, hown, -⟩ := (honly handle).mpr rfl
    exact ⟨own, hown⟩

/-! ### What new types change -/

/-- A type keeps its handle when others come behind it. -/
theorem typeName?_of_names_eq {more : List String} (hnames : r'.names = r.names ++ more)
    (h : r.typeName? handle = some name) : r'.typeName? handle = some name := by
  rw [typeName?_eq] at h ⊢
  rw [hnames, List.getElem?_append_left (List.getElem?_eq_some_iff.mp h).1, h]

/-- A simple name means what it meant unless a new type has this simple name. -/
theorem means_iff_of_names_eq {more : List String} (hnames : r'.names = r.names ++ more)
    (hsimple : Text.IsSimple name) (hmore : ∀ own ∈ more, Text.simpleName own ≠ name) :
    r'.Means name handle ↔ r.Means name handle := by
  have hsame (other : TypeHandle) {own : String} (hown : Text.simpleName own = name) :
      r'.typeName? other = some own ↔ r.typeName? other = some own := by
    refine ⟨fun h ↦ ?_, typeName?_of_names_eq hnames⟩
    rw [typeName?_eq, hnames] at h
    rw [typeName?_eq]
    rcases lt_or_ge other.index r.names.length with hlt | hge
    · rwa [List.getElem?_append_left hlt] at h
    · rw [List.getElem?_append_right hge] at h
      exact absurd hown (hmore own (List.mem_of_getElem? h))
  have hexact (other : TypeHandle) := hsame other (Text.simpleName_of_isSimple hsimple)
  have hsimples (other : TypeHandle) :
      (∃ own, r'.typeName? other = some own ∧ Text.simpleName own = name) ↔
        ∃ own, r.typeName? other = some own ∧ Text.simpleName own = name :=
    exists_congr fun own ↦ and_congr_left fun hown ↦ hsame other hown
  simp only [Means, ne_eq, hexact, hsimples]

/-- The types that are new after further acts are among those that these declare. -/
theorem exists_names_history_append (acts more : List Act) (w : World) :
    ∃ new, (history (acts ++ more) w).2.names = (history acts w).2.names ++ new ∧
      ∀ own ∈ new, own ∈ more.filterMap Act.defined? ∧ own ∉ (history acts w).2.names := by
  refine ⟨_, by rw [names_history, names_history, List.filterMap_append, List.eraseDups_append], ?_⟩
  intro own hown
  rw [names_history, List.mem_eraseDups]
  rw [List.mem_eraseDups, List.removeAll, List.mem_filter] at hown
  exact ⟨hown.1, by simpa using hown.2⟩

/-! ### An index of types -/

/-- A registry with an index that finds types by their names. -/
structure Indexed where
  registry : Registry
  index : Table TypeHandle

namespace Indexed

/-- No types. -/
def empty : Indexed := ⟨.empty, []⟩

/-- Declares a type, or takes up the one that the index has under this name, and changes it. -/
def define (x : Indexed) (name : String) (f : TypeDef → TypeDef) : Indexed :=
  match x.index.lookup name with
  | some handle => ⟨⟨x.registry.types.modify handle.index f⟩, x.index⟩
  | none =>
    ⟨⟨x.registry.types ++ [f (.named name)]⟩,
      Table.insert name ⟨x.registry.types.length⟩ x.index⟩

/-- The type that a name refers to. -/
def lookup? (x : Indexed) (name : String) : Option TypeHandle :=
  match x.index.lookup name with
  | some handle => some handle
  | none =>
    if '.' ∈ name.toList then none
    else
      match x.registry.withSimpleName name with
      | [handle] => some handle
      | _ => none

/-- What an act leaves behind. Requests do not change the index. -/
def after (s : World × Indexed) : Act → World × Indexed
  | .define name members => (s.1, s.2.define name (·.addAll members))
  | .ask request =>
    let (world, registry) := request.after bridge (s.1, s.2.registry)
    (world, ⟨registry, s.2.index⟩)

/-- An indexed registry after a history that began in a given world. -/
def history (acts : List Act) (w : World) : World × Indexed :=
  acts.foldl after (w, empty)

/-- The index has the types under their names, and nothing else. -/
def Inverse (x : Indexed) : Prop :=
  ∀ name, x.index.lookup name = x.registry.handle? name

variable {x : Indexed}

theorem Inverse.lookup?_eq (h : x.Inverse) : x.lookup? = x.registry.lookup? := by
  funext name
  rw [lookup?, h name]
  rfl

theorem registry_define (h : x.Inverse) (name : String) (f : TypeDef → TypeDef) :
    (x.define name f).registry = x.registry.define name f := by
  rw [define, Registry.define, h name]
  cases x.registry.handle? name <;> rfl

/-- A declaration extends types and index in step. -/
theorem Inverse.define (h : x.Inverse) (name : String) {f : TypeDef → TypeDef}
    (hf : ∀ t, (f t).name = t.name) : (x.define name f).Inverse := by
  intro key
  have hnames := names_define x.registry name hf
  rw [registry_define h, handle?_eq]
  show _ = ((x.registry.define name f).names.findIdx? (· == key)).map TypeHandle.mk
  rw [hnames, Indexed.define, h name]
  rcases hhandle : x.registry.handle? name with _ | handle
  · -- the new name stands behind the others, at the index under which it is entered
    have hnew := handle?_eq_none_iff_notMem.mp hhandle
    rw [if_neg hnew, Table.lookup_insert, List.findIdx?_append]
    by_cases hkey : key = name
    · have hlast : x.registry.names.findIdx? (· == key) = none :=
        List.findIdx?_eq_none_iff.mpr fun own hown ↦
          beq_false_of_ne (ne_of_mem_of_not_mem hown (hkey ▸ hnew))
      rw [if_pos hkey, hlast]
      simp [hkey, names]
    · rw [if_neg hkey, h key, handle?_eq]
      simp [Ne.symm hkey, names]
  · have hold : name ∈ x.registry.names := not_not.mp fun hnew ↦ by
      rw [handle?_eq_none_iff_notMem.mpr hnew] at hhandle
      cases hhandle
    rw [if_pos hold]
    exact (h key).trans (handle?_eq x.registry key)

/-- An act leaves types and index inverse to each other, and the registry as it is without an index. -/
theorem inverse_after {s : World × Indexed} (h : s.2.Inverse) (act : Act) :
    (after s act).2.Inverse ∧
      ((after s act).1, (after s act).2.registry) = act.after (s.1, s.2.registry) := by
  cases act with
  | define name members =>
    exact ⟨h.define name fun t ↦ t.name_addAll members,
      congrArg (Prod.mk s.1) (registry_define h name (·.addAll members))⟩
  | ask request =>
    refine ⟨fun name ↦ (h name).trans ?_, rfl⟩
    rw [handle?_eq, handle?_eq]
    exact congrArg (fun names : List String ↦ (names.findIdx? (· == name)).map TypeHandle.mk)
      (names_after_request request (s.1, s.2.registry)).symm

/-- Types and index are inverse to each other after every history. -/
theorem inverse_history (acts : List Act) (w : World) : (history acts w).2.Inverse ∧
    ((history acts w).1, (history acts w).2.registry) = Registry.history acts w := by
  induction acts using List.reverseRecOn with
  | nil => exact ⟨fun _ ↦ rfl, rfl⟩
  | append_singleton acts act ih =>
    have hnext := inverse_after ih.1 act
    rw [ih.2] at hnext
    rw [history_append, history, List.foldl_append]
    exact hnext

end Indexed

/-- After every history types and index are inverse to each other, and a type stands where its name came up
first. A name resolves to the type that it means. Whatever is done further, types keep their handles, names
with points and full names keep their types, and where another simple name resolves otherwise, a new type has
this simple name. -/
theorem resolves_named (acts more : List Act) (w : World) :
    let s := history acts w
    let s' := history (acts ++ more) w
    let x := (Indexed.history acts w).2
    (x.registry = s.2 ∧ x.lookup? = s.2.lookup?) ∧
    (∀ name handle, x.index.lookup name = some handle ↔ s.2.typeName? handle = some name) ∧
    s.2.types.map (·.name) = (acts.filterMap Act.defined?).eraseDups ∧
    (∀ name handle, (bridge.resolve name).run s = (some handle, s) ↔ s.2.Means name handle) ∧
    (∀ name handle, s.2.typeName? handle = some name → s'.2.typeName? handle = some name) ∧
    (∀ name handle, (bridge.resolve name).run s = (some handle, s) →
      ¬ Text.IsSimple name ∨ s.2.typeName? handle = some name →
      (bridge.resolve name).run s' = (some handle, s')) ∧
    ∀ name, Text.IsSimple name →
      ((bridge.resolve name).run s').1 ≠ ((bridge.resolve name).run s).1 →
      ∃ own ∈ more.filterMap Act.defined?, own ∉ s.2.types.map (·.name) ∧
        Text.simpleName own = name := by
  intro s s' x
  obtain ⟨new, hnames, hnew⟩ := exists_names_history_append acts more w
  obtain ⟨hinverse, hx⟩ := Indexed.inverse_history acts w
  have hregistry : x.registry = s.2 := congrArg Prod.snd hx
  have hnodup : s.2.names.Nodup := (records_history acts w).nodup
  have hnodup' : s'.2.names.Nodup := (records_history (acts ++ more) w).nodup
  have hresolve (s : World × Registry) (name : String) (handle : TypeHandle) :
      (bridge.resolve name).run s = (some handle, s) ↔ s.2.lookup? name = some handle :=
    ⟨fun h ↦ congrArg Prod.fst h, fun h ↦ congrArg (·, s) h⟩
  have hkept (name : String) (handle : TypeHandle) (h : s.2.typeName? handle = some name) :
      s'.2.typeName? handle = some name := typeName?_of_names_eq hnames h
  refine ⟨⟨hregistry, hregistry ▸ hinverse.lookup?_eq⟩, fun name handle ↦ ?_, names_history acts w,
    fun name handle ↦ ?_, hkept, fun name handle h hexact ↦ ?_, fun name hsimple hne ↦ ?_⟩
  · rw [hinverse name, typeName?_eq, ← handle?_eq_some_iff hnodup]
    exact hregistry ▸ Iff.rfl
  · rw [hresolve, lookup?_eq_some_iff hnodup]
  · rw [hresolve, lookup?_eq_some_iff hnodup] at h
    rw [hresolve, lookup?_eq_some_iff hnodup']
    -- only names without points mean types of another name
    have hname : s.2.typeName? handle = some name := by
      rcases hexact with hpoint | hname
      · exact h.resolve_right fun hother ↦ hpoint hother.2.1
      · exact hname
    exact .inl (hkept name handle hname)
  · by_contra hnone
    push Not at hnone
    refine hne (Option.ext fun handle ↦ ?_)
    show s'.2.lookup? name = some handle ↔ s.2.lookup? name = some handle
    rw [lookup?_eq_some_iff hnodup', lookup?_eq_some_iff hnodup]
    refine means_iff_of_names_eq hnames hsimple fun own hown heq ↦ ?_
    exact hnone own (hnew own hown).1 (hnew own hown).2 heq

/-- A simple name loses its type to another of the same simple name, and gets one back with a type of this
very name. -/
example :
    let acts : List Act := [.define "A.V" [], .define "B.V" [], .define "A.V" [], .define "V" []]
    (List.range 5).map (fun n ↦ (history (acts.take n) .empty).2.lookup? "V") =
      [none, some ⟨0⟩, none, none, some ⟨2⟩] := by
  cbv

end Registry

end StackScript
