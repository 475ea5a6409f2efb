import Mathlib.Data.List.Basic
import StackScript.Host.Registry
import StackScript.Proofs.Machine.Effect
import StackScript.Proofs.Machine.Pieces

/-!
# Hosts whose types last

The type that a name refers to depends on the state of the host, which every call may change. A bridge
is *lasting* if no call changes the types, and asking for them changes nothing at all (`Bridge.Lasting`).

Registries are of this kind: a name refers to a type by the names of all types (`Registry.lookup?_congr`),
and calls change at most the values of static fields. So is the bridge to a host without types.
-/

namespace StackScript

variable {σ α : Type}

/-- Asking for types is looking them up in the state of the host, and no call makes a difference to
that. -/
structure Bridge.Lasting (b : Bridge σ) (find : σ → String → Option TypeHandle) : Prop where
  resolve_eq : ∀ name s, (b.resolve name).run s = (find s.2 name, s)
  offers : ∀ {α : Type} {call : HostCall σ α}, b.Offers call → Respects (Unchanged fun s ↦ find s.2) call

/-- A host without types has none at any time. -/
theorem Bridge.lasting_none : Bridge.none.Lasting fun _ _ ↦ .none where
  resolve_eq _ _ := rfl
  offers _ _ := rfl

namespace Registry

/-! ### Types are found by the names of all types -/

variable {r r' : Registry}

theorem handle?_eq (r : Registry) (name : String) :
    r.handle? name = ((r.types.map (·.name)).findIdx? (· == name)).map TypeHandle.mk := by
  rw [List.findIdx?_map]
  rfl

theorem withSimpleName_eq (r : Registry) (name : String) : r.withSimpleName name =
    ((r.types.map (·.name)).zipIdx.filter fun (own, _) ↦ Text.simpleName own == name).map
      fun (_, i) ↦ ⟨i⟩ := by
  rw [List.zipIdx_map, List.filter_map, List.map_map]
  rfl

/-- Registries with the same names of types find the same types. -/
theorem lookup?_congr (h : r'.types.map (·.name) = r.types.map (·.name)) : r'.lookup? = r.lookup? := by
  funext name
  rw [lookup?, lookup?, handle?_eq, handle?_eq, withSimpleName_eq, withSimpleName_eq, h]

/-- A static field that gets a value leaves the names of types. -/
theorem names_addStaticField (types : List TypeDef) (index : Nat) (field : String) (value : Value) :
    (types.modify index (·.addStaticField field value)).map (·.name) = types.map (·.name) := by
  refine List.ext_getElem? fun i ↦ ?_
  rw [List.getElem?_map, List.getElem?_map, List.getElem?_modify]
  rcases types[i]? with _ | t
  · rfl
  · by_cases h : index = i <;> simp only [h, ↓reduceIte] <;> rfl

/-! ### What calls do to a registry -/

/-- Members do not see the registry. -/
theorem unchanged_perform (action : HostAction α) :
    Respects (Unchanged (·.2 : World × Registry → Registry)) (perform action) :=
  fun _ ↦ rfl

/-- Calls other than storing into a field leave the registry alone. -/
theorem unchanged_construct (handle : TypeHandle) (args : List Value) :
    Respects (Unchanged Prod.snd) (construct handle args) := by
  refine .bind .get fun s ↦ ?_
  exact .bind (.lift _) fun t ↦ .bind (.lift _) fun action ↦ unchanged_perform _

theorem unchanged_invoke (receiver : Receiver) (method : String) (args : List Value) :
    Respects (Unchanged Prod.snd) (invoke receiver method args) := by
  refine .bind .get fun s ↦ ?_
  cases receiver <;>
    exact .bind (.lift _) fun t ↦ .bind (.lift _) fun overloads ↦ .bind (.lift _) fun action ↦
      unchanged_perform _

theorem unchanged_getField (receiver : Receiver) (field : String) :
    Respects (Unchanged Prod.snd) (getField receiver field) := by
  refine .bind .get fun s ↦ ?_
  cases receiver
  · exact .bind (.lift _) fun t ↦ .lift _
  · exact .bind (.lift _) fun t ↦ .bind (.lift _) fun access ↦ unchanged_perform _

/-- Storing into a field carries out a setter, or gives a static field a value. -/
theorem respects_setField {R : World × Registry → World × Registry → Prop} [IsPreorder _ R]
    (hstatic : ∀ world r index field value, R (world, r)
      (world, ⟨r.types.modify index (·.addStaticField field value)⟩))
    (hperform : ∀ action : HostAction Unit, Respects R (perform action)) (receiver : Receiver)
    (field : String) (value : Value) : Respects R (setField receiver field value) := by
  refine .get_bind fun (world, r) ↦ ?_
  cases receiver with
  | type handle =>
    refine Respects.lift_bind fun t _ ↦ Respects.lift_bind fun old _ ↦ ?_
    exact hstatic world r handle.index field value
  | object ref =>
    refine Respects.lift_bind fun t _ ↦ ?_
    split
    · exact refl_of R _
    · exact hperform _ _

/-- A registry is lasting. -/
theorem lasting : bridge.Lasting lookup? where
  resolve_eq _ _ := rfl
  offers := by
    have hfind {call : HostCall Registry Value} (h : Respects (Unchanged Prod.snd) call) :
        Respects (Unchanged fun s : World × Registry ↦ s.2.lookup?) call :=
      fun s ↦ congrArg lookup? (h s)
    rintro _ _ (⟨t, args⟩ | ⟨receiver, method, args⟩ | ⟨receiver, field⟩ | ⟨receiver, field, value⟩)
    · exact hfind (unchanged_construct t args)
    · exact hfind (unchanged_invoke receiver method args)
    · exact hfind (unchanged_getField receiver field)
    · refine respects_setField (fun world r index field value ↦ ?_) (fun action _ ↦ rfl) receiver field
        value
      exact lookup?_congr (names_addStaticField r.types index field value)

end Registry

end StackScript
