import StackScript.Builtin
import StackScript.Proofs.Machine.Effect
import StackScript.Value.Element

/-!
# Values that lead to no object of the host

Lists hold values, and enumerators of lists know their lists, so that a value leads to others
(`Heap.Reaches`). A value is *domestic* if it leads to no other objects than helpers of the language.

Built-in members only ever store values away that they were given, and give values that they have come upon.
So all that was domestic stays so (`Heap.Shelters`), and what they give is domestic if what they were given
is (`Heap.Guards`). For that nothing has to be known about what else is in the heap: the domestic values are
closed under what they lead to, and whatever is closed that way and has only helpers among it is domestic
(`Heap.domestic_of_closed`).
-/

namespace StackScript

variable {α β : Type}

namespace Heap

/-- The values that a value leads to, through lists and through the lists of enumerators. -/
inductive Reaches (h : Heap) (v : Value) : Value → Prop
  | refl : Reaches h v v
  | item {r : ListRef} {w : Value} (hr : Reaches h v (.list r)) (hw : w ∈ h.items r) : Reaches h v w
  | enumerated {r : ObjectRef} {e : ListEnumerator} (hr : Reaches h v (.object r))
    (he : h.object? r = some (.listEnumerator e)) : Reaches h v (.list e.items)

/-- A value that leads to no objects but helpers of the language. -/
def Domestic (h : Heap) (v : Value) : Prop :=
  ∀ r, h.Reaches v (.object r) → h.isHelper r = true

/-- What is domestic in a heap is so in another one. -/
def Shelters (h h' : Heap) : Prop :=
  ∀ v, h.Domestic v → h'.Domestic v

instance : IsPreorder Heap Shelters where
  refl _ _ h := h
  trans _ _ _ h h' v hv := h' v (h v hv)

theorem Reaches.trans {h : Heap} {u v w : Value} (hv : h.Reaches u v) (hw : h.Reaches v w) :
    h.Reaches u w := by
  induction hw with
  | refl => exact hv
  | item _ hw ih => exact .item ih hw
  | enumerated _ he ih => exact .enumerated ih he

section Domestic

variable {h : Heap}

theorem Domestic.of_reaches {v w : Value} (hv : h.Domestic v) (hw : h.Reaches v w) : h.Domestic w :=
  fun r hr ↦ hv r (hw.trans hr)

/-- The elements of domestic lists are domestic. -/
theorem Domestic.item {r : ListRef} (hr : h.Domestic (.list r)) {w : Value} (hw : w ∈ h.items r) :
    h.Domestic w :=
  hr.of_reaches (.item .refl hw)

/-- So are the lists of domestic enumerators. -/
theorem Domestic.enumerated {r : ObjectRef} (hr : h.Domestic (.object r)) {e : ListEnumerator}
    (he : h.object? r = some (.listEnumerator e)) : h.Domestic (.list e.items) :=
  hr.of_reaches (.enumerated .refl he)

theorem Domestic.isHelper {r : ObjectRef} (hr : h.Domestic (.object r)) : h.isHelper r = true :=
  hr r .refl

/-- Literals lead to nothing else. -/
@[simp]
theorem domestic_literal (l : Literal) : h.Domestic (.literal l) := by
  have hself {w : Value} (hw : h.Reaches (.literal l) w) : w = .literal l := by
    induction hw with
    | refl => rfl
    | item _ _ ih | enumerated _ _ ih => cases ih
  intro r hr
  cases hself hr

/-- Values that lead only to each other, and among which there are no objects but helpers. -/
structure Closed (h : Heap) (P : Value → Prop) : Prop where
  item : ∀ r, P (.list r) → ∀ w ∈ h.items r, P w
  enumerated : ∀ r e, P (.object r) → h.object? r = some (.listEnumerator e) → P (.list e.items)
  isHelper : ∀ r, P (.object r) → h.isHelper r = true

/-- Such values are domestic. -/
theorem domestic_of_closed {P : Value → Prop} (h' : h.Closed P) {v : Value} (hv : P v) :
    h.Domestic v := by
  have hreached {w : Value} (hw : h.Reaches v w) : P w := by
    induction hw with
    | refl => exact hv
    | item _ hw ih => exact h'.item _ ih _ hw
    | enumerated _ he ih => exact h'.enumerated _ _ ih he
  exact fun r hr ↦ h'.isHelper r (hreached hr)

end Domestic

/-! ### Changes to heaps -/

/-- A list is domestic if its elements are, be it in the heap or not. -/
theorem domestic_list {h : Heap} {r : ListRef} (hr : ∀ w ∈ h.items r, h.Domestic w) :
    h.Domestic (.list r) := by
  have hclosed : h.Closed fun v ↦ v = .list r ∨ h.Domestic v := by
    refine ⟨fun r' hr' w hw ↦ .inr ?_, fun r' e hr' he ↦ .inr ?_, fun r' hr' ↦ ?_⟩
    · rcases hr' with heq | hr'
      · obtain rfl := Value.list.inj heq
        exact hr w hw
      · exact hr'.item hw
    · exact (hr'.resolve_left fun heq ↦ nomatch heq).enumerated he
    · exact (hr'.resolve_left fun heq ↦ nomatch heq).isHelper
  exact domestic_of_closed hclosed (.inl rfl)

/-- Lists may change if domestic ones hold nothing but domestic values then. -/
theorem shelters_of_items {h h' : Heap} (hobjects : h'.objects = h.objects)
    (hitems : ∀ r, h.Domestic (.list r) → ∀ w ∈ h'.items r, h.Domestic w) : h.Shelters h' := by
  have hsame (r : ObjectRef) : h'.object? r = h.object? r := by rw [object?, object?, hobjects]
  intro v hv
  refine domestic_of_closed ⟨hitems, fun r e hr he ↦ ?_, fun r hr ↦ ?_⟩ hv
  · rw [hsame] at he
    exact hr.enumerated he
  · rw [isHelper, hsame]
    exact hr.isHelper

theorem shelters_newList {h : Heap} {items : Array Value} (hitems : ∀ v ∈ items, h.Domestic v) :
    h.Shelters (h.newList items).2 := by
  refine shelters_of_items rfl fun r hr w hw ↦ ?_
  rw [newList, Heap.items, Array.getElem?_push] at hw
  split at hw
  · exact hitems w hw
  · exact hr.item hw

/-- A new list of domestic values is domestic. -/
theorem domestic_newList {h : Heap} {items : Array Value} (hitems : ∀ v ∈ items, h.Domestic v) :
    (h.newList items).2.Domestic (h.newList items).1 := by
  -- before it is there, its reference leads to nothing
  refine shelters_newList hitems _ (domestic_list fun w hw ↦ ?_)
  rw [Heap.items, Array.getElem?_size] at hw
  exact absurd hw (Array.not_mem_empty w)

theorem shelters_modifyList {h : Heap} {r : ListRef} {f : Array Value → Array Value}
    (hf : h.Domestic (.list r) → ∀ w ∈ f (h.items r), h.Domestic w) :
    h.Shelters (h.modifyList r f) := by
  refine shelters_of_items rfl fun r' hr w hw ↦ ?_
  rw [modifyList, Heap.items, Array.getElem?_modify] at hw
  split at hw
  · rename_i hindex
    obtain rfl : r = r' := congrArg ListRef.mk hindex
    rcases hfound : h.lists[r.index]? with - | found
    · rw [hfound] at hw
      exact absurd hw (Array.not_mem_empty w)
    · have hitems : h.items r = found := by rw [Heap.items, hfound]; rfl
      rw [hfound] at hw
      exact hf hr w (hitems ▸ hw)
  · exact hr.item hw

/-- A helper that leads to domestic values only. -/
def Harmless (h : Heap) : Object → Prop
  | .listEnumerator e => h.Domestic (.list e.items)
  | .range _ | .rangeEnumerator _ => True
  | .foreign _ _ => False

/-- What has become of the objects are harmless ones, where they are not as they were. -/
theorem closed_of_objects {h h' : Heap} (hlists : h'.lists = h.lists) {P : Value → Prop}
    (hlist : ∀ r, P (.list r) ↔ h.Domestic (.list r)) (hitem : ∀ v, h.Domestic v → P v)
    (hobject : ∀ r, P (.object r) → ∃ object, h'.object? r = some object ∧ h.Harmless object) :
    h'.Closed P where
  item r hr w hw := by
    rw [Heap.items, hlists] at hw
    exact hitem w (((hlist r).mp hr).item hw)
  enumerated r e hr he := by
    obtain ⟨object, hobject, hharmless⟩ := hobject r hr
    obtain rfl := Option.some.inj (he.symm.trans hobject)
    exact hitem _ hharmless
  isHelper r hr := by
    obtain ⟨object, hobject, hharmless⟩ := hobject r hr
    rw [isHelper, hobject]
    cases object with
    | «foreign» => exact hharmless.elim
    | _ => rfl

theorem Domestic.exists_harmless {h : Heap} {r : ObjectRef} (hr : h.Domestic (.object r)) :
    ∃ object, h.object? r = some object ∧ h.Harmless object := by
  have hhelper := hr.isHelper
  unfold Heap.isHelper at hhelper
  rcases hfound : h.object? r with - | (e | _ | _ | _) <;> rw [hfound] at hhelper
  · cases hhelper
  · exact ⟨_, rfl, hr.enumerated hfound⟩
  · exact ⟨_, rfl, trivial⟩
  · exact ⟨_, rfl, trivial⟩
  · cases hhelper

/-- A new object is domestic if it is harmless. -/
theorem closed_newObject {h : Heap} {object : Object} (hobject : h.Harmless object) :
    (h.newObject object).2.Closed fun v ↦ h.Domestic v ∨ v = (h.newObject object).1 := by
  have hlists : (h.newObject object).2.lists = h.lists := rfl
  refine closed_of_objects hlists (P := fun v ↦ h.Domestic v ∨ v = (h.newObject object).1) (fun r ↦
    or_iff_left fun hr ↦ nomatch hr) (fun _ hv ↦ .inl hv) ?_
  rintro r (hr | hr)
  · obtain ⟨found, hfound, hharmless⟩ := hr.exists_harmless
    obtain ⟨hlt, -⟩ := Array.getElem?_eq_some_iff.mp hfound
    refine ⟨found, ?_, hharmless⟩
    rw [newObject, object?, Array.getElem?_push_lt hlt, ← Array.getElem?_eq_getElem hlt]
    exact hfound
  · obtain rfl := Value.object.inj hr
    exact ⟨object, Array.getElem?_push_size, hobject⟩

theorem shelters_setObject {h : Heap} {r : ObjectRef} {object : Object} (hobject : h.Harmless object) :
    h.Shelters (h.setObject r object) := by
  have hclosed : (h.setObject r object).Closed h.Domestic := by
    have hlists : (h.setObject r object).lists = h.lists := rfl
    refine closed_of_objects hlists (fun _ ↦ Iff.rfl) (fun _ hv ↦ hv) fun r' hr ↦ ?_
    obtain ⟨found, hfound, hharmless⟩ := hr.exists_harmless
    rw [setObject, object?, Array.getElem?_setIfInBounds]
    split
    · rename_i hindex
      rw [if_pos (hindex ▸ (Array.getElem?_eq_some_iff.mp hfound).1)]
      exact ⟨object, rfl, hobject⟩
    · exact ⟨found, hfound, hharmless⟩
  exact fun v hv ↦ domestic_of_closed hclosed hv

/-! ### Elements -/

/-- Elements of domestic lists are domestic. -/
theorem domestic_element {h : Heap} {target index value : Value} (ht : h.Domestic target)
    (hvalue : h.element target index = .ok value) : h.Domestic value := by
  unfold element at hvalue
  split at hvalue
  · rename_i r
    rcases hi : index.position (h.items r).size with fault | i
    · simp only [hi] at hvalue
      cases hvalue
    · simp only [hi] at hvalue
      obtain rfl := Except.ok.inj hvalue
      rcases hitem : (h.items r)[i]? with - | item
      · exact domestic_literal _
      · exact ht.item (Array.mem_of_getElem? hitem)
  · rename_i s
    rcases hi : index.position s.length with fault | i
    · simp only [hi] at hvalue
      cases hvalue
    · simp only [hi] at hvalue
      obtain rfl := Except.ok.inj hvalue
      rcases s.toList[i]? with - | c <;> exact domestic_literal _
  · cases hvalue

theorem domestic_current {h : Heap} {e : ListEnumerator} (he : h.Domestic (.list e.items)) :
    h.Domestic (e.current (h.items e.items)) := by
  rw [ListEnumerator.current]
  rcases hitem : e.index.bind ((h.items e.items)[·]?) with - | item
  · exact domestic_literal _
  · obtain ⟨i, -, hi⟩ := Option.bind_eq_some_iff.mp hitem
    exact he.item (Array.mem_of_getElem? hi)

/-- Fields of domestic values are domestic. -/
theorem domestic_field {h : Heap} {receiver value : Value} {field : String} (hr : h.Domestic receiver)
    (hvalue : Builtin.field? h receiver field = some value) : h.Domestic value := by
  unfold Builtin.field? at hvalue
  split at hvalue
  · obtain rfl := Option.some.inj hvalue
    exact domestic_literal _
  · obtain rfl := Option.some.inj hvalue
    exact domestic_literal _
  · obtain ⟨object, hobject, hvalue⟩ := Option.bind_eq_some_iff.mp hvalue
    unfold Builtin.helperField? at hvalue
    split at hvalue
    · obtain rfl := Option.some.inj hvalue
      exact domestic_current (hr.enumerated hobject)
    · obtain rfl := Option.some.inj hvalue
      unfold RangeEnumerator.current
      split <;> exact domestic_literal _
    · obtain rfl := Option.some.inj hvalue
      exact domestic_literal _
    · obtain rfl := Option.some.inj hvalue
      exact domestic_literal _
    · obtain rfl := Option.some.inj hvalue
      exact domestic_literal _
    · cases hvalue
  · cases hvalue

theorem domestic_getField {h : Heap} {receiver value : Value} {field : String}
    (hr : h.Domestic receiver) (hvalue : Builtin.getField h receiver field = .ok value) :
    h.Domestic value := by
  unfold Builtin.getField at hvalue
  split at hvalue
  · rename_i hfield
    exact Except.ok.inj hvalue ▸ domestic_field hr hfield
  · cases hvalue

end Heap

/-! ### Work on the heap -/

/-- What work on a heap leads to: domestic values are still so, and the values given are. -/
structure Heap.Guards (h : Heap) (gives : α → List Value) (o : Except Fault α × Heap) : Prop where
  shelters : h.Shelters o.2
  gives : ∀ a, o.1 = .ok a → ∀ v ∈ gives a, o.2.Domestic v

/-- Work that goes on with a result that was computed without changing the heap. -/
theorem Heap.Guards.lift_bind {h : Heap} {x : Except Fault β} {f : β → HeapAction α}
    {gives : α → List Value} (hf : ∀ b, x = .ok b → h.Guards gives ((f b).run.run h)) :
    h.Guards gives ((liftM x >>= f).run.run h) := by
  cases x with
  | ok b => exact hf b rfl
  | error fault => exact ⟨refl_of Shelters h, fun _ heq ↦ nomatch heq⟩

namespace HeapAction

open Heap

/-- Work that leads from given domestic values to domestic values, and leaves none behind that is not. -/
def Guarded (held : List Value) (action : HeapAction α) (gives : α → List Value) : Prop :=
  ∀ h : Heap, (∀ v ∈ held, h.Domestic v) → h.Guards gives (action.run.run h)

namespace Guarded

variable {held : List Value} {gives : α → List Value}

theorem pure {a : α} (ha : ∀ h : Heap, (∀ v ∈ held, h.Domestic v) → ∀ v ∈ gives a, h.Domestic v) :
    Guarded held (pure a : HeapAction α) gives :=
  fun h hheld ↦ ⟨refl_of Shelters h, fun _ heq ↦ Except.ok.inj heq ▸ ha h hheld⟩

theorem throw (fault : Fault) : Guarded held (throw fault : HeapAction α) gives :=
  fun h _ ↦ ⟨refl_of Shelters h, fun _ heq ↦ nomatch heq⟩

theorem literal (l : Literal) : Guarded held (return .literal l : HeapAction Value) ([·]) :=
  .pure fun _ _ ↦ List.forall_mem_singleton.mpr (domestic_literal l)

/-- Work that begins by looking at the heap. -/
theorem get_bind {f : Heap → HeapAction α}
    (hf : ∀ h : Heap, (∀ v ∈ held, h.Domestic v) → h.Guards gives ((f h).run.run h)) :
    Guarded held (get >>= f) gives :=
  hf

/-- A change behind which a literal is given. -/
theorem modify {f : Heap → Heap} (l : Literal)
    (hf : ∀ h : Heap, (∀ v ∈ held, h.Domestic v) → h.Shelters (f h)) :
    Guarded held (do modify f; return .literal l : HeapAction Value) ([·]) := by
  refine fun h hheld ↦ ⟨hf h hheld, fun _ heq ↦ ?_⟩
  obtain rfl := Except.ok.inj heq
  exact List.forall_mem_singleton.mpr (domestic_literal l)

theorem create {object : Object}
    (hobject : ∀ h : Heap, (∀ v ∈ held, h.Domestic v) → h.Harmless object) :
    Guarded held (Builtin.create object) ([·]) := by
  refine fun h hheld ↦ ⟨fun v hv ↦ ?_, fun _ heq ↦ ?_⟩
  · exact domestic_of_closed (closed_newObject (hobject h hheld)) (.inl hv)
  · obtain rfl := Except.ok.inj heq
    exact List.forall_mem_singleton.mpr
      (domestic_of_closed (closed_newObject (hobject h hheld)) (.inr rfl))

theorem newList (items : Array Value) :
    Guarded items.toList (modifyGet (·.newList items) : HeapAction Value) ([·]) := by
  intro h hheld
  have hitems : ∀ v ∈ items, h.Domestic v := fun v hv ↦ hheld v (Array.mem_toList_iff.mpr hv)
  refine ⟨shelters_newList hitems, fun _ heq ↦ ?_⟩
  obtain rfl := Except.ok.inj heq
  exact List.forall_mem_singleton.mpr (domestic_newList hitems)

/-- An element that is stored is one of the values given. -/
theorem setElement (target index value : Value) :
    Guarded [target, index, value] (setElement target index value) fun _ ↦ [] := by
  unfold Heap.setElement
  split
  · rename_i r
    refine .get_bind fun h hheld ↦ .lift_bind fun i _ ↦ ⟨?_, fun _ _ _ hv ↦ nomatch hv⟩
    refine shelters_modifyList fun hr w hw ↦ ?_
    rcases Array.mem_or_eq_of_mem_setIfInBounds hw with hw | rfl
    · exact hr.item hw
    · exact hheld w (by simp)
  · exact .throw _

/-- The element that is removed was in the list. -/
theorem removeAt (list : ListRef) (index : Int32) (args : List Value) :
    Guarded (.list list :: args) (Builtin.ListMethod.remove list index) ([·]) := by
  refine .get_bind fun h hheld ↦ ?_
  have hlist : h.Domestic (.list list) := hheld _ (.head _)
  dsimp only
  split
  · have hshelters : h.Shelters (h.modifyList list (·.eraseIdxIfInBounds index.toInt.toNat)) := by
      refine shelters_modifyList fun _ w hw ↦ hlist.item ?_
      rw [← Array.mem_toList_iff, Array.toList_eraseIdxIfInBounds] at hw
      exact Array.mem_toList_iff.mp (List.mem_of_mem_eraseIdx hw)
    refine ⟨hshelters, fun _ heq ↦ ?_⟩
    obtain rfl := Except.ok.inj heq
    refine List.forall_mem_singleton.mpr (hshelters _ ?_)
    rcases hitem : (h.items list)[index.toInt.toNat]? with - | item
    · exact domestic_literal _
    · exact hlist.item (Array.mem_of_getElem? hitem)
  · exact Guarded.throw _ h hheld

/-- Methods of lists store values that they were given, and give elements. -/
theorem callList (list : ListRef) (method : Builtin.ListMethod) (args : List Value) :
    Guarded (.list list :: args) (method.call list args) ([·]) := by
  unfold Builtin.ListMethod.call
  split
  · exact .create fun h hheld ↦ hheld _ (.head _)
  · refine .modify _ fun h hheld ↦ shelters_modifyList fun hr w hw ↦ ?_
    rcases Array.mem_push.mp hw with hw | rfl
    · exact hr.item hw
    · exact hheld w (by simp)
  · exact .get_bind fun h hheld ↦ Guarded.literal _ h hheld
  · exact .removeAt _ _ _
  · exact .modify _ fun h _ ↦ shelters_modifyList fun _ w hw ↦ absurd hw (Array.not_mem_empty w)
  · exact .throw _

/-- Members that a value does not have. -/
theorem refuse (receiver : Value) (member : String) :
    Guarded held (Builtin.refuse receiver member) ([·]) :=
  .get_bind fun h hheld ↦ Guarded.throw _ h hheld

/-- Helpers change nothing but their own state. -/
theorem callHelper (r : ObjectRef) (method : String) (args : List Value) :
    Guarded (.object r :: args) (Builtin.callHelper r method args) ([·]) := by
  unfold Builtin.callHelper
  dsimp only
  split
  · refine .get_bind fun h hheld ↦ ?_
    have hr : h.Domestic (.object r) := hheld _ (.head _)
    split
    · rename_i e hobject
      -- the enumerator goes on over the same list
      have hlist : h.Domestic (.list e.items) := hr.enumerated hobject
      have hharmless : h.Harmless (.listEnumerator (e.moveNext (h.items e.items).size).2) := hlist
      refine ⟨shelters_setObject hharmless, fun _ heq ↦ ?_⟩
      obtain rfl := Except.ok.inj heq
      exact List.forall_mem_singleton.mpr (domestic_literal _)
    · rename_i e hobject
      have hharmless : h.Harmless (.rangeEnumerator e.moveNext.2) := trivial
      refine ⟨shelters_setObject hharmless, fun _ heq ↦ ?_⟩
      obtain rfl := Except.ok.inj heq
      exact List.forall_mem_singleton.mpr (domestic_literal _)
    · rename_i range _
      have hharmless (h : Heap) : h.Harmless (.rangeEnumerator (.start range)) := trivial
      exact Guarded.create (fun h _ ↦ hharmless h) h hheld
    · exact Guarded.throw _ h hheld
  · exact fun h hheld ↦ ⟨refl_of Shelters h, fun _ heq ↦ nomatch heq⟩

theorem callText (text : String) (method : Builtin.TextMethod) (args : List Value) :
    Guarded held (liftM (method.call text args) : HeapAction Value) ([·]) := by
  unfold Builtin.TextMethod.call
  split
  · exact .literal _
  · exact .literal _
  · exact .literal _
  · exact .throw _

/-- Built-in methods do not lead from domestic values to others. -/
theorem call (receiver : Value) (method : String) (args : List Value) :
    Guarded (receiver :: args) (Builtin.call receiver method args) ([·]) := by
  unfold Builtin.call
  split
  · split
    · exact .callList _ _ _
    · exact .refuse _ _
  · split
    · exact .callText _ _ _
    · exact .refuse _ _
  · exact .callHelper _ _ _
  · exact .refuse _ _

end Guarded

end HeapAction

end StackScript
