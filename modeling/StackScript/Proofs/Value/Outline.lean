import Mathlib.Logic.Relation
import StackScript.Proofs.Value.Lists
import StackScript.Value.Display

/-!
# The text of a list cuts cycles, and nothing else

Lists are shared and can change, so a list may hold itself, directly or through others. The text of a list
ends all the same: it is the text of a finite tree, its *outline*, in which an occurrence of a list is cut
if that very list is one of those around it, and is written out otherwise (`Heap.display_outlined`).

Occurrences are told apart by their *paths*, the positions that lead to them from the outermost list.
`Heap.follow` goes along a path and finds the value there and the lists around it, and the outline is
compared with that, path by path. `Heap.Depicts` is how the text is built, without any bound on its depth:
the lists around a value are the ones opened on the way to it, and those only.

A list that is shared but does not lead back to the lists around it is written out as if it stood alone
(`Heap.Depicts.weaken`). Something is cut if and only if a list that is part of the outermost one leads back
to itself (`Heap.exists_cut_iff`).
-/

namespace StackScript

/-! ### Outlines -/

/-- The shape of the text of a value: a text that holds no others, a cut, or a list with its elements. -/
inductive Outline where
  | atom (text : String)
  | cut
  | list (items : List Outline)

namespace Outline

mutual

/-- The text of an outline. The elements of a list stand in brackets, with commas between them. -/
def text : Outline → String
  | atom s => s
  | cut => "[...]"
  | list items => "[" ++ String.intercalate ", " (texts items) ++ "]"

/-- The texts of a row of outlines. -/
def texts : List Outline → List String
  | [] => []
  | o :: os => o.text :: texts os

end

theorem texts_eq_map (os : List Outline) : texts os = os.map text := by
  induction os with
  | nil => rfl
  | cons o os ih => rw [texts, ih, List.map_cons]

/-- What stands at a path in an outline. -/
def at? : Outline → List Nat → Option Outline
  | o, [] => some o
  | list items, i :: path => items[i]?.bind (·.at? path)
  | _, _ :: _ => none

end Outline

namespace Heap

variable {h : Heap} {opened enclosing : List ListRef} {r s : ListRef} {v w : Value} {o o' : Outline}
  {path : List Nat}

/-! ### Occurrences -/

/-- The text of a value that is not a list, where it stands in a list: a text is put between quotes, and
everything else is displayed as it is alone. -/
def itemText (h : Heap) : Value → String
  | .string s => "\"" ++ s ++ "\""
  | v => h.display v

/-- The value that a path leads to from another one, and the lists around it, the innermost first. -/
def follow (h : Heap) : List ListRef → Value → List Nat → Option (List ListRef × Value)
  | opened, v, [] => some (opened, v)
  | opened, .list r, i :: path => (h.items r)[i]?.bind fun v ↦ h.follow (r :: opened) v path
  | _, _, _ :: _ => none

/-- How an occurrence of a value with the lists around it is shown. -/
inductive Shows (h : Heap) (enclosing : List ListRef) : Value → Outline → Prop
  | atom {v : Value} (hv : ∀ r, v ≠ .list r) : Shows h enclosing v (.atom (h.itemText v))
  | cut {r : ListRef} (hr : r ∈ enclosing) : Shows h enclosing (.list r) .cut
  | list {r : ListRef} (hr : r ∉ enclosing) {items : List Outline}
      (hlength : items.length = (h.items r).size) : Shows h enclosing (.list r) (.list items)

/-- A list holds another one, or itself. -/
def Holds (h : Heap) (r s : ListRef) : Prop :=
  .list s ∈ h.items r

/-- The outlines of values, where `opened` are the lists around them. Inside a list, that list is opened
besides those around it. -/
inductive Depicts (h : Heap) : List ListRef → Value → Outline → Prop
  | atom {opened : List ListRef} {v : Value} (hv : ∀ r, v ≠ .list r) :
      Depicts h opened v (.atom (h.itemText v))
  | cut {opened : List ListRef} {r : ListRef} (hr : r ∈ opened) : Depicts h opened (.list r) .cut
  | list {opened : List ListRef} {r : ListRef} (hr : r ∉ opened) {items : List Outline}
      (hlength : items.length = (h.items r).size)
      (hitems : ∀ (i : Nat) v o, (h.items r)[i]? = some v → items[i]? = some o →
        Depicts h (r :: opened) v o) : Depicts h opened (.list r) (.list items)

theorem Depicts.shows (hd : h.Depicts opened v o) : h.Shows opened v o := by
  cases hd with
  | atom hv => exact .atom hv
  | cut hr => exact .cut hr
  | list hr hlength _ => exact .list hr hlength

/-- A value has one outline only. -/
theorem Depicts.unique (hd : h.Depicts opened v o) (hd' : h.Depicts opened v o') : o = o' := by
  induction hd generalizing o' with
  | atom hv =>
    cases hd' with
    | atom => rfl
    | cut => exact absurd rfl (hv _)
    | list => exact absurd rfl (hv _)
  | cut hr =>
    cases hd' with
    | atom hv => exact absurd rfl (hv _)
    | cut => rfl
    | list hr' => exact absurd hr hr'
  | @list opened r hr items hlength _ ih =>
    cases hd' with
    | atom hv => exact absurd rfl (hv _)
    | cut hr' => exact absurd hr' hr
    | @list _ _ _ items' hlength' hitems' =>
      congr 1
      refine List.ext_getElem (hlength.trans hlength'.symm) fun i hi hi' ↦ ?_
      have hv : (h.items r)[i]? = some (h.items r)[i] := Array.getElem?_eq_getElem (hlength ▸ hi)
      exact ih i _ _ hv (List.getElem?_eq_getElem hi)
        (hitems' i _ _ hv (List.getElem?_eq_getElem hi'))

/-! ### The outline that is displayed -/

/-- The outline of a value, with a bound on its depth as when it is displayed. -/
def outline (h : Heap) : (depth : Nat) → (opened : List ListRef) → Value → Outline
  | depth + 1, opened, .list r =>
    if r ∈ opened then .cut else .list ((h.items r).toList.map (h.outline depth (r :: opened)))
  | 0, _, .list _ => .cut
  | _, _, v => .atom (h.itemText v)

theorem outline_atom (hv : ∀ r, v ≠ .list r) (depth : Nat) :
    h.outline depth opened v = .atom (h.itemText v) := by
  cases v with
  | literal l => cases depth <;> rfl
  | list r => exact absurd rfl (hv r)
  | object r => cases depth <;> rfl

theorem displayItem_atom (hv : ∀ r, v ≠ .list r) (depth : Nat) :
    h.displayItem depth opened v = h.itemText v := by
  cases v with
  | literal l => cases l <;> simp [displayItem, itemText, display]
  | list r => exact absurd rfl (hv r)
  | object r => simp [displayItem, itemText, display]

/-- What is displayed is the text of the outline. -/
theorem displayItem_eq (depth : Nat) :
    h.displayItem depth opened v = (h.outline depth opened v).text := by
  induction depth generalizing opened v with
  | zero =>
    cases v with
    | list r => rfl
    | _ => rw [outline_atom (by simp), displayItem_atom (by simp), Outline.text]
  | succ depth ih =>
    cases v with
    | list r =>
      rw [displayItem, outline]
      split
      · rfl
      · rw [Outline.text, Outline.texts_eq_map, List.map_map]
        congr 4
        funext v
        exact ih
    | _ => rw [outline_atom (by simp), displayItem_atom (by simp), Outline.text]

/-- Lists that can be opened at a time, and the depth that is left then: none is opened twice, all are
lists of the heap, and depth is left for all others, and one more. -/
structure Spacious (h : Heap) (depth : Nat) (opened : List ListRef) : Prop where
  nodup : opened.Nodup
  lists : ∀ r ∈ opened, h.IsList r
  deep : h.lists.size + 1 ≤ depth + opened.length

theorem Spacious.start : h.Spacious (h.lists.size + 1) [] where
  nodup := .nil
  lists := by simp
  deep := by simp

theorem Spacious.ne_zero {depth : Nat} (hs : h.Spacious depth opened) : depth ≠ 0 := by
  have hle := length_le_of_nodup hs.nodup hs.lists
  have := hs.deep
  omega

/-- Opening a list takes from the depth what it adds to the lists opened. Only lists of the heap have
elements for which that matters. -/
theorem Spacious.item {depth : Nat} (hs : h.Spacious (depth + 1) opened) (hr : r ∉ opened)
    (hv : v ∈ h.items r) : h.Spacious depth (r :: opened) where
  nodup := List.nodup_cons.mpr ⟨hr, hs.nodup⟩
  lists := List.forall_mem_cons.mpr ⟨isList_of_mem hv, hs.lists⟩
  deep := by
    have := hs.deep
    simp only [List.length_cons]
    omega

/-- With sufficient depth, the outline is the one without any bound. -/
theorem Spacious.depicts {depth : Nat} (hs : h.Spacious depth opened) (v : Value) :
    h.Depicts opened v (h.outline depth opened v) := by
  induction depth generalizing opened v with
  | zero => exact absurd rfl hs.ne_zero
  | succ depth ih =>
    cases v with
    | list r =>
      rw [outline]
      split
      case isTrue hr => exact .cut hr
      case isFalse hr =>
        refine .list hr (by simp) fun i v o hv ho ↦ ?_
        obtain rfl : h.outline depth (r :: opened) v = o := by
          simpa [hv] using ho
        exact ih (hs.item hr (Array.mem_of_getElem? hv)) v
    | _ =>
      rw [outline_atom (by simp)]
      exact .atom (by simp)

/-- The outline of a list that stands alone. -/
theorem exists_depicts (h : Heap) (r : ListRef) :
    ∃ t, h.Depicts [] (.list r) t ∧ h.display (.list r) = t.text :=
  ⟨_, Spacious.start.depicts (.list r), displayItem_eq _⟩

/-! ### Paths -/

theorem follow_append (q : List Nat) :
    h.follow opened v (path ++ q) = (h.follow opened v path).bind fun p ↦ h.follow p.1 p.2 q := by
  induction path generalizing opened v with
  | nil => rfl
  | cons i path ih =>
    cases v with
    | list r =>
      rw [List.cons_append, follow, follow]
      cases (h.items r)[i]? with
      | none => rfl
      | some w => exact ih
    | _ => rfl

/-- The lists opened before a path are around everything that it leads to. -/
theorem suffix_of_follow (hf : h.follow opened v path = some (enclosing, w)) : opened <:+ enclosing := by
  induction path generalizing opened v with
  | nil =>
    cases hf
    exact List.suffix_rfl
  | cons i path ih =>
    cases v with
    | list r =>
      obtain ⟨v, -, hrest⟩ := Option.bind_eq_some_iff.mp hf
      exact (List.suffix_cons r opened).trans (ih hrest)
    | _ => cases hf

/-- What a path leads to without passing through a cut stands at that path in the outline. -/
theorem Depicts.exists_at? (hd : h.Depicts opened v o)
    (hf : h.follow opened v path = some (enclosing, w)) (hnodup : enclosing.Nodup) :
    ∃ o', o.at? path = some o' ∧ h.Depicts enclosing w o' := by
  induction path generalizing opened v o with
  | nil =>
    cases hf
    exact ⟨o, by cases o <;> rfl, hd⟩
  | cons i path ih =>
    cases v with
    | list r =>
      obtain ⟨v, hv, hrest⟩ := Option.bind_eq_some_iff.mp hf
      have hr : r ∉ opened :=
        (List.nodup_cons.mp (hnodup.sublist (suffix_of_follow hrest).sublist)).1
      cases hd with
      | atom hlist => exact absurd rfl (hlist r)
      | cut hr' => exact absurd hr' hr
      | @list _ _ _ items hlength hitems =>
        have hi : i < items.length := hlength ▸ (Array.getElem?_eq_some_iff.mp hv).1
        have ho := List.getElem?_eq_getElem hi
        obtain ⟨o', hat, hd'⟩ := ih (hitems i v _ hv ho) hrest
        exact ⟨o', by rw [Outline.at?, ho, Option.bind_some, hat], hd'⟩
    | _ => cases hf

/-- What stands at a path in an outline is what the path leads to without passing through a cut. -/
theorem Depicts.follow_at? (hd : h.Depicts opened v o) (hnodup : opened.Nodup)
    (hat : o.at? path = some o') :
    ∃ enclosing w, h.follow opened v path = some (enclosing, w) ∧ enclosing.Nodup ∧
      h.Depicts enclosing w o' := by
  induction path generalizing opened v o with
  | nil =>
    obtain rfl : o = o' := by cases o <;> exact Option.some.inj hat
    exact ⟨opened, v, rfl, hnodup, hd⟩
  | cons i path ih =>
    cases hd with
    | atom => cases hat
    | cut => cases hat
    | @list _ r hr items hlength hitems =>
      obtain ⟨o₁, ho, hat⟩ := Option.bind_eq_some_iff.mp hat
      have hi : i < (h.items r).size := hlength ▸ (List.getElem?_eq_some_iff.mp ho).1
      have hv := Array.getElem?_eq_getElem hi
      obtain ⟨enclosing, w, hf, hnodup', hd'⟩ :=
        ih (hitems i _ _ hv ho) (List.nodup_cons.mpr ⟨hr, hnodup⟩) hat
      exact ⟨enclosing, w, by rw [follow, hv, Option.bind_some, hf], hnodup', hd'⟩

/-! ### Sharing and cycles -/

open Relation (ReflTransGen TransGen)

/-- Lists that a value does not lead to make no difference to its outline. -/
theorem Depicts.weaken (hd : h.Depicts opened v o) {others : List ListRef}
    (hothers : ∀ r, v = .list r → ∀ s ∈ others, ¬ ReflTransGen h.Holds r s) :
    h.Depicts (opened ++ others) v o := by
  induction hd with
  | atom hv => exact .atom hv
  | cut hr => exact .cut (List.mem_append_left _ hr)
  | @list opened r hr items hlength _ ih =>
    have hr' : r ∉ opened ++ others := by
      rw [List.mem_append]
      rintro (hmem | hmem)
      · exact hr hmem
      · exact hothers r rfl r hmem .refl
    refine .list hr' hlength fun i v o hv ho ↦ ih i v o hv ho ?_
    rintro r' rfl s hs hrs
    exact hothers r rfl s hs (.head (Array.mem_of_getElem? hv) hrs)

/-- What is on a path from a list to a list is held by the one, and holds the other. -/
theorem transGen_of_follow (hf : h.follow opened v path = some (enclosing, .list s)) :
    ∃ r, v = .list r ∧ ReflTransGen h.Holds r s ∧
      ∀ e ∈ enclosing, e ∈ opened ∨ ReflTransGen h.Holds r e ∧ TransGen h.Holds e s := by
  induction path generalizing opened v with
  | nil =>
    cases hf
    exact ⟨s, rfl, .refl, fun e he ↦ .inl he⟩
  | cons i path ih =>
    cases v with
    | list r =>
      obtain ⟨v, hv, hrest⟩ := Option.bind_eq_some_iff.mp hf
      obtain ⟨r', rfl, hs, henclosing⟩ := ih hrest
      have hr : h.Holds r r' := Array.mem_of_getElem? hv
      refine ⟨r, rfl, .head hr hs, fun e he ↦ ?_⟩
      obtain hmem | ⟨hre, hes⟩ := henclosing e he
      · obtain rfl | hmem := List.mem_cons.mp hmem
        · exact .inr ⟨.refl, .head' hr hs⟩
        · exact .inl hmem
      · exact .inr ⟨.head hr hre, hes⟩
    | _ => cases hf

/-- There is a path to every list that is held. -/
theorem exists_follow_of_reflTransGen (hrs : ReflTransGen h.Holds r s) (opened : List ListRef) :
    ∃ path enclosing, h.follow opened (.list r) path = some (enclosing, .list s) := by
  induction hrs using ReflTransGen.head_induction_on generalizing opened with
  | refl => exact ⟨[], opened, rfl⟩
  | @head r r' hr _ ih =>
    obtain ⟨i, hi⟩ := Array.getElem?_of_mem hr
    obtain ⟨path, enclosing, hf⟩ := ih (r :: opened)
    exact ⟨i :: path, enclosing, by rw [follow, hi, Option.bind_some, hf]⟩

/-- A path that enters a list twice passes through a cut, at the first list that it enters again. -/
theorem nodup_or_exists_cut (hnodup : opened.Nodup)
    (hf : h.follow opened v path = some (enclosing, w)) :
    enclosing.Nodup ∨ ∃ path' enclosing' s, h.follow opened v path' = some (enclosing', .list s) ∧
      enclosing'.Nodup ∧ s ∈ enclosing' := by
  induction path generalizing opened v with
  | nil =>
    cases hf
    exact .inl hnodup
  | cons i path ih =>
    cases v with
    | list r =>
      obtain ⟨v, hv, hrest⟩ := Option.bind_eq_some_iff.mp hf
      by_cases hr : r ∈ opened
      · exact .inr ⟨[], opened, r, rfl, hnodup, hr⟩
      obtain hleft | ⟨path', enclosing', s, hf', hright⟩ := ih (List.nodup_cons.mpr ⟨hr, hnodup⟩) hrest
      · exact .inl hleft
      · exact .inr ⟨i :: path', enclosing', s, by rw [follow, hv, Option.bind_some, hf'], hright⟩
    | _ => cases hf

/-- Something is cut in a list if and only if a list that is part of it leads back to itself. -/
theorem exists_cut_iff {t : Outline} (hd : h.Depicts [] (.list r) t) :
    (∃ path, t.at? path = some .cut) ↔ ∃ s, ReflTransGen h.Holds r s ∧ TransGen h.Holds s s := by
  constructor
  · rintro ⟨path, hat⟩
    obtain ⟨enclosing, w, hf, -, hcut⟩ := hd.follow_at? List.nodup_nil hat
    cases hcut with
    | @cut _ s hs =>
      obtain ⟨r', hr, hrs, henclosing⟩ := transGen_of_follow hf
      obtain rfl := Value.list.inj hr
      obtain hmem | ⟨-, hss⟩ := henclosing s hs
      · cases hmem
      · exact ⟨s, hrs, hss⟩
  · rintro ⟨s, hrs, hss⟩
    obtain ⟨path, enclosing, hf⟩ := exists_follow_of_reflTransGen hrs []
    obtain ⟨s', hs', hback⟩ := TransGen.head'_iff.mp hss
    obtain ⟨i, hi⟩ := Array.getElem?_of_mem hs'
    obtain ⟨path', enclosing', hf'⟩ := exists_follow_of_reflTransGen hback (s :: enclosing)
    have hloop : h.follow [] (.list r) (path ++ i :: path') = some (enclosing', .list s) := by
      rw [follow_append, hf, Option.bind_some, follow, hi, Option.bind_some, hf']
    have hs : s ∈ enclosing' := (suffix_of_follow hf').subset List.mem_cons_self
    have hcut : ∃ path enclosing s, h.follow [] (.list r) path = some (enclosing, .list s) ∧
        enclosing.Nodup ∧ s ∈ enclosing := by
      obtain hnodup | hcut := nodup_or_exists_cut List.nodup_nil hloop
      · exact ⟨_, _, _, hloop, hnodup, hs⟩
      · exact hcut
    obtain ⟨path, enclosing, s, hf, hnodup, hs⟩ := hcut
    obtain ⟨o, hat, ho⟩ := hd.exists_at? hf hnodup
    obtain rfl := ho.unique (.cut hs)
    exact ⟨path, hat⟩

/-- A list in a list, none of the lists around it part of it, is written out as if it stood alone. -/
theorem text_shared {t : Outline} (hd : h.Depicts [] (.list r) t)
    (hf : h.follow [] (.list r) path = some (enclosing, .list s))
    (hshared : ∀ e ∈ enclosing, ¬ ReflTransGen h.Holds s e) (hat : t.at? path = some o) :
    o.text = h.display (.list s) := by
  obtain ⟨enclosing', w, hf', -, ho⟩ := hd.follow_at? List.nodup_nil hat
  obtain ⟨rfl, rfl⟩ := Prod.mk.inj (Option.some.inj (hf.symm.trans hf'))
  obtain ⟨t', ht', htext⟩ := exists_depicts h s
  have halone : h.Depicts enclosing (.list s) t' := ht'.weaken fun r hr e he ↦ by
    obtain rfl := Value.list.inj hr
    exact hshared e he
  rw [htext, ho.unique halone]

/-- The text of a list, whatever the lists of the heap hold. It is the text of an outline, the only one that
writing the list out without any bound on its depth can give. In the outline stands whatever a path leads to
without passing through a cut, and nothing else: a list that is one of those around it is cut, any other is
shown with all its elements, and what is no list is shown as it is, texts in quotes. A list that is merely
shared has the text everywhere that it has alone; and something is cut if and only if there is a cycle. -/
theorem display_outlined (h : Heap) (r : ListRef) :
    ∃ t : Outline, h.display (.list r) = t.text ∧
      (∀ o, h.Depicts [] (.list r) o ↔ o = t) ∧
      (∀ path enclosing v, h.follow [] (.list r) path = some (enclosing, v) → enclosing.Nodup →
        ∃ o, t.at? path = some o ∧ h.Shows enclosing v o) ∧
      (∀ path o, t.at? path = some o → ∃ enclosing v,
        h.follow [] (.list r) path = some (enclosing, v) ∧ enclosing.Nodup ∧ h.Shows enclosing v o) ∧
      (∀ path enclosing s o, h.follow [] (.list r) path = some (enclosing, .list s) →
        (∀ e ∈ enclosing, ¬ ReflTransGen h.Holds s e) → t.at? path = some o →
          o.text = h.display (.list s)) ∧
      ((∃ path, t.at? path = some .cut) ↔ ∃ s, ReflTransGen h.Holds r s ∧ TransGen h.Holds s s) := by
  obtain ⟨t, ht, htext⟩ := exists_depicts h r
  refine ⟨t, htext, fun o ↦ ⟨fun ho ↦ ho.unique ht, fun ho ↦ ho ▸ ht⟩, ?shown, ?only, ?shared,
    exists_cut_iff ht⟩
  case shown =>
    intro path enclosing v hf hnodup
    obtain ⟨o, hat, ho⟩ := ht.exists_at? hf hnodup
    exact ⟨o, hat, ho.shows⟩
  case only =>
    intro path o hat
    obtain ⟨enclosing, v, hf, hnodup, ho⟩ := ht.follow_at? List.nodup_nil hat
    exact ⟨enclosing, v, hf, hnodup, ho.shows⟩
  case shared =>
    exact fun path enclosing s o hf hshared hat ↦ text_shared ht hf hshared hat

-- A list that holds another one twice, and itself: only the last is cut.
example : display ⟨#[#[.list ⟨1⟩, .list ⟨1⟩, .list ⟨0⟩], #[.string "a"]], #[]⟩ (.list ⟨0⟩) =
    "[[\"a\"], [\"a\"], [...]]" := by
  decide

end Heap

end StackScript
