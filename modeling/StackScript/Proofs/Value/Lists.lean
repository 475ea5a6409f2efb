import Mathlib.Data.List.Perm.Subperm
import Mathlib.Data.List.ProdSigma
import StackScript.Value.Heap

/-!
# The lists of a heap

There are finitely many lists in a heap, and only they have elements. So whatever follows references and
never enters a list twice comes to an end (`Heap.length_le_of_nodup`), and so does whatever never enters a
pair of lists twice (`Heap.length_le_of_nodup_pairs`).
-/

namespace StackScript.Heap

/-- A reference to a list that is in the heap. -/
def IsList (h : Heap) (r : ListRef) : Prop :=
  r.index < h.lists.size

/-- The lists of a heap, in the order in which they were made. -/
def allLists (h : Heap) : List ListRef :=
  (List.range h.lists.size).map ListRef.mk

variable {h : Heap}

@[simp] theorem mem_allLists {r : ListRef} : r ∈ h.allLists ↔ h.IsList r := by
  simp only [allLists, List.mem_map, List.mem_range]
  exact ⟨fun ⟨i, hi, hr⟩ ↦ hr ▸ hi, fun hr ↦ ⟨r.index, hr, rfl⟩⟩

@[simp] theorem length_allLists (h : Heap) : h.allLists.length = h.lists.size := by
  simp [allLists]

/-- What has elements is a list of the heap. -/
theorem isList_of_mem {r : ListRef} {v : Value} (hv : v ∈ h.items r) : h.IsList r := by
  by_contra hr
  simp [items, Array.getElem?_eq_none (Nat.le_of_not_lt hr)] at hv

theorem length_le_of_nodup {opened : List ListRef} (hnodup : opened.Nodup)
    (hlists : ∀ r ∈ opened, h.IsList r) : opened.length ≤ h.lists.size := by
  have hsub : opened ⊆ h.allLists := fun r hr ↦ mem_allLists.mpr (hlists r hr)
  simpa using (List.subperm_of_subset hnodup hsub).length_le

theorem length_le_of_nodup_pairs {assumed : List (ListRef × ListRef)} (hnodup : assumed.Nodup)
    (hlists : ∀ p ∈ assumed, h.IsList p.1 ∧ h.IsList p.2) :
    assumed.length ≤ h.lists.size * h.lists.size := by
  have hsub : assumed ⊆ h.allLists ×ˢ h.allLists := fun p hp ↦
    List.mem_product.mpr (by simpa using hlists p hp)
  simpa [List.length_product] using (List.subperm_of_subset hnodup hsub).length_le

end StackScript.Heap
