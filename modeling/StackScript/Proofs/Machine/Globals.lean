import Mathlib.Logic.Relation
import StackScript.Proofs.Machine.Effect
import StackScript.Proofs.Machine.Growth
import StackScript.Proofs.Machine.Outcome

/-!
# Globals in the course of time

Globals are only ever given values: that is all an instruction can do to them, whether it succeeds or
fails (`Engine.Made.later`), and so is all that a run does (`Engine.later_call`). Globals that have come
from others in this way have the names of those first and in their order, and a value under each name that
had one (`Globals.Later`).
-/

namespace StackScript

/-! ### Tables -/

namespace Table

variable {α : Type} {t : Table α} {name : String} {entry : α}

/-- A name that is new to a table comes last. -/
theorem names_insert (t : Table α) (name : String) (entry : α) :
    (t.insert name entry).names = if name ∈ t.names then t.names else t.names ++ [name] := by
  induction t with
  | nil => rfl
  | cons first rest ih =>
    obtain ⟨key, old⟩ := first
    simp only [insert, names, alter, List.map_cons, List.mem_cons] at ih ⊢
    by_cases hkey : key = name
    · simp [hkey]
    · have hne : name ≠ key := fun h ↦ hkey h.symm
      simp only [hkey, hne, ↓reduceIte, List.map_cons, ih, false_or, List.cons_append]
      by_cases hname : name ∈ rest.map (·.1) <;> simp only [hname, ↓reduceIte]

theorem lookup_alter (t : Table α) (name key : String) (f : Option α → α) :
    (t.alter name f).lookup key = if key = name then some (f (t.lookup name)) else t.lookup key := by
  induction t with
  | nil =>
    rw [alter, List.lookup_cons]
    by_cases hkey : key = name
    · simp [hkey]
    · rw [beq_eq_false_iff_ne.mpr hkey, if_neg hkey]
  | cons first rest ih =>
    obtain ⟨own, old⟩ := first
    rw [alter, List.lookup_cons]
    by_cases hown : own = name
    · subst hown
      by_cases hkey : key = own
      · simp [hkey]
      · simp only [List.lookup_cons, beq_eq_false_iff_ne.mpr hkey, hkey, ↓reduceIte]
    · rw [if_neg hown, List.lookup_cons, List.lookup_cons, beq_eq_false_iff_ne.mpr (Ne.symm hown)]
      by_cases hkey : key = own
      · simp [hkey, hown]
      · rw [beq_eq_false_iff_ne.mpr hkey]
        exact ih

theorem lookup_insert (t : Table α) (name key : String) (entry : α) :
    (t.insert name entry).lookup key = if key = name then some entry else t.lookup key :=
  t.lookup_alter name key _

theorem mem_names_of_lookup (h : t.lookup name = some entry) : name ∈ t.names := by
  obtain ⟨before, after, rfl, -⟩ := List.lookup_eq_some_iff.mp h
  simp [names]

end Table

/-! ### Globals -/

namespace Globals

variable {g g' g'' : Globals} {name : String}

@[simp]
theorem names_declared (names : List String) : (declared names).names = names := by
  simp [declared, Globals.names, Table.names, Function.comp_def]

theorem names_set (g : Globals) (name : String) (value : Value) :
    (g.set name value).names = if name ∈ g.names then g.names else g.names ++ [name] :=
  g.entries.names_insert name _

theorem get?_set_self (g : Globals) (name : String) (value : Value) :
    (g.set name value).get? name = some value := by
  rw [get?, set, Table.lookup_insert, if_pos rfl]
  rfl

theorem get?_set_of_ne (g : Globals) {other : String} (value : Value) (h : other ≠ name) :
    (g.set name value).get? other = g.get? other := by
  rw [get?, set, Table.lookup_insert, if_neg h]
  rfl

/-- What has a value has a name. -/
theorem mem_names_of_isSome (h : (g.get? name).isSome) : name ∈ g.names := by
  obtain ⟨value, hvalue⟩ := Option.isSome_iff_exists.mp h
  exact Table.mem_names_of_lookup (Option.join_eq_some_iff.mp hvalue)

/-- Globals that have come from others as values were given to them. -/
def Later : Globals → Globals → Prop :=
  Relation.ReflTransGen fun g g' ↦ ∃ name value, g' = g.set name value

namespace Later

theorem refl (g : Globals) : g.Later g :=
  Relation.ReflTransGen.refl

theorem trans (h : g.Later g') (h' : g'.Later g'') : g.Later g'' :=
  Relation.ReflTransGen.trans h h'

theorem set (g : Globals) (name : String) (value : Value) : g.Later (g.set name value) :=
  Relation.ReflTransGen.single ⟨name, value, rfl⟩

/-- Names are only appended. -/
theorem names_prefix (h : g.Later g') : g.names <+: g'.names := by
  induction h with
  | refl => exact List.prefix_refl _
  | @tail g₁ _ _ h ih =>
    obtain ⟨name, value, rfl⟩ := h
    refine ih.trans ?_
    rw [names_set]
    split
    · exact List.prefix_refl _
    · exact List.prefix_append _ _

theorem nodup (h : g.Later g') (hg : g.names.Nodup) : g'.names.Nodup := by
  induction h with
  | refl => exact hg
  | tail _ h ih =>
    obtain ⟨name, value, rfl⟩ := h
    rw [names_set]
    split
    · exact ih
    · rename_i hnew
      have hapart : ∀ own ∈ _, own ≠ name := fun own hown heq ↦ hnew (heq ▸ hown)
      simpa [List.nodup_append, ih] using hapart

/-- What has a value keeps having one. -/
theorem isSome (h : g.Later g') (hg : (g.get? name).isSome) : (g'.get? name).isSome := by
  induction h with
  | refl => exact hg
  | @tail g₁ _ _ h ih =>
    obtain ⟨other, value, rfl⟩ := h
    by_cases hname : name = other
    · rw [hname, get?_set_self]
      rfl
    · rwa [get?_set_of_ne _ _ hname]

/-- A name that has come up since has a value. -/
theorem mem_or_isSome (h : g.Later g') (hname : name ∈ g'.names) :
    name ∈ g.names ∨ (g'.get? name).isSome := by
  induction h with
  | refl => exact .inl hname
  | @tail g₁ _ _ h ih =>
    obtain ⟨other, value, rfl⟩ := h
    by_cases hother : name = other
    · rw [hother, get?_set_self]
      exact .inr rfl
    · rw [get?_set_of_ne _ _ hother]
      refine ih ?_
      rw [names_set] at hname
      split at hname
      · exact hname
      · simpa [hother] using hname

end Later

end Globals

/-! ### Runs -/

variable {σ α : Type}

/-- The globals have only been given values. -/
def Machine.Later (m m' : Machine σ) : Prop :=
  m.store.globals.Later m'.store.globals

instance : IsPreorder (Machine σ) Machine.Later where
  refl m := .refl m.store.globals
  trans _ _ _ h h' := Globals.Later.trans h h'

namespace Engine

open Step

variable {e : Engine σ}

/-- Only one of the pieces of instructions has to do with the globals. -/
theorem MemoryPiece.later {x : Step σ α} (h : e.MemoryPiece x) : Respects Machine.Later x := by
  have hkeeps {α : Type} {x : Step σ α} (hx : Respects (Unchanged fun m ↦ m.store.globals) x) :
      Respects (Machine.Later (σ := σ)) x := by
    intro m
    rw [Machine.Later, show (x.run.run m).2.store.globals = _ from hx m]
    exact .refl _
  cases h with
  | globals | heap => exact .bind .get fun _ ↦ .pure _
  | setGlobal name value => exact .modify fun m ↦ .set m.store.globals name value
  | newList | setElement | build | callBuiltin | ask => exact hkeeps fun _ ↦ rfl
  | resolve? name =>
    refine hkeeps (.bind .get fun m ↦ ?_)
    split
    · exact .pure _
    · refine .bind (fun _ ↦ rfl) fun found ↦ ?_
      split
      · exact .pure _
      · exact .bind (.modify fun _ ↦ rfl) fun _ ↦ .pure _

theorem Made.later {x : Step σ α} (h : e.Made x) : Respects Machine.Later x := by
  induction h with
  | pure a => exact .pure a
  | bind _ _ hx hf => exact hx.bind hf
  | @stack _ x h =>
    intro m
    rw [Machine.Later, show (x.run.run m).2.store = _ from h.stackwise.store_eq m]
    exact .refl _
  | memory h => exact h.later

theorem later_step (i : Instruction) (address : Nat) : Respects Machine.Later (e.step i address) :=
  (e.made_step i address).later

variable {p q : Progress σ} {o : Outcome σ} {m : Machine σ} {fuel k : Nat}

/-- What an attempt to carry out an instruction leaves behind. -/
theorem later_attempt (i : Instruction) (address done : Nat) :
    Respects Machine.Later (e.attempt i address done) := by
  by_cases hl : ∃ n, e.limits.steps = some n ∧ n ≤ done
  · obtain ⟨n, hs, hn⟩ := hl
    intro m
    rw [show (e.attempt i address done).run.run m = _ from on_attempt_of_le hs hn m]
    exact refl_of Machine.Later m
  · intro m
    rw [show (e.attempt i address done).run.run m = _ from
      on_attempt (fun n hs ↦ Nat.lt_of_not_le fun hn ↦ hl ⟨n, hs, hn⟩) m]
    exact e.later_step i address m

theorem later_advance (e : Engine σ) (p : Progress σ) :
    (∀ q, e.advance p = .inr q → p.machine.Later q.machine) ∧
      ∀ o, e.advance p = .inl o → p.machine.Later o.2 := by
  rcases hi : e.program.code[p.address]? with _ | i
  · rw [e.advance_outside hi]
    refine ⟨nofun, fun o ho ↦ ?_⟩
    cases ho
    exact refl_of Machine.Later p.machine
  · have hlater : p.machine.Later ((e.attempt i p.address p.done).on p.machine).2 :=
      later_attempt i p.address p.done p.machine
    rw [e.advance_eq hi]
    constructor <;> intro next hnext <;> split at hnext <;> rename_i hx <;> rw [hx] at hlater <;>
      cases hnext <;> exact hlater

theorem later_finish (h : e.finish fuel p = some o) : p.machine.Later o.2 := by
  induction fuel generalizing p with
  | zero => cases h
  | succ fuel ih =>
    rw [finish] at h
    rcases hp : e.advance p with o' | q <;> rw [hp] at h
    · cases h
      exact (e.later_advance p).2 o hp
    · exact trans_of Machine.Later ((e.later_advance p).1 q hp) (ih h)

/-- A call does no more to the globals than to give them values, however it ends. -/
theorem later_call {name : String} {args : List Value} (h : e.call fuel m name args = some o) :
    m.Later o.2 := by
  rcases hp : e.start m name args with r | p
  · rw [e.call_eq_of_error fuel hp] at h
    cases h
    exact refl_of Machine.Later m
  · rw [e.call_eq fuel hp] at h
    obtain ⟨o', ho, rfl⟩ := Option.map_eq_some_iff.mp h
    obtain ⟨f, -, rfl⟩ := exists_function_of_start hp
    exact later_finish ho

end Engine

end StackScript
