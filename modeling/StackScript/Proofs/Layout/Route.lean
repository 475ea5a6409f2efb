/-!
# Rows of items laid out one behind the other

Code is a row of items with a *place* before and after each of them. What a place is depends on the
question: an address with the shape of the stack there, or a pair of addresses in two programs. A
`Rule` says when an item may stand between two places, given the places that it may jump to.

* `Route` is a row of items with the places before them.
* `Laid` is a row whose jumps lead to its own places, or out of it to places allowed as exits.
* `Sealed` is a row that is never left, neither by a jump nor at its end.

The rows of a tree are put together from those of its parts (`Laid.append`). An exit of a part that is
a place of the whole is no exit of the whole (`Laid.close`).
-/

namespace StackScript

variable {ι Q : Type}

/-- When an item may stand between two places. The more places are known, the more items may. -/
structure Rule (ι Q : Type) where
  Fits : ι → Q → Q → (Q → Prop) → Prop
  mono : ∀ {x q q' known known'}, Fits x q q' known → (∀ p, known p → known' p) → Fits x q q' known'

/-- A row of items from one place to another, with the places before the items. -/
inductive Route (R : Rule ι Q) (known : Q → Prop) : Q → List ι → Q → List Q → Prop
  | nil (q : Q) : Route R known q [] q []
  | cons {x : ι} {items : List ι} {q q' q'' : Q} {places : List Q} (fits : R.Fits x q q' known)
      (rest : Route R known q' items q'' places) : Route R known q (x :: items) q'' (q :: places)

namespace Route

variable {R : Rule ι Q} {known known' : Q → Prop} {q q' q'' : Q} {items items' : List ι}
  {places places' : List Q}

theorem mono (h : Route R known q items q' places) (hk : ∀ p, known p → known' p) :
    Route R known' q items q' places := by
  induction h with
  | nil q => exact .nil q
  | cons fits _ ih => exact .cons (R.mono fits hk) ih

theorem append (h : Route R known q items q' places) (h' : Route R known q' items' q'' places') :
    Route R known q (items ++ items') q'' (places ++ places') := by
  induction h with
  | nil q => exact h'
  | cons fits _ ih => exact .cons fits (ih h')

/-- The first place is one of the places, unless the row is empty and it is the last, too. -/
theorem start_mem (h : Route R known q items q' places) : q ∈ places ∨ q = q' := by
  cases h with
  | nil q => exact .inr rfl
  | cons _ _ => exact .inl (.head _)

theorem length_eq (h : Route R known q items q' places) : places.length = items.length := by
  induction h with
  | nil q => rfl
  | cons _ _ ih => exact congrArg (· + 1) ih

/-- The item behind a place fits there. -/
theorem exists_fits (h : Route R known q items q' places) {k : Nat} {p : Q}
    (hp : places[k]? = some p) : ∃ x p', items[k]? = some x ∧ R.Fits x p p' known := by
  induction h generalizing k with
  | nil q => cases hp
  | cons fits _ ih =>
    cases k with
    | zero =>
      cases hp
      exact ⟨_, _, rfl, fits⟩
    | succ k => exact ih hp

end Route

/-- A row of items whose jumps lead to its own places or to the exits. The sites are places that are
worth remembering. -/
def Laid (R : Rule ι Q) (exits : Q → Prop) (q : Q) (items : List ι) (q' : Q) (sites : List Q) :
    Prop :=
  ∃ places, Route R (fun p ↦ p ∈ places ∨ p = q' ∨ exits p) q items q' places ∧
    ∀ p ∈ sites, p ∈ places ∨ p = q'

/-- No place is an exit. -/
abbrev noExit : Q → Prop := fun _ ↦ False

/-- A row of items whose jumps lead to its own places, and that is not left at its end. -/
def Sealed (R : Rule ι Q) (q : Q) (items : List ι) (q' : Q) (sites : List Q) : Prop :=
  ∃ places, Route R (· ∈ places) q items q' places ∧ ∀ p ∈ sites, p ∈ places

namespace Laid

variable {R : Rule ι Q} {exits exits' : Q → Prop} {q q' q'' : Q} {items items' : List ι}
  {sites sites' : List Q}

theorem nil (q : Q) : Laid R exits q [] q [] :=
  ⟨[], .nil q, fun _ h ↦ nomatch h⟩

theorem single {x : ι} (h : R.Fits x q q' fun p ↦ p = q ∨ p = q' ∨ exits p) :
    Laid R exits q [x] q' [] := by
  refine ⟨[q], .cons (R.mono h fun p hp ↦ ?_) (.nil q'), fun _ h ↦ nomatch h⟩
  rwa [List.mem_singleton]

theorem append (h : Laid R exits q items q' sites) (h' : Laid R exits q' items' q'' sites') :
    Laid R exits q (items ++ items') q'' (sites ++ sites') := by
  obtain ⟨places, hr, hs⟩ := h
  obtain ⟨places', hr', hs'⟩ := h'
  -- The place between the two rows is the first place of the second one.
  have hmiddle : q' ∈ places ++ places' ∨ q' = q'' := by
    rcases hr'.start_mem with hm | hm
    · exact .inl (List.mem_append_right _ hm)
    · exact .inr hm
  refine ⟨places ++ places', (hr.mono fun p hp ↦ ?_).append (hr'.mono fun p hp ↦ ?_),
    fun p hp ↦ ?_⟩
  · rcases hp with hp | rfl | hp
    · exact .inl (List.mem_append_left _ hp)
    · exact hmiddle.imp_right .inl
    · exact .inr (.inr hp)
  · exact hp.imp_left (List.mem_append_right _)
  · rcases List.mem_append.mp hp with hp | hp
    · rcases hs p hp with hp | rfl
      · exact .inl (List.mem_append_left _ hp)
      · exact hmiddle
    · exact (hs' p hp).imp_left (List.mem_append_right _)

theorem cons {x : ι} (h : R.Fits x q q' fun p ↦ p = q ∨ p = q' ∨ exits p)
    (h' : Laid R exits q' items q'' sites) : Laid R exits q (x :: items) q'' sites :=
  (single h).append h'

/-- Exits are given up that are the first or the last place of the row. -/
theorem close (h : Laid R exits q items q' sites) (he : ∀ p, exits p → p = q ∨ p = q' ∨ exits' p) :
    Laid R exits' q items q' sites := by
  obtain ⟨places, hr, hs⟩ := h
  refine ⟨places, hr.mono fun p hp ↦ ?_, hs⟩
  rcases hp with hp | hp | hp
  · exact .inl hp
  · exact .inr (.inl hp)
  · rcases he p hp with rfl | hp | hp
    · exact hr.start_mem.imp_right .inl
    · exact .inr (.inl hp)
    · exact .inr (.inr hp)

theorem mono (h : Laid R exits q items q' sites) (he : ∀ p, exits p → exits' p) :
    Laid R exits' q items q' sites :=
  h.close fun p hp ↦ .inr (.inr (he p hp))

/-- The first place is worth remembering. -/
theorem site (h : Laid R exits q items q' sites) : Laid R exits q items q' (q :: sites) := by
  obtain ⟨places, hr, hs⟩ := h
  refine ⟨places, hr, fun p hp ↦ ?_⟩
  cases hp with
  | head => exact hr.start_mem
  | tail _ hp => exact hs p hp

section Constructs

variable {q₀ q₁ q₂ q₃ q₄ q₅ : Q} {test body rest : List ι} {jump back : ι}

/-- A jump over a row. -/
theorem branch (ht : Laid R noExit q₀ test q₁ [])
    (hj : R.Fits jump q₁ q₂ fun p ↦ p = q₂ ∨ p = q₃) (hb : Laid R exits q₂ body q₃ sites) :
    Laid R exits q₀ (test ++ jump :: body) q₃ sites := by
  have hcode : Laid R (fun p ↦ p = q₃ ∨ exits p) q₀ (test ++ jump :: body) q₃ sites := by
    refine (ht.mono fun _ ↦ False.elim).append (.cons (R.mono hj fun p hp ↦ ?_) (hb.mono fun _ ↦ .inr))
    exact hp.elim (fun h ↦ .inr (.inl h)) fun h ↦ .inr (.inr (.inl h))
  exact hcode.close fun p hp ↦ .inr hp

/-- A jump over a row to another one, and a jump from the end of the first over the second. -/
theorem alternative (ht : Laid R noExit q₀ test q₁ [])
    (hj : R.Fits jump q₁ q₂ fun p ↦ p = q₂ ∨ p = q₄) (hb : Laid R exits q₂ body q₃ sites)
    (hk : R.Fits back q₃ q₄ fun p ↦ p = q₄ ∨ p = q₅) (hr : Laid R exits q₄ rest q₅ sites') :
    Laid R exits q₀ (test ++ jump :: (body ++ back :: rest)) q₅ (sites ++ sites') := by
  -- The end of the whole is an exit of the part before the second row.
  have hbody : Laid R (fun p ↦ p = q₅ ∨ exits p) q₂ (body ++ [back]) q₄ sites := by
    have hback : Laid R (fun p ↦ p = q₅ ∨ exits p) q₃ [back] q₄ [] :=
      single (R.mono hk fun p hp ↦ .inr (hp.imp_right .inl))
    simpa using (hb.mono fun _ ↦ .inr).append hback
  have hcode := (branch ht hj hbody).append (hr.mono fun _ ↦ .inr)
  have heq : test ++ jump :: (body ++ [back]) ++ rest = test ++ jump :: (body ++ back :: rest) := by
    simp
  rw [heq] at hcode
  exact hcode.close fun p hp ↦ .inr hp

/-- A jump over a row that ends in a jump back to the beginning. Jumps out of the row lead to the
beginning, or to the end. -/
theorem loop (ht : Laid R noExit q₀ test q₁ [])
    (hj : R.Fits jump q₁ q₂ fun p ↦ p = q₂ ∨ p = q₄)
    (hb : Laid R (fun p ↦ p = q₀ ∨ p = q₄) q₂ body q₃ sites)
    (hk : R.Fits back q₃ q₄ fun p ↦ p = q₄ ∨ p = q₀) :
    Laid R exits q₀ (test ++ jump :: (body ++ [back])) q₄ sites := by
  have hback : Laid R (fun p ↦ p = q₀ ∨ p = q₄) q₃ [back] q₄ [] :=
    single (R.mono hk fun p hp ↦ .inr (hp.imp_right .inl))
  have hbody : Laid R (fun p ↦ p = q₀ ∨ p = q₄) q₂ (body ++ [back]) q₄ sites := by
    simpa using hb.append hback
  exact (branch ht hj hbody).close fun p hp ↦ hp.imp_right .inl

end Constructs

/-- A row without exits is sealed by items behind it that do not go on. -/
theorem sealed {x : ι} (h : Laid R noExit q items q' sites)
    (h' : Sealed R q' (x :: items') q'' sites') :
    Sealed R q (items ++ x :: items') q'' (sites ++ sites') := by
  obtain ⟨places, hr, hs⟩ := h
  obtain ⟨places', hr', hs'⟩ := h'
  have hmiddle : q' ∈ places' := by
    cases hr' with
    | cons _ _ => exact .head _
  have hmem (p : Q) (hp : p ∈ places ∨ p = q' ∨ False) : p ∈ places ++ places' := by
    rcases hp with hp | rfl | hp
    · exact List.mem_append_left _ hp
    · exact List.mem_append_right _ hmiddle
    · exact hp.elim
  refine ⟨places ++ places',
    (hr.mono hmem).append (hr'.mono fun p hp ↦ List.mem_append_right _ hp), fun p hp ↦ ?_⟩
  rcases List.mem_append.mp hp with hp | hp
  · exact hmem p ((hs p hp).imp_right .inl)
  · exact List.mem_append_right _ (hs' p hp)

end Laid

namespace Sealed

variable {R : Rule ι Q} {q q' q'' : Q} {items items' : List ι} {sites sites' : List Q}

theorem nil (q : Q) : Sealed R q [] q [] :=
  ⟨[], .nil q, fun _ h ↦ nomatch h⟩

theorem append (h : Sealed R q items q' sites) (h' : Sealed R q' items' q'' sites') :
    Sealed R q (items ++ items') q'' (sites ++ sites') := by
  obtain ⟨places, hr, hs⟩ := h
  obtain ⟨places', hr', hs'⟩ := h'
  refine ⟨places ++ places', (hr.mono fun p hp ↦ List.mem_append_left _ hp).append
    (hr'.mono fun p hp ↦ List.mem_append_right _ hp), fun p hp ↦ ?_⟩
  rcases List.mem_append.mp hp with hp | hp
  · exact List.mem_append_left _ (hs p hp)
  · exact List.mem_append_right _ (hs' p hp)

/-- The sites may be told in any order. -/
theorem of_sites (h : Sealed R q items q' sites) (hs : ∀ p ∈ sites', p ∈ sites) :
    Sealed R q items q' sites' := by
  obtain ⟨places, hr, hp⟩ := h
  exact ⟨places, hr, fun p hp' ↦ hp p (hs p hp')⟩

end Sealed

end StackScript
