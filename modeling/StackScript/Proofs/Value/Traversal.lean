import StackScript.Proofs.Value.Enumeration

/-!
# Going through a list

An enumerator of a list goes through the elements one by one, from the first one on. Elements may be added
and stored meanwhile: as long as nothing is removed, and up to the first move that finds the end, the `k`-th
move succeeds exactly if there are `k` elements by then, and the element at `k - 1` is the current one until
the next move (`Walk.visits_in_order`). So the elements that were added are visited as well, and at the end
there have been as many moves that succeeded as there are elements.

What carries this is that the index is the number of moves less one, and that the list has never become
shorter than it was at the last move (`Walk.Walking`).
-/

namespace StackScript

namespace Walk

variable {h : Heap} {list : ListRef} {walker : ObjectRef} {act : Act} {acts : List Act} {e : Event}
  {evs before : List Event} {k : Nat}

/-! ### Moves -/

/-- The number of moves in a history. -/
def moves (evs : List Event) : Nat :=
  evs.countP (·.act = .moveNext)

@[simp]
theorem moves_nil : moves [] = 0 :=
  rfl

theorem moves_append (before evs : List Event) : moves (before ++ evs) = moves before + moves evs :=
  List.countP_append

theorem moves_cons_of_move (evs : List Event) (hmove : e.act = .moveNext) :
    moves (e :: evs) = moves evs + 1 :=
  List.countP_cons_of_pos (decide_eq_true hmove)

theorem moves_cons_of_ne (evs : List Event) (hmove : e.act ≠ .moveNext) : moves (e :: evs) = moves evs :=
  List.countP_cons_of_neg (by simpa using hmove)

theorem moves_eq_zero (hmoves : ∀ e ∈ evs, e.act ≠ .moveNext) : moves evs = 0 :=
  List.countP_eq_zero.mpr fun e he ↦ by simpa using hmoves e he

/-! ### Lists that nothing is removed from -/

/-- Acts that remove nothing from the list. -/
def Act.Keeps : Act → Prop
  | removeAt _ | clear => False
  | moveNext | current | add _ | store _ _ => True

instance : DecidablePred Act.Keeps
  | .removeAt _ | .clear => .isFalse id
  | .moveNext | .current | .add _ | .store _ _ => .isTrue trivial

/-- The list is at least as long as before. -/
def NoShorter (list : ListRef) (h h' : Heap) : Prop :=
  (h.items list).size ≤ (h'.items list).size

instance (list : ListRef) : IsPreorder Heap (NoShorter list) where
  refl _ := Nat.le_refl _
  trans _ _ _ := Nat.le_trans

theorem noShorter_modifyList (list : ListRef) {f : Array Value → Array Value}
    (hf : ∀ items, items.size ≤ (f items).size) :
    Respects (NoShorter list) (modify (·.modifyList list f) : HeapAction PUnit) := by
  refine .modify fun h ↦ ?_
  simp only [NoShorter, Heap.items, Heap.modifyList, Array.getElem?_modify, ↓reduceIte]
  rcases h.lists[list.index]? with _ | items
  · exact Nat.le_refl _
  · exact hf items

/-- Acts other than moves that remove nothing. -/
theorem noShorter_perform (hkeeps : act.Keeps) (hmove : act ≠ .moveNext) :
    Respects (NoShorter list) (act.perform list walker) := by
  cases act with
  | moveNext => exact absurd rfl hmove
  | removeAt | clear => exact hkeeps.elim
  | current => exact .get_bind fun s ↦ Respects.lift _ s
  | add value =>
    have hpush : Respects (NoShorter list)
        (modify (·.modifyList list (·.push value)) : HeapAction PUnit) :=
      noShorter_modifyList list fun items ↦ by simp
    exact hpush.bind fun _ ↦ .pure _
  | store index value =>
    have hset : Respects (NoShorter list) (Heap.setElement (.list list) index value) :=
      .bind .get fun h ↦ .bind (.lift _) fun i ↦ noShorter_modifyList list fun items ↦ by simp
    exact hset.bind fun _ ↦ .pure _

/-- Where nothing is removed, the list never becomes shorter. -/
theorem growing_events {index : Option Nat} (hw : h.object? walker = some (.listEnumerator ⟨list, index⟩))
    (hkeeps : ∀ act ∈ acts, act.Keeps) :
    (∀ e ∈ events list walker h acts, (h.items list).size ≤ e.items.size) ∧
      (events list walker h acts).Pairwise (·.items.size ≤ ·.items.size) := by
  induction acts generalizing h index with
  | nil => exact ⟨by simp [events], .nil⟩
  | cons act acts ih =>
    rw [List.forall_mem_cons] at hkeeps
    rw [events_cons]
    obtain ⟨⟨index', hw'⟩, hle⟩ : (∃ index',
        ((act.perform list walker).run.run h).2.object? walker =
          some (.listEnumerator ⟨list, index'⟩)) ∧
        NoShorter list h ((act.perform list walker).run.run h).2 := by
      by_cases hmove : act = .moveNext
      · subst hmove
        rw [run_moveNext hw]
        exact ⟨⟨_, object?_setObject hw⟩, Nat.le_refl _⟩
      · exact ⟨⟨index, (object?_perform list hmove h).trans hw⟩,
          noShorter_perform hkeeps.1 hmove h⟩
    obtain ⟨hlonger, hrest⟩ := ih hw' hkeeps.2
    have hlonger' : ∀ e ∈ events list walker ((act.perform list walker).run.run h).2 acts,
        (h.items list).size ≤ e.items.size := fun e he ↦ Nat.le_trans hle (hlonger e he)
    exact ⟨List.forall_mem_cons.mpr ⟨Nat.le_refl _, hlonger'⟩, .cons hlonger' hrest⟩

/-! ### Walking a list without coming to the end -/

/-- The index of an enumerator that has not come to the end in `k` moves. -/
def indexAfter : Nat → Option Nat
  | 0 => none
  | k + 1 => some k

theorem next_indexAfter (k : Nat) : next (indexAfter k) = k := by
  cases k <;> rfl

/-- The rest of a history in which the first `k` moves have not come to the end and nothing is removed. -/
structure Walking (k : Nat) (evs : List Event) : Prop where
  walked : Walked (indexAfter k) evs
  longEnough : ∀ e ∈ evs, k ≤ e.items.size
  growing : evs.Pairwise (·.items.size ≤ ·.items.size)

namespace Walking

/-- A move succeeds if there is an element behind those that have been visited. -/
theorem answer (hwalking : Walking k (e :: evs)) (hmove : e.act = .moveNext) :
    e.answer = .ok (.bool (k + 1 ≤ e.items.size)) := by
  have hwalked := hwalking.walked
  cases hwalked with
  | moveNext =>
    rw [next_indexAfter]
    rfl
  | current => cases hmove
  | change hne => exact absurd hmove hne

/-- Only moves make a difference, and they count as long as they do not come to the end. -/
theorem tail (hwalking : Walking k (e :: evs)) (hend : ¬ e.Ends) : Walking (k + moves [e]) evs := by
  obtain ⟨hwalked, hlong, hgrowing⟩ := hwalking
  rw [List.forall_mem_cons] at hlong
  rw [List.pairwise_cons] at hgrowing
  cases hwalked with
  | @moveNext _ items _ hrest =>
    rw [next_indexAfter] at hend hrest
    have hlt : k < items.size := Nat.lt_of_not_le fun hle ↦
      hend ⟨rfl, by rw [decide_eq_false (Nat.not_lt.mpr hle)]⟩
    rw [Nat.min_eq_left (Nat.le_of_lt hlt)] at hrest
    exact ⟨hrest, fun f hf ↦ Nat.le_trans hlt (hgrowing.1 f hf), hgrowing.2⟩
  | current hrest => exact ⟨hrest, hlong.2, hgrowing.2⟩
  | change hne _ hrest =>
    rw [moves_cons_of_ne [] hne]
    exact ⟨hrest, hlong.2, hgrowing.2⟩

theorem of_append (hwalking : Walking k (before ++ evs)) (hend : ∀ e ∈ before, ¬ e.Ends) :
    Walking (k + moves before) evs := by
  induction before generalizing k with
  | nil => exact hwalking
  | cons e before ih =>
    rw [List.forall_mem_cons] at hend
    have hmoves : moves (e :: before) = moves [e] + moves before := moves_append [e] before
    rw [hmoves, ← Nat.add_assoc]
    exact ih (hwalking.tail hend.1) hend.2

/-- What is current after a move is the element at the index, and it is there. -/
theorem current (hwalking : Walking (k + 1) (e :: evs)) (hlook : e.act = .current) :
    ∃ v, e.items[k]? = some v ∧ e.answer = .ok v := by
  have hlt : k < e.items.size := hwalking.longEnough e List.mem_cons_self
  have hnone : ∀ f ∈ ([] : List Event), f.act ≠ .moveNext := fun _ hf ↦ absurd hf List.not_mem_nil
  have hwalked : Walked (some k) ([] ++ e :: evs) := hwalking.walked
  have hanswer := (hwalked.answersAt hnone).2 hlook
  rw [Array.getElem?_eq_getElem hlt] at hanswer ⊢
  exact ⟨_, rfl, hanswer⟩

end Walking

/-- A history that goes through a list in order, up to the first move that finds the end. -/
structure InOrder (evs : List Event) : Prop where
  /-- The `k`-th move succeeds exactly if the list has `k` elements. -/
  move : ∀ before e after, evs = before ++ e :: after → (∀ f ∈ before, ¬ f.Ends) →
    e.act = .moveNext → e.answer = .ok (.bool (moves before + 1 ≤ e.items.size))
  /-- When the `k`-th move has succeeded, the element at `k - 1` is the current one until the next move. -/
  current : ∀ before e middle f after, evs = before ++ e :: (middle ++ f :: after) →
    (∀ g ∈ before, ¬ g.Ends) → e.act = .moveNext → e.answer = .ok (.bool true) →
    (∀ g ∈ middle, g.act ≠ .moveNext) → f.act = .current →
    ∃ v, f.items[moves before]? = some v ∧ f.answer = .ok v
  /-- At the end every element has been visited. -/
  complete : ∀ before e after, evs = before ++ e :: after → (∀ f ∈ before, ¬ f.Ends) → e.Ends →
    moves before = e.items.size

theorem Walking.inOrder (hwalking : Walking 0 evs) : InOrder evs where
  move before e after hevs hend hmove := by
    subst hevs
    have hhere := hwalking.of_append hend
    rw [Nat.zero_add] at hhere
    exact hhere.answer hmove
  current before e middle f after hevs hend hmove hanswer hmiddle hlook := by
    subst hevs
    have hhere := hwalking.of_append hend
    rw [Nat.zero_add] at hhere
    have hgoes : ¬ e.Ends := fun he ↦ Bool.noConfusion (answer_bool_inj (hanswer.symm.trans he.2))
    have hbehind := hhere.tail hgoes
    rw [moves_cons_of_move [] hmove, moves_nil, Nat.zero_add] at hbehind
    have hstays : ∀ g ∈ middle, ¬ g.Ends := fun g hg he ↦ hmiddle g hg he.1
    have hlater := hbehind.of_append hstays
    rw [moves_eq_zero hmiddle, Nat.add_zero] at hlater
    exact hlater.current hlook
  complete before e after hevs hend hends := by
    subst hevs
    have hhere := hwalking.of_append hend
    rw [Nat.zero_add] at hhere
    have hlong := hhere.longEnough e List.mem_cons_self
    have hshort : ¬ moves before + 1 ≤ e.items.size :=
      of_decide_eq_false (answer_bool_inj ((hhere.answer hends.1).symm.trans hends.2))
    omega

theorem run_getEnumerator (h : Heap) (list : ListRef) :
    (Builtin.call (.list list) "GetEnumerator" []).run.run h =
      (.ok (.object ⟨h.objects.size⟩),
        ⟨h.lists, h.objects.push (.listEnumerator (.start list))⟩) := by
  have hmethod : Builtin.ListMethod.ofName? "GetEnumerator" = some .getEnumerator := by decide
  rw [Builtin.call, hmethod]
  rfl

/-- A new enumerator of any list goes through its elements in order, each of them once and those added
meanwhile as well, whatever is stored into the list, as long as nothing is removed from it. -/
theorem visits_in_order (h : Heap) (list : ListRef) :
    ∃ walker h', (Builtin.call (.list list) "GetEnumerator" []).run.run h = (.ok (.object walker), h') ∧
      h'.items list = h.items list ∧
      ∀ acts : List Act, (∀ act ∈ acts, act.Keeps) → InOrder (events list walker h' acts) := by
  let h' : Heap := ⟨h.lists, h.objects.push (.listEnumerator (.start list))⟩
  have hw : h'.object? ⟨h.objects.size⟩ = some (.listEnumerator ⟨list, none⟩) :=
    Array.getElem?_push_size
  refine ⟨⟨h.objects.size⟩, h', run_getEnumerator h list, rfl, fun acts hkeeps ↦ ?_⟩
  have hwalking : Walking 0 (events list ⟨h.objects.size⟩ h' acts) :=
    ⟨walked_events hw acts, fun _ _ ↦ Nat.zero_le _, (growing_events hw hkeeps).2⟩
  exact hwalking.inOrder

/-- A list of one element, to which another one is added behind the enumerator's back. -/
theorem visits_in_order_adding :
    let h : Heap := ⟨#[#[.int 1]], #[]⟩
    let acts : List Act := [.moveNext, .add (.int 2), .store (.int 0) (.int 5), .current, .moveNext,
      .current, .moveNext]
    ∃ walker h', (Builtin.call (.list ⟨0⟩) "GetEnumerator" []).run.run h = (.ok (.object walker), h') ∧
      (∀ act ∈ acts, act.Keeps) ∧ InOrder (events ⟨0⟩ walker h' acts) ∧
      (events ⟨0⟩ walker h' acts).map (·.answer) = [.ok (.bool true), .ok .null, .ok .null, .ok (.int 5),
        .ok (.bool true), .ok (.int 2), .ok (.bool false)] := by
  intro h acts
  have hkeeps : ∀ act ∈ acts, act.Keeps := by decide
  obtain ⟨walker, h', hget, -, horder⟩ := visits_in_order h ⟨0⟩
  obtain ⟨hwalker, rfl⟩ := Prod.mk.inj hget
  obtain rfl : ⟨0⟩ = walker := Value.object.inj (Except.ok.inj hwalker)
  exact ⟨⟨0⟩, _, hget, hkeeps, horder acts hkeeps, rfl⟩

end Walk

end StackScript
