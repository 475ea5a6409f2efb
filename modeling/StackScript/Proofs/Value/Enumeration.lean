import StackScript.Builtin
import StackScript.Proofs.Machine.Effect
import StackScript.Value.Element

/-!
# Walking a list that changes

An enumerator walks a list that is shared: elements may be added, removed and stored between any two of its
moves. `Walk.events` is a history of such *acts*, with the elements that the list had at the time and the
answer that was given.

The enumerator has nothing but an index, and what it answers depends on nothing but that index and the
elements at the time (`Walk.Walked`, `Walk.walked_events`). At the end of the list the index is set to the
length that the list has then. So the end is not final (`Walk.answers_after_end`): if the list has grown by
one element since, that element is the current one without any move, and the next move passes over it; if it
has grown by more, the next move succeeds. An enumerator stays at the end only as long as the list is never
longer than it was at the last move.

An enumerator of a range remembers that it has come to the end, and stays there whatever happens
(`Walk.staysExhausted_range`).
-/

namespace StackScript.Walk

/-! ### Histories -/

/-- What can be done with an enumerator, and with the list that it walks. -/
inductive Act where
  | moveNext
  | current
  | add (value : Value)
  | removeAt (index : Value)
  | clear
  | store (index value : Value)
  deriving DecidableEq

/-- Carries out an act on a list, or on the object that walks it. -/
def Act.perform (list : ListRef) (walker : ObjectRef) : Act → HeapAction Value
  | moveNext => Builtin.call (.object walker) "MoveNext" []
  | current => do liftM (Builtin.getField (← get) (.object walker) "Current")
  | add value => Builtin.call (.list list) "Add" [value]
  | removeAt index => Builtin.call (.list list) "RemoveAt" [index]
  | clear => Builtin.call (.list list) "Clear" []
  | store index value => do
    Heap.setElement (.list list) index value
    return .null

/-- An act, the elements that the list had before it, and the answer. -/
structure Event where
  act : Act
  items : Array Value
  answer : Except Fault Value

/-- The history of a row of acts. -/
def events (list : ListRef) (walker : ObjectRef) : Heap → List Act → List Event
  | _, [] => []
  | h, act :: acts =>
    let (answer, h') := (act.perform list walker).run.run h
    ⟨act, h.items list, answer⟩ :: events list walker h' acts

/-- A move that finds the end. -/
def Event.Ends (e : Event) : Prop :=
  e.act = .moveNext ∧ e.answer = .ok (.bool false)

/-- An event as it should be at the end: no move succeeds, and nothing is current. -/
def Event.Exhausted (e : Event) : Prop :=
  (e.act = .moveNext → e.answer = .ok (.bool false)) ∧ (e.act = .current → e.answer = .ok .null)

theorem answer_bool_inj {b c : Bool} (heq : (.ok (.bool b) : Except Fault Value) = .ok (.bool c)) :
    b = c := by
  simpa using heq

/-- Histories in which the end, once it has been found, is final. -/
def StaysExhausted (evs : List Event) : Prop :=
  ∀ before e after, evs = before ++ e :: after → e.Ends → ∀ f ∈ after, f.Exhausted

variable {h h' : Heap} {list : ListRef} {walker : ObjectRef} {act : Act} {acts : List Act}

theorem events_cons :
    events list walker h (act :: acts) =
      ⟨act, h.items list, ((act.perform list walker).run.run h).1⟩ ::
        events list walker ((act.perform list walker).run.run h).2 acts :=
  rfl

/-! ### What acts do to the walker -/

theorem respects_modifyList (list : ListRef) (f : Array Value → Array Value) :
    Respects (Unchanged Heap.objects) (modify (·.modifyList list f) : HeapAction PUnit) :=
  .modify fun _ ↦ rfl

theorem respects_remove (list : ListRef) (index : Int32) :
    Respects (Unchanged Heap.objects) (Builtin.ListMethod.remove list index) := by
  refine .bind .get fun h ↦ ?_
  dsimp only
  split
  · exact (respects_modifyList _ _).bind fun _ ↦ .pure _
  · exact .throw _

/-- Acts other than moves leave all objects as they are. -/
theorem respects_perform (hact : act ≠ .moveNext) :
    Respects (Unchanged Heap.objects) (act.perform list walker) := by
  cases act with
  | moveNext => exact absurd rfl hact
  | current => exact .get_bind fun s ↦ Respects.lift _ s
  | add value => exact (respects_modifyList _ _).bind fun _ ↦ .pure _
  | removeAt index =>
    rcases index with (_ | _ | index | _ | _) | _ | _
    case int => exact respects_remove list index
    -- what is no integer is refused
    all_goals exact .throw _
  | clear => exact (respects_modifyList _ _).bind fun _ ↦ .pure _
  | store index value =>
    have hset : Respects (Unchanged Heap.objects) (Heap.setElement (.list list) index value) :=
      .bind .get fun h ↦ .bind (.lift _) fun _ ↦ respects_modifyList _ _
    exact hset.bind fun _ ↦ .pure _

theorem object?_perform (list : ListRef) (hact : act ≠ .moveNext) (h : Heap) :
    ((act.perform list walker).run.run h).2.object? walker = h.object? walker := by
  rw [Heap.object?, (respects_perform hact h : _ = _), Heap.object?]

theorem object?_setObject {object object' : Object} (hw : h.object? walker = some object) :
    (h.setObject walker object').object? walker = some object' := by
  obtain ⟨hlt, -⟩ := Array.getElem?_eq_some_iff.mp hw
  rw [Heap.object?, Heap.setObject, Array.getElem?_setIfInBounds_self_of_lt hlt]

theorem run_get_bind (f : Heap → HeapAction Value) (h : Heap) :
    (get >>= f : HeapAction Value).run.run h = (f h).run.run h :=
  rfl

/-- A move of an enumerator of a list. -/
theorem run_moveNext {e : ListEnumerator} (hw : h.object? walker = some (.listEnumerator e)) :
    (Act.moveNext.perform list walker).run.run h =
      (.ok (.bool (e.moveNext (h.items e.items).size).1),
        h.setObject walker (.listEnumerator (e.moveNext (h.items e.items).size).2)) := by
  simp only [Act.perform, Builtin.call, Builtin.callHelper, List.isEmpty_nil, ↓reduceIte]
  refine (run_get_bind _ h).trans ?_
  rw [hw]
  rfl

/-- A move of an enumerator of a range. -/
theorem run_moveNext_range {e : RangeEnumerator} (hw : h.object? walker = some (.rangeEnumerator e)) :
    (Act.moveNext.perform list walker).run.run h =
      (.ok (.bool e.moveNext.1), h.setObject walker (.rangeEnumerator e.moveNext.2)) := by
  simp only [Act.perform, Builtin.call, Builtin.callHelper, List.isEmpty_nil, ↓reduceIte]
  refine (run_get_bind _ h).trans ?_
  rw [hw]
  rfl

/-- A look at what is current. -/
theorem run_current {object : Object} {value : Value} (hw : h.object? walker = some object)
    (hfield : Builtin.helperField? h object "Current" = some value) :
    (Act.current.perform list walker).run.run h = (.ok value, h) := by
  have hget : Builtin.getField h (.object walker) "Current" = .ok value := by
    rw [Builtin.getField, Builtin.field?, hw, Option.bind_some, hfield]
  refine (run_get_bind _ h).trans ?_
  rw [hget]
  rfl

/-! ### Walking a list -/

/-- The index that an enumerator goes on to. -/
def next : Option Nat → Nat
  | none => 0
  | some i => i + 1

/-- Histories of an enumerator of a list, by its index. Moves go on to the next index if the list is longer
than that, and otherwise to its length; nothing else changes the index. What is current is the element at
the index, if there is one. -/
inductive Walked : Option Nat → List Event → Prop
  | nil {index : Option Nat} : Walked index []
  | moveNext {index : Option Nat} {items : Array Value} {evs : List Event}
      (hrest : Walked (some (min (next index) items.size)) evs) :
      Walked index (⟨.moveNext, items, .ok (.bool (next index < items.size))⟩ :: evs)
  | current {index : Option Nat} {items : Array Value} {evs : List Event} (hrest : Walked index evs) :
      Walked index (⟨.current, items, .ok ((index.bind (items[·]?)).getD .null)⟩ :: evs)
  | change {index : Option Nat} {e : Event} {evs : List Event} (hmove : e.act ≠ .moveNext)
      (hlook : e.act ≠ .current) (hrest : Walked index evs) : Walked index (e :: evs)

/-- Every history of an enumerator of a list is such a history. -/
theorem walked_events {index : Option Nat} (hw : h.object? walker = some (.listEnumerator ⟨list, index⟩))
    (acts : List Act) : Walked index (events list walker h acts) := by
  induction acts generalizing h index with
  | nil => exact .nil
  | cons act acts ih =>
    rw [events_cons]
    by_cases hmove : act = .moveNext
    · subst hmove
      rw [run_moveNext hw]
      have hindex : ((⟨list, index⟩ : ListEnumerator).moveNext (h.items list).size).2 =
          ⟨list, some (min (next index) (h.items list).size)⟩ := by
        cases index <;> rfl
      have hmoved : ((⟨list, index⟩ : ListEnumerator).moveNext (h.items list).size).1 =
          decide (next index < (h.items list).size) := by
        cases index <;> rfl
      rw [hmoved, hindex]
      exact .moveNext (ih (object?_setObject hw))
    have hrest := ih ((object?_perform list hmove h).trans hw)
    by_cases hlook : act = .current
    · subst hlook
      rw [run_current hw rfl] at hrest ⊢
      exact .current hrest
    · exact .change hmove hlook hrest

theorem Walked.of_append {index : Option Nat} {before evs : List Event}
    (hwalked : Walked index (before ++ evs)) : ∃ index', Walked index' evs := by
  induction before generalizing index with
  | nil => exact ⟨index, hwalked⟩
  | cons e before ih =>
    cases hwalked with
    | moveNext hrest => exact ih hrest
    | current hrest => exact ih hrest
    | change _ _ hrest => exact ih hrest

/-- Where a move finds the end, the index is the length of the list. -/
theorem Walked.after_end {index : Option Nat} {e : Event} {evs : List Event}
    (hwalked : Walked index (e :: evs)) (hend : e.Ends) : Walked (some e.items.size) evs := by
  obtain ⟨hact, hanswer⟩ := hend
  cases hwalked with
  | @moveNext _ items _ hrest =>
    have hend : ¬ next index < items.size := of_decide_eq_false (answer_bool_inj hanswer)
    rwa [Nat.min_eq_right (Nat.not_lt.mp hend)] at hrest
  | current => cases hact
  | change hmove => exact absurd hact hmove

/-- What an enumerator answers whose index is `n`. -/
def Event.AnswersAt (n : Nat) (e : Event) : Prop :=
  (e.act = .moveNext → e.answer = .ok (.bool (n + 1 < e.items.size))) ∧
    (e.act = .current → e.answer = .ok (e.items[n]?.getD .null))

/-- Up to the next move, and for that move as well, the index decides. -/
theorem Walked.answersAt {n : Nat} {middle later : List Event} {e : Event}
    (hwalked : Walked (some n) (middle ++ e :: later)) (hmiddle : ∀ f ∈ middle, f.act ≠ .moveNext) :
    e.AnswersAt n := by
  induction middle with
  | nil =>
    cases hwalked with
    | moveNext => exact ⟨fun _ ↦ rfl, nofun⟩
    | current => exact ⟨nofun, fun _ ↦ rfl⟩
    | change hmove hlook => exact ⟨fun hact ↦ absurd hact hmove, fun hact ↦ absurd hact hlook⟩
  | cons f middle ih =>
    have hrest := (List.forall_mem_cons.mp hmiddle).2
    cases hwalked with
    | moveNext => exact absurd rfl (hmiddle _ List.mem_cons_self)
    | current hwalked => exact ih hwalked hrest
    | change _ _ hwalked => exact ih hwalked hrest

/-- Histories in which the list is never longer than at the last move; before the first one, than `n`. -/
def NeverLonger : Nat → List Event → Prop
  | _, [] => True
  | n, e :: evs => e.items.size ≤ n ∧ NeverLonger (if e.act = .moveNext then e.items.size else n) evs

/-- An enumerator stays at the end as long as the list is never longer than at the last move. -/
theorem Walked.exhausted {n : Nat} {evs : List Event} (hwalked : Walked (some n) evs)
    (hlength : NeverLonger n evs) : ∀ e ∈ evs, e.Exhausted := by
  induction evs generalizing n with
  | nil => simp
  | cons e evs ih =>
    obtain ⟨hle, hrest⟩ := hlength
    rw [List.forall_mem_cons]
    cases hwalked with
    | @moveNext _ items _ hwalked =>
      have hend : ¬ next (some n) < items.size := Nat.not_lt.mpr (Nat.le_succ_of_le hle)
      rw [Nat.min_eq_right (Nat.le_of_not_lt hend)] at hwalked
      exact ⟨⟨fun _ ↦ by rw [decide_eq_false hend], nofun⟩, ih hwalked hrest⟩
    | @current _ items _ hwalked =>
      refine ⟨⟨nofun, fun _ ↦ ?_⟩, ih hwalked hrest⟩
      rw [Option.bind_some, Array.getElem?_eq_none hle, Option.getD_none]
    | change hmove hlook hwalked =>
      rw [if_neg hmove] at hrest
      exact ⟨⟨fun hact ↦ absurd hact hmove, fun hact ↦ absurd hact hlook⟩, ih hwalked hrest⟩

/-! ### Walking a range -/

/-- An enumerator of a range that has found the end finds it ever after. -/
theorem exhausted_of_done {e : RangeEnumerator} (hw : h.object? walker = some (.rangeEnumerator e))
    (hdone : e.done = true) (acts : List Act) : ∀ f ∈ events list walker h acts, f.Exhausted := by
  induction acts generalizing h with
  | nil => simp [events]
  | cons act acts ih =>
    rw [events_cons, List.forall_mem_cons]
    by_cases hmove : act = .moveNext
    · subst hmove
      have hmoved : e.moveNext = (false, e) := by rw [RangeEnumerator.moveNext, if_pos hdone]
      rw [run_moveNext_range hw, hmoved]
      exact ⟨⟨fun _ ↦ rfl, nofun⟩, ih (object?_setObject hw)⟩
    · refine ⟨⟨fun hact ↦ absurd hact hmove, fun hlook ↦ ?_⟩, ih ((object?_perform list hmove h).trans hw)⟩
      obtain rfl : act = .current := hlook
      have hcurrent : e.current = .null := by simp [RangeEnumerator.current, hdone]
      rw [run_current hw rfl, hcurrent]

/-- A move that finds no further integer is remembered. -/
theorem done_of_moveNext {e : RangeEnumerator} (hend : e.moveNext.1 = false) : e.moveNext.2.done = true := by
  rw [RangeEnumerator.moveNext] at hend ⊢
  split at hend
  case isTrue hdone => rwa [if_pos hdone]
  case isFalse hdone =>
    rw [if_neg hdone]
    dsimp only at hend ⊢
    split at hend
    · cases hend
    · rfl

/-- For an enumerator of a range the end is final, whatever happens to any list meanwhile. -/
theorem staysExhausted_range {e : RangeEnumerator} (hw : h.object? walker = some (.rangeEnumerator e))
    (acts : List Act) : StaysExhausted (events list walker h acts) := by
  induction acts generalizing h e with
  | nil => simp [StaysExhausted, events]
  | cons act acts ih =>
    intro before f after hevents hend
    rw [events_cons] at hevents
    cases before with
    | nil =>
      obtain ⟨rfl, rfl⟩ := List.cons.inj hevents
      obtain ⟨hact, hanswer⟩ := hend
      obtain rfl : act = .moveNext := hact
      rw [run_moveNext_range hw] at hanswer ⊢
      exact exhausted_of_done (object?_setObject hw) (done_of_moveNext (answer_bool_inj hanswer)) acts
    | cons g before =>
      obtain ⟨-, hrest⟩ := List.cons.inj hevents
      by_cases hmove : act = .moveNext
      · subst hmove
        rw [run_moveNext_range hw] at hrest
        exact ih (object?_setObject hw) before f after hrest hend
      · exact ih ((object?_perform list hmove h).trans hw) before f after hrest hend

/-! ### The end of a walk -/

/-- What comes after a move that has found the end, in any history. If a list is walked that had `n` elements
then, its element at `n` is the current one until the next move, and that move succeeds if there is an element
behind it as well. So no move succeeds and nothing is current as long as the list is never longer than it was
at the last move. If a range is walked, no move succeeds and nothing is current ever after. -/
theorem answers_after_end (h : Heap) (list : ListRef) (walker : ObjectRef) (acts : List Act) :
    (∀ index, h.object? walker = some (.listEnumerator ⟨list, index⟩) →
      ∀ before e after, events list walker h acts = before ++ e :: after → e.Ends →
        (∀ middle f later, after = middle ++ f :: later → (∀ g ∈ middle, g.act ≠ .moveNext) →
          f.AnswersAt e.items.size) ∧
        (NeverLonger e.items.size after → ∀ f ∈ after, f.Exhausted)) ∧
      ∀ range, h.object? walker = some (.rangeEnumerator range) →
        StaysExhausted (events list walker h acts) := by
  refine ⟨fun index hw before e after hevents hend ↦ ?_, fun range hw ↦ staysExhausted_range hw acts⟩
  have hwalked := walked_events hw acts
  rw [hevents] at hwalked
  obtain ⟨index', hwalked'⟩ := hwalked.of_append
  have hafter : Walked (some e.items.size) after := hwalked'.after_end hend
  refine ⟨?_, hafter.exhausted⟩
  rintro middle f later rfl hmiddle
  exact hafter.answersAt hmiddle

/-- A list with one element that is walked to its end, and to which two elements are added then. -/
theorem answers_after_end_adding :
    let h : Heap := ⟨#[#[.int 1]], #[.listEnumerator (.start ⟨0⟩)]⟩
    let acts : List Act := [.moveNext, .moveNext, .add (.int 2), .current, .add (.int 3), .moveNext]
    let e : Event := ⟨.moveNext, #[.int 1], .ok (.bool false)⟩
    let middle : List Event := [⟨.add (.int 2), #[.int 1], .ok .null⟩,
      ⟨.current, #[.int 1, .int 2], .ok (.int 2)⟩, ⟨.add (.int 3), #[.int 1, .int 2], .ok .null⟩]
    let f : Event := ⟨.moveNext, #[.int 1, .int 2, .int 3], .ok (.bool true)⟩
    events ⟨0⟩ ⟨0⟩ h acts =
        [⟨.moveNext, #[.int 1], .ok (.bool true)⟩] ++ e :: (middle ++ [f]) ∧
      f.AnswersAt e.items.size := by
  intro h acts e middle f
  have hevents : events ⟨0⟩ ⟨0⟩ h acts =
      [⟨.moveNext, #[.int 1], .ok (.bool true)⟩] ++ e :: (middle ++ [f]) := rfl
  have hend : e.Ends := ⟨rfl, rfl⟩
  have hafter := (answers_after_end h ⟨0⟩ ⟨0⟩ acts).1 none rfl _ e _ hevents hend
  exact ⟨hevents, hafter.1 middle f [] rfl (by decide)⟩

/-- The end of a list is not final: when an element is added to a list that was walked to its end, it becomes
the current one. -/
theorem end_not_final :
    ¬ ∀ (h : Heap) (list : ListRef) (walker : ObjectRef) (index : Option Nat) (acts : List Act),
      h.object? walker = some (.listEnumerator ⟨list, index⟩) →
        StaysExhausted (events list walker h acts) := by
  intro hfinal
  have hstays := hfinal ⟨#[#[.int 1]], #[.listEnumerator (.start ⟨0⟩)]⟩ ⟨0⟩ ⟨0⟩ none
    [.moveNext, .moveNext, .add (.int 2), .current] rfl
  have hnull := (hstays [⟨.moveNext, #[.int 1], .ok (.bool true)⟩]
    ⟨.moveNext, #[.int 1], .ok (.bool false)⟩
    [⟨.add (.int 2), #[.int 1], .ok .null⟩, ⟨.current, #[.int 1, .int 2], .ok (.int 2)⟩] rfl ⟨rfl, rfl⟩
    ⟨.current, #[.int 1, .int 2], .ok (.int 2)⟩ (by simp)).2 rfl
  cases hnull

end StackScript.Walk
