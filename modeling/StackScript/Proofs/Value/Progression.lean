import Mathlib
import StackScript.Proofs.Value.Traversal

/-!
# Going through a range

An enumerator of a range goes through an arithmetic progression. Its members are counted without bounds here
(`Range.progress`). Those before the end of the range are reached one after the other, with their true values,
and none of the others is: where the next one would be too large or too small for an integer of the language,
it is not before the end either (`Range.offers_after?`). There are fewer than `2 ^ 32` of them
(`Range.exists_length`), and once they are used up every move fails and nothing is current
(`Walk.visits_progression`).
-/

namespace StackScript

/-! ### The integers of a range -/

namespace Range

variable {r : Range} {n : Int32} {k : Nat}

/-- The integer that lies `k` steps behind the start, however large it is. -/
def progress (r : Range) (k : Nat) : Int :=
  r.start.toInt + k * r.step.toInt

/-- Whether an integer, however large it is, lies before the end of the range. -/
def Before (r : Range) (n : Int) : Prop :=
  0 < r.step.toInt ∧ n < r.stop.toInt ∨ r.step.toInt < 0 ∧ r.stop.toInt < n

instance (r : Range) (n : Int) : Decidable (r.Before n) :=
  inferInstanceAs (Decidable (_ ∨ _))

@[simp]
theorem progress_zero (r : Range) : r.progress 0 = r.start.toInt := by
  simp [progress]

theorem progress_succ (r : Range) (k : Nat) : r.progress (k + 1) = r.progress k + r.step.toInt := by
  rw [progress, progress, Int.natCast_succ, Int.add_mul, Int.one_mul, Int.add_assoc]

theorem toInt_step_ne_zero (hstep : r.step ≠ 0) : r.step.toInt ≠ 0 := fun h ↦
  hstep (Int32.toInt_inj.mp (h.trans Int32.toInt_zero.symm))

/-- Who has come to the end does not get away from it. -/
theorem before_of_before_succ (h : r.Before (r.progress (k + 1))) : r.Before (r.progress k) := by
  rw [progress_succ] at h
  unfold Before at h ⊢
  omega

theorem before_of_le {j : Nat} (hj : j ≤ k) (h : r.Before (r.progress k)) : r.Before (r.progress j) := by
  induction hj with
  | refl => exact h
  | step _ ih => exact ih (before_of_before_succ h)

/-- Between the ends of the integers of the language there is room for fewer than `2 ^ 32` steps. -/
theorem succ_lt_of_before (h : r.Before (r.progress k)) : k + 1 < 2 ^ 32 := by
  have hstart := r.start.le_toInt
  have hstart' := r.start.toInt_lt
  have hstop := r.stop.le_toInt
  have hstop' := r.stop.toInt_lt
  rw [progress] at h
  rcases h with ⟨hstep, hlt⟩ | ⟨hstep, hlt⟩
  · have hle : (k : Int) * 1 ≤ k * r.step.toInt :=
      Int.mul_le_mul_of_nonneg_left hstep (Int.natCast_nonneg k)
    omega
  · have hle : (k : Int) * r.step.toInt ≤ k * (-1) :=
      Int.mul_le_mul_of_nonneg_left (Int.le_sub_one_of_lt hstep) (Int.natCast_nonneg k)
    omega

/-- A range has a length. -/
theorem exists_length (r : Range) : ∃ length < 2 ^ 32, ∀ k, r.Before (r.progress k) ↔ k < length := by
  have hfar : ¬ r.Before (r.progress (2 ^ 32 - 1)) := fun h ↦ Nat.lt_irrefl _ (succ_lt_of_before h)
  have hend : ∃ k, ¬ r.Before (r.progress k) := ⟨_, hfar⟩
  have hlength : Nat.find hend < 2 ^ 32 := Nat.lt_of_le_pred (by decide) (Nat.find_min' hend hfar)
  refine ⟨Nat.find hend, hlength, fun k ↦ ⟨fun h ↦ ?_, fun h ↦ ?_⟩⟩
  · by_contra hle
    exact Nat.find_spec hend (before_of_le (Nat.not_lt.mp hle) h)
  · exact not_not.mp (Nat.find_min hend h)

/-! ### Moving on -/

/-- What the machine checks is what is meant. -/
theorem reaches_eq (hstep : r.step ≠ 0) (n : Int32) : r.reaches n = decide (r.Before n.toInt) := by
  have hne := toInt_step_ne_zero hstep
  have hpos : 0 < r.step ↔ 0 < r.step.toInt := by rw [Int32.lt_iff_toInt_lt, Int32.toInt_zero]
  rw [reaches]
  split
  case isTrue h =>
    rw [hpos] at h
    rw [decide_eq_decide, Int32.lt_iff_toInt_lt, Before]
    omega
  case isFalse h =>
    rw [hpos] at h
    rw [decide_eq_decide, Int32.lt_iff_toInt_lt, Before]
    omega

/-- The integer that a move tries after the last one. -/
def next? (r : Range) : (last : Option Int32) → Option Int32
  | none => some r.start
  | some n => r.after? n

/-- What is offered is the given integer if that is before the end of the range, and nothing otherwise. -/
def Offers (r : Range) (next? : Option Int32) (x : Int) : Prop :=
  (r.Before x → ∃ n, next?.filter r.reaches = some n ∧ n.toInt = x) ∧
    (¬ r.Before x → next?.filter r.reaches = none)

theorem offers_some (hstep : r.step ≠ 0) (n : Int32) : r.Offers (some n) n.toInt := by
  rw [Offers, Option.filter_some, reaches_eq hstep]
  refine ⟨fun h ↦ ⟨n, ?_, rfl⟩, fun h ↦ ?_⟩
  · rw [if_pos (decide_eq_true h)]
  · rw [if_neg (by simpa using h)]

/-- Where the integer one step further would overflow, it is not before the end. -/
theorem offers_after? (hstep : r.step ≠ 0) (n : Int32) :
    r.Offers (r.after? n) (n.toInt + r.step.toInt) := by
  unfold after?
  dsimp only
  split
  case isTrue hfits =>
    have hsum : (n + r.step).toInt = n.toInt + r.step.toInt := by
      rw [Int32.toInt_add]
      exact Int.bmod_eq_of_le (by simpa using hfits.1) (Int.lt_add_one_of_le hfits.2)
    rw [← hsum]
    exact offers_some hstep _
  case isFalse hfits =>
    have hmin := n.minValue_le_toInt
    have hmax := n.toInt_le
    have hmin' := r.stop.minValue_le_toInt
    have hmax' := r.stop.toInt_le
    refine ⟨fun h ↦ (hfits ?_).elim, fun _ ↦ rfl⟩
    unfold Before at h
    omega

end Range

/-! ### Walking a range -/

namespace RangeEnumerator

variable {r : Range} {e : RangeEnumerator} {k : Nat}

/-- Where an enumerator stands after `k` moves: before the first integer, at the last one that was reached,
or at the end. -/
inductive Stands (r : Range) : Nat → RangeEnumerator → Prop
  | start : Stands r 0 (.start r)
  | reached {k : Nat} {n : Int32} (hn : n.toInt = r.progress k) (hbefore : r.Before (r.progress k)) :
    Stands r (k + 1) ⟨r, some n, false⟩
  | ended {k : Nat} {last : Option Int32} (hend : ¬ r.Before (r.progress k)) :
    Stands r (k + 1) ⟨r, last, true⟩

theorem moveNext_eq (r : Range) (last : Option Int32) : (⟨r, last, false⟩ : RangeEnumerator).moveNext =
    match (r.next? last).filter r.reaches with
    | some n => (true, ⟨r, some n, false⟩)
    | none => (false, ⟨r, last, true⟩) := by
  cases last <;> rfl

/-- A move goes on to the integer that is offered, or to the end. -/
theorem Stands.onward {last : Option Int32} (hoffers : r.Offers (r.next? last) (r.progress k)) :
    (⟨r, last, false⟩ : RangeEnumerator).moveNext.1 = decide (r.Before (r.progress k)) ∧
      Stands r (k + 1) (⟨r, last, false⟩ : RangeEnumerator).moveNext.2 := by
  obtain ⟨hsome, hnone⟩ := hoffers
  rw [moveNext_eq]
  by_cases h : r.Before (r.progress k)
  · obtain ⟨n, hn, hprogress⟩ := hsome h
    rw [hn, decide_eq_true h]
    exact ⟨rfl, .reached hprogress h⟩
  · rw [hnone h, decide_eq_false h]
    exact ⟨rfl, .ended h⟩

/-- An enumerator stands where it should after a move, too. -/
theorem Stands.moveNext (hstep : r.step ≠ 0) (hstands : Stands r k e) :
    e.moveNext.1 = decide (r.Before (r.progress k)) ∧ Stands r (k + 1) e.moveNext.2 := by
  cases hstands with
  | start =>
    refine Stands.onward ?_
    rw [Range.progress_zero]
    exact Range.offers_some hstep r.start
  | @reached k n hn _ =>
    refine Stands.onward ?_
    rw [Range.progress_succ, ← hn]
    exact Range.offers_after? hstep n
  | @ended k last hend =>
    have h : ¬ r.Before (r.progress (k + 1)) := mt Range.before_of_before_succ hend
    rw [decide_eq_false h]
    exact ⟨rfl, .ended h⟩

/-- Before the first move and at the end nothing is current, and in between the last integer reached. -/
theorem Stands.current (hstands : Stands r k e) :
    (k = 0 → e.current = .null) ∧
      ∀ j, k = j + 1 →
        (r.Before (r.progress j) → ∃ n : Int32, n.toInt = r.progress j ∧ e.current = .int n) ∧
          (¬ r.Before (r.progress j) → e.current = .null) := by
  cases hstands with
  | start => exact ⟨fun _ ↦ rfl, nofun⟩
  | @reached k n hn hbefore =>
    refine ⟨nofun, fun j hj ↦ ?_⟩
    cases hj
    exact ⟨fun _ ↦ ⟨n, hn, rfl⟩, fun hend ↦ absurd hbefore hend⟩
  | @ended k last hend =>
    refine ⟨nofun, fun j hj ↦ ?_⟩
    cases hj
    exact ⟨fun hbefore ↦ absurd hbefore hend, fun _ ↦ by simp [RangeEnumerator.current]⟩

end RangeEnumerator

namespace Walk

variable {h : Heap} {list : ListRef} {walker : ObjectRef} {r : Range} {k : Nat}

/-- An event as it should be after `k` moves of an enumerator of a range. -/
structure Event.Progresses (r : Range) (k : Nat) (e : Event) : Prop where
  /-- A move succeeds exactly if the integer `k` steps behind the start is before the end. -/
  move : e.act = .moveNext → e.answer = .ok (.bool (r.Before (r.progress k)))
  /-- Nothing is current before the first move. -/
  first : e.act = .current → k = 0 → e.answer = .ok .null
  /-- After a move that has succeeded that integer is the current one. -/
  current : e.act = .current → ∀ j, k = j + 1 → r.Before (r.progress j) →
    ∃ n : Int32, n.toInt = r.progress j ∧ e.answer = .ok (.int n)
  /-- Nothing is current after one that has failed. -/
  last : e.act = .current → ∀ j, k = j + 1 → ¬ r.Before (r.progress j) → e.answer = .ok .null

theorem progresses_perform {e : RangeEnumerator} {act : Act} (hstep : r.step ≠ 0)
    (hw : h.object? walker = some (.rangeEnumerator e)) (hstands : e.Stands r k) :
    Event.Progresses r k ⟨act, h.items list, ((act.perform list walker).run.run h).1⟩ := by
  refine ⟨fun hmove ↦ ?_, fun hlook hk ↦ ?_, fun hlook j hk hbefore ↦ ?_, fun hlook j hk hend ↦ ?_⟩
  · obtain rfl : act = .moveNext := hmove
    rw [run_moveNext_range hw, (hstands.moveNext hstep).1]
  all_goals
    obtain rfl : act = .current := hlook
    rw [run_current hw rfl]
  · rw [hstands.current.1 hk]
  · obtain ⟨n, hn, hcurrent⟩ := (hstands.current.2 j hk).1 hbefore
    exact ⟨n, hn, congrArg Except.ok hcurrent⟩
  · rw [(hstands.current.2 j hk).2 hend]

theorem progresses_events {e : RangeEnumerator} {acts : List Act} {before after : List Event} {f : Event}
    (hstep : r.step ≠ 0) (hw : h.object? walker = some (.rangeEnumerator e)) (hstands : e.Stands r k)
    (hevents : events list walker h acts = before ++ f :: after) :
    f.Progresses r (k + moves before) := by
  induction acts generalizing h e k before with
  | nil => simp [events] at hevents
  | cons act acts ih =>
    rw [events_cons] at hevents
    cases before with
    | nil =>
      obtain ⟨rfl, -⟩ := List.cons.inj hevents
      exact progresses_perform hstep hw hstands
    | cons g before =>
      obtain ⟨rfl, hrest⟩ := List.cons.inj hevents
      -- a move counts, and whatever else is done leaves the enumerator where it stands
      by_cases hmove : act = .moveNext
      · subst hmove
        rw [moves_cons_of_move _ rfl, Nat.add_comm (moves before), ← Nat.add_assoc]
        rw [run_moveNext_range hw] at hrest
        exact ih (object?_setObject hw) (hstands.moveNext hstep).2 hrest
      · rw [moves_cons_of_ne _ hmove]
        exact ih ((object?_perform list hmove h).trans hw) hstands hrest

/-- A new enumerator of any range goes through the integers `start`, `start + step`, `start + 2 * step` and so
on before the end of the range, however the moves and looks at it are mixed, and whatever is done to any list
meanwhile. There is an end to them, and then every move fails and nothing is current. -/
theorem visits_progression (h : Heap) (start stop step : Int32) (hstep : step ≠ 0) :
    let r : Range := ⟨start, stop, step⟩
    (∃ length < 2 ^ 32, ∀ k, r.Before (r.progress k) ↔ k < length) ∧
      ∃ range h₁ walker h₂,
        (Builtin.constructRange [.int start, .int stop, .int step]).run.run h = (.ok (.object range), h₁) ∧
        (Builtin.call (.object range) "GetEnumerator" []).run.run h₁ = (.ok (.object walker), h₂) ∧
        ∀ list acts before e after, events list walker h₂ acts = before ++ e :: after →
          e.Progresses r (moves before) := by
  intro r
  let range : ObjectRef := ⟨h.objects.size⟩
  let h₁ : Heap := ⟨h.lists, h.objects.push (.range r)⟩
  have hrange : h₁.object? range = some (.range r) := Array.getElem?_push_size
  let walker : ObjectRef := ⟨h₁.objects.size⟩
  let h₂ : Heap := ⟨h.lists, h₁.objects.push (.rangeEnumerator (.start r))⟩
  have hwalker : h₂.object? walker = some (.rangeEnumerator (.start r)) := Array.getElem?_push_size
  refine ⟨r.exists_length, range, h₁, walker, h₂, ?_, ?_, fun list acts before e after hevents ↦ ?_⟩
  · have hmake : Range.make start stop step = .ok r := if_neg hstep
    show (Builtin.constructRange.build start stop step).run.run h = _
    rw [Builtin.constructRange.build, hmake]
    rfl
  · simp only [Builtin.call, Builtin.callHelper, List.isEmpty_nil, ↓reduceIte]
    refine (run_get_bind _ h₁).trans ?_
    rw [hrange]
    rfl
  · have hprogress := progresses_events hstep hwalker .start hevents
    rwa [Nat.zero_add] at hprogress

/-- A range whose third integer would be too large. -/
theorem visits_progression_overflowing :
    let r : Range := ⟨2147483640, 2147483647, 5⟩
    let acts : List Act := [.current, .moveNext, .current, .moveNext, .current, .moveNext, .current]
    (5 : Int32) ≠ 0 ∧ ∃ range h₁ walker h₂,
      (Builtin.constructRange [.int 2147483640, .int 2147483647, .int 5]).run.run .empty =
        (.ok (.object range), h₁) ∧
      (Builtin.call (.object range) "GetEnumerator" []).run.run h₁ = (.ok (.object walker), h₂) ∧
      (events ⟨0⟩ walker h₂ acts).map (·.answer) = [.ok .null, .ok (.bool true), .ok (.int 2147483640),
        .ok (.bool true), .ok (.int 2147483645), .ok (.bool false), .ok .null] ∧
      ∀ before e after, events ⟨0⟩ walker h₂ acts = before ++ e :: after →
        e.Progresses r (moves before) := by
  intro r acts
  have hstep : (5 : Int32) ≠ 0 := by decide
  obtain ⟨-, range, h₁, walker, h₂, hrange, hwalker, hprogress⟩ :=
    visits_progression .empty 2147483640 2147483647 5 hstep
  obtain ⟨hobject, rfl⟩ := Prod.mk.inj hrange
  obtain rfl : ⟨0⟩ = range := Value.object.inj (Except.ok.inj hobject)
  obtain ⟨hobject', rfl⟩ := Prod.mk.inj hwalker
  obtain rfl : ⟨1⟩ = walker := Value.object.inj (Except.ok.inj hobject')
  exact ⟨hstep, _, _, _, _, hrange, hwalker, rfl, hprogress ⟨0⟩ acts⟩

end Walk

end StackScript
