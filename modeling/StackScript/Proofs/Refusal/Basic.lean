import StackScript.Proofs.Acceptance.Basic
import StackScript.Proofs.Passage.Constant
import StackScript.Proofs.Reading.Invariant

/-!
# Faults of constants

A constant subexpression that fails is reported when its operator has been read, if nothing was found before.
What has been reported stays so (`Reader.invariant_spoiled`), hence it does not matter what is read behind it:
reading that has come to such an operator is *stumbling*, and so is all that it is a part of.
-/

namespace StackScript

variable {α β : Type}

namespace Diagnostics

/-! ### What is recorded -/

/-- A fault of some kind has a report, which may still wait for its line. -/
def Recorded (P : Fault → Prop) (d : Diagnostics) : Prop :=
  ∃ report ∈ d.emitted ++ d.pending, P report.fault

namespace Recorded

variable {P : Fault → Prop} {d : Diagnostics}

/-- Flushing only moves reports on. -/
theorem flush (h : d.Recorded P) : d.flush.Recorded P := by
  obtain ⟨report, hreport, hP⟩ := h
  rw [flush_eq]
  rcases List.mem_append.mp hreport with hemitted | hpending
  · exact ⟨report, List.mem_append_left _ (List.mem_append_left _ hemitted), hP⟩
  · by_cases hready : d.ready report = true
    · refine ⟨d.annotate report, List.mem_append_left _ (List.mem_append_right _ ?_), ?_⟩
      · exact List.mem_map_of_mem (List.mem_filter.mpr ⟨hpending, hready⟩)
      · rwa [fault_annotate]
    · exact ⟨report, List.mem_append_right _ (List.mem_filter.mpr ⟨hpending, by simpa using hready⟩), hP⟩

theorem feed (h : d.Recorded P) (c : Char) : (d.feed c).Recorded P := by
  unfold Diagnostics.feed
  split
  · exact h
  · split
    · exact flush (d := d.completeLine) h
    · split <;> exact h

theorem feedAll (h : d.Recorded P) (text : List Char) : (d.feedAll text).Recorded P := by
  induction text generalizing d with
  | nil => exact h
  | cons c rest ih => exact ih (h.feed c)

theorem finish (h : d.Recorded P) : d.finish.Recorded P := by
  unfold Diagnostics.finish
  split
  · exact h
  · split
    · exact flush (d := { d with finished := true }) h
    · exact flush (d := { d.completeLine with finished := true }) h

/-- A fault that is raised leaves those before it. -/
theorem raise (h : d.Recorded P) (fault : Fault) (span : Span) : (d.raise fault span).Recorded P := by
  obtain ⟨report, hreport, hP⟩ := h
  refine ⟨report, ?_, hP⟩
  unfold Diagnostics.raise
  dsimp only
  rcases List.mem_append.mp hreport with hemitted | hpending
  · split
    · exact List.mem_append_left _ (List.mem_append_left _ hemitted)
    · exact List.mem_append_left _ hemitted
  · split
    · exact List.mem_append_right _ hpending
    · exact List.mem_append_right _ (List.mem_append_left _ hpending)

theorem raiseAll (h : d.Recorded P) (faults : List (Fault × Span)) : (d.raiseAll faults).Recorded P := by
  induction faults generalizing d with
  | nil => exact h
  | cons f rest ih => exact ih (h.raise f.1 f.2)

theorem absorb (h : d.Recorded P) (s : Scanned) : (d.absorb s).Recorded P := by
  have htold : (d.told s).Recorded P := ((h.feedAll s.gap).feedAll s.token.lexeme.toList).raiseAll s.faults
  rw [absorb_eq]
  split
  · exact htold.finish
  · exact htold

end Recorded

/-- A fault that is raised has a report. -/
theorem recorded_raise {P : Fault → Prop} (d : Diagnostics) {fault : Fault} (h : P fault) (span : Span) :
    (d.raise fault span).Recorded P := by
  unfold raise
  dsimp only
  split
  · exact ⟨_, List.mem_append_left _ (List.mem_append_right _ (List.mem_singleton_self _)),
      by rwa [fault_annotate]⟩
  · exact ⟨_, List.mem_append_right _ (List.mem_append_right _ (List.mem_singleton_self _)), h⟩

theorem recorded_skim {P : Fault → Prop} {d : Diagnostics} (h : d.Recorded P) (upcoming : List Scanned) :
    (Reading.skim d upcoming).2.2.Recorded P := by
  induction upcoming generalizing d with
  | nil => exact h
  | cons s rest ih =>
    rw [Reading.skim]
    split
    · exact ih (h.absorb s)
    · exact h.absorb s

end Diagnostics

/-! ### Stumbling -/

/-- The reader has reported a constant subexpression that fails. -/
def Reader.Spoiled (r : Reader) : Prop :=
  r.diagnostics.Recorded (·.stage = .constantFolding)

/-- That stays so whatever is read. -/
theorem Reader.invariant_spoiled : Invariant Spoiled fun _ ↦ True where
  advance r hr := Diagnostics.recorded_skim hr r.upcoming
  raise _ fault span hr _ := hr.raise fault span
  aside _ _ _ _ _ _ _ _ _ _ hr := hr
  current _ _ := trivial
  previous _ _ := trivial

namespace Reading

/-- Reading that comes to a constant subexpression that fails, and reports it. -/
def Stumbles (x : Reading α) (r : Reader) : Prop :=
  Leads x r fun _ r' ↦ r'.Spoiled

namespace Stumbles

variable {source : String} {r : Reader} {ts : List Token} {v : View} {literals : List Literal}

/-- What is read behind it makes no difference. -/
theorem bind {x : Reading α} {f : α → Reading β} (h : Stumbles x r)
    (hf : ∀ a, Keeps Reader.Spoiled (f a)) : Stumbles (x >>= f) r :=
  hf _ _ h

/-- A fault of a constant is reported if no fault was found before. -/
theorem fail_bind {f : Unit → Reading β} (h : r.recovering = false) (message : String) (span : Span)
    (hf : ∀ a, Keeps Reader.Spoiled (f a)) : Stumbles (fail (.constantFold message) span >>= f) r := by
  refine bind ?_ hf
  show Reader.Spoiled (if r.recovering then r else { r with
    recovering := true, diagnostics := r.diagnostics.raise (.constantFold message) span })
  rw [h, if_neg Bool.false_ne_true]
  exact Diagnostics.recorded_raise (P := (·.stage = .constantFolding)) r.diagnostics rfl span

/-- An operator stumbles if it is computed and fails. -/
theorem operate {op : BinaryOp} (h : r.At source ts v literals) (hc : computed op literals = none) :
    Stumbles (Reading.operate op) r := by
  have hliterals := h.literals
  rw [Reading.operate]
  refine .of_run (StateT.run_get r) ?_
  split
  · rename_i right left rest _ heq
    rw [← hliterals, heq, computed, Option.map_eq_none_iff] at hc
    rcases hresult : op.apply (.literal left) (.literal right) with fault | result
    · have hremark (what : Remark) : Leads (remark what) r fun _ r' ↦ r'.recovering = false :=
        h.recovering_eq
      exact .bind (hremark _) fun _ r' hr' ↦ fail_bind (f := fun _ ↦ emit 1) hr' fault.message
        r.previous.span fun _ ↦ Reader.invariant_spoiled.keeps_emit 1
    · rw [hresult] at hc
      cases hc
  · rename_i hnot
    unfold computed at hc
    split at hc
    · exact absurd (h.literals) (hnot _ _ _ h.ready.folding)
    · cases hc

theorem operateNot (h : r.At source ts v literals) (hc : inverted literals = none) :
    Stumbles Reading.operateNot r := by
  have hliterals := h.literals
  rw [Reading.operateNot]
  refine .of_run (StateT.run_get r) ?_
  split
  · rename_i operand rest _ heq
    rw [← hliterals, heq, inverted, Option.map_eq_none_iff] at hc
    rcases hresult : Value.invert (.literal operand) with fault | result
    · exact fail_bind (f := fun _ ↦ emit 1) h.recovering_eq fault.message r.previous.span fun _ ↦
        Reader.invariant_spoiled.keeps_emit 1
    · rw [hresult] at hc
      cases hc
  · rename_i hnot
    unfold inverted at hc
    split at hc
    · exact absurd h.literals (hnot _ _ h.ready.folding)
    · cases hc

end Stumbles

end Reading

end StackScript
