import StackScript.Source.Scan

/-!
# Reports on a source text

While a text is read, its diagnostics are `Kept`: there is a report exactly if a fault was found, no
report waits once the source has ended, and no report is about a run. Faults that are raised and
characters that are fed keep them so.
-/

namespace StackScript.Diagnostics

/-! ### Faults stay found -/

theorem failed_foldl_emit (reports : List Report) (d : Diagnostics) :
    (reports.foldl emit d).failed = d.failed := by
  induction reports generalizing d with
  | nil => rfl
  | cons r rest ih => exact ih (d.emit r)

theorem failed_flush (d : Diagnostics) : d.flush.failed = d.failed :=
  failed_foldl_emit _ _

theorem failed_feed (d : Diagnostics) (c : Char) : (d.feed c).failed = d.failed := by
  unfold feed
  split
  · rfl
  · split
    · exact failed_flush _
    · split <;> rfl

theorem failed_feedAll (d : Diagnostics) (text : List Char) :
    (d.feedAll text).failed = d.failed := by
  induction text generalizing d with
  | nil => rfl
  | cons c rest ih => exact (ih (d.feed c)).trans (d.failed_feed c)

theorem failed_finish (d : Diagnostics) : d.finish.failed = d.failed := by
  unfold finish
  split
  · rfl
  · refine (failed_flush _).trans ?_
    split <;> rfl

theorem failed_raise (d : Diagnostics) (fault : Fault) (span : Span) :
    (d.raise fault span).failed = true := by
  unfold raise
  dsimp only
  split <;> rfl

/-- Raises faults one after the other. -/
def raiseAll (d : Diagnostics) (faults : List (Fault × Span)) : Diagnostics :=
  faults.foldl (fun d f ↦ d.raise f.1 f.2) d

theorem failed_raiseAll {d : Diagnostics} (h : d.failed) (faults : List (Fault × Span)) :
    (d.raiseAll faults).failed := by
  induction faults generalizing d with
  | nil => exact h
  | cons f rest ih => exact ih (d.failed_raise f.1 f.2)

theorem eq_nil_of_raiseAll {d : Diagnostics} {faults : List (Fault × Span)}
    (h : (d.raiseAll faults).failed = false) : d.failed = false ∧ faults = [] := by
  cases faults with
  | nil => exact ⟨h, rfl⟩
  | cons f rest =>
    have hraised : ((d.raise f.1 f.2).raiseAll rest).failed := failed_raiseAll (d.failed_raise _ _) _
    exact absurd (h.symm.trans hraised) Bool.false_ne_true

/-- A piece of the source has been read and its faults have been raised. -/
def told (d : Diagnostics) (s : Scanned) : Diagnostics :=
  ((d.feedAll s.gap).feedAll s.token.lexeme.toList).raiseAll s.faults

theorem absorb_eq (d : Diagnostics) (s : Scanned) :
    d.absorb s = if s.token.kind = .endOfInput then (d.told s).finish else d.told s := rfl

theorem failed_absorb_eq (d : Diagnostics) (s : Scanned) :
    (d.absorb s).failed = (d.told s).failed := by
  rw [absorb_eq]
  split
  · exact failed_finish _
  · rfl

theorem failed_absorb {d : Diagnostics} (s : Scanned) (h : d.failed) : (d.absorb s).failed := by
  rw [failed_absorb_eq]
  exact failed_raiseAll (by rw [failed_feedAll, failed_feedAll, h]) _

/-- A piece without faults changes nothing about failure. -/
theorem failed_absorb_of_nil (d : Diagnostics) {s : Scanned} (h : s.faults = []) :
    (d.absorb s).failed = d.failed := by
  rw [failed_absorb_eq, told, h]
  exact (failed_feedAll _ _).trans (failed_feedAll _ _)

/-- A scanned piece that leaves no failure behind had no fault. -/
theorem faults_eq_nil_of_absorb {d : Diagnostics} {s : Scanned}
    (h : (d.absorb s).failed = false) : d.failed = false ∧ s.faults = [] := by
  rw [failed_absorb_eq] at h
  obtain ⟨hread, hfaults⟩ := eq_nil_of_raiseAll h
  rw [failed_feedAll, failed_feedAll] at hread
  exact ⟨hread, hfaults⟩

/-! ### Every fault has a report -/

/-- Every fault found has a report, the end of the source releases all of them, and none is about a
run. -/
structure Kept (d : Diagnostics) : Prop where
  failed_iff : d.failed = true ↔ d.emitted ++ d.pending ≠ []
  finished : d.finished = true → d.pending = []
  stage_ne : ∀ r ∈ d.emitted ++ d.pending, r.fault.stage ≠ .running

theorem kept_empty : empty.Kept :=
  ⟨by simp [empty], fun _ ↦ rfl, fun _ h ↦ nomatch h⟩

/-- Giving reports out one after the other adds them, with their lines, to those given out. -/
theorem foldl_emit_eq (d : Diagnostics) (reports : List Report) :
    reports.foldl emit d = { d with emitted := d.emitted ++ reports.map d.annotate } := by
  induction reports generalizing d with
  | nil => simp
  | cons r rest ih =>
    rw [List.foldl_cons, ih]
    simp only [emit, List.map_cons, List.append_assoc]
    rfl

@[simp]
theorem fault_annotate (d : Diagnostics) (r : Report) : (d.annotate r).fault = r.fault := by
  unfold annotate
  split <;> rfl

/-- Flushing gives out the waiting reports that are ready, and lets the others wait on. -/
theorem flush_eq (d : Diagnostics) :
    d.flush = { d with
      pending := d.pending.filter (!d.ready ·)
      emitted := d.emitted ++ (d.pending.filter d.ready).map d.annotate } :=
  foldl_emit_eq _ _

theorem pending_eq_nil_iff (d : Diagnostics) : d.pending = [] ↔
    d.pending.filter d.ready = [] ∧ d.pending.filter (!d.ready ·) = [] := by
  constructor
  · intro h
    simp [h]
  · rintro ⟨hready, hwaiting⟩
    refine List.eq_nil_iff_forall_not_mem.mpr fun r hr ↦ ?_
    have hnot := List.filter_eq_nil_iff.mp hready r hr
    have := List.filter_eq_nil_iff.mp hwaiting r hr
    simp [hnot] at this

/-- Flushing only moves reports on. -/
theorem kept_flush {d : Diagnostics} (hf : d.failed = true ↔ d.emitted ++ d.pending ≠ [])
    (hs : ∀ r ∈ d.emitted ++ d.pending, r.fault.stage ≠ .running) : d.flush.Kept := by
  rw [flush_eq]
  refine ⟨hf.trans (not_congr ?_), fun hfinished ↦ ?_, fun r hr ↦ ?_⟩
  · simp only [List.append_eq_nil_iff, List.map_eq_nil_iff, d.pending_eq_nil_iff, and_assoc]
  · refine List.filter_eq_nil_iff.mpr fun r _ ↦ ?_
    have hfinished : d.finished = true := hfinished
    simp [ready, hfinished]
  · simp only [List.append_assoc, List.mem_append, List.mem_map, List.mem_filter] at hr
    rcases hr with hr | ⟨r', ⟨hr', _⟩, rfl⟩ | ⟨hr, _⟩
    · exact hs r (List.mem_append_left _ hr)
    · rw [fault_annotate]
      exact hs r' (List.mem_append_right _ hr')
    · exact hs r (List.mem_append_right _ hr)

namespace Kept

variable {d : Diagnostics}

theorem feed (h : d.Kept) (c : Char) : (d.feed c).Kept := by
  unfold Diagnostics.feed
  split
  · exact h
  · split
    · exact kept_flush h.failed_iff h.stage_ne
    · split
      · exact h
      · exact ⟨h.failed_iff, h.finished, h.stage_ne⟩

theorem feedAll (h : d.Kept) (text : List Char) : (d.feedAll text).Kept := by
  induction text generalizing d with
  | nil => exact h
  | cons c rest ih => exact ih (h.feed c)

theorem finish (h : d.Kept) : d.finish.Kept := by
  unfold Diagnostics.finish
  split
  · exact h
  · split
    · exact kept_flush h.failed_iff h.stage_ne
    · exact kept_flush h.failed_iff h.stage_ne

/-- A fault that is not one of a run may be raised. It is given out, or it waits for its line. -/
theorem raise (h : d.Kept) {fault : Fault} (hs : fault.stage ≠ .running) (span : Span) :
    (d.raise fault span).Kept := by
  unfold Diagnostics.raise
  dsimp only
  split
  · refine ⟨by simp [emit], h.finished, fun r hr ↦ ?_⟩
    simp only [emit, List.append_assoc, List.mem_append, List.mem_singleton] at hr
    rcases hr with hr | rfl | hr
    · exact h.stage_ne r (List.mem_append_left _ hr)
    · rw [fault_annotate]
      exact hs
    · exact h.stage_ne r (List.mem_append_right _ hr)
  · rename_i hready
    refine ⟨by simp, fun hfinished ↦ ?_, fun r hr ↦ ?_⟩
    · have hfinished : d.finished = true := hfinished
      simp [hfinished] at hready
    · simp only [List.mem_append, List.mem_singleton] at hr
      rcases hr with hr | hr | rfl
      · exact h.stage_ne r (List.mem_append_left _ hr)
      · exact h.stage_ne r (List.mem_append_right _ hr)
      · exact hs

theorem raiseAll (h : d.Kept) {faults : List (Fault × Span)}
    (hf : ∀ f ∈ faults, f.1.stage ≠ .running) : (d.raiseAll faults).Kept := by
  induction faults generalizing d with
  | nil => exact h
  | cons f rest ih => exact ih (h.raise (hf f (.head _)) f.2) fun f hf' ↦ hf f (.tail _ hf')

theorem absorb (h : d.Kept) {s : Scanned} (hs : ∀ f ∈ s.faults, f.1.stage = .lexical) :
    (d.absorb s).Kept := by
  have htold : (d.told s).Kept :=
    ((h.feedAll s.gap).feedAll s.token.lexeme.toList).raiseAll fun f hf ↦ by
      rw [hs f hf]
      decide
  rw [absorb_eq]
  split
  · exact htold.finish
  · exact htold

end Kept

theorem finished_finish (d : Diagnostics) : d.finish.finished = true := by
  unfold finish
  split
  · assumption
  · rw [flush_eq]

end StackScript.Diagnostics
