import Mathlib.Data.List.Basic
import Mathlib.Data.List.Induction
import StackScript.Proofs.Source.Reports

/-!
# Every report is given out once

While a source text is read, faults may be raised in any order, about lines already read and about
lines still to come. However reading, raising and the end of the source are interleaved, no report is
lost, given out twice or shown with the text of another line (`delivered`).

What is owed is said by the acts alone: the reports `raised`, the `source` fed, and which reports
`wait` for the rest of their line. Reports of one line become ready together, so flushing keeps the order
within a line, though not among lines (`Settled.flush`).
-/

namespace StackScript.Diagnostics

/-! ### Acts -/

/-- What happens to diagnostics while a source is read. Lines count from one. -/
inductive Act where
  | feed (c : Char)
  | raise (fault : Fault) (span : Span) (hline : 1 ≤ span.line)
  | finish
  deriving DecidableEq

/-- The diagnostics after one act more. -/
def act (d : Diagnostics) : Act → Diagnostics
  | .feed c => d.feed c
  | .raise fault span _ => d.raise fault span
  | .finish => d.finish

/-- The diagnostics after a row of acts. -/
def after (acts : List Act) : Diagnostics :=
  acts.foldl act empty

/-- The character that an act adds to the source. Carriage returns are dropped. -/
def Act.fed? : Act → Option Char
  | .feed c => if c = '\r' then none else some c
  | _ => none

/-- The report that an act raises. -/
def Act.raised? : Act → Option Report
  | .raise fault span _ => some (.ofFault fault (some span))
  | _ => none

/-- The source text that acts feed, up to its end. -/
def source (acts : List Act) : List Char :=
  (acts.takeWhile (· ≠ .finish)).filterMap Act.fed?

/-- The reports that acts raise, in order. -/
def raised (acts : List Act) : List Report :=
  acts.filterMap Act.raised?

/-- Whether a report has to wait, as its line has no end yet. -/
def waits (acts : List Act) (r : Report) : Bool :=
  .finish ∉ acts && r.line?.any ((source acts).count '\n' < ·)

/-- The report with the text of its line in the source, if the source has that line. -/
def quoted (acts : List Act) (r : Report) : Report :=
  r.withExcerpt (r.line?.bind fun line ↦ (Text.lines (String.ofList (source acts)))[line - 1]?)

/-- Diagnostics that have given out every report but those that wait, once each, with its line. -/
structure Delivered (acts : List Act) (d : Diagnostics) : Prop where
  /-- The reports given out and the waiting ones are those raised. -/
  perm : (d.emitted.map (·.withExcerpt none) ++ d.pending).Perm (raised acts)
  pending : d.pending = (raised acts).filter (waits acts)
  /-- What is given out quotes its own line. -/
  emitted : d.emitted.Perm (((raised acts).filter (!waits acts ·)).map (quoted acts))
  /-- The reports of one line are given out in the order they were raised in. -/
  order : ∀ line, d.emitted.filter (·.line? = some line) =
    (((raised acts).filter (!waits acts ·)).filter (·.line? = some line)).map (quoted acts)
  finished : .finish ∈ acts → d.pending = []

/-! ### Reports of one line -/

/-- Whether a report is ready is a matter of its line. -/
theorem ready_congr (d : Diagnostics) {r r' : Report} (h : r.line? = r'.line?) :
    d.ready r = d.ready r' := by
  rw [ready, ready, h]

@[simp]
theorem line?_annotate (d : Diagnostics) (r : Report) : (d.annotate r).line? = r.line? := by
  unfold annotate
  split <;> rfl

/-- What is ready stays so when another line is completed. -/
theorem ready_completeLine {d : Diagnostics} {r : Report} (h : d.ready r) :
    d.completeLine.ready r := by
  unfold ready at h ⊢
  rcases hline : r.line? with - | line
  · simp
  · simp only [hline, Bool.or_eq_true, decide_eq_true_eq] at h
    simp only [completeLine, Array.size_push, Bool.or_eq_true, decide_eq_true_eq]
    exact h.imp_right Nat.le_succ_of_le

/-- Completed lines keep their texts. -/
theorem annotate_completeLine {d : Diagnostics} (hfinished : d.finished = false) {r : Report}
    (h : d.ready r) : d.completeLine.annotate r = d.annotate r := by
  have htext (line : Nat) (hline : r.line? = some line) :
      d.completeLine.lineText? line = d.lineText? line := by
    simp only [ready, hline, hfinished, Bool.false_or, decide_eq_true_eq] at h
    unfold lineText?
    split
    · rfl
    · have hlt : line - 1 < d.lines.size := by omega
      rw [completeLine, Array.getElem?_push_lt hlt, Array.getElem?_eq_getElem hlt]
  unfold annotate
  split
  · rename_i hline hexcerpt
    simp only [htext _ hline]
  · rfl

/-- A report raised is given out with its line if it is ready, and waits if it is not. -/
theorem raise_eq (d : Diagnostics) (fault : Fault) (span : Span) :
    d.raise fault span =
      if d.ready (.ofFault fault (some span)) then
        { d with failed := true, emitted := d.emitted ++ [d.annotate (.ofFault fault (some span))] }
      else { d with failed := true, pending := d.pending ++ [.ofFault fault (some span)] } :=
  rfl

/-- The reports raised have been given out if they are ready, those of one line in order, and the
others wait. -/
structure Settled (raised : List Report) (d : Diagnostics) : Prop where
  pending : d.pending = raised.filter (!d.ready ·)
  emitted : ∀ line?, d.emitted.filter (·.line? = line?) =
    ((raised.filter d.ready).filter (·.line? = line?)).map d.annotate

theorem settled_empty : Settled [] empty :=
  ⟨rfl, fun _ ↦ rfl⟩

/-- Filtering by what all reports have in common keeps all of them or none. -/
theorem filter_filter_of_const {p q : Report → Bool} {b : Bool} (h : ∀ r, q r → p r = b)
    (reports : List Report) :
    (reports.filter p).filter q = if b then reports.filter q else [] := by
  have hand (r : Report) : (q r && p r) = (b && q r) := by
    cases hq : q r with
    | false => simp
    | true => simp [h r hq]
  rw [List.filter_filter, List.filter_congr fun r _ ↦ hand r]
  cases b <;> simp

namespace Settled

variable {reports : List Report} {d : Diagnostics}

/-- Flushing gives out what has become ready. -/
theorem flush {d' : Diagnostics} (h : Settled reports d) (hpending : d'.pending = d.pending)
    (hemitted : d'.emitted = d.emitted) (hready : ∀ r, d.ready r → d'.ready r)
    (hannotate : ∀ r, d.ready r → d'.annotate r = d.annotate r) : Settled reports d'.flush := by
  rw [flush_eq, hpending, hemitted, h.pending]
  constructor
  · show (reports.filter (!d.ready ·)).filter (!d'.ready ·) = reports.filter (!d'.ready ·)
    rw [List.filter_filter]
    refine List.filter_congr fun r _ ↦ ?_
    cases hr : d.ready r
    · simp
    · simp [hready r hr]
  · intro line?
    show (d.emitted ++ ((reports.filter (!d.ready ·)).filter d'.ready).map d'.annotate).filter
        (·.line? = line?) =
      ((reports.filter d'.ready).filter (·.line? = line?)).map d'.annotate
    -- the reports of the line were ready before or they were not, all alike
    obtain ⟨probe, hprobe⟩ : ∃ r : Report, r.line? = line? :=
      ⟨⟨.noFunctions, line?.map (⟨·, 0⟩), none⟩, by cases line? <;> rfl⟩
    have halike (d : Diagnostics) (r : Report) (hr : decide (r.line? = line?)) :
        d.ready r = d.ready probe :=
      d.ready_congr ((of_decide_eq_true hr).trans hprobe.symm)
    have hwaiting (r : Report) (hr : decide (r.line? = line?)) : (!d.ready r) = !d.ready probe := by
      rw [halike d r hr]
    rw [List.filter_append, h.emitted, List.filter_map]
    simp only [Function.comp_def, line?_annotate]
    rw [filter_filter_of_const (halike d), filter_filter_of_const (halike d'),
      filter_filter_of_const (halike d'), filter_filter_of_const hwaiting]
    cases hnow : d.ready probe with
    | false => simp
    | true =>
      have hshown : ∀ r ∈ reports.filter (·.line? = line?), d.annotate r = d'.annotate r :=
        fun r hr ↦ (hannotate r ((halike d r (List.mem_filter.mp hr).2).trans hnow)).symm
      simp [hready probe hnow, List.map_congr_left hshown]

theorem raise (h : Settled reports d) (fault : Fault) (span : Span) :
    Settled (reports ++ [.ofFault fault (some span)]) (d.raise fault span) := by
  rw [raise_eq]
  cases hr : d.ready (.ofFault fault (some span)) with
  | true =>
    constructor
    · show d.pending = (reports ++ [Report.ofFault fault (some span)]).filter (!d.ready ·)
      rw [List.filter_append, ← h.pending]
      simp [hr]
    · intro line?
      show (d.emitted ++ [d.annotate (.ofFault fault (some span))]).filter (·.line? = line?) =
        (((reports ++ [Report.ofFault fault (some span)]).filter d.ready).filter
          (·.line? = line?)).map d.annotate
      rw [List.filter_append, h.emitted, List.filter_append, List.filter_append, List.map_append]
      congr 1
      rw [List.filter_singleton, List.filter_singleton, hr, line?_annotate]
      by_cases hline : (Report.ofFault fault (some span)).line? = line? <;> simp [hline]
  | false =>
    constructor
    · show d.pending ++ [Report.ofFault fault (some span)] =
        (reports ++ [Report.ofFault fault (some span)]).filter (!d.ready ·)
      rw [List.filter_append, ← h.pending]
      simp [hr]
    · intro line?
      show d.emitted.filter (·.line? = line?) =
        (((reports ++ [Report.ofFault fault (some span)]).filter d.ready).filter
          (·.line? = line?)).map d.annotate
      rw [List.filter_append, h.emitted]
      simp [hr]

theorem feed (h : Settled reports d) (c : Char) : Settled reports (d.feed c) := by
  unfold Diagnostics.feed
  split
  · exact h
  · split
    · rename_i hfinished _
      exact h.flush rfl rfl (fun _ ↦ ready_completeLine) fun _ ↦
        annotate_completeLine ((Bool.not_eq_true _).mp hfinished)
    · split
      · exact h
      · exact ⟨h.pending, h.emitted⟩

theorem finish (h : Settled reports d) : Settled reports d.finish := by
  unfold Diagnostics.finish
  split
  · exact h
  · rename_i hfinished
    have hready (d : Diagnostics) (r : Report) : ready { d with finished := true } r = true := rfl
    dsimp only
    split
    · exact h.flush rfl rfl (fun r _ ↦ hready d r) fun _ _ ↦ rfl
    · exact h.flush rfl rfl (fun r _ ↦ hready d.completeLine r) fun r hr ↦
        annotate_completeLine ((Bool.not_eq_true _).mp hfinished) hr

/-- What is ready has been given out, each report once. -/
theorem perm (h : Settled reports d) : d.emitted.Perm ((reports.filter d.ready).map d.annotate) := by
  -- equal reports are of one line
  refine List.perm_iff_count.mpr fun r ↦ ?_
  have hcount (reports : List Report) :
      (reports.filter (·.line? = r.line?)).count r = reports.count r :=
    List.count_filter (decide_eq_true rfl)
  rw [← hcount, h.emitted, ← hcount ((reports.filter d.ready).map d.annotate), List.filter_map]
  simp only [Function.comp_def, line?_annotate]

end Settled

/-! ### Lines of the source -/

/-- The text of completed lines and of the beginning of the next one. -/
def joined (lines : List String) (part : List Char) : List Char :=
  lines.flatMap (·.toList ++ ['\n']) ++ part

theorem breakLine_of_not_mem {line : List Char} (h : '\n' ∉ line) :
    Text.breakLine line = (line, none) := by
  induction line with
  | nil => rfl
  | cons c line ih =>
    obtain ⟨hc, hline⟩ := not_or.mp (mt List.mem_cons.mpr h)
    rw [Text.breakLine, ih hline]
    exact fun h ↦ hc h.symm

theorem breakLine_append {line : List Char} (h : '\n' ∉ line) (rest : List Char) :
    Text.breakLine (line ++ '\n' :: rest) = (line, some rest) := by
  induction line with
  | nil => rfl
  | cons c line ih =>
    obtain ⟨hc, hline⟩ := not_or.mp (mt List.mem_cons.mpr h)
    rw [List.cons_append, Text.breakLine, ih hline]
    exact fun h ↦ hc h.symm

theorem trimReturn_of_not_mem {line : List Char} (h : '\r' ∉ line) : Text.trimReturn line = line :=
  if_neg fun hlast ↦ h (List.mem_of_getLast? hlast)

theorem linesFrom_joined {lines : List String} {part : List Char}
    (hlines : ∀ line ∈ lines, '\n' ∉ line.toList ∧ '\r' ∉ line.toList) (hpart : '\n' ∉ part)
    {fuel : Nat} (hfuel : (joined lines part).length < fuel) :
    Text.linesFrom fuel (joined lines part) =
      lines ++ if part = [] then [] else [String.ofList part] := by
  induction lines generalizing fuel with
  | nil =>
    obtain ⟨fuel, rfl⟩ := Nat.exists_eq_add_of_lt (Nat.zero_lt_of_lt hfuel)
    cases part with
    | nil => rw [Nat.zero_add]; rfl
    | cons c part =>
      rw [Nat.zero_add, joined, List.flatMap_nil, List.nil_append, Text.linesFrom,
        breakLine_of_not_mem hpart]
      · rfl
      · exact fun h ↦ nomatch h
  | cons line lines ih =>
    obtain ⟨hline, hmore⟩ := List.forall_mem_cons.mp hlines
    have hjoined : joined (line :: lines) part = line.toList ++ '\n' :: joined lines part := by
      simp [joined]
    rw [hjoined, List.length_append, List.length_cons] at hfuel
    obtain ⟨fuel, rfl⟩ := Nat.exists_eq_add_of_lt (Nat.zero_lt_of_lt hfuel)
    rw [Nat.zero_add, hjoined, Text.linesFrom, breakLine_append hline.1]
    · dsimp only
      rw [trimReturn_of_not_mem hline.2, String.ofList_toList, ih hmore (by omega), List.cons_append]
    · exact List.append_ne_nil_of_right_ne_nil _ (List.cons_ne_nil _ _)

theorem lines_joined {lines : List String} {part : List Char}
    (hlines : ∀ line ∈ lines, '\n' ∉ line.toList ∧ '\r' ∉ line.toList) (hpart : '\n' ∉ part) :
    Text.lines (String.ofList (joined lines part)) =
      lines ++ if part = [] then [] else [String.ofList part] := by
  rw [Text.lines, String.toList_ofList, String.length_ofList]
  exact linesFrom_joined hlines hpart (Nat.lt_succ_self _)

/-- Every completed line ends with one newline. -/
theorem count_joined {lines : List String} {part : List Char}
    (hlines : ∀ line ∈ lines, '\n' ∉ line.toList ∧ '\r' ∉ line.toList) (hpart : '\n' ∉ part) :
    (joined lines part).count '\n' = lines.length := by
  induction lines with
  | nil => exact List.count_eq_zero.mpr hpart
  | cons line lines ih =>
    obtain ⟨hline, hmore⟩ := List.forall_mem_cons.mp hlines
    have hjoined : joined (line :: lines) part = line.toList ++ '\n' :: joined lines part := by
      simp [joined]
    rw [hjoined, List.count_append, List.count_eq_zero.mpr hline.1, List.count_cons_self, ih hmore,
      Nat.zero_add, List.length_cons]

/-! ### Reading the source -/

theorem finish_mem_append {acts : List Act} {a : Act} :
    .finish ∈ acts ++ [a] ↔ .finish ∈ acts ∨ a = .finish := by
  simp [eq_comm]

theorem ne_finish {acts : List Act} (h : .finish ∉ acts) :
    ∀ a ∈ acts, decide (a ≠ .finish) = true :=
  fun _ ha ↦ decide_eq_true fun heq ↦ h (heq ▸ ha)

/-- Behind its end nothing is added to the source. -/
theorem source_append_of_mem {acts : List Act} (h : .finish ∈ acts) (a : Act) :
    source (acts ++ [a]) = source acts := by
  obtain ⟨before, rest, rfl, hbefore⟩ := List.eq_append_cons_of_mem h
  rw [source, source, List.append_assoc, List.takeWhile_append_of_pos (ne_finish hbefore),
    List.takeWhile_append_of_pos (ne_finish hbefore), List.cons_append]
  rfl

theorem source_append_of_not_mem {acts : List Act} (h : .finish ∉ acts) (a : Act) :
    source (acts ++ [a]) = source acts ++ a.fed?.toList := by
  have hacts : (acts ++ []).takeWhile (· ≠ Act.finish) = acts ++ [] :=
    List.takeWhile_append_of_pos (ne_finish h)
  rw [List.append_nil] at hacts
  rw [source, source, List.takeWhile_append_of_pos (ne_finish h), hacts, List.filterMap_append]
  cases a with
  | feed c => by_cases hc : c = '\r' <;> simp [Act.fed?, hc]
  | raise | finish => rfl

/-- What does not feed a character leaves the source as it is. -/
theorem source_append_of_none {acts : List Act} {a : Act} (h : a.fed? = none) :
    source (acts ++ [a]) = source acts := by
  by_cases hend : .finish ∈ acts
  · exact source_append_of_mem hend a
  · rw [source_append_of_not_mem hend, h]
    exact List.append_nil _

/-- What has been read of the source. -/
structure Reading (acts : List Act) (d : Diagnostics) : Prop where
  finished : d.finished = true ↔ .finish ∈ acts
  line : ∀ line ∈ d.lines.toList, '\n' ∉ line.toList ∧ '\r' ∉ line.toList
  partialLine : '\n' ∉ d.partialLine ∧ '\r' ∉ d.partialLine
  source : .finish ∉ acts → source acts = joined d.lines.toList d.partialLine.reverse
  /-- At the end the last line is complete, too. -/
  lines : .finish ∈ acts → Text.lines (String.ofList (Diagnostics.source acts)) = d.lines.toList

theorem reading_empty : Reading [] empty :=
  ⟨by simp [empty], fun _ h ↦ (nomatch h), by simp [empty], fun _ ↦ rfl, fun h ↦ nomatch h⟩

namespace Reading

variable {acts : List Act} {d : Diagnostics}

/-- Giving reports out reads nothing. -/
theorem flush (h : Reading acts d) : Reading acts d.flush := by
  rw [flush_eq]
  exact ⟨h.finished, h.line, h.partialLine, h.source, h.lines⟩

/-- Acts that add nothing to the source leave what has been read as it is. -/
theorem append {a : Act} (h : Reading acts d) (hend : a ≠ .finish)
    (hsource : Diagnostics.source (acts ++ [a]) = Diagnostics.source acts) : Reading (acts ++ [a]) d := by
  have hmem : .finish ∈ acts ++ [a] ↔ .finish ∈ acts :=
    finish_mem_append.trans (or_iff_left hend)
  refine ⟨h.finished.trans hmem.symm, h.line, h.partialLine, ?_, ?_⟩
  · rw [hmem, hsource]
    exact h.source
  · rw [hmem, hsource]
    exact h.lines

/-- The line that has been read is completed. -/
theorem line_completeLine (h : Reading acts d) :
    ∀ line ∈ d.completeLine.lines.toList, '\n' ∉ line.toList ∧ '\r' ∉ line.toList := by
  intro line hline
  simp only [Diagnostics.completeLine, Array.toList_push, List.mem_append, List.mem_singleton] at hline
  rcases hline with hline | rfl
  · exact h.line line hline
  · rw [String.toList_ofList, List.mem_reverse, List.mem_reverse]
    exact h.partialLine

theorem joined_completeLine (d : Diagnostics) :
    joined d.completeLine.lines.toList [] =
      joined d.lines.toList d.partialLine.reverse ++ ['\n'] := by
  simp [joined, Diagnostics.completeLine]

theorem feed (h : Reading acts d) (c : Char) : Reading (acts ++ [.feed c]) (d.feed c) := by
  have hne : Act.feed c ≠ .finish := fun h ↦ nomatch h
  have hmem : .finish ∈ acts ++ [.feed c] ↔ .finish ∈ acts :=
    finish_mem_append.trans (or_iff_left hne)
  unfold Diagnostics.feed
  split
  · rename_i hfinished
    exact h.append hne (source_append_of_mem (h.finished.mp hfinished) _)
  · rename_i hfinished
    have hreading := mt h.finished.mpr hfinished
    have hsource := source_append_of_not_mem hreading (.feed c)
    rw [h.source hreading] at hsource
    split
    · rename_i hline
      subst hline
      refine flush ⟨h.finished.trans hmem.symm, h.line_completeLine, by simp [completeLine],
        fun _ ↦ ?_, fun hend ↦ absurd (hmem.mp hend) hreading⟩
      rw [hsource]
      exact (joined_completeLine d).symm
    · split
      · rename_i hreturn
        exact h.append hne (source_append_of_none (if_pos hreturn))
      · rename_i hline hreturn
        refine ⟨h.finished.trans hmem.symm, h.line, ?_, fun _ ↦ ?_,
          fun hend ↦ absurd (hmem.mp hend) hreading⟩
        · exact ⟨by simp [h.partialLine.1, Ne.symm hline], by simp [h.partialLine.2, Ne.symm hreturn]⟩
        · rw [hsource]
          simp [joined, Act.fed?, hreturn]

theorem raise (h : Reading acts d) (fault : Fault) (span : Span) (hline : 1 ≤ span.line) :
    Reading (acts ++ [.raise fault span hline]) (d.raise fault span) := by
  have hsame := h.append (a := .raise fault span hline) (fun h ↦ nomatch h) (source_append_of_none rfl)
  rw [raise_eq]
  split
  · exact ⟨hsame.finished, hsame.line, hsame.partialLine, hsame.source, hsame.lines⟩
  · exact ⟨hsame.finished, hsame.line, hsame.partialLine, hsame.source, hsame.lines⟩

theorem finish (h : Reading acts d) : Reading (acts ++ [.finish]) d.finish := by
  have hsource : Diagnostics.source (acts ++ [.finish]) = Diagnostics.source acts :=
    source_append_of_none rfl
  have hmem : .finish ∈ acts ++ [Act.finish] := finish_mem_append.mpr (.inr rfl)
  unfold Diagnostics.finish
  split
  · rename_i hfinished
    refine ⟨iff_of_true hfinished hmem, h.line, h.partialLine, fun hnot ↦ absurd hmem hnot, fun _ ↦ ?_⟩
    rw [hsource]
    exact h.lines (h.finished.mp hfinished)
  · rename_i hfinished
    have hnone : '\n' ∉ d.partialLine.reverse := by simp [h.partialLine.1]
    have hlines := lines_joined h.line hnone
    rw [← h.source (mt h.finished.mpr hfinished)] at hlines
    dsimp only
    split
    · rename_i hpart
      refine flush ⟨iff_of_true rfl hmem, h.line, h.partialLine, fun hnot ↦ absurd hmem hnot, fun _ ↦ ?_⟩
      rw [hsource, hlines, List.isEmpty_iff.mp hpart]
      exact List.append_nil _
    · rename_i hpart
      refine flush ⟨iff_of_true rfl hmem, h.line_completeLine, by simp [completeLine],
        fun hnot ↦ absurd hmem hnot, fun _ ↦ ?_⟩
      rw [hsource, hlines, if_neg (by simpa using hpart)]
      exact Array.toList_push.symm

/-- A line has been completed if a newline has ended it, or the source has ended. -/
theorem ready_eq (h : Reading acts d) (r : Report) : d.ready r = !waits acts r := by
  have hcount (hend : .finish ∉ acts) : (Diagnostics.source acts).count '\n' = d.lines.size := by
    rw [h.source hend, count_joined h.line (by simp [h.partialLine.1]), Array.length_toList]
  by_cases hend : .finish ∈ acts
  · simp [ready, waits, hend, h.finished.mpr hend]
  · have hfinished : d.finished = false := (Bool.not_eq_true _).mp (mt h.finished.mp hend)
    rcases hline : r.line? with - | line
    · simp [ready, waits, hline]
    · simp [ready, waits, hline, hend, hfinished, hcount hend, ← decide_not]

/-- What is given out quotes the source. -/
theorem annotate_eq (h : Reading acts d) {fault : Fault} {span : Span} (hspan : 1 ≤ span.line)
    (hready : d.ready (.ofFault fault (some span))) :
    d.annotate (.ofFault fault (some span)) = quoted acts (.ofFault fault (some span)) := by
  have htext : d.lineText? span.line =
      (Text.lines (String.ofList (Diagnostics.source acts)))[span.line - 1]? := by
    rw [lineText?, if_neg (by omega)]
    by_cases hend : .finish ∈ acts
    · rw [h.lines hend, Array.getElem?_toList]
    · have hlt : span.line - 1 < d.lines.size := by
        simp [ready, Report.ofFault, Report.line?, mt h.finished.mp hend] at hready
        omega
      have hnone : '\n' ∉ d.partialLine.reverse := by simp [h.partialLine.1]
      rw [h.source hend, lines_joined h.line hnone, List.getElem?_append_left (by simpa using hlt),
        Array.getElem?_toList]
  exact congrArg (Report.withExcerpt _) htext

end Reading

/-! ### Whole rows of acts -/

theorem raised_append (acts : List Act) (a : Act) :
    raised (acts ++ [a]) = raised acts ++ a.raised?.toList := by
  rw [raised, raised, List.filterMap_append]
  cases a <;> rfl

theorem after_append (acts : List Act) (a : Act) : after (acts ++ [a]) = (after acts).act a := by
  rw [after, List.foldl_append]
  rfl

theorem settled_after (acts : List Act) : Settled (raised acts) (after acts) := by
  induction acts using List.reverseRecOn with
  | nil => exact settled_empty
  | append_singleton acts a ih =>
    rw [raised_append, after_append]
    cases a with
    | feed c => exact (List.append_nil (raised acts)).symm ▸ ih.feed c
    | raise fault span hline => exact ih.raise fault span
    | finish => exact (List.append_nil (raised acts)).symm ▸ ih.finish

theorem reading_after (acts : List Act) : Reading acts (after acts) := by
  induction acts using List.reverseRecOn with
  | nil => exact reading_empty
  | append_singleton acts a ih =>
    rw [after_append]
    cases a with
    | feed c => exact ih.feed c
    | raise fault span hline => exact ih.raise fault span hline
    | finish => exact ih.finish

theorem exists_of_mem_raised {acts : List Act} {r : Report} (h : r ∈ raised acts) :
    ∃ fault span, 1 ≤ span.line ∧ r = .ofFault fault (some span) := by
  obtain ⟨a, -, ha⟩ := List.mem_filterMap.mp h
  cases a with
  | raise fault span hline => exact ⟨fault, span, hline, (Option.some.inj ha).symm⟩
  | feed | finish => cases ha

/-- However acts are interleaved, every report raised is given out once, with its own line and behind
those raised before it about that line, as soon as the line is complete or the source has ended. -/
theorem delivered (acts : List Act) : Delivered acts (after acts) := by
  have hsettled := settled_after acts
  have hreading := reading_after acts
  have hready : (raised acts).filter (after acts).ready = (raised acts).filter (!waits acts ·) :=
    List.filter_congr fun r _ ↦ hreading.ready_eq r
  have hpending : (after acts).pending = (raised acts).filter (waits acts) :=
    hsettled.pending.trans (List.filter_congr fun r _ ↦ by rw [hreading.ready_eq, Bool.not_not])
  have hquoted : ∀ r ∈ (raised acts).filter (!waits acts ·), (after acts).annotate r = quoted acts r := by
    intro r hr
    obtain ⟨hmem, hnot⟩ := List.mem_filter.mp hr
    obtain ⟨fault, span, hspan, rfl⟩ := exists_of_mem_raised hmem
    exact hreading.annotate_eq hspan ((hreading.ready_eq _).trans hnot)
  have hemitted : (after acts).emitted.Perm (((raised acts).filter (!waits acts ·)).map (quoted acts)) := by
    rw [← List.map_congr_left hquoted, ← hready]
    exact hsettled.perm
  refine ⟨?_, hpending, hemitted, fun line ↦ ?_, fun hend ↦ ?_⟩
  · have hplain : ∀ r ∈ (raised acts).filter (!waits acts ·),
        ((·.withExcerpt none) ∘ quoted acts) r = id r := by
      intro r hr
      obtain ⟨fault, span, -, rfl⟩ := exists_of_mem_raised (List.mem_of_mem_filter hr)
      rfl
    have hstripped := hemitted.map (·.withExcerpt none)
    rw [List.map_map, List.map_congr_left hplain, List.map_id] at hstripped
    rw [hpending]
    have hall := List.filter_append_perm (!waits acts ·) (raised acts)
    simp only [Bool.not_not] at hall
    exact (hstripped.append_right _).trans hall
  · rw [hsettled.emitted, hready]
    exact List.map_congr_left fun r hr ↦ hquoted r (List.mem_of_mem_filter hr)
  · rw [hpending]
    exact List.filter_eq_nil_iff.mpr fun r _ ↦ by simp [waits, hend]

end StackScript.Diagnostics
