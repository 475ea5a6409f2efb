import Mathlib.Data.List.DropRight
import StackScript.Proofs.Source.Delivery
import StackScript.Proofs.Source.Tiling

/-!
# Lines and carriage returns

The lines of a text are one by one those that its newlines end, and what is behind the last newline
(`lines_append`, `lines_last`). Without carriage returns a text has the same lines without them, but for
a last line of nothing else (`getElem?_lines_withoutReturns`). A position in a text divides the line that it
is on (`getD_getElem?_lines`).
-/

namespace StackScript.Text

open Diagnostics (breakLine_of_not_mem breakLine_append trimReturn_of_not_mem)

/-- Texts are built up by putting lines before them. -/
theorem line_induction {motive : List Char → Prop} (last : ∀ line, '\n' ∉ line → motive line)
    (cons : ∀ line rest, '\n' ∉ line → motive rest → motive (line ++ '\n' :: rest)) (text : List Char) :
    motive text := by
  induction hn : text.length using Nat.strongRecOn generalizing text with
  | ind n ih =>
    by_cases h : '\n' ∈ text
    · obtain ⟨line, rest, rfl, hline⟩ := List.eq_append_cons_of_mem h
      refine cons line rest hline (ih rest.length ?_ rest rfl)
      rw [← hn, List.length_append, List.length_cons]
      omega
    · exact last text h

/-! ### One line at a time -/

theorem linesFrom_last {line : List Char} (h : '\n' ∉ line) (fuel : Nat) :
    linesFrom (fuel + 1) line = if line = [] then [] else [String.ofList line] := by
  cases line with
  | nil => rfl
  | cons c line =>
    rw [linesFrom, breakLine_of_not_mem h]
    · rfl
    · exact List.cons_ne_nil _ _

theorem linesFrom_append {line : List Char} (h : '\n' ∉ line) (rest : List Char) (fuel : Nat) :
    linesFrom (fuel + 1) (line ++ '\n' :: rest) =
      String.ofList (trimReturn line) :: linesFrom fuel rest := by
  rw [linesFrom, breakLine_append h]
  exact List.append_ne_nil_of_right_ne_nil _ (List.cons_ne_nil _ _)

/-- There is no use for more fuel than a text has characters. -/
theorem linesFrom_congr {text : List Char} {fuel fuel' : Nat} (h : text.length < fuel)
    (h' : text.length < fuel') : linesFrom fuel text = linesFrom fuel' text := by
  induction text using line_induction generalizing fuel fuel' with
  | last line hline =>
    obtain ⟨fuel, rfl⟩ := Nat.exists_eq_succ_of_ne_zero (Nat.ne_zero_of_lt h)
    obtain ⟨fuel', rfl⟩ := Nat.exists_eq_succ_of_ne_zero (Nat.ne_zero_of_lt h')
    rw [linesFrom_last hline, linesFrom_last hline]
  | cons line rest hline ih =>
    obtain ⟨fuel, rfl⟩ := Nat.exists_eq_succ_of_ne_zero (Nat.ne_zero_of_lt h)
    obtain ⟨fuel', rfl⟩ := Nat.exists_eq_succ_of_ne_zero (Nat.ne_zero_of_lt h')
    rw [List.length_append, List.length_cons] at h h'
    rw [linesFrom_append hline, linesFrom_append hline]
    exact congrArg _ (ih (by omega) (by omega))

theorem linesFrom_eq_lines {text : List Char} {fuel : Nat} (h : text.length < fuel) :
    linesFrom fuel text = lines (String.ofList text) := by
  rw [lines, String.toList_ofList, String.length_ofList]
  exact linesFrom_congr h (Nat.lt_succ_self _)

/-- Behind the last newline of a text there is a line, or nothing. -/
theorem lines_last {line : List Char} (h : '\n' ∉ line) :
    lines (String.ofList line) = if line = [] then [] else [String.ofList line] := by
  rw [← linesFrom_eq_lines (Nat.lt_succ_self _), linesFrom_last h]

/-- A newline ends a line. -/
theorem lines_append {line : List Char} (h : '\n' ∉ line) (rest : List Char) :
    lines (String.ofList (line ++ '\n' :: rest)) =
      String.ofList (trimReturn line) :: lines (String.ofList rest) := by
  rw [← linesFrom_eq_lines (Nat.lt_succ_self _), linesFrom_append h, linesFrom_eq_lines]
  rw [List.length_append, List.length_cons]
  omega

/-! ### Carriage returns -/

/-- A text without its carriage returns. -/
def withoutReturns (text : List Char) : List Char :=
  text.filter (· ≠ '\r')

theorem withoutReturns_append (text more : List Char) :
    withoutReturns (text ++ more) = withoutReturns text ++ withoutReturns more :=
  List.filter_append _ _

theorem withoutReturns_newline (rest : List Char) :
    withoutReturns ('\n' :: rest) = '\n' :: withoutReturns rest :=
  rfl

theorem mem_withoutReturns {text : List Char} {c : Char} :
    c ∈ withoutReturns text ↔ c ∈ text ∧ c ≠ '\r' := by
  simp [withoutReturns]

theorem return_not_mem_withoutReturns (text : List Char) : '\r' ∉ withoutReturns text :=
  fun h ↦ (mem_withoutReturns.mp h).2 rfl

theorem newline_mem_withoutReturns {text : List Char} : '\n' ∈ withoutReturns text ↔ '\n' ∈ text :=
  mem_withoutReturns.trans (and_iff_left (by decide))

theorem withoutReturns_eq_self {text : List Char} (h : '\r' ∉ text) : withoutReturns text = text :=
  List.filter_eq_self.mpr fun _ hc ↦ decide_eq_true fun heq ↦ h (heq ▸ hc)

theorem count_newline_withoutReturns (text : List Char) :
    (withoutReturns text).count '\n' = text.count '\n' :=
  List.count_filter (by decide)

/-- The carriage return before a newline is dropped with the others. -/
theorem withoutReturns_trimReturn (line : List Char) :
    withoutReturns (trimReturn line) = withoutReturns line := by
  unfold trimReturn
  split
  · rename_i hlast
    obtain ⟨before, rfl⟩ := List.getLast?_eq_some_iff.mp hlast
    rw [List.dropLast_concat, withoutReturns_append]
    exact (List.append_nil _).symm
  · rfl

/-- Without its carriage returns a text has its lines without theirs. Only a last line that consists of
carriage returns is lost. -/
theorem getElem?_lines_withoutReturns (text : List Char) (k : Nat) :
    (lines (String.ofList (withoutReturns text)))[k]? =
        ((lines (String.ofList text))[k]?).map (fun line ↦ String.ofList (withoutReturns line.toList)) ∨
      (lines (String.ofList (withoutReturns text)))[k]? = none ∧
        ∃ line, (lines (String.ofList text))[k]? = some line ∧ '\r' ∈ line.toList ∧
          withoutReturns line.toList = [] := by
  induction text using line_induction generalizing k with
  | last line hline =>
    rw [lines_last hline, lines_last (mt newline_mem_withoutReturns.mp hline)]
    by_cases hnil : line = []
    · exact .inl (by simp [hnil, withoutReturns])
    by_cases hblank : withoutReturns line = []
    · have hreturn : '\r' ∈ line :=
        not_not.mp fun hnone ↦ hnil ((withoutReturns_eq_self hnone).symm.trans hblank)
      cases k with
      | zero => exact .inr ⟨by simp [hblank], String.ofList line, by simp [hnil], by simpa, by simpa⟩
      | succ k => exact .inl (by simp [hnil, hblank])
    · cases k with
      | zero => exact .inl (by simp [hnil, hblank])
      | succ k => exact .inl (by simp [hnil, hblank])
  | cons line rest hline ih =>
    rw [withoutReturns_append, withoutReturns_newline, lines_append hline,
      lines_append (mt newline_mem_withoutReturns.mp hline),
      trimReturn_of_not_mem (return_not_mem_withoutReturns line)]
    cases k with
    | zero =>
      refine .inl (congrArg some ?_)
      dsimp only
      rw [String.toList_ofList, withoutReturns_trimReturn]
    | succ k => exact ih k

/-! ### The line of a position -/

/-- The part before a position of the line that it is on, where `before` is the text up to it. -/
def lineBefore (before : List Char) : List Char :=
  before.rtakeWhile (· ≠ '\n')

/-- The part behind a position of the line that it is on, where `after` is the text from it on. -/
def lineAfter (after : List Char) : List Char :=
  after.takeWhile (· ≠ '\n')

theorem takeWhile_of_not_mem {line : List Char} (h : '\n' ∉ line) (rest : List Char) :
    (line ++ rest).takeWhile (· ≠ '\n') = line ++ rest.takeWhile (· ≠ '\n') :=
  List.takeWhile_append_of_pos fun _ hc ↦ decide_eq_true fun heq ↦ h (heq ▸ hc)

theorem lineAfter_append {line : List Char} (h : '\n' ∉ line) (rest : List Char) :
    lineAfter (line ++ '\n' :: rest) = line :=
  (takeWhile_of_not_mem h _).trans (List.append_nil _)

theorem lineAfter_last {line : List Char} (h : '\n' ∉ line) : lineAfter line = line := by
  have hline := takeWhile_of_not_mem h []
  rwa [List.append_nil, List.takeWhile_nil, List.append_nil] at hline

theorem lineBefore_last {line : List Char} (h : '\n' ∉ line) : lineBefore line = line := by
  have hline : line.reverse.takeWhile (· ≠ '\n') = line.reverse := lineAfter_last (by simpa using h)
  rw [lineBefore, List.rtakeWhile, hline, List.reverse_reverse]

/-- What is before the last newline is not on the line. -/
theorem lineBefore_append (line rest : List Char) :
    lineBefore (line ++ '\n' :: rest) = lineBefore rest := by
  have hstop (text more : List Char) :
      (text ++ '\n' :: more).takeWhile (· ≠ '\n') = text.takeWhile (· ≠ '\n') := by
    induction text with
    | nil => rfl
    | cons c text ih => simp only [List.cons_append, List.takeWhile_cons, ih]
  rw [lineBefore, lineBefore, List.rtakeWhile, List.rtakeWhile, List.reverse_append,
    List.reverse_cons, List.append_assoc]
  exact congrArg List.reverse (hstop _ _)

theorem column_behind (before : List Char) :
    (Span.behind before).column = (lineBefore before).length + 1 := by
  rw [lineBefore, List.rtakeWhile, List.length_reverse, Nat.add_comm]
  rfl

theorem lineAfter_withoutReturns (after : List Char) :
    lineAfter (withoutReturns after) = withoutReturns (lineAfter after) := by
  by_cases h : '\n' ∈ after
  · obtain ⟨line, rest, rfl, hline⟩ := List.eq_append_cons_of_mem h
    rw [withoutReturns_append, withoutReturns_newline, lineAfter_append hline,
      lineAfter_append (mt newline_mem_withoutReturns.mp hline)]
  · rw [lineAfter_last h, lineAfter_last (mt newline_mem_withoutReturns.mp h)]

theorem lineBefore_withoutReturns (before : List Char) :
    lineBefore (withoutReturns before) = withoutReturns (lineBefore before) := by
  induction before using line_induction with
  | last line hline =>
    rw [lineBefore_last hline, lineBefore_last (mt newline_mem_withoutReturns.mp hline)]
  | cons line rest hline ih =>
    rw [withoutReturns_append, withoutReturns_newline, lineBefore_append, lineBefore_append, ih]

/-- The line of a position is what is before the position on it, and what is behind. If there is no such
line, there is nothing on it. -/
theorem getD_getElem?_lines {before after : List Char} (hbefore : '\r' ∉ before) (hafter : '\r' ∉ after) :
    ((lines (String.ofList (before ++ after)))[before.count '\n']?.getD "").toList =
      lineBefore before ++ lineAfter after := by
  induction before using line_induction with
  | last start hstart =>
    rw [List.count_eq_zero.mpr hstart, lineBefore_last hstart]
    by_cases hend : '\n' ∈ after
    · obtain ⟨rest, more, rfl, hrest⟩ := List.eq_append_cons_of_mem hend
      have hnone : '\r' ∉ start ++ rest := by
        simp only [List.mem_append, not_or] at hafter ⊢
        exact ⟨hbefore, hafter.1⟩
      have hline : '\n' ∉ start ++ rest := by simp [hstart, hrest]
      rw [← List.append_assoc, lines_append hline, trimReturn_of_not_mem hnone, lineAfter_append hrest]
      exact String.toList_ofList
    · rw [lines_last (by simp [hstart, hend]), lineAfter_last hend]
      split
      · rename_i hnil
        rw [hnil]
        rfl
      · exact String.toList_ofList
  | cons start rest hstart ih =>
    rw [List.append_assoc, List.cons_append, lines_append hstart, List.count_append,
      List.count_eq_zero.mpr hstart, Nat.zero_add, List.count_cons_self,
      List.getElem?_cons_succ, lineBefore_append]
    exact ih fun hr ↦ hbefore (List.mem_append_right _ (.tail _ hr))

end StackScript.Text
