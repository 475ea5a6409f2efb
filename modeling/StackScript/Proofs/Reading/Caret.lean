import Mathlib
import StackScript.Proofs.Reading.Following

/-!
# Where the caret stands

Every report on a text that does not compile is at a position in the text, and quotes the line of that
position, which has lost its carriage returns. The caret below it stands behind as many spaces as there are
characters before the position on its line (`caret_placed`). So it stands under the character at the
position, unless a carriage return is before that character on its line: the return is counted as a column,
but it is not shown (`caret_misplaced`).
-/

namespace StackScript

namespace Diagnostics

/-- What is given out is a report that was raised, with its line. -/
theorem exists_raised {acts : List Act} {r : Report} (hr : r ∈ (after acts).emitted) :
    ∃ r' ∈ raised acts, r = quoted acts r' := by
  obtain ⟨r', hmem, rfl⟩ := List.mem_map.mp ((settled_after acts).perm.mem_iff.mp hr)
  obtain ⟨hraised, hready⟩ := List.mem_filter.mp hmem
  obtain ⟨fault, span, hline, rfl⟩ := exists_of_mem_raised hraised
  exact ⟨_, hraised, (reading_after acts).annotate_eq hline hready⟩

/-- What is given out about a source that has been fed in full is at a position in the source, and quotes
the line of that position without its carriage returns. Where no line is quoted, nothing is on the line. -/
theorem Follows.exists_position {source : List Char} {d : Diagnostics}
    (h : d.Follows source source true) {r : Report} (hr : r ∈ d.emitted) :
    ∃ before after, source = before ++ after ∧ r.span = some (.behind before) ∧
      (r.excerpt.getD "").toList =
        Text.withoutReturns (Text.lineBefore before ++ Text.lineAfter after) := by
  obtain ⟨acts, rfl, -, hread, hraised⟩ := h
  obtain ⟨raised, hmem, rfl⟩ := exists_raised hr
  obtain ⟨span, hspan, before, ⟨after, rfl⟩, rfl⟩ := hraised raised hmem
  refine ⟨before, after, rfl, hspan, ?_⟩
  have hquoted : (quoted acts raised).excerpt = raised.line?.bind fun line ↦
      (Text.lines (String.ofList (Diagnostics.source acts)))[line - 1]? := rfl
  -- Lines are counted by newlines, which are all there without the carriage returns.
  have hindex : (Span.behind before).line - 1 = (Text.withoutReturns before).count '\n' :=
    (Nat.add_sub_cancel_left _ _).trans (Text.count_newline_withoutReturns before).symm
  rw [Report.line?, hspan, hread, Text.withoutReturns_append] at hquoted
  dsimp only [Option.map_some, Option.bind_some] at hquoted
  rw [hquoted, hindex, Text.getD_getElem?_lines (Text.return_not_mem_withoutReturns _)
      (Text.return_not_mem_withoutReturns _), Text.lineBefore_withoutReturns,
    Text.lineAfter_withoutReturns, Text.withoutReturns_append]

end Diagnostics

/-- The line of a position begins with what is before the position on it, exactly if no carriage return was
there to be lost. -/
theorem Text.take_withoutReturns_iff (start rest : List Char) :
    (withoutReturns (start ++ rest)).take start.length = start ↔ '\r' ∉ start := by
  constructor
  · intro h hmem
    rw [← h] at hmem
    exact return_not_mem_withoutReturns _ (List.mem_of_mem_take hmem)
  · intro h
    rw [withoutReturns_append, withoutReturns_eq_self h, List.take_left]

/-- Every fault of a text is at a position in the text. The line that is quoted is the line of that position
without its carriage returns, and if none is quoted, nothing is on that line. The caret below it has as
many spaces before it as the position has characters before it on its line. These are the characters shown
above the spaces exactly if there is no carriage return among them. -/
theorem caret_placed {source : String} {d : Diagnostics} (h : compile source = .error d) {r : Report}
    (hr : r ∈ d.emitted) :
    ∃ before after, source.toList = before ++ after ∧ r.span = some (.behind before) ∧
      (r.excerpt.getD "").toList =
        Text.withoutReturns (Text.lineBefore before ++ Text.lineAfter after) ∧
      ∀ line, r.excerpt = some line →
        (∃ headline, r.render = headline ++ ("\n  | " ++ line ++ "\n  | " ++
          Text.spaces ((Span.behind before).column - 1) ++ "^")) ∧
        (line.toList.take ((Span.behind before).column - 1) = Text.lineBefore before ↔
          '\r' ∉ Text.lineBefore before) := by
  obtain ⟨before, after, hsource, hspan, hexcerpt⟩ := (follows_compile (.inl h)).exists_position hr
  refine ⟨before, after, hsource, hspan, hexcerpt, fun line hline ↦ ⟨?_, ?_⟩⟩
  · have hcolumn : (Span.behind before).column ≠ 0 := by
      rw [Text.column_behind]
      exact Nat.succ_ne_zero _
    rw [Report.render, hspan, hline]
    simp only [Report.excerptLines, hcolumn, if_false]
    exact ⟨_, rfl⟩
  · rw [hline, Option.getD_some] at hexcerpt
    rw [hexcerpt, Text.column_behind, Nat.add_sub_cancel]
    exact Text.take_withoutReturns_iff _ _

/-- A text with a fault behind a carriage return that ends no line. -/
def returningText : String := "func main() \x7b\r @ \x7d"

/-- The fault of that text and the line that is quoted for it. -/
theorem compile_returningText : ∃ d r, compile returningText = .error d ∧ d.emitted = [r] ∧
    r.span = some ⟨1, 16⟩ ∧ r.excerpt = some "func main() \x7b @ \x7d" := by
  have hrun : (match compile returningText with
      | .error d => d.emitted.map fun r ↦ (r.span, r.excerpt)
      | .ok _ => []) = [(some ⟨1, 16⟩, some "func main() \x7b @ \x7d")] := by
    cbv
  split at hrun
  · rename_i d hd
    obtain ⟨r, hr, hshown⟩ := List.map_eq_singleton_iff.mp hrun
    obtain ⟨hspan, hexcerpt⟩ := Prod.mk.inj hshown
    exact ⟨d, r, hd, hr, hspan, hexcerpt⟩
  · cases hrun

/-- The fault of that text is at a position in it, and its line is quoted without the return. -/
theorem caret_placed_returningText : ∃ d r, compile returningText = .error d ∧ r ∈ d.emitted ∧
    ∃ before after, returningText.toList = before ++ after ∧ r.span = some (.behind before) ∧
      (r.excerpt.getD "").toList =
        Text.withoutReturns (Text.lineBefore before ++ Text.lineAfter after) := by
  obtain ⟨d, r, hd, hr, -, -⟩ := compile_returningText
  have hmem : r ∈ d.emitted := hr ▸ List.mem_singleton_self r
  obtain ⟨before, after, hsource, hspan, hquoted, -⟩ := caret_placed hd hmem
  exact ⟨d, r, hd, hmem, before, after, hsource, hspan, hquoted⟩

/-- There the caret does not stand under the character at the position, as the quoted line does not begin
with the fifteen characters that are before it. -/
theorem caret_misplaced : ∃ d r line, compile returningText = .error d ∧ r ∈ d.emitted ∧
    r.span = some ⟨1, 16⟩ ∧ r.excerpt = some line ∧
    line.toList.take 15 ≠ returningText.toList.take 15 := by
  obtain ⟨d, r, hd, hr, hspan, hexcerpt⟩ := compile_returningText
  exact ⟨d, r, _, hd, hr ▸ List.mem_singleton_self r, hspan, hexcerpt, by decide⟩

end StackScript
