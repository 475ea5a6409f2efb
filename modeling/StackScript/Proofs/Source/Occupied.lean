import StackScript.Proofs.Source.Lines

/-!
# The lines that tokens stand on

A line with anything but blanks on it is there whether or not the carriage returns of the text are dropped;
only a last line of nothing else is lost with them. Every token but the end of input begins with a character
that is no blank, so the text has the line that the token is counted on, and it has it without carriage
returns as well (`Scanned.hasLine_of_mem_tokens`).
-/

namespace StackScript

namespace Text

/-- A text has a line of this number, also without its carriage returns. Lines count from one. -/
def HasLine (text : List Char) (line : Nat) : Prop :=
  line ≠ 0 ∧ line ≤ (lines (String.ofList (withoutReturns text))).length

/-- Where there is any line, there is a first one. -/
theorem HasLine.first {text : List Char} {line : Nat} (h : HasLine text line) : HasLine text 1 :=
  ⟨Nat.one_ne_zero, Nat.le_trans (Nat.one_le_iff_ne_zero.mpr h.1) h.2⟩

/-- Without the carriage returns of the text, the line is what it was but for its own. -/
theorem HasLine.exists_eq {text : List Char} {line : Nat} (h : HasLine text line) :
    ∃ shown, (lines (String.ofList text))[line - 1]? = some shown ∧
      (lines (String.ofList (withoutReturns text)))[line - 1]? =
        some (String.ofList (withoutReturns shown.toList)) := by
  have hlt : line - 1 < (lines (String.ofList (withoutReturns text))).length :=
    Nat.lt_of_lt_of_le (Nat.sub_one_lt h.1) h.2
  obtain heq | ⟨hnone, -⟩ := getElem?_lines_withoutReturns text (line - 1)
  · rw [List.getElem?_eq_getElem hlt] at heq ⊢
    obtain ⟨shown, hshown, hline⟩ := Option.map_eq_some_iff.mp heq.symm
    exact ⟨shown, hshown, by rw [hline]⟩
  · rw [List.getElem?_eq_getElem hlt] at hnone
    cases hnone

/-- A character that ends no line is on a line. -/
theorem count_lt_length_lines {c : Char} (hc : c ≠ '\n') (before after : List Char) :
    before.count '\n' < (lines (String.ofList (before ++ c :: after))).length := by
  induction before using line_induction with
  | last line hline =>
    rw [List.count_eq_zero.mpr hline]
    by_cases hafter : '\n' ∈ after
    · obtain ⟨rest, more, rfl, hrest⟩ := List.eq_append_cons_of_mem hafter
      have hfirst : '\n' ∉ line ++ c :: rest := by simp [hline, hrest, Ne.symm hc]
      rw [← List.cons_append, ← List.append_assoc, lines_append hfirst]
      exact Nat.zero_lt_succ _
    · have hlast : '\n' ∉ line ++ c :: after := by simp [hline, hafter, Ne.symm hc]
      rw [lines_last hlast, if_neg (by simp)]
      exact Nat.zero_lt_one
  | cons line rest hline ih =>
    rw [List.append_assoc, List.cons_append, lines_append hline, List.count_append,
      List.count_eq_zero.mpr hline, Nat.zero_add, List.count_cons_self]
    exact Nat.succ_lt_succ ih

/-- A character that is no line break of any kind is on a line that the text has. -/
theorem hasLine_of_eq {text before after : List Char} {c : Char} (h : text = before ++ c :: after)
    (hnewline : c ≠ '\n') (hreturn : c ≠ '\r') : HasLine text (1 + before.count '\n') := by
  have hwithout : withoutReturns text = withoutReturns before ++ c :: withoutReturns after := by
    rw [h, withoutReturns_append]
    simp [withoutReturns, hreturn]
  refine ⟨by omega, ?_⟩
  rw [hwithout, ← count_newline_withoutReturns before, Nat.add_comm]
  exact count_lt_length_lines hnewline _ _

end Text

namespace Scanned

/-- What is behind a gap does not begin with a blank. -/
theorem not_isBlank_of_splitGap {inComment : Bool} {text rest : List Char} {c : Char}
    (h : (splitGap inComment text).2 = c :: rest) : ¬ isBlank c := by
  fun_induction splitGap inComment text with
  | case1 => cases h
  | case2 inComment d more takes htakes gap left heq ih =>
    rw [heq] at ih
    exact ih h
  | case3 inComment d more takes htakes =>
    obtain ⟨rfl, -⟩ := List.cons.inj h
    intro hblank
    apply htakes
    cases inComment <;> simp [takes, hblank]

/-- A token begins with a character that is no blank. -/
theorem exists_lexeme_eq {source : String} {s : Scanned} (hs : s ∈ scan source)
    (hkind : s.token.kind ≠ .endOfInput) :
    ∃ c rest, s.token.lexeme.toList = c :: rest ∧ ¬ isBlank c := by
  obtain ⟨pos, text, rfl⟩ := exists_next_of_mem hs
  unfold next at hkind ⊢
  dsimp only at hkind ⊢
  split at hkind
  · exact absurd rfl hkind
  · rename_i first rest heq
    have happend := lexeme_append_rest (pos.after (splitGap false text).1) first rest
    obtain ⟨c, more, hlexeme⟩ :=
      List.exists_cons_of_ne_nil (lexeme_ne_nil (pos.after (splitGap false text).1) first rest)
    rw [hlexeme] at happend
    obtain rfl : c = first := (List.cons.inj happend).1
    exact ⟨c, more, by rw [String.toList_ofList, hlexeme], not_isBlank_of_splitGap heq⟩

/-- The line that a token is counted on is a line of the text. -/
theorem hasLine_of_mem_tokens {source : String} {t : Token} (ht : t ∈ tokens (scan source))
    (hkind : t.kind ≠ .endOfInput) : Text.HasLine source.toList t.span.line := by
  obtain ⟨s, hs, rfl⟩ := List.mem_map.mp (List.mem_of_mem_filter ht)
  obtain ⟨c, more, hlexeme, hblank⟩ := exists_lexeme_eq hs hkind
  obtain ⟨pieces, last, hscan, htiled⟩ := exists_tiled_scan source
  obtain ⟨done, rest, hparts⟩ := List.append_of_mem (hscan ▸ hs)
  have htext : source.toList = (text done ++ s.gap) ++ c :: (more ++ text rest) := by
    rw [← text_scan source, hscan, hparts]
    simp [text, hlexeme]
  rw [htiled.span done s rest hparts, List.nil_append]
  refine Text.hasLine_of_eq htext (fun hc ↦ hblank ?_) (fun hc ↦ hblank ?_) <;> rw [hc] <;> rfl

end Scanned

end StackScript
