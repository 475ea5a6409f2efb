import StackScript.Source.Scan

/-!
# Scanned texts

Every token but the end of input takes a character off the text, so scanning comes to the end of every
text: the last piece is the end of input, and no other piece is (`ended_scan`). The faults that
scanning notes are lexical ones, and a stray character is never without.
-/

namespace StackScript.Scanned

/-- The tokens of scanned pieces. Stray characters are none. -/
def tokens (pieces : List Scanned) : List Token :=
  (pieces.map (·.token)).filter (·.kind ≠ .stray)

/-- The last piece is the end of input, and no other piece is. -/
def Ended : List Scanned → Prop
  | [] => False
  | s :: rest => if s.token.kind = .endOfInput then rest = [] else Ended rest

theorem Ended.cons {s : Scanned} {rest : List Scanned} (h : Ended (s :: rest))
    (hs : s.token.kind ≠ .endOfInput) : Ended rest := by
  rwa [Ended, if_neg hs] at h

theorem Ended.eq_nil {s : Scanned} {rest : List Scanned} (h : Ended (s :: rest))
    (hs : s.token.kind = .endOfInput) : rest = [] := by
  rwa [Ended, if_pos hs] at h

/-- The end of input is the last token, and no other token is. -/
theorem Ended.exists_tokens_eq {pieces : List Scanned} (h : Ended pieces) : ∃ before last,
    tokens pieces = before ++ [last] ∧ last.kind = .endOfInput ∧
      ∀ t ∈ before, t.kind ≠ .endOfInput := by
  induction pieces with
  | nil => exact h.elim
  | cons s rest ih =>
    by_cases hs : s.token.kind = .endOfInput
    · obtain rfl := h.eq_nil hs
      exact ⟨[], s.token, by simp [tokens, hs], hs, by simp⟩
    · obtain ⟨before, last, htokens, hlast, hbefore⟩ := ih (h.cons hs)
      rw [tokens] at htokens
      rw [tokens, List.map_cons, List.filter_cons, htokens]
      split
      · exact ⟨s.token :: before, last, rfl, hlast, List.forall_mem_cons.mpr ⟨hs, hbefore⟩⟩
      · exact ⟨before, last, rfl, hlast, hbefore⟩

theorem Ended.tokens_ne_nil {pieces : List Scanned} (h : Ended pieces) : tokens pieces ≠ [] := by
  obtain ⟨before, last, htokens, -⟩ := h.exists_tokens_eq
  rw [htokens]
  exact List.concat_ne_nil _ _

/-! ### Progress -/

theorem length_readSymbol?_lt {text rest : List Char} {sign : Symbol}
    (h : readSymbol? text = some (sign, rest)) : rest.length < text.length := by
  unfold readSymbol? at h
  split at h <;> cases h <;> simp only [List.length_cons] <;> omega

theorem length_readQuotation_le (start pos : Span) (text : List Char) :
    (readQuotation start pos text).rest.length ≤ text.length := by
  fun_induction readQuotation start pos text with
  | case1 | case2 | case3 | case4 => simp
  | case5 _ _ _ _ _ _ _ ih => exact Nat.le_succ_of_le (Nat.le_succ_of_le ih)
  | case6 _ _ _ _ _ _ ih => exact Nat.le_succ_of_le (Nat.le_succ_of_le ih)
  | case7 _ _ _ _ _ _ _ _ ih => exact Nat.le_succ_of_le ih

theorem length_readNumber_le (start : Span) {first : Char} (rest : List Char)
    (h : first.isDigit) : (readNumber start (first :: rest)).rest.length ≤ rest.length := by
  have hdrop : (first :: rest).dropWhile Char.isDigit = rest.dropWhile Char.isDigit :=
    List.dropWhile_cons_of_pos h
  have hle (text : List Char) : (text.dropWhile Char.isDigit).length ≤ text.length :=
    (List.dropWhile_sublist _).length_le
  have hrest := hle rest
  unfold readNumber
  rw [hdrop]
  dsimp only
  split
  · rename_i more hmore
    rw [hmore, List.length_cons] at hrest
    have hmore := hle more
    split <;> dsimp only <;> omega
  · split <;> exact hrest

/-- A piece takes its first character off the text, at least. -/
theorem length_readPiece_le (start : Span) (first : Char) (rest : List Char) :
    (readPiece start first rest).rest.length ≤ rest.length := by
  unfold readPiece
  split
  · rename_i sign more h
    have := length_readSymbol?_lt h
    rw [List.length_cons] at this
    exact Nat.lt_succ_iff.mp this
  · split
    · exact length_readQuotation_le _ _ _
    · split
      · rename_i hdigit
        exact length_readNumber_le start rest hdigit
      · split
        · exact (List.dropWhile_sublist _).length_le
        · exact Nat.le_refl _

theorem length_splitGap_le (inComment : Bool) (text : List Char) :
    (splitGap inComment text).2.length ≤ text.length := by
  fun_induction splitGap inComment text with
  | case1 => exact Nat.le_refl _
  | case2 inComment c rest takes htakes gap more heq ih =>
    rw [heq] at ih
    exact Nat.le_succ_of_le ih
  | case3 => exact Nat.le_refl _

/-- A token that is not the end of input takes a character off the text. -/
theorem length_next_lt {pos : Span} {text : List Char}
    (h : (next pos text).1.token.kind ≠ .endOfInput) : (next pos text).2.length < text.length := by
  have hgap := length_splitGap_le false text
  unfold next at h ⊢
  dsimp only at h ⊢
  split
  · rename_i heq
    rw [heq] at h
    exact absurd rfl h
  · rename_i first rest heq
    rw [heq, List.length_cons] at hgap
    have := length_readPiece_le (pos.after (splitGap false text).1) first rest
    exact Nat.lt_of_le_of_lt this (Nat.lt_of_succ_le hgap)

theorem ended_scanFrom {fuel : Nat} {text : List Char} (h : text.length < fuel) (pos : Span) :
    Ended (scanFrom fuel pos text) := by
  induction fuel generalizing pos text with
  | zero => exact absurd h (Nat.not_lt_zero _)
  | succ fuel ih =>
    rw [scanFrom]
    dsimp only
    split
    · rename_i hend
      rw [Ended, if_pos hend]
    · rename_i hend
      rw [Ended, if_neg hend]
      have := length_next_lt hend
      exact ih (by omega) _

/-- A scanned text ends with the end of input, and only there. -/
theorem ended_scan (source : String) : Ended (scan source) :=
  ended_scanFrom (Nat.lt_succ_of_le (Nat.le_of_eq String.length_toList)) _

/-! ### Faults -/

/-- The pieces of a text are made by `next`, each from what the others have left. -/
theorem exists_next_of_mem {fuel : Nat} {pos : Span} {text : List Char} {s : Scanned}
    (h : s ∈ scanFrom fuel pos text) : ∃ pos' text', s = (next pos' text').1 := by
  induction fuel generalizing pos text with
  | zero => cases h
  | succ fuel ih =>
    rw [scanFrom] at h
    dsimp only at h
    split at h
    · exact ⟨pos, text, List.mem_singleton.mp h⟩
    · rcases List.mem_cons.mp h with rfl | h
      · exact ⟨pos, text, rfl⟩
      · exact ih h

/-- A piece whose faults are lexical, with one at least if it is a stray character. -/
structure Piece.Noted (p : Piece) : Prop where
  lexical : ∀ f ∈ p.faults, f.1.stage = .lexical
  stray : p.kind = .stray → p.faults ≠ []

theorem lexical_readQuotation (start pos : Span) (text : List Char) :
    ∀ f ∈ (readQuotation start pos text).faults, f.1.stage = .lexical := by
  fun_induction readQuotation start pos text with
  | case1 | case2 | case3 | case4 => simp [Fault.stage]
  | case5 _ _ _ _ _ _ _ ih => exact ih
  | case6 _ c _ _ _ _ ih => exact List.forall_mem_cons.mpr ⟨rfl, ih⟩
  | case7 _ _ _ _ _ _ _ _ ih => exact ih

theorem noted_readNumber (start : Span) (text : List Char) : (readNumber start text).Noted := by
  unfold readNumber
  dsimp only
  split
  · split <;> exact ⟨by simp [Fault.stage], fun h ↦ nomatch h⟩
  · split <;> exact ⟨by simp [Fault.stage], fun h ↦ nomatch h⟩

theorem kind_readWord_ne (first : Char) (rest : List Char) : (readWord first rest).kind ≠ .stray := by
  unfold readWord wordKind
  dsimp only
  split
  · exact fun h ↦ nomatch h
  · split <;> exact fun h ↦ nomatch h

theorem noted_readPiece (start : Span) (first : Char) (rest : List Char) :
    (readPiece start first rest).Noted := by
  unfold readPiece
  split
  · exact ⟨fun _ h ↦ (nomatch h), fun h ↦ nomatch h⟩
  · split
    · exact ⟨lexical_readQuotation _ _ _, fun h ↦ nomatch h⟩
    · split
      · exact noted_readNumber _ _
      · split
        · exact ⟨fun _ h ↦ (nomatch h), fun h ↦ absurd h (kind_readWord_ne _ _)⟩
        · exact ⟨by simp [Fault.stage], fun _ ↦ List.cons_ne_nil _ _⟩

/-- The faults of a piece of a text are lexical, and a stray character has one. -/
theorem noted_scan {source : String} {s : Scanned} (h : s ∈ scan source) :
    (∀ f ∈ s.faults, f.1.stage = .lexical) ∧ (s.token.kind = .stray → s.faults ≠ []) := by
  obtain ⟨pos, text, rfl⟩ := exists_next_of_mem h
  unfold next
  dsimp only
  split
  · exact ⟨fun _ h ↦ (nomatch h), fun h ↦ nomatch h⟩
  · have hnoted := noted_readPiece (pos.after (splitGap false text).1) ‹_› ‹_›
    exact ⟨hnoted.lexical, hnoted.stray⟩

end StackScript.Scanned
