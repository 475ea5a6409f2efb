import StackScript.Proofs.Source.Tiling

/-!
# Positions in a text

A position is in a text if it is behind some part of the text, counted from the beginning
(`Span.IsIn`). The tokens of a text are at such positions, and so are the faults that scanning notes,
also those inside of a string.
-/

namespace StackScript

/-- A position behind a part of a text. -/
def Span.IsIn (span : Span) (source : List Char) : Prop :=
  ∃ before, before <+: source ∧ span = .behind before

namespace Span

theorem isIn_behind {before source : List Char} (h : before <+: source) :
    (Span.behind before).IsIn source :=
  ⟨before, h, rfl⟩

theorem IsIn.one_le_line {span : Span} {source : List Char} (h : span.IsIn source) :
    1 ≤ span.line := by
  obtain ⟨before, -, rfl⟩ := h
  exact Nat.le_add_right 1 _

end Span

namespace Scanned

/-! ### Faults inside of tokens -/

/-- A string has faults where it opens, and where an escape is not one. -/
theorem span_readQuotation {start : Span} {source : List Char} (hstart : start.IsIn source)
    (pos : Span) (text : List Char) : ∀ before, pos = .behind before → before ++ text <+: source →
      ∀ f ∈ (readQuotation start pos text).faults, f.2.IsIn source := by
  -- What has been read moves over to `before`, one character or an escape of two at a time.
  have hnext (c : Char) (rest before : List Char) : before ++ c :: rest = (before ++ [c]) ++ rest := by
    simp
  fun_induction readQuotation start pos text with
  | case1 => exact fun _ _ _ f hf ↦ List.mem_singleton.mp hf ▸ hstart
  | case2 => exact fun _ _ _ f hf ↦ absurd hf List.not_mem_nil
  | case3 => exact fun _ _ _ f hf ↦ List.mem_singleton.mp hf ▸ hstart
  | case4 => exact fun _ _ _ f hf ↦ List.mem_singleton.mp hf ▸ hstart
  | case5 pos c rest after q meant hmeant ih =>
    intro before hpos h
    rw [hnext, hnext] at h
    refine ih _ ?_ h
    rw [← Span.next_behind, ← Span.next_behind, ← hpos]
  | case6 pos c rest after q hnone ih =>
    intro before hpos h
    rw [hnext] at h
    have hafter : after = .behind (before ++ ['\\']) := by rw [← Span.next_behind, ← hpos]
    refine List.forall_mem_cons.mpr ⟨?_, ?_⟩
    · rw [hafter]
      exact Span.isIn_behind ((List.prefix_append _ _).trans h)
    · rw [hnext] at h
      refine ih _ ?_ h
      rw [← Span.next_behind, ← hafter]
  | case7 pos c rest _ _ _ _ q ih =>
    intro before hpos h
    rw [hnext] at h
    refine ih _ ?_ h
    rw [← Span.next_behind, ← hpos]

theorem span_readPiece {before rest source : List Char} {first : Char}
    (h : before ++ first :: rest <+: source) :
    ∀ f ∈ (readPiece (.behind before) first rest).faults, f.2.IsIn source := by
  have hstart : (Span.behind before).IsIn source :=
    Span.isIn_behind ((List.prefix_append _ _).trans h)
  unfold readPiece
  split
  · exact fun f hf ↦ absurd hf List.not_mem_nil
  · split
    · rename_i hquote
      subst hquote
      refine span_readQuotation hstart _ _ _ (Span.next_behind _ _) ?_
      rwa [List.append_assoc]
    · split
      · unfold readNumber
        dsimp only
        split
        · split
          · exact fun f hf ↦ List.mem_singleton.mp hf ▸ hstart
          · exact fun f hf ↦ absurd hf List.not_mem_nil
        · split
          · exact fun f hf ↦ absurd hf List.not_mem_nil
          · exact fun f hf ↦ List.mem_singleton.mp hf ▸ hstart
      · split
        · exact fun f hf ↦ absurd hf List.not_mem_nil
        · exact fun f hf ↦ List.mem_singleton.mp hf ▸ hstart

/-! ### Tokens one by one -/

/-- A scanned token and its faults are at positions in the text. -/
structure IsIn (s : Scanned) (source : List Char) : Prop where
  token : s.token.span.IsIn source
  faults : ∀ f ∈ s.faults, f.2.IsIn source

theorem isIn_next {before text source : List Char} (h : before ++ text <+: source) :
    (next (.behind before) text).1.IsIn source := by
  have happend := splitGap_append false text
  unfold next
  dsimp only
  rw [Span.after_behind]
  have hspan : (Span.behind (before ++ (splitGap false text).1)).IsIn source := by
    rw [← happend, ← List.append_assoc] at h
    exact Span.isIn_behind ((List.prefix_append _ _).trans h)
  split
  · exact ⟨hspan, fun f hf ↦ absurd hf List.not_mem_nil⟩
  · rename_i first rest heq
    refine ⟨hspan, span_readPiece ?_⟩
    rwa [List.append_assoc, ← heq, happend]

theorem isIn_scanFrom {fuel : Nat} {before text source : List Char} (h : before ++ text <+: source) :
    ∀ s ∈ scanFrom fuel (.behind before) text, s.IsIn source := by
  induction fuel generalizing before text with
  | zero => exact fun _ hs ↦ absurd hs List.not_mem_nil
  | succ fuel ih =>
    have hfirst := isIn_next h
    rw [scanFrom]
    rcases next_cases (.behind before) text with
      ⟨-, heq⟩ | ⟨gap, lexeme, rest, kind, faults, rfl, -, -, hkind, heq⟩
    · rw [heq] at hfirst ⊢
      exact fun s hs ↦ List.mem_singleton.mp hs ▸ hfirst
    · rw [heq] at hfirst ⊢
      dsimp only
      rw [if_neg hkind]
      refine List.forall_mem_cons.mpr ⟨hfirst, ?_⟩
      rw [stop, String.toList_ofList, Span.after_behind, Span.after_behind]
      refine ih ?_
      simpa using h

/-- The tokens of a text and their faults are at positions in it. -/
theorem isIn_scan (source : String) : ∀ s ∈ scan source, s.IsIn source.toList :=
  isIn_scanFrom (List.prefix_refl ([] ++ source.toList))

end Scanned

end StackScript
