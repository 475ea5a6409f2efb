import Mathlib.Data.List.Basic
import StackScript.Proofs.Source.Scanning

/-!
# Scanned texts are tiled by their tokens

Scanning loses no character and invents none: the gaps and lexemes of a text, put together again, are the
text (`scan_tiled`). Gaps are rows of blanks and comments, no lexeme but that of the end of input is empty,
and a token is where counting newlines and characters says it is.

Lexemes are built by other means than the rest of the text, so every reader of tokens is shown to take
exactly its lexeme off the text (`lexeme_append_rest`).
-/

namespace StackScript

/-! ### Positions -/

/-- The position behind a row of characters, as it is counted: lines by the newlines, columns by the
characters behind the last of them. -/
def Span.behind (text : List Char) : Span :=
  ⟨1 + text.count '\n', 1 + (text.reverse.takeWhile (· ≠ '\n')).length⟩

theorem Span.next_behind (text : List Char) (c : Char) :
    (Span.behind text).next c = .behind (text ++ [c]) := by
  by_cases h : c = '\n'
  · simp [behind, next, h, Nat.add_assoc]
  · simp [behind, next, h, Nat.add_comm, List.count_append]

/-- Going on from the position behind a text leads to the position behind the longer text. -/
theorem Span.after_behind (text more : List Char) :
    (Span.behind text).after more = .behind (text ++ more) := by
  induction more generalizing text with
  | nil => rw [List.append_nil]; rfl
  | cons c more ih =>
    have hnext : (Span.behind text).after (c :: more) = (Span.behind (text ++ [c])).after more := by
      rw [← next_behind]
      rfl
    rw [hnext, ih, List.append_assoc]
    rfl

namespace Scanned

/-! ### Gaps -/

/-- The blanks. -/
abbrev blanks : List Char := [' ', '\t', '\r', '\n']

/-- Rows of blanks and comments. To a comment belongs the newline that ends it. -/
inductive Gap : List Char → Prop
  | nil : Gap []
  | blank {c : Char} {rest : List Char} (hc : c ∈ blanks) (h : Gap rest) :
    Gap (c :: rest)
  | comment {text rest : List Char} (ht : '\n' ∉ text) (h : Gap rest) :
    Gap ('/' :: '/' :: (text ++ '\n' :: rest))

/-- What may stand before the end of a text: a gap, or a gap and a comment that no newline ends. -/
inductive LastGap : List Char → Prop
  | complete {gap : List Char} (h : Gap gap) : LastGap gap
  | comment {gap text : List Char} (h : Gap gap) (ht : '\n' ∉ text) : LastGap (gap ++ '/' :: '/' :: text)

theorem isBlank_iff {c : Char} : isBlank c = true ↔ c ∈ blanks := by
  simp [isBlank, or_assoc]

theorem LastGap.blank {c : Char} {rest : List Char} (hc : c ∈ blanks)
    (h : LastGap rest) : LastGap (c :: rest) := by
  cases h with
  | complete h => exact .complete (.blank hc h)
  | comment h ht => exact .comment (.blank hc h) ht

theorem LastGap.after_comment {text rest : List Char} (ht : '\n' ∉ text) (h : LastGap rest) :
    LastGap ('/' :: '/' :: (text ++ '\n' :: rest)) := by
  cases h with
  | complete h => exact .complete (.comment ht h)
  | @comment gap text' h ht' =>
    have hgap := LastGap.comment (.comment ht h) ht'
    rwa [List.cons_append, List.cons_append, List.append_assoc, List.cons_append] at hgap

/-- Splitting a gap off a text loses nothing. -/
theorem splitGap_append (inComment : Bool) (text : List Char) :
    (splitGap inComment text).1 ++ (splitGap inComment text).2 = text := by
  fun_induction splitGap inComment text with
  | case1 => rfl
  | case2 inComment c rest takes htakes gap more heq ih =>
    rw [heq] at ih
    exact congrArg (c :: ·) ih
  | case3 => rfl

/-- Within a comment everything up to the newline is taken. -/
theorem splitGap_comment {text : List Char} (ht : '\n' ∉ text) (rest : List Char) :
    splitGap true (text ++ '\n' :: rest) =
      (text ++ '\n' :: (splitGap false rest).1, (splitGap false rest).2) := by
  induction text with
  | nil => rfl
  | cons c text ih =>
    obtain ⟨hc, ht⟩ := not_or.mp (mt List.mem_cons.mpr ht)
    have hstay : (c != '\n') = true := bne_iff_ne.mpr (Ne.symm hc)
    rw [List.cons_append, splitGap]
    simp [hstay, ih ht]

/-- A comment without newline is taken to the end of the text. -/
theorem splitGap_comment_end {text : List Char} (ht : '\n' ∉ text) :
    splitGap true text = (text, []) := by
  induction text with
  | nil => rfl
  | cons c text ih =>
    obtain ⟨hc, ht⟩ := not_or.mp (mt List.mem_cons.mpr ht)
    have hstay : (c != '\n') = true := bne_iff_ne.mpr (Ne.symm hc)
    rw [splitGap]
    simp [hstay, ih ht]

theorem splitGap_blank {c : Char} (hc : isBlank c) (rest : List Char) :
    splitGap false (c :: rest) = (c :: (splitGap false rest).1, (splitGap false rest).2) := by
  have hslash : (c == '/') = false := by
    rcases List.mem_cons.mp (isBlank_iff.mp hc) with rfl | h
    · rfl
    · revert h
      simp only [List.mem_cons, List.not_mem_nil, or_false]
      rintro (rfl | rfl | rfl) <;> rfl
  rw [splitGap]
  simp [hc, hslash]

theorem splitGap_slashes (rest : List Char) : splitGap false ('/' :: '/' :: rest) =
    ('/' :: '/' :: (splitGap true rest).1, (splitGap true rest).2) := by
  simp [splitGap, isBlank]

/-- A gap ends before a character that is no blank and begins no comment. -/
theorem splitGap_of_not {c : Char} {rest : List Char} (hc : ¬ isBlank c)
    (h : ¬ (c = '/' ∧ rest.head? = some '/')) : splitGap false (c :: rest) = ([], c :: rest) := by
  rw [splitGap]
  simp [hc, h]

/-- What is split off a text is a gap, and nothing is left of the text if a comment in it has not
ended. -/
theorem gap_splitGap (text : List Char) : Gap (splitGap false text).1 ∨
    LastGap (splitGap false text).1 ∧ (splitGap false text).2 = [] := by
  -- a comment takes the text up to its newline at once
  induction hn : text.length using Nat.strongRecOn generalizing text with
  | ind n ih =>
    subst hn
    rcases text with - | ⟨c, rest⟩
    · exact .inl .nil
    by_cases hc : isBlank c
    · rw [splitGap_blank hc]
      rcases ih rest.length (Nat.lt_succ_self _) rest rfl with h | ⟨h, hend⟩
      · exact .inl (.blank (isBlank_iff.mp hc) h)
      · exact .inr ⟨.blank (isBlank_iff.mp hc) h, hend⟩
    by_cases hslash : c = '/' ∧ rest.head? = some '/'
    · obtain ⟨rfl, hhead⟩ := hslash
      obtain ⟨rest, rfl⟩ := List.head?_eq_some_iff.mp hhead
      rw [splitGap_slashes]
      by_cases hline : '\n' ∈ rest
      · obtain ⟨line, more, rfl, hnone⟩ := List.eq_append_cons_of_mem hline
        rw [splitGap_comment hnone]
        have hlt : more.length < ('/' :: '/' :: (line ++ '\n' :: more)).length := by
          simp only [List.length_cons, List.length_append]
          omega
        rcases ih more.length hlt more rfl with h | ⟨h, hend⟩
        · exact .inl (.comment hnone h)
        · exact .inr ⟨.after_comment hnone h, hend⟩
      · rw [splitGap_comment_end hline]
        exact .inr ⟨.comment .nil hline, rfl⟩
    · rw [splitGap_of_not hc hslash]
      exact .inl .nil

/-! ### Lexemes -/

theorem append_of_readSymbol? {text rest : List Char} {sign : Symbol}
    (h : readSymbol? text = some (sign, rest)) : sign.text.toList ++ rest = text := by
  unfold readSymbol? at h
  split at h <;> cases h <;> rfl

theorem readQuotation_append (start pos : Span) (text : List Char) :
    (readQuotation start pos text).lexeme ++ (readQuotation start pos text).rest = text := by
  fun_induction readQuotation start pos text with
  | case1 | case2 | case3 | case4 => rfl
  | case5 _ c _ _ _ _ _ ih => exact congrArg (['\\', c] ++ ·) ih
  | case6 _ c _ _ _ _ ih => exact congrArg (['\\', c] ++ ·) ih
  | case7 _ c _ _ _ _ _ _ ih => exact congrArg (c :: ·) ih

theorem readNumber_append (start : Span) (text : List Char) :
    (readNumber start text).lexeme ++ (readNumber start text).rest = text := by
  have hsplit := List.takeWhile_append_dropWhile (p := Char.isDigit) (l := text)
  unfold readNumber
  dsimp only
  split
  · rename_i rest hrest
    rw [hrest] at hsplit
    split
    · simpa using hsplit
    · simpa using hsplit
  · split <;> exact hsplit

/-- A token takes its lexeme off the text, and nothing else. -/
theorem lexeme_append_rest (start : Span) (first : Char) (rest : List Char) :
    (readPiece start first rest).lexeme ++ (readPiece start first rest).rest = first :: rest := by
  unfold readPiece
  split
  · rename_i h
    exact append_of_readSymbol? h
  · split
    · rename_i h
      rw [h]
      exact congrArg ('"' :: ·) (readQuotation_append _ _ _)
    · split
      · exact readNumber_append _ _
      · split
        · exact congrArg (first :: ·) List.takeWhile_append_dropWhile
        · rfl

/-- The lexeme of a token is not empty, as what is left is shorter than the text was. -/
theorem lexeme_ne_nil (start : Span) (first : Char) (rest : List Char) :
    (readPiece start first rest).lexeme ≠ [] := by
  intro h
  have happend := lexeme_append_rest start first rest
  have hlength := length_readPiece_le start first rest
  rw [h, List.nil_append] at happend
  rw [happend, List.length_cons] at hlength
  omega

theorem kind_readWord_ne_end (first : Char) (rest : List Char) :
    (readWord first rest).kind ≠ .endOfInput := by
  unfold readWord wordKind
  dsimp only
  split
  · exact fun h ↦ nomatch h
  · split <;> exact fun h ↦ nomatch h

theorem kind_readNumber_ne_end (start : Span) (text : List Char) :
    (readNumber start text).kind ≠ .endOfInput := by
  unfold readNumber
  dsimp only
  split <;> split <;> exact fun h ↦ nomatch h

/-- Only the end of the text is the end of input. -/
theorem kind_readPiece_ne_end (start : Span) (first : Char) (rest : List Char) :
    (readPiece start first rest).kind ≠ .endOfInput := by
  unfold readPiece
  split
  · exact fun h ↦ nomatch h
  · split
    · exact fun h ↦ nomatch h
    · split
      · exact kind_readNumber_ne_end _ _
      · split
        · exact kind_readWord_ne_end _ _
        · exact fun h ↦ nomatch h

/-! ### Tokens one by one -/

/-- The next token is the end of input, if there is nothing but a gap before it, or takes a lexeme off the
text behind its gap. -/
theorem next_cases (pos : Span) (text : List Char) :
    (LastGap text ∧ next pos text = (⟨text, ⟨.endOfInput, pos.after text, ""⟩, []⟩, [])) ∨
    ∃ gap lexeme rest kind faults, text = gap ++ lexeme ++ rest ∧ Gap gap ∧ lexeme ≠ [] ∧
      kind ≠ .endOfInput ∧
      next pos text = (⟨gap, ⟨kind, pos.after gap, String.ofList lexeme⟩, faults⟩, rest) := by
  have happend := splitGap_append false text
  have hgap := gap_splitGap text
  rw [next]
  rcases hsplit : splitGap false text with ⟨gap, - | ⟨first, rest⟩⟩ <;> rw [hsplit] at happend hgap
  · rw [List.append_nil] at happend
    subst happend
    exact .inl ⟨hgap.elim .complete And.left, rfl⟩
  · let piece := readPiece (pos.after gap) first rest
    have hlexeme : piece.lexeme ++ piece.rest = first :: rest := lexeme_append_rest _ _ _
    refine .inr ⟨gap, piece.lexeme, piece.rest, piece.kind, piece.faults, ?_,
      hgap.resolve_right fun h ↦ (nomatch h.2), lexeme_ne_nil _ _ _, kind_readPiece_ne_end _ _ _, rfl⟩
    rw [List.append_assoc, hlexeme]
    exact happend.symm

/-- The token that a call for the next one gives when so many calls have been made before. -/
def nth : (calls : Nat) → (pos : Span) → List Char → Token
  | 0, pos, text => (next pos text).1.token
  | calls + 1, pos, text => nth calls (next pos text).1.stop (next pos text).2

/-- Behind the end of a text there is nothing but the end of input, however often it is asked for. -/
theorem nth_nil (calls : Nat) (pos : Span) : nth calls pos [] = ⟨.endOfInput, pos, ""⟩ := by
  induction calls with
  | zero => rfl
  | succ calls ih => exact ih

/-- Calls give the tokens of the text one after the other. -/
theorem nth_of_getElem? {fuel calls : Nat} {pos : Span} {text : List Char} {s : Scanned}
    (h : (scanFrom fuel pos text)[calls]? = some s) : nth calls pos text = s.token := by
  induction fuel generalizing calls pos text with
  | zero => cases h
  | succ fuel ih =>
    rw [scanFrom] at h
    dsimp only at h
    cases calls with
    | zero => split at h <;> cases h <;> rfl
    | succ calls =>
      split at h
      · cases h
      · rw [List.getElem?_cons_succ] at h
        show nth calls (next pos text).1.stop (next pos text).2 = s.token
        exact ih h

/-! ### Tilings -/

/-- The text that pieces were scanned from. -/
def text (pieces : List Scanned) : List Char :=
  pieces.flatMap fun s ↦ s.gap ++ s.token.lexeme.toList

@[simp]
theorem text_nil : text [] = [] :=
  rfl

@[simp]
theorem text_cons (s : Scanned) (pieces : List Scanned) :
    text (s :: pieces) = s.gap ++ s.token.lexeme.toList ++ text pieces :=
  List.flatMap_cons

/-- The end of input behind a text. -/
structure IsLast (s : Scanned) : Prop where
  gap : LastGap s.gap
  kind : s.token.kind = .endOfInput
  lexeme : s.token.lexeme = ""

/-- A source that stands behind other text and is tiled by pieces up to its last gap. -/
structure Tiled (before source : List Char) (pieces : List Scanned) (last : Scanned) : Prop where
  text : source = text pieces ++ last.gap
  gap : ∀ s ∈ pieces, Gap s.gap
  kind : ∀ s ∈ pieces, s.token.kind ≠ .endOfInput
  lexeme : ∀ s ∈ pieces, s.token.lexeme ≠ ""
  isLast : last.IsLast
  /-- Tokens are where counting says they are, the end of input included. -/
  span : ∀ done s rest, pieces ++ [last] = done ++ s :: rest →
    s.token.span = .behind (before ++ Scanned.text done ++ s.gap)

theorem Tiled.nil {before source : List Char} {last : Scanned} (htext : source = last.gap)
    (h : last.IsLast) (hspan : last.token.span = .behind (before ++ source)) :
    Tiled before source [] last where
  text := htext
  gap _ h := nomatch h
  kind _ h := nomatch h
  lexeme _ h := nomatch h
  isLast := h
  span done s rest heq := by
    rcases done with - | ⟨t, done⟩
    · obtain ⟨rfl, -⟩ := List.cons.inj heq
      simpa [htext] using hspan
    · obtain ⟨-, hnil⟩ := List.cons.inj heq
      exact absurd hnil.symm (by simp)

theorem Tiled.cons {before rest : List Char} {s last : Scanned} {pieces : List Scanned}
    (hgap : Gap s.gap) (hkind : s.token.kind ≠ .endOfInput) (hlexeme : s.token.lexeme ≠ "")
    (hspan : s.token.span = .behind (before ++ s.gap))
    (h : Tiled (before ++ s.gap ++ s.token.lexeme.toList) rest pieces last) :
    Tiled before (s.gap ++ s.token.lexeme.toList ++ rest) (s :: pieces) last where
  text := by rw [h.text, text_cons, List.append_assoc (s.gap ++ s.token.lexeme.toList)]
  gap := List.forall_mem_cons.mpr ⟨hgap, h.gap⟩
  kind := List.forall_mem_cons.mpr ⟨hkind, h.kind⟩
  lexeme := List.forall_mem_cons.mpr ⟨hlexeme, h.lexeme⟩
  isLast := h.isLast
  span done s' rest' heq := by
    rcases done with - | ⟨t, done⟩
    · obtain ⟨rfl, -⟩ := List.cons.inj heq
      simpa using hspan
    · obtain ⟨rfl, htail⟩ := List.cons.inj heq
      rw [h.span done s' rest' htail]
      simp

/-- Scanning from the position behind some text on tiles the rest of it. -/
theorem exists_tiled {fuel : Nat} {source : List Char} (h : source.length < fuel)
    (before : List Char) :
    ∃ pieces last, scanFrom fuel (.behind before) source = pieces ++ [last] ∧
      Tiled before source pieces last := by
  induction fuel generalizing before source with
  | zero => exact absurd h (Nat.not_lt_zero _)
  | succ fuel ih =>
    rw [scanFrom]
    rcases next_cases (.behind before) source with
      ⟨hgap, heq⟩ | ⟨gap, lexeme, rest, kind, faults, rfl, hgap, hlexeme, hkind, heq⟩
    · rw [heq]
      exact ⟨[], _, rfl, .nil rfl ⟨hgap, rfl, rfl⟩ (Span.after_behind _ _)⟩
    · have hpos := List.length_pos_of_ne_nil hlexeme
      rw [List.length_append, List.length_append] at h
      obtain ⟨pieces, last, hscan, htiled⟩ := ih (by omega : rest.length < fuel)
        (before ++ gap ++ lexeme)
      let s : Scanned := ⟨gap, ⟨kind, .behind (before ++ gap), String.ofList lexeme⟩, faults⟩
      have hstop : s.stop = .behind (before ++ gap ++ lexeme) := by
        rw [stop, String.toList_ofList, Span.after_behind]
      rw [heq, Span.after_behind]
      refine ⟨s :: pieces, last, ?_, ?_⟩
      · show (if kind = .endOfInput then [s] else s :: scanFrom fuel s.stop rest) = _
        rw [if_neg hkind, hstop, hscan, List.cons_append]
      · have hcons : Tiled before (s.gap ++ s.token.lexeme.toList ++ rest) (s :: pieces) last := by
          refine .cons hgap hkind (fun hnil ↦ hlexeme ?_) rfl ?_
          · exact String.ofList_eq_empty_iff.mp hnil
          · rwa [String.toList_ofList]
        rwa [String.toList_ofList] at hcons

/-- A source text is tiled from its beginning. -/
theorem exists_tiled_scan (source : String) :
    ∃ pieces last, scan source = pieces ++ [last] ∧ Tiled [] source.toList pieces last :=
  exists_tiled (Nat.lt_succ_of_le (Nat.le_of_eq String.length_toList)) []

/-- All pieces together are the text. -/
theorem text_scan (source : String) : text (scan source) = source.toList := by
  obtain ⟨pieces, last, hscan, htiled⟩ := exists_tiled_scan source
  rw [hscan, htiled.text, text, List.flatMap_append]
  simp [text, htiled.isLast.lexeme]

/-- When all tokens have been given, every further call gives the end of input again. -/
theorem nth_of_length_le {fuel calls : Nat} {pos : Span} {text : List Char} {pieces : List Scanned}
    {last : Scanned} (h : scanFrom fuel pos text = pieces ++ [last])
    (hlast : last.token.kind = .endOfInput) (hcalls : pieces.length ≤ calls) :
    nth calls pos text = last.token := by
  induction fuel generalizing pos text pieces calls with
  | zero => exact absurd h.symm (by simp [scanFrom])
  | succ fuel ih =>
    rw [scanFrom] at h
    rcases next_cases pos text with
      ⟨-, heq⟩ | ⟨gap, lexeme, rest, kind, faults, -, -, -, hkind, heq⟩
    · rw [heq] at h
      have hone : [] ++ [⟨text, ⟨.endOfInput, pos.after text, ""⟩, []⟩] = pieces ++ [last] := h
      obtain ⟨-, hend⟩ := List.append_inj' hone rfl
      obtain rfl := List.singleton_inj.mp hend
      cases calls with
      | zero => rw [nth, heq]
      | succ calls =>
        rw [nth, heq, nth_nil]
        rfl
    · let s : Scanned := ⟨gap, ⟨kind, pos.after gap, String.ofList lexeme⟩, faults⟩
      have hcons : s :: scanFrom fuel s.stop rest = pieces ++ [last] := by
        rw [← h, heq]
        exact (if_neg hkind).symm
      rcases pieces with - | ⟨first, pieces⟩
      · obtain ⟨rfl, -⟩ := List.cons.inj hcons
        exact absurd hlast hkind
      · obtain ⟨rfl, htail⟩ := List.cons.inj hcons
        obtain ⟨more, rfl⟩ := Nat.exists_eq_add_of_le' hcalls
        rw [List.length_cons, ← Nat.add_assoc, nth, heq]
        exact ih htail (Nat.le_add_left _ _)

/-- A text is tiled by its tokens. Calls for the next token give them one after the other, and after them
the end of input again and again. -/
theorem scan_tiled (source : String) :
    ∃ pieces last, scan source = pieces ++ [last] ∧ Tiled [] source.toList pieces last ∧
      (∀ calls s, (pieces ++ [last])[calls]? = some s → nth calls .start source.toList = s.token) ∧
      ∀ calls, pieces.length ≤ calls → nth calls .start source.toList = last.token := by
  have hlength : source.toList.length < source.length + 1 :=
    Nat.lt_succ_of_le (Nat.le_of_eq String.length_toList)
  obtain ⟨pieces, last, hscan, htiled⟩ := exists_tiled hlength []
  refine ⟨pieces, last, hscan, htiled, fun calls s hs ↦ ?_, fun calls hcalls ↦ ?_⟩
  · rw [← hscan] at hs
    exact nth_of_getElem? hs
  · exact nth_of_length_le hscan htiled.isLast.kind hcalls

end Scanned

end StackScript
