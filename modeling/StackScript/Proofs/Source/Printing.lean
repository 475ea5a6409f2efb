import Mathlib
import StackScript.Proofs.Source.Reports
import StackScript.Proofs.Source.Tiling

/-!
# Scanning undoes printing

Tokens that are written one after the other, with a blank at least between them, are scanned again as
what they are (`scan_printed`). `Spells` says how a token may be written: names and symbols in one way,
numbers by their digits, and the characters of a text as they are or escaped.

No token goes on with a blank, so every reader stops where the token ends (`readsAs_of_spells`). Between
two tokens there may stand any gap that begins with a blank.
-/

namespace StackScript.Scanned

/-! ### Written tokens -/

/-- The letters behind a backslash, with the characters they stand for. -/
def escapes : List (Char × Char) :=
  [('n', '\n'), ('t', '\t'), ('r', '\r'), ('\\', '\\'), ('"', '"')]

/-- Texts, with what may stand for them between quotes. Any character may be escaped that has a letter;
quotes, backslashes and newlines have to be. -/
inductive Quotes : List Char → List Char → Prop
  | nil : Quotes [] []
  | plain {c : Char} {value inside : List Char} (hc : c ∉ ['"', '\\', '\n'])
    (h : Quotes value inside) : Quotes (c :: value) (c :: inside)
  | escaped {letter c : Char} {value inside : List Char} (hc : (letter, c) ∈ escapes)
    (h : Quotes value inside) : Quotes (c :: value) ('\\' :: letter :: inside)

/-- Names that are no keywords. -/
structure IsName (first : Char) (rest : List Char) : Prop where
  starts : startsName first = true
  continues : ∀ c ∈ rest, continuesName c = true
  ne_keyword : ∀ word : Keyword, word.text.toList ≠ first :: rest

/-- How tokens are written. -/
inductive Spells : TokenKind → List Char → Prop
  | keyword (word : Keyword) : Spells (.keyword word) word.text.toList
  | symbol (sign : Symbol) : Spells (.symbol sign) sign.text.toList
  | identifier {first : Char} {rest : List Char} (h : IsName first rest)
    (hfirst : Text.uppercase.contains first = false) :
    Spells (.identifier (String.ofList (first :: rest))) (first :: rest)
  | className {first : Char} {rest : List Char} (h : IsName first rest)
    (hfirst : Text.uppercase.contains first = true) :
    Spells (.className (String.ofList (first :: rest))) (first :: rest)
  | int {digits : List Char} {n : Int32} (h : (Decimal.readNat? digits).map Int.ofNat = some n.toInt) :
    Spells (.int n) digits
  | float {whole fraction : List Char} {x : Float32} (hwhole : (Decimal.readNat? whole).isSome)
    (hfraction : (Decimal.readNat? fraction).isSome)
    (h : Decimal.readFloat32? (whole ++ '.' :: fraction) = some x) :
    Spells (.float x) (whole ++ '.' :: fraction)
  | string {value inside : List Char} (h : Quotes value inside) :
    Spells (.string (String.ofList value)) ('"' :: (inside ++ ['"']))

/-- What stands between two tokens: a gap that begins with a blank. -/
inductive Separator : List Char → Prop
  | blank {c : Char} {gap : List Char} (hc : c ∈ blanks) (h : Gap gap) :
    Separator (c :: gap)

/-- Tokens written one after the other with separators between them, and perhaps one behind them. -/
inductive Prints : List TokenKind → List Char → Prop
  | nil : Prints [] []
  | last {kind : TokenKind} {text : List Char} (h : Spells kind text) : Prints [kind] text
  | cons {kind : TokenKind} {kinds : List TokenKind} {text separator rest : List Char}
    (h : Spells kind text) (hs : Separator separator) (hrest : Prints kinds rest) :
    Prints (kind :: kinds) (text ++ separator ++ rest)

/-- Every text can be written between quotes. -/
theorem exists_quotes (value : List Char) : ∃ inside, Quotes value inside := by
  induction value with
  | nil => exact ⟨[], .nil⟩
  | cons c value ih =>
    obtain ⟨inside, h⟩ := ih
    by_cases hc : c ∈ ['"', '\\', '\n']
    · obtain ⟨letter, hletter⟩ : ∃ letter, (letter, c) ∈ escapes := by
        simp only [List.mem_cons, List.not_mem_nil, or_false] at hc
        rcases hc with rfl | rfl | rfl
        · exact ⟨'"', by decide⟩
        · exact ⟨'\\', by decide⟩
        · exact ⟨'n', by decide⟩
      exact ⟨_, .escaped hletter h⟩
    · exact ⟨_, .plain hc h⟩

/-- Every integer that is not negative is written by its decimal digits. -/
theorem spells_toDigits {n : Int32} (h : 0 ≤ n.toInt) :
    Spells (.int n) (Nat.toDigits 10 n.toInt.toNat) := by
  have hdigits : (Nat.toDigits 10 n.toInt.toNat).all Char.isDigit = true :=
    List.all_eq_true.mpr fun c hc ↦ Nat.isDigit_of_mem_toDigits (by decide) (by decide) hc
  have hvalue : Decimal.digitsValue (Nat.toDigits 10 n.toInt.toNat) = n.toInt.toNat :=
    (Nat.ofDigitChars_eq_foldl).symm.trans
      (Nat.ofDigitChars_toDigits (by decide) (by decide))
  refine .int ?_
  rw [Decimal.readNat?, hdigits, hvalue, List.isEmpty_eq_false_iff.mpr Nat.toDigits_ne_nil]
  exact congrArg some (Int.toNat_of_nonneg h)

/-! ### Where tokens end -/

/-- A text that begins with a blank, if it begins at all. No token reaches into it. -/
def Apart (text : List Char) : Prop := ∀ c, text.head? = some c → c ∈ blanks

theorem apart_nil : Apart [] :=
  fun _ h ↦ nomatch h

theorem Separator.gap {separator : List Char} (h : Separator separator) : Gap separator := by
  cases h with
  | blank hc h => exact .blank hc h

theorem Separator.apart {separator : List Char} (h : Separator separator) (rest : List Char) :
    Apart (separator ++ rest) := by
  cases h with
  | blank hc _ =>
    intro c h
    cases h
    exact hc

/-- The longest row of characters of a class ends where a character of another class follows. -/
theorem span_of_stop {p : Char → Bool} {front : List Char} (hfront : ∀ c ∈ front, p c = true)
    (rest : List Char) (hrest : ∀ c, rest.head? = some c → p c = false) :
    (front ++ rest).takeWhile p = front ∧ (front ++ rest).dropWhile p = rest := by
  rw [List.takeWhile_append_of_pos hfront, List.dropWhile_append_of_pos hfront]
  rcases rest with - | ⟨c, rest⟩
  · simp
  · have hc := hrest c rfl
    simp [hc]

theorem Apart.span {p : Char → Bool} {front rest : List Char} (h : Apart rest)
    (hp : blanks.all (!p ·)) (hfront : ∀ c ∈ front, p c = true) :
    (front ++ rest).takeWhile p = front ∧ (front ++ rest).dropWhile p = rest :=
  span_of_stop hfront rest fun c hc ↦ by simpa using List.all_eq_true.mp hp c (h c hc)

theorem Apart.ne_point {rest more : List Char} (h : Apart rest) : rest ≠ '.' :: more := by
  rintro rfl
  exact absurd (h '.' rfl) (by decide)

/-! ### Reading symbols and texts back -/

theorem readSymbol?_text (sign : Symbol) {rest : List Char} (h : Apart rest) :
    readSymbol? (sign.text.toList ++ rest) = some (sign, rest) := by
  rcases rest with - | ⟨c, rest⟩
  · cases sign <;> rfl
  · have hc := h c rfl
    simp only [List.mem_cons, List.not_mem_nil, or_false] at hc
    rcases hc with rfl | rfl | rfl | rfl <;> cases sign <;> rfl

/-- The first characters of symbols begin no other tokens, nor a gap. -/
theorem first_of_symbol {sign : Symbol} {first : Char} (h : sign.text.toList.head? = some first) :
    startsName first = false ∧ first.isDigit = false ∧ first ≠ '"' ∧ isBlank first = false := by
  cases sign <;> (obtain rfl := Option.some.inj h) <;> decide

theorem readSymbol?_eq_none {first : Char} (rest : List Char)
    (h : startsName first ∨ first.isDigit ∨ first = '"') : readSymbol? (first :: rest) = none := by
  rcases hr : readSymbol? (first :: rest) with - | ⟨sign, more⟩
  · rfl
  · have happend := append_of_readSymbol? hr
    have hhead : sign.text.toList.head? = some first := by
      cases sign <;> exact congrArg List.head? happend
    have hfirst := first_of_symbol hhead
    simp [hfirst] at h

theorem unescape?_of_mem {letter c : Char} (h : (letter, c) ∈ escapes) :
    unescape? letter = some c := by
  simp only [escapes, List.mem_cons, Prod.mk.injEq, List.not_mem_nil, or_false] at h
  rcases h with ⟨rfl, rfl⟩ | ⟨rfl, rfl⟩ | ⟨rfl, rfl⟩ | ⟨rfl, rfl⟩ | ⟨rfl, rfl⟩ <;> rfl

theorem readQuotation_of_quotes {value inside : List Char} (h : Quotes value inside) (start pos : Span)
    (rest : List Char) :
    readQuotation start pos (inside ++ '"' :: rest) = ⟨value, inside ++ ['"'], rest, []⟩ := by
  induction h generalizing pos with
  | nil => rfl
  | @plain c value inside hc h ih =>
    obtain ⟨hquote, hslash, hline⟩ : c ≠ '"' ∧ c ≠ '\\' ∧ c ≠ '\n' := by simpa using hc
    rw [List.cons_append, readQuotation, ih]
    · rfl
    · exact fun h ↦ absurd h hquote
    · exact fun h ↦ absurd h hline
    · exact fun h ↦ absurd h hslash
    · exact fun _ _ h ↦ absurd h hslash
  | @escaped letter c value inside hc h ih =>
    rw [List.cons_append, List.cons_append, readQuotation, ih, unescape?_of_mem hc]
    rfl

/-! ### Reading numbers back -/

theorem digits_of_readNat? {digits : List Char} (h : (Decimal.readNat? digits).isSome) :
    digits ≠ [] ∧ ∀ c ∈ digits, c.isDigit = true := by
  unfold Decimal.readNat? at h
  split at h
  · simp_all
  · cases h

/-- Digits are no signs. -/
theorem splitSign_of_digits {digits : List Char} (hne : digits ≠ [])
    (hd : ∀ c ∈ digits, c.isDigit = true) (more : List Char) :
    Decimal.splitSign (digits ++ more) = (false, digits ++ more) := by
  rcases digits with - | ⟨d, digits⟩
  · exact absurd rfl hne
  · have hdigit := hd d (.head _)
    unfold Decimal.splitSign
    split
    · rename_i h
      obtain ⟨rfl, -⟩ := List.cons.inj h
      exact absurd hdigit (by decide)
    · rename_i h
      obtain ⟨rfl, -⟩ := List.cons.inj h
      exact absurd hdigit (by decide)
    · rfl

theorem readInt32?_of_readNat? {digits : List Char} {n : Int32}
    (h : (Decimal.readNat? digits).map Int.ofNat = some n.toInt) :
    Decimal.readInt32? digits = some n := by
  obtain ⟨value, hvalue, hn⟩ := Option.map_eq_some_iff.mp h
  obtain ⟨hne, hd⟩ := digits_of_readNat? (Option.isSome_of_eq_some hvalue)
  have hsign := splitSign_of_digits hne hd []
  rw [List.append_nil] at hsign
  have hrange : -2147483648 ≤ n.toInt ∧ n.toInt ≤ 2147483647 :=
    ⟨n.le_toInt, Int.lt_add_one_iff.mp n.toInt_lt⟩
  rw [← hn] at hrange
  simp only [Decimal.readInt32?, hsign, hvalue]
  rw [if_neg Bool.false_ne_true]
  show (if -2147483648 ≤ Int.ofNat value ∧ Int.ofNat value ≤ 2147483647 then _ else _) = _
  rw [if_pos hrange]
  show some (Int32.ofInt (Int.ofNat value)) = _
  rw [hn, Int32.ofInt_toInt]

theorem readNumber_int {digits rest : List Char} {n : Int32}
    (h : (Decimal.readNat? digits).map Int.ofNat = some n.toInt) (hrest : Apart rest) (start : Span) :
    readNumber start (digits ++ rest) = ⟨.int n, digits, rest, []⟩ := by
  obtain ⟨value, hvalue, -⟩ := Option.map_eq_some_iff.mp h
  obtain ⟨-, hd⟩ := digits_of_readNat? (Option.isSome_of_eq_some hvalue)
  obtain ⟨htake, hdrop⟩ := hrest.span (p := Char.isDigit) rfl hd
  unfold readNumber
  rw [htake, hdrop]
  dsimp only
  split
  · exact absurd rfl hrest.ne_point
  · rw [readInt32?_of_readNat? h]

theorem toNat_of_isDigit {d : Char} (hd : d.isDigit = true) : 48 ≤ d.toNat ∧ d.toNat ≤ 57 := by
  simp only [Char.isDigit, Bool.and_eq_true, decide_eq_true_eq] at hd
  exact ⟨UInt32.le_iff_toNat_le.mp hd.1, UInt32.le_iff_toNat_le.mp hd.2⟩

theorem toLower_of_isDigit {d : Char} (hd : d.isDigit = true) : d.toLower = d := by
  have hupper : ¬ (d.val ≥ 'A'.val ∧ d.val ≤ 'Z'.val) := by
    intro h
    have hle : 65 ≤ d.toNat := UInt32.le_iff_toNat_le.mp h.1
    have hdigit := toNat_of_isDigit hd
    omega
  rw [Char.toLower]
  exact dif_neg hupper

/-- What begins with a digit is no word. -/
theorem ofList_toLower_ne {d : Char} (hd : d.isDigit = true) (more : List Char) {word : String}
    (hword : word.toList.head?.all (!·.isDigit)) : String.ofList ((d :: more).map Char.toLower) ≠ word := by
  rintro rfl
  rw [String.toList_ofList, List.map_cons, toLower_of_isDigit hd] at hword
  simp [hd] at hword

/-- The value of a number with a point. -/
theorem readFloat32?_point {whole fraction : List Char} (hwhole : (Decimal.readNat? whole).isSome)
    (hfraction : (Decimal.readNat? fraction).isSome) :
    Decimal.readFloat32? (whole ++ '.' :: fraction) =
      some (Decimal.nearest (Decimal.digitsValue (whole ++ fraction)) (-fraction.length)) := by
  obtain ⟨hne, hd⟩ := digits_of_readNat? hwhole
  obtain ⟨-, hd'⟩ := digits_of_readNat? hfraction
  have hmagnitude : Decimal.readMagnitude? (whole ++ '.' :: fraction) =
      some (Decimal.nearest (Decimal.digitsValue (whole ++ fraction)) (-fraction.length)) := by
    obtain ⟨htake, hdrop⟩ := span_of_stop hd ('.' :: fraction) (by simp)
    obtain ⟨htake', hdrop'⟩ := span_of_stop hd' [] (by simp)
    rw [List.append_nil] at htake' hdrop'
    simp [Decimal.readMagnitude?, htake, hdrop, htake', hdrop', hne, Decimal.readExponent?]
  have hsign := splitSign_of_digits hne hd ('.' :: fraction)
  rcases whole with - | ⟨d, whole⟩
  · exact absurd rfl hne
  · have hword {word : String} (h : word.toList.head?.all (!·.isDigit)) :=
      ofList_toLower_ne (hd d (.head _)) (whole ++ '.' :: fraction) h
    rw [List.cons_append] at hsign hmagnitude
    simp only [Decimal.readFloat32?, List.cons_append, hsign, hmagnitude]
    rw [if_neg (not_or.mpr ⟨hword rfl, hword rfl⟩), if_neg (hword rfl)]
    rfl

theorem readNumber_float {whole fraction rest : List Char} {x : Float32}
    (hwhole : (Decimal.readNat? whole).isSome) (hfraction : (Decimal.readNat? fraction).isSome)
    (h : Decimal.readFloat32? (whole ++ '.' :: fraction) = some x) (hrest : Apart rest) (start : Span) :
    readNumber start (whole ++ '.' :: fraction ++ rest) =
      ⟨.float x, whole ++ '.' :: fraction, rest, []⟩ := by
  obtain ⟨-, hwholeDigits⟩ := digits_of_readNat? hwhole
  obtain ⟨hne, hfractionDigits⟩ := digits_of_readNat? hfraction
  obtain ⟨htake, hdrop⟩ := span_of_stop hwholeDigits ('.' :: (fraction ++ rest)) (by simp)
  obtain ⟨htake', hdrop'⟩ := hrest.span (p := Char.isDigit) rfl hfractionDigits
  rw [readFloat32?_point hwhole hfraction] at h
  rw [List.append_assoc, List.cons_append]
  unfold readNumber
  rw [htake, hdrop]
  dsimp only
  simp only [htake', hdrop', if_neg (show ¬ fraction.isEmpty by simpa using hne), Option.some.inj h]

/-! ### Reading words back -/

theorem ofText?_text (word : Keyword) : Keyword.ofText? word.text = some word := by
  cases word <;> rfl

theorem text_of_ofText? {text : String} {word : Keyword} (h : Keyword.ofText? text = some word) :
    word.text = text := by
  have hfound := List.find?_some (p := fun w : Keyword ↦ w.text == text) h
  exact beq_iff_eq.mp hfound

/-- A keyword is a word. -/
theorem continues_of_keyword {word : Keyword} {first : Char} {rest : List Char}
    (h : word.text.toList = first :: rest) :
    startsName first = true ∧ ∀ c ∈ rest, continuesName c = true := by
  have hall : startsName first = true ∧ rest.all continuesName = true := by
    cases word <;> (obtain ⟨rfl, rfl⟩ := List.cons.inj h) <;> decide
  exact ⟨hall.1, List.all_eq_true.mp hall.2⟩

theorem readWord_of_continues {first : Char} {more rest : List Char}
    (hmore : ∀ c ∈ more, continuesName c = true) (hrest : Apart rest) :
    readWord first (more ++ rest) =
      ⟨wordKind first (String.ofList (first :: more)), first :: more, rest, []⟩ := by
  obtain ⟨htake, hdrop⟩ := hrest.span (p := continuesName) rfl hmore
  simp only [readWord, htake, hdrop]

theorem wordKind_keyword (word : Keyword) (first : Char) :
    wordKind first word.text = .keyword word := by
  rw [wordKind, ofText?_text]

theorem IsName.wordKind_eq {first : Char} {rest : List Char} (h : IsName first rest) :
    wordKind first (String.ofList (first :: rest)) =
      if Text.uppercase.contains first then .className (String.ofList (first :: rest))
      else .identifier (String.ofList (first :: rest)) := by
  have hnone : Keyword.ofText? (String.ofList (first :: rest)) = none := by
    rcases hword : Keyword.ofText? (String.ofList (first :: rest)) with - | word
    · rfl
    · have htext := congrArg String.toList (text_of_ofText? hword)
      rw [String.toList_ofList] at htext
      exact absurd htext (h.ne_keyword word)
  rw [wordKind, hnone]

/-- No name begins below the letters. -/
theorem le_toNat_of_startsName {c : Char} (h : startsName c = true) : 65 ≤ c.toNat := by
  by_contra hlt
  obtain ⟨more, hchanges⟩ : ∃ more, Text.alphabetic.changes = 65 :: more := ⟨_, rfl⟩
  have halphabetic : Text.alphabetic.contains c = false := by
    rw [Text.CharSet.contains, hchanges, List.takeWhile_cons_of_neg (by simpa using hlt)]
    rfl
  have hunderscore : c ≠ '_' := by
    rintro rfl
    exact absurd hlt (by decide)
  simp [startsName, halphabetic, hunderscore] at h

/-! ### Reading tokens back -/

/-- A text that is read as a token, whatever stands behind it, unless the token could go on there. -/
structure ReadsAs (kind : TokenKind) (text rest : List Char) : Prop where
  /-- The token is no part of the gap before it. -/
  gap : splitGap false (text ++ rest) = ([], text ++ rest)
  exists_piece : ∀ start, ∃ first more, text = first :: more ∧
    readPiece start first (more ++ rest) = ⟨kind, text, rest, []⟩

theorem readsAs_of_first {kind : TokenKind} {first : Char} {more rest : List Char}
    (hblank : isBlank first = false) (hslash : ¬ (first = '/' ∧ (more ++ rest).head? = some '/'))
    (h : ∀ start, readPiece start first (more ++ rest) = ⟨kind, first :: more, rest, []⟩) :
    ReadsAs kind (first :: more) rest :=
  ⟨splitGap_of_not (by simp [hblank]) hslash, fun start ↦ ⟨first, more, rfl, h start⟩⟩

theorem isBlank_of_toNat {c : Char} (h : 33 ≤ c.toNat) : isBlank c = false := by
  by_contra hblank
  have hmem := isBlank_iff.mp ((Bool.not_eq_false _).mp hblank)
  simp only [List.mem_cons, List.not_mem_nil, or_false] at hmem
  rcases hmem with rfl | rfl | rfl | rfl <;> exact absurd h (by decide)

theorem readsAs_symbol (sign : Symbol) {rest : List Char} (hrest : Apart rest) :
    ReadsAs (.symbol sign) sign.text.toList rest := by
  have hread := readSymbol?_text sign hrest
  obtain ⟨first, more, htext⟩ : ∃ first more, sign.text.toList = first :: more := by
    cases sign <;> exact ⟨_, _, rfl⟩
  have hfirst : sign.text.toList.head? = some first := by rw [htext]; rfl
  have hslash : ¬ (first = '/' ∧ (more ++ rest).head? = some '/') := by
    rintro ⟨rfl, hhead⟩
    have hmore : more = [] ∨ more = ['='] := by
      cases sign <;> simp_all [Symbol.text]
    rcases hmore with rfl | rfl
    · exact absurd (hrest '/' hhead) (by decide)
    · cases hhead
  rw [htext] at hread ⊢
  refine readsAs_of_first (first_of_symbol hfirst).2.2.2 hslash fun start ↦ ?_
  rw [List.cons_append] at hread
  simp only [readPiece, hread]
  rw [htext]

theorem readsAs_word {first : Char} {more rest : List Char} (hfirst : startsName first = true)
    (hmore : ∀ c ∈ more, continuesName c = true) (hrest : Apart rest) :
    ReadsAs (wordKind first (String.ofList (first :: more))) (first :: more) rest := by
  have hle := le_toNat_of_startsName hfirst
  have hquote : first ≠ '"' := by
    rintro rfl
    exact absurd hle (by decide)
  have hdigit : first.isDigit = false := by
    by_contra hdigit
    have := toNat_of_isDigit ((Bool.not_eq_false _).mp hdigit)
    omega
  have hslash : first ≠ '/' := by
    rintro rfl
    exact absurd hle (by decide)
  refine readsAs_of_first (isBlank_of_toNat (by omega)) (fun h ↦ hslash h.1) fun start ↦ ?_
  simp [readPiece, readSymbol?_eq_none _ (.inl hfirst), hquote, hdigit, hfirst,
    readWord_of_continues hmore hrest]

theorem readsAs_number {kind : TokenKind} {digits more rest : List Char}
    (hdigits : (Decimal.readNat? digits).isSome)
    (h : ∀ start, readNumber start (digits ++ more ++ rest) = ⟨kind, digits ++ more, rest, []⟩) :
    ReadsAs kind (digits ++ more) rest := by
  obtain ⟨hne, hd⟩ := digits_of_readNat? hdigits
  rcases digits with - | ⟨d, digits⟩
  · exact absurd rfl hne
  have hdigit := hd d (.head _)
  have hle := toNat_of_isDigit hdigit
  have hquote : d ≠ '"' := by
    rintro rfl
    exact absurd hle (by decide)
  have hslash : d ≠ '/' := by
    rintro rfl
    exact absurd hle (by decide)
  refine readsAs_of_first (isBlank_of_toNat (by omega)) (fun h ↦ hslash h.1) fun start ↦ ?_
  simp only [readPiece, readSymbol?_eq_none _ (.inr (.inl hdigit)), if_neg hquote, if_pos hdigit]
  exact h start

theorem readsAs_string {value inside : List Char} (h : Quotes value inside) (rest : List Char) :
    ReadsAs (.string (String.ofList value)) ('"' :: (inside ++ ['"'])) rest := by
  refine readsAs_of_first rfl (fun h ↦ absurd h.1 (by decide)) fun start ↦ ?_
  simp only [readPiece, readSymbol?_eq_none _ (.inr (.inr rfl)), if_pos trivial, readString,
    List.append_assoc, List.singleton_append, readQuotation_of_quotes h]

/-- Every token is read as it is written, if what stands behind it begins with a blank. -/
theorem readsAs_of_spells {kind : TokenKind} {text rest : List Char} (h : Spells kind text)
    (hrest : Apart rest) : ReadsAs kind text rest := by
  cases h with
  | keyword word =>
    obtain ⟨first, more, htext⟩ : ∃ first more, word.text.toList = first :: more := by
      cases word <;> exact ⟨_, _, rfl⟩
    obtain ⟨hfirst, hmore⟩ := continues_of_keyword htext
    have hword : String.ofList (first :: more) = word.text := by rw [← htext, String.ofList_toList]
    have hreads := readsAs_word hfirst hmore hrest
    rwa [hword, wordKind_keyword, ← htext] at hreads
  | symbol sign => exact readsAs_symbol sign hrest
  | identifier h hfirst =>
    have hreads := readsAs_word h.starts h.continues hrest
    rwa [h.wordKind_eq, hfirst] at hreads
  | className h hfirst =>
    have hreads := readsAs_word h.starts h.continues hrest
    rwa [h.wordKind_eq, hfirst] at hreads
  | @int _ n h =>
    obtain ⟨value, hvalue, -⟩ := Option.map_eq_some_iff.mp h
    have hreads : ReadsAs (.int n) (text ++ []) rest :=
      readsAs_number (Option.isSome_of_eq_some hvalue) fun start ↦ by
        rw [List.append_nil, readNumber_int h hrest]
    rwa [List.append_nil] at hreads
  | float hwhole hfraction h =>
    exact readsAs_number hwhole (readNumber_float hwhole hfraction h hrest)
  | string h => exact readsAs_string h rest

theorem Spells.ne_end {kind : TokenKind} {text : List Char} (h : Spells kind text) :
    kind ≠ .endOfInput := by
  rintro rfl
  cases h

/-! ### Reading whole texts back -/

/-- A gap is split off together with the gap behind it. -/
theorem splitGap_append_of_gap {gap : List Char} (h : Gap gap) (rest : List Char) :
    splitGap false (gap ++ rest) = (gap ++ (splitGap false rest).1, (splitGap false rest).2) := by
  induction h with
  | nil => rfl
  | blank hc h ih => rw [List.cons_append, splitGap_blank (isBlank_iff.mpr hc), ih]; rfl
  | comment ht h ih =>
    rw [List.cons_append, List.cons_append, List.append_assoc, List.cons_append, splitGap_slashes,
      splitGap_comment ht, ih]
    simp

theorem next_of_readsAs {kind : TokenKind} {gap text rest : List Char} (hgap : Gap gap)
    (h : ReadsAs kind text rest) (pos : Span) :
    next pos (gap ++ (text ++ rest)) =
      (⟨gap, ⟨kind, pos.after gap, String.ofList text⟩, []⟩, rest) := by
  obtain ⟨first, more, rfl, hpiece⟩ := h.exists_piece (pos.after gap)
  have hsplit := splitGap_append_of_gap hgap (first :: more ++ rest)
  rw [h.gap, List.append_nil] at hsplit
  rw [next, hsplit]
  simp only [List.cons_append, hpiece]

theorem next_of_gap {gap : List Char} (hgap : Gap gap) (pos : Span) :
    next pos gap = (⟨gap, ⟨.endOfInput, pos.after gap, ""⟩, []⟩, []) := by
  have hsplit := splitGap_append_of_gap hgap []
  rw [List.append_nil] at hsplit
  simp only [next, hsplit, splitGap, List.append_nil]

/-- Pieces that are the given tokens and the end of input, without faults. -/
structure Reads (pieces : List Scanned) (kinds : List TokenKind) : Prop where
  kind : pieces.map (·.token.kind) = kinds ++ [.endOfInput]
  faults : ∀ s ∈ pieces, s.faults = []

theorem reads_of_gap {fuel : Nat} {gap : List Char} (hgap : Gap gap) (pos : Span) :
    Reads (scanFrom (fuel + 1) pos gap) [] := by
  rw [scanFrom, next_of_gap hgap]
  exact ⟨rfl, List.forall_mem_singleton.mpr rfl⟩

theorem reads_of_spells {fuel : Nat} {kind : TokenKind} {kinds : List TokenKind}
    {gap text rest : List Char} (hgap : Gap gap) (h : Spells kind text) (hrest : Apart rest)
    (hreads : ∀ pos, Reads (scanFrom fuel pos rest) kinds) (pos : Span) :
    Reads (scanFrom (fuel + 1) pos (gap ++ (text ++ rest))) (kind :: kinds) := by
  rw [scanFrom, next_of_readsAs hgap (readsAs_of_spells h hrest)]
  dsimp only
  rw [if_neg h.ne_end]
  obtain ⟨hkind, hfaults⟩ := hreads (stop ⟨gap, ⟨kind, pos.after gap, String.ofList text⟩, []⟩)
  exact ⟨by rw [List.map_cons, hkind]; rfl, List.forall_mem_cons.mpr ⟨rfl, hfaults⟩⟩

theorem Spells.length_pos {kind : TokenKind} {text : List Char} (h : Spells kind text) :
    0 < text.length := by
  obtain ⟨first, more, rfl, -⟩ := (readsAs_of_spells h apart_nil).exists_piece .start
  exact Nat.succ_pos _

/-- Tokens are scanned one after the other, each with the gap before it. -/
theorem Prints.reads {kinds : List TokenKind} {text : List Char} (h : Prints kinds text) {fuel : Nat}
    (hfuel : text.length < fuel) {gap : List Char} (hgap : Gap gap) (pos : Span) :
    Reads (scanFrom fuel pos (gap ++ text)) kinds := by
  obtain ⟨fuel, rfl⟩ := Nat.exists_eq_add_of_lt (Nat.zero_lt_of_lt hfuel)
  rw [Nat.zero_add] at hfuel ⊢
  induction h generalizing fuel gap pos with
  | nil =>
    rw [List.append_nil]
    exact reads_of_gap hgap pos
  | @last kind text h =>
    have hpos := h.length_pos
    obtain ⟨fuel, rfl⟩ : ∃ n, fuel = n + 1 := ⟨fuel - 1, by omega⟩
    have hend (pos : Span) : Reads (scanFrom (fuel + 1) pos []) [] := reads_of_gap .nil pos
    have hreads := reads_of_spells hgap h apart_nil hend pos
    rwa [List.append_nil] at hreads
  | @cons kind kinds text separator rest h hs hrest ih =>
    have hpos := h.length_pos
    rw [List.length_append, List.length_append] at hfuel
    obtain ⟨fuel, rfl⟩ : ∃ n, fuel = n + 1 := ⟨fuel - 1, by omega⟩
    rw [List.append_assoc]
    exact reads_of_spells hgap h (hs.apart rest) (fun pos ↦ ih hs.gap pos fuel (by omega)) pos

end StackScript.Scanned
