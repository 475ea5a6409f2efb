import StackScript.Decimal.Reading
import StackScript.Diagnostics
import StackScript.Text.Alphabetic
import StackScript.Text.Numeric
import StackScript.Text.Uppercase

/-!
# Scanning

A source text is a row of tokens with gaps of blanks and comments between them. Scanning cuts the
text into such pieces without losing a character: the gaps and lexemes, put together again, are the
text. Malformed pieces still yield tokens; what is wrong with them is noted beside the token.
-/

namespace StackScript

/-- One step of scanning: the blanks and comments before a token, the token, and the faults found in
it, each where it was found. -/
structure Scanned where
  gap : List Char
  token : Token
  faults : List (Fault × Span)

namespace Scanned

/-! ### Character classes -/

/-- Blanks between tokens. -/
def isBlank (c : Char) : Bool :=
  c == ' ' || c == '\t' || c == '\r' || c == '\n'

/-- Characters that begin a name. -/
def startsName (c : Char) : Bool :=
  Text.alphabetic.contains c || c == '_'

/-- Characters that continue a name; a point joins the parts of a qualified name. -/
def continuesName (c : Char) : Bool :=
  Text.alphabetic.contains c || Text.numeric.contains c || c == '_' || c == '.'

/-! ### Gaps -/

/-- Splits off the blanks and comments at the front. A comment runs from two slashes to the end of
its line; `inComment` tells that the text begins inside one. -/
def splitGap (inComment : Bool) : List Char → List Char × List Char
  | [] => ([], [])
  | c :: rest =>
    let takes := if inComment then true else isBlank c || (c == '/' && rest.head? == some '/')
    if takes then
      let (gap, more) := splitGap (if inComment then c != '\n' else c == '/') rest
      (c :: gap, more)
    else ([], c :: rest)

/-! ### Lexemes -/

/-- A token kind with the characters it was read from, the rest of the text, and faults. -/
structure Piece where
  kind : TokenKind
  lexeme : List Char
  rest : List Char
  faults : List (Fault × Span)

/-- The character that a letter after a backslash stands for. -/
def unescape? : Char → Option Char
  | 'n' => some '\n'
  | 't' => some '\t'
  | 'r' => some '\r'
  | '\\' => some '\\'
  | '"' => some '"'
  | _ => none

/-- The inside of a string literal: its value, the characters read including the closing quote, the
rest, and faults. -/
structure Quotation where
  value : List Char
  lexeme : List Char
  rest : List Char
  faults : List (Fault × Span)

/-- Reads the inside of a string literal that opened at `start`, from the position `pos` on. The
literal ends at its closing quote, before a newline, or at the end of the text. -/
def readQuotation (start pos : Span) : List Char → Quotation
  | [] => ⟨[], [], [], [(.unterminatedString, start)]⟩
  | '"' :: rest => ⟨[], ['"'], rest, []⟩
  | '\n' :: rest => ⟨[], [], '\n' :: rest, [(.newlineInString, start)]⟩
  | ['\\'] => ⟨[], ['\\'], [], [(.unterminatedString, start)]⟩
  | '\\' :: c :: rest =>
    let after := pos.next '\\'
    let q := readQuotation start (after.next c) rest
    match unescape? c with
    | some meant => ⟨meant :: q.value, '\\' :: c :: q.lexeme, q.rest, q.faults⟩
    | none =>
      ⟨c :: q.value, '\\' :: c :: q.lexeme, q.rest, (.invalidEscape c, after) :: q.faults⟩
  | c :: rest =>
    let q := readQuotation start (pos.next c) rest
    ⟨c :: q.value, c :: q.lexeme, q.rest, q.faults⟩

/-- A string literal. -/
def readString (start : Span) (text : List Char) : Piece :=
  let q := readQuotation start (start.next '"') text
  ⟨.string (String.ofList q.value), '"' :: q.lexeme, q.rest, q.faults⟩

/-- A number, from its first digit on: an integer, or a fraction if a point follows. A point needs a
digit behind it, and an integer has to fit. -/
def readNumber (start : Span) (text : List Char) : Piece :=
  let whole := text.takeWhile Char.isDigit
  match text.dropWhile Char.isDigit with
  | '.' :: rest =>
    let fraction := rest.takeWhile Char.isDigit
    if fraction.isEmpty then
      let lexeme := whole ++ ['.']
      ⟨.float (Decimal.nearest (Decimal.digitsValue whole) 0), lexeme, rest,
        [(.malformedNumber (String.ofList lexeme), start)]⟩
    else
      let value := Decimal.nearest (Decimal.digitsValue (whole ++ fraction)) (-fraction.length)
      ⟨.float value, whole ++ '.' :: fraction, rest.dropWhile Char.isDigit, []⟩
  | rest =>
    match Decimal.readInt32? whole with
    | some n => ⟨.int n, whole, rest, []⟩
    | none => ⟨.int 0, whole, rest, [(.malformedNumber (String.ofList whole), start)]⟩

/-- What a word is: a keyword, or the name of a class if it is capitalised, or another name. -/
def wordKind (first : Char) (word : String) : TokenKind :=
  match Keyword.ofText? word with
  | some keyword => .keyword keyword
  | none => if Text.uppercase.contains first then .className word else .identifier word

/-- A word, from its first character on. -/
def readWord (first : Char) (rest : List Char) : Piece :=
  let lexeme := first :: rest.takeWhile continuesName
  ⟨wordKind first (String.ofList lexeme), lexeme, rest.dropWhile continuesName, []⟩

/-- The symbol at the front of a text, the longer one where two begin alike. -/
def readSymbol? : List Char → Option (Symbol × List Char)
  | '+' :: '=' :: rest => some (.plusEqual, rest)
  | '-' :: '=' :: rest => some (.minusEqual, rest)
  | '*' :: '=' :: rest => some (.starEqual, rest)
  | '/' :: '=' :: rest => some (.slashEqual, rest)
  | '=' :: '=' :: rest => some (.equalEqual, rest)
  | '!' :: '=' :: rest => some (.bangEqual, rest)
  | '<' :: '=' :: rest => some (.lessEqual, rest)
  | '>' :: '=' :: rest => some (.greaterEqual, rest)
  | '&' :: '&' :: rest => some (.andAnd, rest)
  | '|' :: '|' :: rest => some (.orOr, rest)
  | '+' :: rest => some (.plus, rest)
  | '-' :: rest => some (.minus, rest)
  | '*' :: rest => some (.star, rest)
  | '/' :: rest => some (.slash, rest)
  | '=' :: rest => some (.equal, rest)
  | '!' :: rest => some (.bang, rest)
  | '<' :: rest => some (.less, rest)
  | '>' :: rest => some (.greater, rest)
  | '(' :: rest => some (.leftParen, rest)
  | ')' :: rest => some (.rightParen, rest)
  | '\x7b' :: rest => some (.leftBrace, rest)
  | '\x7d' :: rest => some (.rightBrace, rest)
  | '[' :: rest => some (.leftBracket, rest)
  | ']' :: rest => some (.rightBracket, rest)
  | ',' :: rest => some (.comma, rest)
  | ';' :: rest => some (.semicolon, rest)
  | ':' :: rest => some (.colon, rest)
  | _ => none

/-- The token at the front of a text that begins with `first`, at `start`. -/
def readPiece (start : Span) (first : Char) (rest : List Char) : Piece :=
  match readSymbol? (first :: rest) with
  | some (sign, more) => ⟨.symbol sign, sign.text.toList, more, []⟩
  | none =>
    if first = '"' then readString start rest
    else if first.isDigit then readNumber start (first :: rest)
    else if startsName first then readWord first rest
    else ⟨.stray, [first], rest, [(.unexpectedCharacter first, start)]⟩

/-! ### Whole texts -/

/-- Scans one token off a text that begins at `pos`, and gives the rest. -/
def next (pos : Span) (text : List Char) : Scanned × List Char :=
  let (gap, text) := splitGap false text
  let start := pos.after gap
  match text with
  | [] => (⟨gap, ⟨.endOfInput, start, ""⟩, []⟩, [])
  | first :: rest =>
    let piece := readPiece start first rest
    (⟨gap, ⟨piece.kind, start, String.ofList piece.lexeme⟩, piece.faults⟩, piece.rest)

/-- The position behind a scanned token. -/
def stop (s : Scanned) : Span :=
  s.token.span.after s.token.lexeme.toList

/-- The first `fuel` tokens of a text that begins at `pos`, up to the end of input. -/
def scanFrom : (fuel : Nat) → (pos : Span) → List Char → List Scanned
  | 0, _, _ => []
  | fuel + 1, pos, text =>
    let (scanned, rest) := next pos text
    if scanned.token.kind = .endOfInput then [scanned]
    else scanned :: scanFrom fuel scanned.stop rest

/-- The tokens of a source text, ending with the end of input. No token but that one is empty, so a
text has no more tokens than characters beside it. -/
def scan (source : String) : List Scanned :=
  scanFrom (source.length + 1) .start source.toList

end Scanned

/-- Reads the characters of a scanned token and records its faults; the end of input ends the
source. -/
def Diagnostics.absorb (d : Diagnostics) (s : Scanned) : Diagnostics :=
  let read := (d.feedAll s.gap).feedAll s.token.lexeme.toList
  let told := s.faults.foldl (fun d (fault, span) => d.raise fault span) read
  if s.token.kind = .endOfInput then told.finish else told

end StackScript
