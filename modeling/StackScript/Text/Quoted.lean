import StackScript.Text.GraphemeExtend
import StackScript.Text.Unprintable

/-!
# Quoted texts

A text is quoted so that it can be read on one line: quotes, backslashes and the common controls are
written with a backslash, and whatever would print nothing, or would melt into the character before
it, is written by its code point in braces.
-/

namespace StackScript.Text

/-- The hexadecimal digits of a code point, without leading zeros. -/
def hexDigits (n : Nat) : List Char :=
  Nat.toDigits 16 n

/-- The halfwidth sound marks of kana. They extend the character before them, but they are letters that
take up room of their own. -/
def halfwidthSoundMark : CharSet := ⟨[65438, 65440]⟩

/-- Whether a character would melt into the one before it. -/
def melts (c : Char) : Bool :=
  graphemeExtend.contains c && !halfwidthSoundMark.contains c

/-- How one character stands inside a quoted text. -/
def escape (c : Char) : List Char :=
  match c with
  | '\x00' => ['\\', '0']
  | '\t' => ['\\', 't']
  | '\r' => ['\\', 'r']
  | '\n' => ['\\', 'n']
  | '\\' => ['\\', '\\']
  | '"' => ['\\', '"']
  | c =>
    if melts c || unprintable.contains c then
      ['\\', 'u', '\x7b'] ++ hexDigits c.toNat ++ ['\x7d']
    else [c]

/-- A text between quotes, with every troublesome character escaped. -/
def quoted (s : String) : String :=
  String.ofList ('"' :: (s.toList.flatMap escape ++ ['"']))

end StackScript.Text
