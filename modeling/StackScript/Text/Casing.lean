import StackScript.Text.Cased
import StackScript.Text.CaseIgnorable
import StackScript.Text.CaseMap

/-!
# Upper and lower case of texts

Full case mapping: a character may map to several (`ß` to `SS`), and the lowercase form of a capital
sigma depends on where it stands in its word.
-/

namespace StackScript.Text

/-- The uppercase form of one character. -/
def upperOf (c : Char) : List Char :=
  (mapCase upperExpansions upperRuns c.toNat).map Char.ofNat

/-- The lowercase form of one character, apart from its context. -/
def lowerOf (c : Char) : List Char :=
  (mapCase lowerExpansions lowerRuns c.toNat).map Char.ofNat

/-- The uppercase form of a text. -/
def toUpper (s : String) : String :=
  String.ofList (s.toList.flatMap upperOf)

/-- Whether the first character that is not case-ignorable is cased. -/
def meetsCased (cs : List Char) : Bool :=
  match cs.dropWhile caseIgnorable.contains with
  | [] => false
  | c :: _ => cased.contains c

/-- A sigma closes its word when a cased character stands before it and none after it. `before` is
read away from the sigma. -/
def closesWord (before after : List Char) : Bool :=
  meetsCased before && !meetsCased after

/-- The lowercase form of the characters `rest`, which follow `before` (nearest first). -/
def lowerFrom (before : List Char) : (rest : List Char) → List Char
  | [] => []
  | c :: rest =>
    let image := if c = 'Σ' then [if closesWord before rest then 'ς' else 'σ'] else lowerOf c
    image ++ lowerFrom (c :: before) rest

/-- The lowercase form of a text. -/
def toLower (s : String) : String :=
  String.ofList (lowerFrom [] s.toList)

end StackScript.Text
