import StackScript.Text.CharSet

/-!
# White space

The characters with the Unicode property White_Space, and texts cut at them.
-/

namespace StackScript.Text

/-- The characters with the property White_Space. -/
def blank : CharSet := ⟨[
  9, 14, 32, 33, 133, 134, 160, 161, 5760, 5761, 8192, 8203, 8232, 8234, 8239, 8240, 8287, 8288,
  12288, 12289]⟩

/-- A text without the white space around it. -/
def trim (s : String) : String :=
  let rest := s.toList.dropWhile blank.contains
  String.ofList (rest.reverse.dropWhile blank.contains).reverse

/-- The word that was read so far, last character first; no word if it is empty. -/
def word (read : List Char) : List String :=
  if read.isEmpty then [] else [String.ofList read.reverse]

/-- The words of a text behind the characters `read` of its first word. -/
def wordsFrom (read : List Char) : List Char → List String
  | [] => word read
  | c :: rest =>
    if blank.contains c then word read ++ wordsFrom [] rest else wordsFrom (c :: read) rest

/-- The words of a text: its longest pieces without white space. -/
def words (s : String) : List String :=
  wordsFrom [] s.toList

end StackScript.Text
