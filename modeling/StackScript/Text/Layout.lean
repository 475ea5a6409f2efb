/-!
# Lines and columns

Splitting a text into lines, and padding texts to a width.
-/

namespace StackScript.Text

/-- `n` spaces. -/
def spaces (n : Nat) : String :=
  String.ofList (List.replicate n ' ')

/-- A text filled up with spaces on the right to the given width. -/
def padRight (width : Nat) (s : String) : String :=
  String.ofList (s.toList.rightpad width ' ')

/-- A number filled up on the left to the given width. -/
def padLeft (fill : Char) (width : Nat) (n : Nat) : String :=
  String.ofList ((toString n).toList.leftpad width fill)

/-- A code address: four digits at least. -/
def address (n : Nat) : String :=
  padLeft '0' 4 n

/-- The characters up to the first newline, and what follows that newline, if there is one. -/
def breakLine : List Char → List Char × Option (List Char)
  | [] => ([], none)
  | '\n' :: rest => ([], some rest)
  | c :: rest => let (line, more) := breakLine rest; (c :: line, more)

/-- A line that was ended by a newline also loses one carriage return before it. -/
def trimReturn (line : List Char) : List Char :=
  if line.getLast? = some '\r' then line.dropLast else line

/-- The lines of a text that has at most `fuel` of them. -/
def linesFrom : (fuel : Nat) → List Char → List String
  | 0, _ => []
  | _ + 1, [] => []
  | fuel + 1, text =>
    match breakLine text with
    | (line, none) => [String.ofList line]
    | (line, some rest) => String.ofList (trimReturn line) :: linesFrom fuel rest

/-- The lines of a text. A line ends with a newline, before which one carriage return is dropped; the
last line may lack its newline, and an empty rest is no line. -/
def lines (s : String) : List String :=
  linesFrom (s.length + 1) s.toList

end StackScript.Text
