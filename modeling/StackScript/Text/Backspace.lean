import StackScript.Text.Cluster

/-!
# Backspaces

A backspace in a typed line takes back the cluster before it. The clusters are those of the line as
it was typed: what a backspace brings together stays apart.

The size of a cluster is remembered in one byte, so of a cluster of 256 bytes or more only what
exceeds a multiple of 256 is taken back.
-/

namespace StackScript.Text

/-- A line while it is typed. -/
structure TypedLine where
  /-- The characters that stand so far, the last one first. -/
  kept : List Char
  /-- The sizes of the clusters that stand so far, the last one first. -/
  sizes : List UInt8

/-- What is left of a text, read from its end, without its last `size` bytes. -/
def takeBack (size : Nat) : List Char → List Char
  | [] => []
  | c :: rest => if size = 0 then c :: rest else takeBack (size - c.utf8Size) rest

/-- Types one more cluster. -/
def TypedLine.type (line : TypedLine) (cluster : List Char) : TypedLine :=
  if cluster = ['\x08'] then
    match line.sizes with
    | [] => line
    | size :: sizes => ⟨takeBack size.toNat line.kept, sizes⟩
  else ⟨cluster.reverse ++ line.kept, (String.ofList cluster).utf8ByteSize.toUInt8 :: line.sizes⟩

/-- The line that was typed, with the backspaces carried out. -/
def typedLine (s : String) : String :=
  String.ofList ((clusters s.toList).foldl TypedLine.type ⟨[], []⟩).kept.reverse

end StackScript.Text
