/-!
# Qualified names

The parts of a qualified name are joined by points. Its last part is its simple name; what stands
before the last point is its qualifier.
-/

namespace StackScript.Text

/-- The simple name of a name. -/
def simpleName (name : String) : String :=
  String.ofList (name.toList.reverse.takeWhile (· != '.')).reverse

/-- The name with a given qualifier. -/
def qualified (qualifier name : String) : String :=
  qualifier ++ "." ++ name

/-- The qualifier and the simple name of a name that has a qualifier. -/
def unqualified? (name : String) : Option (String × String) :=
  match name.toList.reverse.dropWhile (· != '.') with
  | [] => none
  | _ :: qualifier => some (String.ofList qualifier.reverse, simpleName name)

end StackScript.Text
