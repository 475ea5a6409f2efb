/-!
# Tables

A table keeps entries under names, in the order in which the names first came up. An entry is found
with `List.lookup`.
-/

namespace StackScript

/-- Entries under names. -/
abbrev Table (α : Type) := List (String × α)

namespace Table

variable {α : Type}

/-- Changes the entry under a name, or adds it at the end. -/
def alter (name : String) (f : Option α → α) : Table α → Table α
  | [] => [(name, f none)]
  | (key, entry) :: rest =>
    if key = name then (key, f (some entry)) :: rest else (key, entry) :: alter name f rest

/-- Puts an entry under a name, in place of what was there. -/
def insert (name : String) (entry : α) : Table α → Table α :=
  alter name fun _ => entry

/-- The names, in order. -/
def names (t : Table α) : List String :=
  t.map (·.1)

end Table

end StackScript
