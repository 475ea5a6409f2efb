import Mathlib.Data.List.TakeWhile
import StackScript.Ast
import StackScript.Text.Qualified

/-!
# Names of static members

A static access is known to the machine by one name, that of the type followed by that of the member.
The two can be told apart again exactly if the name of the member is simple, and names in scripts need
not be: after their first character they may have points in them.
-/

namespace StackScript

namespace Text

/-- A name without points in it. -/
def IsSimple (name : String) : Prop := '.' ∉ name.toList

instance (name : String) : Decidable (IsSimple name) :=
  inferInstanceAs (Decidable ('.' ∉ name.toList))

theorem toList_reverse_qualified (qualifier name : String) :
    (qualified qualifier name).toList.reverse =
      name.toList.reverse ++ '.' :: qualifier.toList.reverse := by
  simp [qualified]

/-- What stands behind the last point is simple. -/
theorem isSimple_simpleName (name : String) : IsSimple (simpleName name) := by
  intro h
  rw [simpleName, String.toList_ofList, List.mem_reverse] at h
  have hne := List.mem_takeWhile_imp h
  simp at hne

/-- A qualified name is split where it was joined exactly if its last part is simple. -/
theorem unqualified?_qualified_iff {qualifier name : String} :
    unqualified? (qualified qualifier name) = some (qualifier, name) ↔ IsSimple name := by
  constructor
  · intro h
    unfold unqualified? at h
    split at h
    · cases h
    · obtain ⟨-, hname⟩ := Prod.mk.inj (Option.some.inj h)
      rw [← hname]
      exact isSimple_simpleName _
  · intro h
    have hall : ∀ c ∈ name.toList.reverse, (c != '.') = true := by
      intro c hc
      refine bne_iff_ne.mpr fun heq ↦ h ?_
      rw [← heq]
      exact List.mem_reverse.mp hc
    have hsimple : simpleName (qualified qualifier name) = name := by
      rw [simpleName, toList_reverse_qualified, List.takeWhile_append_of_pos hall]
      simp
    unfold unqualified?
    rw [toList_reverse_qualified, List.dropWhile_append_of_pos hall, hsimple]
    simp

end Text

mutual

/-- The names of the static members in a place. -/
def Place.staticMembers : Place → List String
  | .variable _ => []
  | .element target index => target.staticMembers ++ index.staticMembers
  | .field receiver _ => receiver.staticMembers
  | .staticField _ member => [member]

/-- The names of the static members in an expression. -/
def Expr.staticMembers : Expr → List String
  | .literal _ _ => []
  | .read place _ => place.staticMembers
  | .assign place value _ => place.staticMembers ++ value.staticMembers
  | .update place _ value _ _ => place.staticMembers ++ value.staticMembers
  | .negate operand _ _ => operand.staticMembers
  | .not operand _ => operand.staticMembers
  | .binary _ left right _ => left.staticMembers ++ right.staticMembers
  | .connect _ left right _ => left.staticMembers ++ right.staticMembers
  | .list items _ _ => staticMembersAll items
  | .call _ args _ _ => staticMembersAll args
  | .construct _ args _ _ => staticMembersAll args
  | .callStatic _ member args _ _ => member :: staticMembersAll args
  | .callMethod receiver _ args _ _ => receiver.staticMembers ++ staticMembersAll args

/-- The same for the expressions of a row. -/
def staticMembersAll : List Expr → List String
  | [] => []
  | e :: rest => e.staticMembers ++ staticMembersAll rest

end

mutual

/-- The names of the static members in a statement. -/
def Stmt.staticMembers : Stmt → List String
  | .declare _ value => value.staticMembers
  | .giveBack value _ => value.staticMembers
  | .ifThen condition _ body _ => condition.staticMembers ++ bodyStaticMembers body
  | .ifElse condition _ body _ _ alternative =>
    condition.staticMembers ++ bodyStaticMembers body ++ alternative.staticMembers
  | .whileLoop condition _ body _ => condition.staticMembers ++ bodyStaticMembers body
  | .forIn _ items _ body _ => items.staticMembers ++ bodyStaticMembers body
  | .breakLoop _ | .continueLoop _ => []
  | .block body _ => bodyStaticMembers body
  | .expression value _ => value.staticMembers

/-- The same for the statements of a row. -/
def bodyStaticMembers : List Stmt → List String
  | [] => []
  | s :: rest => s.staticMembers ++ bodyStaticMembers rest

end

/-- The names of all static members in a script. -/
def Script.staticMembers (s : Script) : List String :=
  s.globals.flatMap (·.value.staticMembers) ++ s.functions.flatMap (bodyStaticMembers ·.body)

end StackScript
