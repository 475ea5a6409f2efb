import StackScript.Value.Heap

/-!
# Structural equality

Two values are structurally equal when they look alike: literals of one kind with equal contents,
the same object, or lists of one length with structurally equal elements. A pair of lists that is
already being compared is taken to be equal, so that lists which hold themselves can be compared.
-/

namespace StackScript

/-- Literals of one kind with equal contents; numbers as single precision compares them. -/
def Literal.alike : Literal → Literal → Bool
  | null, null => true
  | bool p, bool q => p == q
  | int m, int n => m == n
  | float x, float y => x == y
  | string s, string t => s == t
  | _, _ => false

namespace Heap

/-- Compares two values while the pairs `assumed` are being compared. Every pair of lists entered is
new among those, so no more than `depth` can be entered when that many are left. -/
def alikeFrom (h : Heap) : (depth : Nat) → (assumed : List (ListRef × ListRef)) →
    Value → Value → Bool
  | _, _, .literal a, .literal b => a.alike b
  | _, _, .object a, .object b => a == b
  | 0, _, .list _, .list _ => true
  | depth + 1, assumed, .list a, .list b =>
    if a = b ∨ (a, b) ∈ assumed then true
    else
      let xs := (h.items a).toList
      let ys := (h.items b).toList
      xs.length == ys.length &&
        (xs.zip ys).all fun (x, y) => h.alikeFrom depth ((a, b) :: assumed) x y
  | _, _, _, _ => false

/-- Structural equality of two values. -/
def alike (h : Heap) (a b : Value) : Bool :=
  h.alikeFrom (h.lists.size * h.lists.size + 1) [] a b

end Heap

end StackScript
