import Mathlib
import StackScript.Value.Equality

/-!
# Equal literals

Literals are structurally equal when they are of one kind and have equal contents (`Literal.alike_iff`).
Numbers of single precision are compared as IEEE 754 has it: both zeros are equal, and what is not a
number is not even equal to itself. That comparison is symmetric and transitive, and so is the equality
of literals; only what is not a number is left out of reflexivity (`Literal.alike_self`).
-/

namespace StackScript

open Float.Model (UnpackedFloat)

/-! ### Numbers of single precision -/

/-- Two unpacked numbers are equal if both are zero, of whatever sign, or if they are the same number. -/
theorem unpacked_beq_iff (a b : UnpackedFloat) :
    a.beq b = true ↔
      ((∃ s, a = .zero s) ∧ ∃ s, b = .zero s) ∨ a = b ∧ a ≠ .notANumber := by
  rw [UnpackedFloat.beq, beq_iff_eq]
  rcases a with (_ | _) | _ | _ | ⟨_ | _, _, _, _⟩ <;>
    rcases b with (_ | _) | _ | _ | ⟨_ | _, _, _, _⟩ <;>
    simp [UnpackedFloat.compare, Ordering.then_eq_eq, and_comm] <;> decide

theorem unpacked_isNaN_iff (a : UnpackedFloat) : a.isNaN = true ↔ a = .notANumber := by
  cases a <;> simp [UnpackedFloat.isNaN]

theorem float_beq_iff (x y : Float32) :
    (x == y) = true ↔
      ((∃ s, x.toModel.unpack = .zero s) ∧ ∃ s, y.toModel.unpack = .zero s) ∨
        x.toModel.unpack = y.toModel.unpack ∧ x.toModel.unpack ≠ .notANumber :=
  unpacked_beq_iff _ _

theorem float_beq_symm {x y : Float32} (h : (x == y) = true) : (y == x) = true := by
  rw [float_beq_iff] at h ⊢
  rcases h with ⟨hx, hy⟩ | ⟨heq, hx⟩
  · exact .inl ⟨hy, hx⟩
  · exact .inr ⟨heq.symm, heq ▸ hx⟩

theorem float_beq_trans {x y z : Float32} (hxy : (x == y) = true) (hyz : (y == z) = true) :
    (x == z) = true := by
  rw [float_beq_iff] at hxy hyz ⊢
  rcases hxy with ⟨hx, hy⟩ | ⟨heq, hx⟩
  · rcases hyz with ⟨-, hz⟩ | ⟨heq, -⟩
    · exact .inl ⟨hx, hz⟩
    · exact .inl ⟨hx, heq ▸ hy⟩
  · rwa [heq]

theorem float_beq_self (x : Float32) : (x == x) = true ↔ x.isNaN = false := by
  rw [float_beq_iff, ← Bool.not_eq_true, Float32.isNaN, Float32.Model.isNaN, unpacked_isNaN_iff]
  constructor
  · rintro (⟨⟨s, hs⟩, -⟩ | ⟨-, hx⟩)
    · simp [hs]
    · exact hx
  · exact fun hx ↦ .inr ⟨rfl, hx⟩

/-! ### Literals -/

namespace Literal

/-- Literals of one kind with equal contents. -/
inductive Equal : Literal → Literal → Prop
  | null : Equal .null .null
  | bool (b : Bool) : Equal (.bool b) (.bool b)
  | int (n : Int32) : Equal (.int n) (.int n)
  | float {x y : Float32} (h : (x == y) = true) : Equal (.float x) (.float y)
  | string (s : String) : Equal (.string s) (.string s)

theorem alike_iff (a b : Literal) : a.alike b = true ↔ a.Equal b := by
  constructor
  · intro h
    cases a <;> cases b <;> first
      | exact absurd h Bool.false_ne_true
      | exact .float h
      | (obtain rfl := eq_of_beq h; constructor)
      | exact .null
  · rintro (_ | _ | _ | h | _)
    case float => exact h
    all_goals simp [alike]

theorem Equal.symm {a b : Literal} (h : a.Equal b) : b.Equal a := by
  cases h with
  | float h => exact .float (float_beq_symm h)
  | _ => constructor

theorem Equal.trans {a b c : Literal} (hab : a.Equal b) (hbc : b.Equal c) : a.Equal c := by
  cases hab with
  | float hxy =>
    cases hbc with
    | float hyz => exact .float (float_beq_trans hxy hyz)
  | _ => exact hbc

/-- Every literal is equal to itself, except what is not a number. -/
theorem alike_self (a : Literal) : a.alike a = true ↔ ∀ x, a = .float x → x.isNaN = false := by
  cases a with
  | float x =>
    rw [alike, float_beq_self]
    simp
  | _ => simp [alike]

end Literal

end StackScript
