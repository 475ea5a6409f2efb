import StackScript.Proofs.Grammar.Expression
import StackScript.Parser.Trail

/-!
# Constants on the trail

While an expression is read, the literals at the end of the code tell what is constant in it: behind a
constant expression there is its value on top of what was there before, and behind any other
expression there is nothing. An operator is computed on the trail exactly as it is in the constant
expression that it makes, so one fails where the other does.
-/

namespace StackScript

/-- The literals at the end of the code behind an operator, unless it is computed and fails. -/
def computed (op : BinaryOp) : List Literal → Option (List Literal)
  | right :: left :: rest =>
    (op.apply (.literal left) (.literal right)).toOption.map (· :: rest)
  | _ => some []

/-- The literals at the end of the code behind a negation, unless it is computed and fails. -/
def inverted : List Literal → Option (List Literal)
  | operand :: rest => (Value.invert (.literal operand)).toOption.map (· :: rest)
  | [] => some []

/-- A sound expression does not fail. -/
theorem Expr.Sound.not_fails {e : Expr} (h : e.Sound) : ¬e.Fails := by
  rintro ⟨fault, hfault⟩
  cases e with
  | literal => cases hfault
  | negate => exact h.2 ⟨fault, hfault⟩
  | not => exact h.2 ⟨fault, hfault⟩
  | binary => exact h.2.2 ⟨fault, hfault⟩
  | read | assign | update | connect | list | call | construct | callStatic | callMethod =>
    cases hfault

/-- A sound expression has a value, or it is not constant. -/
theorem Expr.Sound.constant?_eq {e : Expr} (h : e.Sound) :
    e.constant? = none ∨ ∃ value, e.constant? = some (.ok value) := by
  rcases he : e.constant? with _ | fault | value
  · exact .inl rfl
  · exact absurd ⟨fault, he⟩ h.not_fails
  · exact .inr ⟨value, rfl⟩

/-- The literals at the end of the code behind an expression. -/
def Expr.trail (e : Expr) (before : List Literal) : List Literal :=
  match e.constant? with
  | some (.ok value) => value :: before
  | _ => []

theorem Expr.trail_of_none {e : Expr} (h : e.constant? = none) (before : List Literal) :
    e.trail before = [] := by
  rw [trail, h]

theorem Expr.trail_of_ok {e : Expr} {value : Literal} (h : e.constant? = some (.ok value))
    (before : List Literal) : e.trail before = value :: before := by
  rw [trail, h]

/-- What is left on the trail when the value of an expression has been tried. -/
theorem Expr.map_toOption_eq_some {e : Expr} {result : Except Fault Literal}
    (h : e.constant? = some result) (before literals : List Literal) :
    result.toOption.map (· :: before) = some literals ↔
      ¬e.Fails ∧ literals = e.trail before := by
  rcases result with fault | value
  · have hfails : e.Fails := ⟨fault, h⟩
    simp [Except.toOption, hfails]
  · have hnot : ¬e.Fails := by simp [Fails, h]
    simp [Except.toOption, hnot, trail_of_ok h, eq_comm]

/-- An operator is computed behind its operands as it is in the expression that it makes. -/
theorem computed_negate {e : Expr} (h : e.Sound) (signLine line : Nat)
    (before literals : List Literal) :
    computed .sub (e.trail (.int 0 :: before)) = some literals ↔
      ¬(Expr.negate e signLine line).Fails ∧
        literals = (Expr.negate e signLine line).trail before := by
  rcases h.constant?_eq with he | ⟨value, he⟩
  · have hnone : (Expr.negate e signLine line).constant? = none := by simp [Expr.constant?, he]
    rw [Expr.trail_of_none he, Expr.trail_of_none hnone]
    simp [computed, Expr.Fails, hnone, eq_comm]
  · rw [Expr.trail_of_ok he]
    refine Expr.map_toOption_eq_some ?_ _ _
    rw [Expr.constant?, he]
    rfl

theorem inverted_not {e : Expr} (h : e.Sound) (line : Nat) (before literals : List Literal) :
    inverted (e.trail before) = some literals ↔
      ¬(Expr.not e line).Fails ∧ literals = (Expr.not e line).trail before := by
  rcases h.constant?_eq with he | ⟨value, he⟩
  · have hnone : (Expr.not e line).constant? = none := by simp [Expr.constant?, he]
    rw [Expr.trail_of_none he, Expr.trail_of_none hnone]
    simp [inverted, Expr.Fails, hnone, eq_comm]
  · rw [Expr.trail_of_ok he]
    refine Expr.map_toOption_eq_some ?_ _ _
    rw [Expr.constant?, he]
    rfl

theorem computed_compute (op : Infix) (left right : Literal) (before : List Literal) :
    (computed op.base (right :: left :: before)).bind (if op.isNegated then inverted else some) =
      (op.compute left right).toOption.map (· :: before) := by
  rcases h : op.base.apply (.literal left) (.literal right) with fault | value
  · simp only [computed, Infix.compute, h]
    rfl
  · simp only [computed, Infix.compute, h]
    cases op.isNegated <;> rfl

/-- Two operations for one operator, if its result is negated. -/
theorem computed_binary {left right : Expr} (hl : left.Sound) (hr : right.Sound) (op : Infix)
    (line : Nat) (before literals : List Literal) :
    (computed op.base (right.trail (left.trail before))).bind
        (if op.isNegated then inverted else some) = some literals ↔
      ¬(Expr.binary op left right line).Fails ∧
        literals = (Expr.binary op left right line).trail before := by
  have hplain (h : (Expr.binary op left right line).constant? = none)
      (hc : computed op.base (right.trail (left.trail before)) = some []) :
      (computed op.base (right.trail (left.trail before))).bind
        (if op.isNegated then inverted else some) = some literals ↔
      ¬(Expr.binary op left right line).Fails ∧
        literals = (Expr.binary op left right line).trail before := by
    rw [Expr.trail_of_none h, hc]
    cases op.isNegated <;> simp [inverted, Expr.Fails, h, eq_comm]
  rcases hl.constant?_eq with hl | ⟨l, hl⟩
  · refine hplain (by simp [Expr.constant?, hl]) ?_
    rw [Expr.trail_of_none hl]
    rcases hr.constant?_eq with hr | ⟨r, hr⟩
    · rw [Expr.trail_of_none hr]
      rfl
    · rw [Expr.trail_of_ok hr]
      rfl
  · rcases hr.constant?_eq with hr | ⟨r, hr⟩
    · refine hplain (by simp [Expr.constant?, hr]) ?_
      rw [Expr.trail_of_none hr]
      rfl
    · have hconstant : (Expr.binary op left right line).constant? = some (op.compute l r) := by
        rw [Expr.constant?, hl, hr]
        rfl
      rw [← Expr.map_toOption_eq_some hconstant, Expr.trail_of_ok hl, Expr.trail_of_ok hr,
        computed_compute]

end StackScript
