import StackScript.Proofs.Machine.Operator
import StackScript.Bytecode.Generation

/-!
# How functions begin

The arguments of a call are put on the stack unseen. But a function does nothing with them before it
pushes something of its own above them, and pushes are counted: `Code.PushesFirst` says of code that it
begins with a push. Before it argument windows may be opened, and a function without arguments may be
entered, which begins in the same way.

Code of expressions begins with a push because the innermost leftmost part of an expression is a
literal, a variable, a static field, or a window with nothing in it (`Expr.pushesFirst`). Code of
statements begins with that of an expression, unless it is no code at all (`Stmt.pushesFirst`), and a
function that comes to its end pushes its result.
-/

namespace StackScript

/-- Code that begins with a push, behind nothing but openings of windows. If `opened`, the innermost
window has been opened where the stack ends, so that there is nothing in it yet. -/
inductive Code.PushesFirst : (opened : Bool) → List Instruction → Prop
  | value {opened : Bool} {i : Instruction} {rest : List Instruction}
    (hi : i.op.operands? = some 0 ∨ i.op = .pushLocal) : PushesFirst opened (i :: rest)
  | window {i : Instruction} {rest : List Instruction} (hi : i.op.receivers? = some 0) :
    PushesFirst true (i :: rest)
  | call {i : Instruction} {rest : List Instruction} (hi : i.op = .call) : PushesFirst true (i :: rest)
  | openWindow {opened : Bool} {i : Instruction} {rest : List Instruction} (hi : i.op = .openWindow)
    (hrest : PushesFirst true rest) : PushesFirst opened (i :: rest)

namespace Code.PushesFirst

variable {opened : Bool} {code : List Instruction}

theorem append (h : PushesFirst opened code) (rest : List Instruction) :
    PushesFirst opened (code ++ rest) := by
  induction h with
  | value hi => exact .value hi
  | window hi => exact .window hi
  | call hi => exact .call hi
  | openWindow hi _ ih => exact .openWindow hi ih

/-- It does no harm that a window is open. -/
theorem opened_true (h : PushesFirst false code) : PushesFirst true code := by
  cases h with
  | value hi => exact .value hi
  | openWindow hi hrest => exact .openWindow hi hrest

theorem push (l : Literal) (line : Nat) (rest : List Instruction) :
    PushesFirst opened (Code.push l line :: rest) :=
  .value (.inl rfl)

/-- An operator begins with its left operand, or is a push. -/
theorem binary {left : List Instruction} (h : PushesFirst opened left) (folding : Bool) (op : BinaryOp)
    (line : Nat) (right : List Instruction) :
    PushesFirst opened (Code.binary folding op line left right) := by
  have hplain : PushesFirst opened (left ++ right ++ [⟨.binary op, .none, line⟩]) :=
    (h.append right).append _
  unfold Code.binary
  split
  · split
    · split
      · exact .push _ _ _
      · exact hplain
    · exact hplain
  · exact hplain

/-- A negation begins with its operand, or is a push. -/
theorem invert {operand : List Instruction} (h : PushesFirst opened operand) (folding : Bool)
    (line : Nat) : PushesFirst opened (Code.invert folding line operand) := by
  unfold Code.invert
  split
  · split
    · split
      · exact .push _ _ _
      · exact h.append _
    · exact h.append _
  · exact h.append _

end Code.PushesFirst

open Code

/-! ### Expressions -/

mutual

/-- Expressions begin with a push. -/
theorem Expr.pushesFirst (folding : Bool) (scope : List String) (start : Nat) :
    (e : Expr) → PushesFirst false (e.code folding scope start)
  | .literal l line => by
    rw [Expr.code]
    exact .push _ _ _
  | .read place line => by
    rw [Expr.code]
    rcases place.pushesFirst folding scope start with h | ⟨hcode, -, haccess⟩
    · exact h.append _
    · rw [hcode]
      exact .value haccess
  | .assign place value line => by
    rw [Expr.code]
    rcases place.pushesFirst folding scope start with h | ⟨hcode, -, -⟩
    · exact (h.append _).append _
    · rw [hcode]
      exact (value.pushesFirst folding scope _).append _
  | .update place op value readLine storeLine => by
    rw [Expr.code]
    rcases place.pushesFirst folding scope start with h | ⟨hcode, hoperands, haccess⟩
    · exact (((h.append _).append _).append _).append _
    · dsimp only
      rw [hcode, if_pos hoperands]
      exact .value haccess
  | .negate operand signLine line => by
    rw [Expr.code]
    exact .binary (.push _ _ _) folding _ line _
  | .not operand line => by
    rw [Expr.code]
    exact (operand.pushesFirst folding scope start).invert folding line
  | .binary op left right line => by
    rw [Expr.code]
    have hleft := (left.pushesFirst folding scope start).binary folding op.base line
      (right.code folding scope (start + (left.code folding scope start).length))
    split
    · exact hleft.invert folding line
    · exact hleft
  -- the copy and the jump of a connective stand behind its first operand
  | .connect op left right line => by
    rw [Expr.code]
    exact ((left.pushesFirst folding scope start).append _).append _
  | .list items openLine closeLine => by
    rw [Expr.code]
    exact .openWindow rfl (codeAll_pushesFirst folding scope _ items (.window rfl))
  | .call name args openLine closeLine => by
    rw [Expr.code]
    exact .openWindow rfl (codeAll_pushesFirst folding scope _ args (.call rfl))
  | .construct type args openLine closeLine => by
    rw [Expr.code]
    exact .openWindow rfl (codeAll_pushesFirst folding scope _ args (.window rfl))
  | .callStatic type member args openLine closeLine => by
    rw [Expr.code]
    exact .openWindow rfl (codeAll_pushesFirst folding scope _ args (.window rfl))
  | .callMethod receiver name args openLine closeLine => by
    rw [Expr.code]
    exact (receiver.pushesFirst folding scope start).append _

/-- So does the code for the operands of an access, unless there are none and the access is a push. -/
theorem Place.pushesFirst (folding : Bool) (scope : List String) (start : Nat) :
    (place : Place) → PushesFirst false (place.code folding scope start) ∨
      place.code folding scope start = [] ∧ place.operands = 0 ∧
        ((place.access scope).1.operands? = some 0 ∨ (place.access scope).1 = .pushLocal)
  | .variable name => by
    refine .inr ⟨by rw [Place.code], rfl, ?_⟩
    rw [Place.access]
    split
    · exact .inr rfl
    · exact .inl rfl
  | .element target index => by
    rw [Place.code]
    exact .inl ((target.pushesFirst folding scope start).append _)
  | .field receiver name => by
    rw [Place.code]
    exact .inl (receiver.pushesFirst folding scope start)
  | .staticField type member => .inr ⟨by rw [Place.code], rfl, .inl rfl⟩

/-- A window that has just been opened is filled by pushes, or used as it is. -/
theorem codeAll_pushesFirst (folding : Bool) (scope : List String) (start : Nat) :
    (items : List Expr) → {code : List Instruction} → PushesFirst true code →
      PushesFirst true (codeAll folding scope start items ++ code)
  | [], _, h => by
    rw [codeAll]
    exact h
  | e :: rest, _, h => by
    rw [codeAll]
    exact ((e.pushesFirst folding scope start).opened_true.append _).append _

end

/-! ### Statements -/

mutual

/-- A statement outside of loops begins with a push, or is no code and declares nothing. -/
theorem Stmt.pushesFirst (folding : Bool) (scope : List String) (start : Nat) :
    (s : Stmt) → PushesFirst false (s.code folding none scope start) ∨
      s.code folding none scope start = [] ∧ s.scopeAfter scope = scope
  | .declare name value => by
    rw [Stmt.code]
    exact .inl (value.pushesFirst folding scope start)
  | .giveBack value line => by
    rw [Stmt.code]
    exact .inl ((value.pushesFirst folding scope start).append _)
  | .ifThen condition line body closeLine => by
    rw [Stmt.code]
    exact .inl ((condition.pushesFirst folding scope start).append _)
  | .ifElse condition line body closeLine elseLine alternative => by
    rw [Stmt.code]
    exact .inl ((condition.pushesFirst folding scope start).append _)
  | .whileLoop condition line body closeLine => by
    rw [Stmt.code]
    exact .inl ((condition.pushesFirst folding scope start).append _)
  | .forIn name items line body closeLine => by
    rw [Stmt.code]
    exact .inl ((((items.pushesFirst folding scope start).append _).append _).append _)
  -- no jumps lead out of a loop where there is none
  | .breakLoop line => .inr ⟨by rw [Stmt.code], rfl⟩
  | .continueLoop line => .inr ⟨by rw [Stmt.code], rfl⟩
  | .block body closeLine => by
    rw [Stmt.code]
    exact (blockCode_pushesFirst folding scope start body closeLine).imp_right fun h ↦ ⟨h, rfl⟩
  | .expression value line => by
    rw [Stmt.code]
    exact .inl ((value.pushesFirst folding scope start).append _)

theorem blockCode_pushesFirst (folding : Bool) (scope : List String) (start : Nat) :
    (body : List Stmt) → (closeLine : Nat) →
      PushesFirst false (blockCode folding none scope start body closeLine) ∨
        blockCode folding none scope start body closeLine = []
  | body, closeLine => by
    rw [blockCode]
    rcases bodyCode_pushesFirst folding scope start body with h | ⟨hcode, hscope⟩
    · exact .inl (h.append _)
    · rw [hcode, hscope, Nat.sub_self]
      exact .inr rfl

theorem bodyCode_pushesFirst (folding : Bool) (scope : List String) (start : Nat) :
    (body : List Stmt) → PushesFirst false (bodyCode folding none scope start body) ∨
      bodyCode folding none scope start body = [] ∧ scopeAfterAll scope body = scope
  | [] => .inr ⟨by rw [bodyCode], rfl⟩
  | s :: rest => by
    rw [bodyCode]
    rcases s.pushesFirst folding scope start with h | ⟨hcode, hscope⟩
    · exact .inl (h.append _)
    · rw [hcode, hscope]
      refine (bodyCode_pushesFirst folding scope _ rest).imp id fun h ↦ ⟨h.1, ?_⟩
      rw [scopeAfterAll, List.foldl_cons, hscope]
      exact h.2

end

/-- Functions begin with a push. -/
theorem FunctionDecl.pushesFirst (folding : Bool) (start : Nat) (f : FunctionDecl) :
    PushesFirst false (f.code folding start) := by
  rw [FunctionDecl.code]
  rcases blockCode_pushesFirst folding f.params.reverse start f.body f.closeLine with h | h
  · exact h.append _
  · rw [h]
    exact .push _ _ _

end StackScript
