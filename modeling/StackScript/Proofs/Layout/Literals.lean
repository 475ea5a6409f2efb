import StackScript.Proofs.Layout.Program

/-!
# Literals in code

Instructions may carry any value along, but generated code carries literals only
(`Script.literals_program`), be they written in the script or computed from such literals. So no program
has a reference to a list or to an object in its code.
-/

namespace StackScript

namespace Code

/-- The values in the code are literals. -/
def Literals (code : List Instruction) : Prop :=
  ∀ i ∈ code, ∀ v, i.operand = .literal v → v.isLiteral = true

@[simp]
theorem literals_nil : Literals [] :=
  fun _ h ↦ nomatch h

@[simp]
theorem literals_cons {i : Instruction} {code : List Instruction} :
    Literals (i :: code) ↔ (∀ v, i.operand = .literal v → v.isLiteral = true) ∧ Literals code := by
  simp [Literals]

@[simp]
theorem literals_append {code code' : List Instruction} :
    Literals (code ++ code') ↔ Literals code ∧ Literals code' := by
  simp [Literals, or_imp, forall_and]

@[simp]
theorem literals_push (l : Literal) (line : Nat) : Literals [push l line] := by
  simp [push, Value.isLiteral]

@[simp]
theorem literals_discard (count line : Nat) : Literals (discard count line) := by
  unfold discard
  split <;> simp

/-- Resolving a jump leaves the values alone. -/
theorem literals_resolve {exit : Nat} {code : List Instruction} (h : Literals code) :
    Literals (resolve exit code) := by
  intro i hi v hv
  obtain ⟨j, hj, rfl⟩ := List.mem_map.mp hi
  split at hv
  · cases hv
  · exact h j hj v hv

theorem literals_binary {folding : Bool} {op : BinaryOp} {line : Nat} {left right : List Instruction}
    (hl : Literals left) (hr : Literals right) : Literals (binary folding op line left right) := by
  rcases binary_cases folding op line left right with ⟨_, _, l, _, _, _, _, _, h⟩ | h <;> rw [h]
  · exact literals_push l line
  · simp [hl, hr]

theorem literals_invert {folding : Bool} {line : Nat} {operand : List Instruction}
    (h : Literals operand) : Literals (invert folding line operand) := by
  rcases invert_cases folding line operand with ⟨_, l, pushLine, _, _, hc⟩ | hc <;> rw [hc]
  · exact literals_push l pushLine
  · simp [h]

end Code

/-- The operand that addresses a place is no value. -/
theorem Place.operand_access_ne_literal (place : Place) (scope : List String) (v : Value) :
    (place.access scope).2 ≠ .literal v := by
  cases place with
  | «variable» name =>
    unfold Place.access
    dsimp only
    split <;> rintro ⟨⟩
  | element | field | staticField => rintro ⟨⟩

open Code in
mutual

theorem Expr.literals (folding : Bool) (scope : List String) (start : Nat) :
    (e : Expr) → Literals (e.code folding scope start)
  | .literal l line => literals_push l line
  | .read place line => by
    simp [Expr.code, place.literals, place.operand_access_ne_literal]
  | .assign place value line => by
    simp [Expr.code, place.literals, value.literals, place.operand_access_ne_literal]
  | .update place op value readLine storeLine => by
    have hdup : Literals (if place.operands = 0 then []
        else [⟨.dup, .count place.operands, readLine⟩]) := by
      split <;> simp
    simp [Expr.code, place.literals, value.literals, place.operand_access_ne_literal, hdup]
  | .negate operand signLine line => by
    rw [Expr.code]
    exact literals_binary (literals_push _ _) (operand.literals _ _ _)
  | .not operand line => by
    rw [Expr.code]
    exact literals_invert (operand.literals _ _ _)
  | .binary op left right line => by
    have h : Literals (binary folding op.base line _ _) := literals_binary
      (left.literals folding scope start)
      (right.literals folding scope (start + (left.code folding scope start).length))
    rw [Expr.code]
    split
    · exact literals_invert h
    · exact h
  | .connect op left right line => by simp [Expr.code, left.literals, right.literals]
  | .list items openLine closeLine => by simp [Expr.code, literals_codeAll items]
  | .call name args openLine closeLine => by simp [Expr.code, literals_codeAll args]
  | .construct type args openLine closeLine => by simp [Expr.code, literals_codeAll args]
  | .callStatic type member args openLine closeLine => by simp [Expr.code, literals_codeAll args]
  | .callMethod receiver name args openLine closeLine => by
    simp [Expr.code, receiver.literals, literals_codeAll args]

theorem Place.literals (folding : Bool) (scope : List String) (start : Nat) :
    (place : Place) → Literals (place.code folding scope start)
  | .variable name => by simp [Place.code]
  | .element target index => by simp [Place.code, target.literals, index.literals]
  | .field receiver name => by simp [Place.code, receiver.literals]
  | .staticField type member => by simp [Place.code]

theorem literals_codeAll {folding : Bool} {scope : List String} {start : Nat} :
    (items : List Expr) → Literals (codeAll folding scope start items)
  | [] => by simp [codeAll]
  | e :: rest => by simp [codeAll, e.literals, literals_codeAll rest]

end

/-- The end of a block pushes nothing. -/
theorem Code.literals_block {folding : Bool} {loop : Option LoopFrame} {scope : List String}
    {start : Nat} {body : List Stmt} (h : Literals (bodyCode folding loop scope start body))
    {closeLine : Nat} : Literals (blockCode folding loop scope start body closeLine) := by
  rw [blockCode]
  exact literals_append.mpr ⟨h, literals_discard _ _⟩

open Code in
mutual

theorem Stmt.literals (folding : Bool) (loop : Option LoopFrame) (scope : List String) (start : Nat) :
    (s : Stmt) → Literals (s.code folding loop scope start)
  | .declare name value => by simp [Stmt.code, value.literals]
  | .giveBack value line => by simp [Stmt.code, value.literals]
  | .ifThen condition line body closeLine => by
    simp [Stmt.code, condition.literals, literals_block (literals_body folding loop scope _ body)]
  | .ifElse condition line body closeLine elseLine alternative => by
    simp [Stmt.code, condition.literals, literals_block (literals_body folding loop scope _ body),
      alternative.literals]
  | .whileLoop condition line body closeLine => by
    simp [Stmt.code, condition.literals,
      literals_resolve (literals_block (literals_body folding _ scope _ body))]
  | .forIn name items line body closeLine => by
    simp [Stmt.code, items.literals,
      literals_resolve (literals_block (literals_body folding _ _ _ body))]
  | .breakLoop line => by cases loop <;> simp [Stmt.code]
  | .continueLoop line => by cases loop <;> simp [Stmt.code]
  | .block body closeLine => by
    simp [Stmt.code, literals_block (literals_body folding loop scope _ body)]
  | .expression value line => by simp [Stmt.code, value.literals]

theorem literals_body (folding : Bool) (loop : Option LoopFrame) (scope : List String) (start : Nat) :
    (body : List Stmt) → Literals (bodyCode folding loop scope start body)
  | [] => by simp [bodyCode]
  | s :: rest => by
    rw [bodyCode]
    exact literals_append.mpr ⟨s.literals _ _ _ _, literals_body _ _ _ _ rest⟩

end

open Code

@[simp]
theorem literals_epilogue (line : Nat) : Literals (epilogue line) := by
  simp [epilogue, push, Value.isLiteral]

theorem literals_globalsCode (folding : Bool) (start : Nat) (globals : List GlobalDecl) :
    Literals (globalsCode folding start globals) := by
  induction globals generalizing start with
  | nil => exact literals_nil
  | cons g rest ih => simp [globalsCode, g.value.literals, ih]

theorem literals_functionsCode (folding : Bool) (start : Nat) (functions : List FunctionDecl) :
    Literals (functionsCode folding start functions).2 := by
  induction functions generalizing start with
  | nil => exact literals_nil
  | cons f rest ih =>
    have hf : Literals (f.code folding start) :=
      literals_append.mpr ⟨literals_block (literals_body _ _ _ _ _), literals_epilogue _⟩
    exact literals_append.mpr ⟨hf, ih _⟩

/-- The values in the code of a program are literals. -/
theorem Script.literals_program (folding : Bool) (s : Script) :
    Literals (s.program folding).code.toList := by
  simp [Script.program, literals_globalsCode, literals_functionsCode]

end StackScript
