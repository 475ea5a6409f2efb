import Mathlib.Data.List.TakeWhile
import StackScript.Bytecode.Generation
import StackScript.Proofs.Syntax.Written

/-!
# Generated code

Facts about the code of syntax trees that do not depend on what is asked of it: which code operators
have, how places are addressed, and which code has jumps that wait for their target. Only statements
that leave a loop have such jumps, and the loop resolves them.
-/

namespace StackScript

/-! ### Small pieces -/

/-- Slots are counted from the base of the frame, below the locals declared later. -/
theorem slot?_lt {name : String} {scope : List String} {slot : Nat}
    (h : slot? name scope = some slot) : slot < scope.length := by
  induction scope with
  | nil => cases h
  | cons own outer ih =>
    rw [slot?] at h
    split at h
    · cases h
      exact Nat.lt_succ_self _
    · exact Nat.lt_succ_of_lt (ih h)

/-- A qualified name can be split again, if not always in the same place. -/
theorem Text.isSome_unqualified? (qualifier name : String) :
    (Text.unqualified? (Text.qualified qualifier name)).isSome := by
  have hmem : '.' ∈ (Text.qualified qualifier name).toList.reverse := by
    simp [Text.qualified]
  unfold Text.unqualified?
  split
  · rename_i h
    have := List.dropWhile_eq_nil_iff.mp h '.' hmem
    simp at this
  · rfl

/-! ### Code in programs -/

/-- A program has the given code at an address. -/
def Program.Has (p : Program) (a : Nat) (code : List Instruction) : Prop :=
  ∀ k i, code[k]? = some i → p.code[a + k]? = some i

namespace Program.Has

variable {p : Program} {a : Nat} {code code' : List Instruction} {i : Instruction}

theorem of_eq {before after : List Instruction} (h : p.code.toList = before ++ code ++ after)
    (ha : before.length = a) : p.Has a code := by
  intro k i hi
  subst ha
  obtain ⟨hlt, _⟩ := List.getElem?_eq_some_iff.mp hi
  rw [← Array.getElem?_toList, h, List.append_assoc, List.getElem?_append_right (Nat.le_add_right _ _),
    Nat.add_sub_cancel_left, List.getElem?_append_left hlt, hi]

theorem left (h : p.Has a (code ++ code')) : p.Has a code := by
  intro k i hi
  obtain ⟨hlt, _⟩ := List.getElem?_eq_some_iff.mp hi
  refine h k i ?_
  rw [List.getElem?_append_left hlt, hi]

theorem right (h : p.Has a (code ++ code')) : p.Has (a + code.length) code' := by
  intro k i hi
  rw [Nat.add_assoc]
  refine h _ i ?_
  rw [List.getElem?_append_right (Nat.le_add_right _ _), Nat.add_sub_cancel_left, hi]

theorem head (h : p.Has a (i :: code)) : p.code[a]? = some i :=
  h 0 i rfl

theorem tail (h : p.Has a (i :: code)) : p.Has (a + 1) code :=
  (show p.Has a ([i] ++ code) from h).right

end Program.Has

/-- A jump to an address. -/
abbrev jumpTo (op : Operation) (address line : Nat) : Instruction :=
  ⟨op, .target (.address address), line⟩

namespace Code

/-- No jump in the code waits for its target. -/
def Settled (code : List Instruction) : Prop := ∀ i ∈ code, i.operand ≠ .target .unresolved

@[simp]
theorem settled_nil : Settled [] :=
  fun _ h ↦ nomatch h

@[simp]
theorem settled_cons {i : Instruction} {code : List Instruction} :
    Settled (i :: code) ↔ i.operand ≠ .target .unresolved ∧ Settled code := by
  simp [Settled]

@[simp]
theorem settled_append {code code' : List Instruction} :
    Settled (code ++ code') ↔ Settled code ∧ Settled code' := by
  simp [Settled, or_imp, forall_and]

@[simp]
theorem resolve_nil (exit : Nat) : resolve exit [] = [] :=
  rfl

@[simp]
theorem resolve_append (exit : Nat) (code code' : List Instruction) :
    resolve exit (code ++ code') = resolve exit code ++ resolve exit code' :=
  List.map_append

@[simp]
theorem length_resolve (exit : Nat) (code : List Instruction) :
    (resolve exit code).length = code.length :=
  List.length_map _

/-- Resolving leaves code alone that is settled. -/
theorem resolve_of_settled {exit : Nat} {code : List Instruction} (h : Settled code) :
    resolve exit code = code := by
  have hid : ∀ i ∈ code, (if i.operand = .target .unresolved then
      { i with operand := .target (.address exit) } else i) = id i := fun i hi ↦ if_neg (h i hi)
  rw [resolve, List.map_congr_left hid, List.map_id]

theorem settled_resolve (exit : Nat) (code : List Instruction) : Settled (resolve exit code) := by
  intro i hi
  obtain ⟨j, _, rfl⟩ := List.mem_map.mp hi
  split
  · exact fun h ↦ nomatch h
  · assumption

/-- A jump in front of resolved code, or any other instruction that is settled. -/
theorem resolve_cons {exit : Nat} {i : Instruction} {code : List Instruction}
    (h : i.operand ≠ .target .unresolved) : resolve exit (i :: code) = i :: resolve exit code := by
  show (if i.operand = .target .unresolved then _ else i) :: _ = _
  rw [if_neg h]
  rfl

theorem settled_discard (count line : Nat) : Settled (discard count line) := by
  unfold discard
  split
  · exact settled_nil
  · simp

theorem literal?_eq_some {code : List Instruction} {l : Literal} (h : literal? code = some l) :
    ∃ line, code = [push l line] := by
  unfold literal? at h
  split at h
  · cases h
    exact ⟨_, rfl⟩
  · cases h

/-- The code of an operator is computed from the literals that its operands are, or stands behind the
code of its operands. -/
theorem binary_cases (folding : Bool) (op : BinaryOp) (line : Nat)
    (left right : List Instruction) :
    (∃ x y l lineX lineY, left = [push x lineX] ∧ right = [push y lineY] ∧
      op.apply (.literal x) (.literal y) = .ok l ∧ binary folding op line left right = [push l line]) ∨
    binary folding op line left right = left ++ right ++ [⟨.binary op, .none, line⟩] := by
  unfold binary
  dsimp only
  split
  · split
    · rename_i x y hx hy
      split
      · rename_i l hl
        obtain ⟨lineX, rfl⟩ := literal?_eq_some hx
        obtain ⟨lineY, rfl⟩ := literal?_eq_some hy
        exact .inl ⟨x, y, l, lineX, lineY, rfl, rfl, hl, rfl⟩
      · exact .inr rfl
    · exact .inr rfl
  · exact .inr rfl

/-- The same for a negation. -/
theorem invert_cases (folding : Bool) (line : Nat) (operand : List Instruction) :
    (∃ x l pushLine, operand = [push x pushLine] ∧ Value.invert (.literal x) = .ok l ∧
      invert folding line operand = [push l pushLine]) ∨
    invert folding line operand = operand ++ [⟨.invert, .none, line⟩] := by
  unfold invert
  dsimp only
  split
  · split
    · rename_i x pushLine
      split
      · rename_i l hl
        exact .inl ⟨x, l, pushLine, rfl, hl, rfl⟩
      · exact .inr rfl
    · exact .inr rfl
  · exact .inr rfl

theorem settled_binary {folding : Bool} {op : BinaryOp} {line : Nat} {left right : List Instruction}
    (hl : Settled left) (hr : Settled right) : Settled (binary folding op line left right) := by
  rcases binary_cases folding op line left right with ⟨x, y, l, lineX, lineY, _, _, _, h⟩ | h <;>
    rw [h] <;> simp [push, hl, hr]

theorem settled_invert {folding : Bool} {line : Nat} {operand : List Instruction}
    (h : Settled operand) : Settled (invert folding line operand) := by
  rcases invert_cases folding line operand with ⟨x, l, pushLine, _, _, hc⟩ | hc <;> rw [hc] <;>
    simp [push, h]

end Code

/-! ### Access to places -/

namespace Place

variable {name : String} {scope : List String}

theorem access_local {slot : Nat} (h : slot? name scope = some slot) :
    (Place.variable name).access scope = (.pushLocal, .slot slot) := by
  rw [access, h]

theorem access_global (h : slot? name scope = none) :
    (Place.variable name).access scope = (.pushGlobal, .name name) := by
  rw [access, h]

theorem store_local {slot : Nat} (h : slot? name scope = some slot) :
    (Place.variable name).store scope = .setLocal := by
  rw [store, h]
  rfl

theorem store_global (h : slot? name scope = none) :
    (Place.variable name).store scope = .setGlobal := by
  rw [store, h]
  rfl

end Place

/-- The operand that addresses a place is no target. -/
theorem Place.operand_access_ne (place : Place) (scope : List String) :
    (place.access scope).2 ≠ .target .unresolved := by
  cases place with
  | «variable» name =>
    unfold Place.access
    dsimp only
    split <;> rintro ⟨⟩
  | element | field | staticField => rintro ⟨⟩

/-! ### Loops over elements -/

/-- The turns of a loop over elements: they are those of a loop that asks the enumerator on the stack
for another element, and has that on the stack while its body runs. -/
def Code.turns (line closeLine top exit : Nat) (body : List Instruction) : List Instruction :=
  [⟨.dup, .count 1, line⟩, ⟨.openWindow, .none, line⟩, ⟨.callMethod, .name "MoveNext", line⟩] ++
    jumpTo .jumpIfFalse exit line ::
      ([⟨.dup, .count 1, line⟩, ⟨.pushField, .name "Current", line⟩] ++ body ++
        [⟨.pop, .count 1, closeLine⟩] ++ [jumpTo .jump top closeLine])

/-- What precedes the turns: the enumerator is made. -/
def Code.enumerate (line : Nat) (source : List Instruction) : List Instruction :=
  source ++ [⟨.openWindow, .none, line⟩, ⟨.callMethod, .name "GetEnumerator", line⟩]

theorem Stmt.code_forIn (folding : Bool) (loop : Option LoopFrame) (scope : List String)
    (start line closeLine top exit : Nat) (name : String) (items : Expr) (body : List Stmt)
    (htop : top = start + (items.code folding scope start).length + 2)
    (hexit : exit = top + 6 + (blockCode folding (some ⟨top, scope.length + 1⟩)
      (name :: enumeratorName :: scope) (top + 6) body closeLine).length + 2) :
    (Stmt.forIn name items line body closeLine).code folding loop scope start =
      Code.enumerate line (items.code folding scope start) ++ Code.turns line closeLine top exit
        (Code.resolve exit (blockCode folding (some ⟨top, scope.length + 1⟩)
          (name :: enumeratorName :: scope) (top + 6) body closeLine)) ++
      [⟨.pop, .count 1, closeLine⟩] := by
  subst hexit htop
  rw [Stmt.code]
  simp [Code.enumerate, Code.turns, enumeratorName, Nat.add_assoc]

/-! ### Settled code -/

open Code in
mutual

/-- Only loops leave jumps unresolved. -/
theorem Expr.settled (folding : Bool) (scope : List String) (start : Nat) :
    (e : Expr) → Settled (e.code folding scope start)
  | .literal l line => by simp [Expr.code, push]
  | .read place line => by
    simp [Expr.code, place.settled, place.operand_access_ne]
  | .assign place value line => by
    simp [Expr.code, place.settled, value.settled, place.operand_access_ne]
  | .update place op value readLine storeLine => by
    have hdup : Settled (if place.operands = 0 then []
        else [⟨.dup, .count place.operands, readLine⟩]) := by
      split <;> simp
    simp [Expr.code, place.settled, value.settled, place.operand_access_ne, hdup]
  | .negate operand signLine line => by
    rw [Expr.code]
    exact settled_binary (by simp [push]) (operand.settled _ _ _)
  | .not operand line => by
    rw [Expr.code]
    exact settled_invert (operand.settled _ _ _)
  | .binary op left right line => by
    have h : Settled (binary folding op.base line _ _) := settled_binary
      (left.settled folding scope start)
      (right.settled folding scope (start + (left.code folding scope start).length))
    rw [Expr.code]
    split
    · exact settled_invert h
    · exact h
  | .connect op left right line => by simp [Expr.code, left.settled, right.settled]
  | .list items openLine closeLine => by simp [Expr.code, settled_codeAll items]
  | .call name args openLine closeLine => by simp [Expr.code, settled_codeAll args]
  | .construct type args openLine closeLine => by simp [Expr.code, settled_codeAll args]
  | .callStatic type member args openLine closeLine => by simp [Expr.code, settled_codeAll args]
  | .callMethod receiver name args openLine closeLine => by
    simp [Expr.code, receiver.settled, settled_codeAll args]

theorem Place.settled (folding : Bool) (scope : List String) (start : Nat) :
    (place : Place) → Settled (place.code folding scope start)
  | .variable name => by simp [Place.code]
  | .element target index => by simp [Place.code, target.settled, index.settled]
  | .field receiver name => by simp [Place.code, receiver.settled]
  | .staticField type member => by simp [Place.code]

theorem settled_codeAll {folding : Bool} {scope : List String} {start : Nat} :
    (items : List Expr) → Settled (codeAll folding scope start items)
  | [] => by simp [codeAll]
  | e :: rest => by simp [codeAll, e.settled, settled_codeAll rest]

end

theorem Stmt.length_le_scopeAfter (s : Stmt) (scope : List String) :
    scope.length ≤ (s.scopeAfter scope).length := by
  cases s with
  | declare name value => exact Nat.le_succ _
  | _ => exact Nat.le_refl _

theorem length_le_scopeAfterAll (scope : List String) (body : List Stmt) :
    scope.length ≤ (scopeAfterAll scope body).length := by
  induction body generalizing scope with
  | nil => exact Nat.le_refl _
  | cons s rest ih => exact Nat.le_trans (s.length_le_scopeAfter scope) (ih (s.scopeAfter scope))

/-- A loop resolves all jumps that leave it. -/
theorem Stmt.settled_whileLoop {folding : Bool} {loop : Option LoopFrame} {scope : List String}
    {start line closeLine : Nat} {condition : Expr} {body : List Stmt} : Code.Settled
      ((Stmt.whileLoop condition line body closeLine).code folding loop scope start) := by
  rw [Stmt.code]
  simp [condition.settled, Code.settled_resolve]

theorem Stmt.settled_forIn {folding : Bool} {loop : Option LoopFrame} {scope : List String}
    {start line closeLine : Nat} {name : String} {items : Expr} {body : List Stmt} : Code.Settled
      ((Stmt.forIn name items line body closeLine).code folding loop scope start) := by
  rw [Stmt.code]
  simp [items.settled, Code.settled_resolve]

/-- The end of a block adds no jump. -/
theorem Code.settled_block {folding : Bool} {loop : Option LoopFrame} {scope : List String}
    {start : Nat} {body : List Stmt} (h : Settled (bodyCode folding loop scope start body))
    {closeLine : Nat} : Settled (blockCode folding loop scope start body closeLine) := by
  rw [blockCode]
  exact settled_append.mpr ⟨h, settled_discard _ _⟩

open Code in
mutual

/-- Outside of loops no jump waits for its target. -/
theorem Stmt.settled (folding : Bool) (scope : List String) (start : Nat) :
    (s : Stmt) → Settled (s.code folding none scope start)
  | .declare name value => by simp [Stmt.code, value.settled]
  | .giveBack value line => by simp [Stmt.code, value.settled]
  | .ifThen condition line body closeLine => by
    simp [Stmt.code, condition.settled, settled_block (settled_body folding scope _ body)]
  | .ifElse condition line body closeLine elseLine alternative => by
    simp [Stmt.code, condition.settled, settled_block (settled_body folding scope _ body),
      alternative.settled]
  | .whileLoop condition line body closeLine => Stmt.settled_whileLoop
  | .forIn name items line body closeLine => Stmt.settled_forIn
  | .breakLoop line => by simp [Stmt.code]
  | .continueLoop line => by simp [Stmt.code]
  | .block body closeLine => by simp [Stmt.code, settled_block (settled_body folding scope _ body)]
  | .expression value line => by simp [Stmt.code, value.settled]

theorem settled_body (folding : Bool) (scope : List String) (start : Nat) :
    (body : List Stmt) → Settled (bodyCode folding none scope start body)
  | [] => by simp [bodyCode]
  | s :: rest => by
    rw [bodyCode]
    exact settled_append.mpr ⟨s.settled _ _ _, settled_body _ _ _ rest⟩

end

end StackScript
