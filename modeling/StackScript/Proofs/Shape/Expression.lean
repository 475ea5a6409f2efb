import StackScript.Proofs.Layout.Code
import StackScript.Proofs.Shape.Basic

/-!
# The shape of the code of expressions

An expression leaves the stack one value higher and its windows as they were, and relies on no more
than that the locals in scope are there. It has no jumps out of its own code, and none that wait for
their target.
-/

namespace StackScript

/-- Reading a place takes the operands of the access and leaves the value. -/
theorem Place.shaped_access (place : Place) {scope : List String} {h : Nat}
    (hs : scope.length ≤ h) (start : Nat) (marks : List Nat) (line : Nat) :
    Shaped noExit start ⟨h + place.operands, marks⟩
      [⟨(place.access scope).1, (place.access scope).2, line⟩] ⟨h + 1, marks⟩ [] := by
  cases place with
  | «variable» name =>
    rcases hslot : slot? name scope with _ | slot
    · rw [access_global hslot]
      exact .perform (.operands rfl) trivial
    · rw [access_local hslot]
      exact .perform (.pushLocal rfl (Nat.lt_of_lt_of_le (slot?_lt hslot) hs)) trivial
  | element target index => exact .perform (.operands rfl) trivial
  | field receiver name => exact .perform (.operands rfl) trivial
  | staticField type member =>
    exact .perform (.operands rfl) (Text.isSome_unqualified? type member)

/-- Storing into a place takes the operands of the access from below the value. -/
theorem Place.shaped_store (place : Place) {scope : List String} {h : Nat}
    (hs : scope.length ≤ h) (start : Nat) (marks : List Nat) (line : Nat) :
    Shaped noExit start ⟨h + place.operands + 1, marks⟩
      [⟨place.store scope, (place.access scope).2, line⟩] ⟨h + 1, marks⟩ [] := by
  cases place with
  | «variable» name =>
    rcases hslot : slot? name scope with _ | slot
    · rw [store_global hslot, access_global hslot]
      exact .perform (.keep (.inl rfl)) trivial
    · have hlt : slot < h + 1 := Nat.lt_succ_of_lt (Nat.lt_of_lt_of_le (slot?_lt hslot) hs)
      rw [store_local hslot, access_local hslot]
      exact .perform (.setLocal rfl hlt) trivial
  | element target index => exact .perform (.operands (n := 3) rfl) trivial
  | field receiver name => exact .perform (.operands (n := 2) rfl) trivial
  | staticField type member =>
    exact .perform (.keep (.inr rfl)) (Text.isSome_unqualified? type member)

/-- The same for the store of a compound assignment. -/
theorem Place.shaped_storeAgain (place : Place) {scope : List String} {h : Nat}
    (hs : scope.length ≤ h) (start : Nat) (marks : List Nat) (line : Nat) :
    Shaped noExit start ⟨h + place.operands + 1, marks⟩
      [⟨place.storeAgain scope, (place.access scope).2, line⟩] ⟨h + 1, marks⟩ [] := by
  cases place with
  | element target index => exact .perform (.operands (n := 3) rfl) trivial
  | «variable» name => exact Place.shaped_store (.variable name) hs start marks line
  | field receiver name => exact Place.shaped_store (.field receiver name) hs start marks line
  | staticField type member =>
    exact Place.shaped_store (.staticField type member) hs start marks line

/-- The operands of an access are copied for the read of a compound assignment. -/
theorem Place.shaped_copy (place : Place) (start h : Nat) (marks : List Nat) (line : Nat) :
    Shaped noExit start ⟨h + place.operands, marks⟩
      (if place.operands = 0 then [] else [⟨.dup, .count place.operands, line⟩])
      ⟨h + place.operands + place.operands, marks⟩ [] := by
  split
  · rename_i hzero
    rw [hzero]
    exact .nil
  · exact .perform (.dup rfl) trivial

theorem Shaped.push (l : Literal) (start h : Nat) (marks : List Nat) (line : Nat) :
    Shaped noExit start ⟨h, marks⟩ [Code.push l line] ⟨h + 1, marks⟩ [] :=
  .perform (.operands (n := 0) rfl) rfl

/-- An operator makes one value of those of its operands. -/
theorem Shaped.binary {folding : Bool} {op : BinaryOp} {line start h : Nat} {marks : List Nat}
    {left right : List Instruction}
    (hl : Shaped noExit start ⟨h, marks⟩ left ⟨h + 1, marks⟩ [])
    (hr : Shaped noExit (start + left.length) ⟨h + 1, marks⟩ right ⟨h + 2, marks⟩ []) :
    Shaped noExit start ⟨h, marks⟩ (Code.binary folding op line left right) ⟨h + 1, marks⟩ [] := by
  rcases Code.binary_cases folding op line left right with
    ⟨x, y, l, lineX, lineY, _, _, _, hc⟩ | hc <;> rw [hc]
  · exact .push l start h marks line
  · exact (hl.append hr).append (.perform (.operands (n := 2) rfl) trivial)

theorem Shaped.invert {folding : Bool} {line start h : Nat} {marks : List Nat}
    {operand : List Instruction}
    (ho : Shaped noExit start ⟨h, marks⟩ operand ⟨h + 1, marks⟩ []) :
    Shaped noExit start ⟨h, marks⟩ (Code.invert folding line operand) ⟨h + 1, marks⟩ [] := by
  rcases Code.invert_cases folding line operand with ⟨x, l, pushLine, _, _, hc⟩ | hc <;> rw [hc]
  · exact .push l start h marks pushLine
  · exact ho.append (.perform (.operands (n := 1) rfl) trivial)

/-- A window is opened, filled and closed again by an instruction that takes it. -/
theorem Shaped.window {n start h k openLine : Nat} {marks : List Nat} {i : Instruction}
    {args : List Instruction} (hi : i.op.receivers? = some n) (hp : i.Proper)
    (ha : Shaped noExit (start + 1) ⟨h + n, (h + n) :: marks⟩ args ⟨h + n + k, (h + n) :: marks⟩ []) :
    Shaped noExit start ⟨h + n, marks⟩ (⟨.openWindow, .none, openLine⟩ :: (args ++ [i]))
      ⟨h + 1, marks⟩ [] :=
  .cons (.perform (.openWindow rfl) trivial) (ha.append (.perform (.window hi) hp))

mutual

/-- An expression leaves one value on the stack. -/
theorem Expr.shaped (folding : Bool) {scope : List String} {h : Nat} (hs : scope.length ≤ h)
    (start : Nat) (marks : List Nat) : (e : Expr) →
    Shaped noExit start ⟨h, marks⟩ (e.code folding scope start) ⟨h + 1, marks⟩ []
  | .literal l line => .push l start h marks line
  | .read place line => (place.shaped folding hs start marks).append (place.shaped_access hs _ _ _)
  | .assign place value line =>
    have hvalue := value.shaped folding (Nat.le_trans hs (Nat.le_add_right h place.operands))
      (start + (place.code folding scope start).length) marks
    ((place.shaped folding hs start marks).append hvalue).append (place.shaped_store hs _ _ _)
  | .update place op value readLine storeLine => by
    have htarget := ((place.shaped folding hs start marks).append
      (place.shaped_copy _ h marks readLine)).append
      (place.shaped_access (Nat.le_trans hs (Nat.le_add_right h place.operands)) _ _ readLine)
    have hle : scope.length ≤ h + place.operands + 1 := by omega
    have hbinary (a : Nat) : Shaped noExit a ⟨h + place.operands + 2, marks⟩
        [⟨.binary op, .none, storeLine⟩] ⟨h + place.operands + 1, marks⟩ [] :=
      .perform (.operands (n := 2) rfl) trivial
    exact (htarget.append (value.shaped folding hle _ marks)).append
      ((hbinary _).cons (place.shaped_storeAgain hs _ _ storeLine))
  | .negate operand signLine line =>
    .binary (.push _ _ _ _ _) (operand.shaped folding (Nat.le_succ_of_le hs) _ marks)
  | .not operand line => .invert (operand.shaped folding hs start marks)
  | .binary op left right line => by
    have hcode : Shaped noExit start ⟨h, marks⟩ (Code.binary folding op.base line _ _)
        ⟨h + 1, marks⟩ [] :=
      .binary (left.shaped folding hs start marks)
        (right.shaped folding (Nat.le_succ_of_le hs) _ marks)
    rw [Expr.code]
    split
    · exact .invert hcode
    · exact hcode
  | .connect op left right line => by
    have hop : op.exit = .jumpIfFalse ∨ op.exit = .jumpIfTrue := by
      cases op
      · exact .inl rfl
      · exact .inr rfl
    have hleft : Shaped noExit start ⟨h, marks⟩
        (left.code folding scope start ++ [⟨.dup, .count 1, line⟩]) ⟨h + 2, marks⟩ [] :=
      (left.shaped folding hs start marks).append (.perform (.dup rfl) trivial)
    have hright : Shaped noExit (start + (left.code folding scope start).length + 2)
        ⟨h + 1, marks⟩ (⟨.pop, .count 1, line⟩ ::
          right.code folding scope (start + (left.code folding scope start).length + 3))
        ⟨h + 1, marks⟩ [] :=
      .cons (.perform (.pop rfl) trivial) (right.shaped folding hs _ marks)
    rw [Expr.code]
    simpa using Shaped.skip (i := ⟨op.exit, .target (.address _), line⟩) hop
      (by simp [Instruction.count, Target.index]; omega) hleft
      (by rw [List.length_append, ← Nat.add_assoc]; exact hright)
  | .list items openLine closeLine =>
    .window (n := 0) rfl trivial (shapedAll folding hs _ _ items)
  | .call name args openLine closeLine =>
    .cons (.perform (.openWindow rfl) trivial)
      ((shapedAll folding hs _ _ args).append (.call rfl))
  | .construct type args openLine closeLine =>
    .window (n := 0) rfl trivial (shapedAll folding hs _ _ args)
  | .callStatic type member args openLine closeLine =>
    .window (n := 0) rfl (Text.isSome_unqualified? type member) (shapedAll folding hs _ _ args)
  | .callMethod receiver name args openLine closeLine =>
    (receiver.shaped folding hs start marks).append
      (.window (n := 1) rfl trivial (shapedAll folding (Nat.le_succ_of_le hs) _ _ args))

/-- The code of a place leaves the operands of the access on the stack. -/
theorem Place.shaped (folding : Bool) {scope : List String} {h : Nat} (hs : scope.length ≤ h)
    (start : Nat) (marks : List Nat) : (place : Place) →
    Shaped noExit start ⟨h, marks⟩ (place.code folding scope start) ⟨h + place.operands, marks⟩ []
  | .variable _ => .nil
  | .element target index =>
    (target.shaped folding hs start marks).append
      (index.shaped folding (Nat.le_succ_of_le hs) _ marks)
  | .field receiver _ => receiver.shaped folding hs start marks
  | .staticField _ _ => .nil

/-- Expressions one after the other leave their values on the stack. -/
theorem shapedAll (folding : Bool) {scope : List String} {h : Nat} (hs : scope.length ≤ h)
    (start : Nat) (marks : List Nat) : (items : List Expr) →
    Shaped noExit start ⟨h, marks⟩ (codeAll folding scope start items) ⟨h + items.length, marks⟩ []
  | [] => .nil
  | e :: rest => by
    have hrest := shapedAll folding (h := h + 1) (Nat.le_succ_of_le hs)
      (start + (e.code folding scope start).length) marks rest
    rw [Nat.add_assoc, Nat.add_comm 1] at hrest
    exact (e.shaped folding hs start marks).append hrest

end

end StackScript
