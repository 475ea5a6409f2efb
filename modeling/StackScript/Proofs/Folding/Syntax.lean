import StackScript.Proofs.Folding.Alignment

/-!
# The two codes of a script

The plain code of a script is aligned with its folded code. Where an operator is computed ahead of the
run, its operands were pushes of literals, so that the whole plain code of the operator computes the
literal. All other code is put together in the same way on both sides.
-/

namespace StackScript

variable {exits : Nat × Nat → Prop} {a b line : Nat}

/-! ### Expressions -/

theorem Place.isJump_access (place : Place) (scope : List String) :
    (place.access scope).1.isJump = false := by
  cases place with
  | «variable» name =>
    rcases h : slot? name scope with _ | slot
    · rw [Place.access_global h]
      rfl
    · rw [Place.access_local h]
      rfl
  | element | field | staticField => rfl

theorem Place.isJump_store (place : Place) (scope : List String) :
    (place.store scope).isJump = false := by
  cases place with
  | «variable» name =>
    rcases h : slot? name scope with _ | slot
    · rw [Place.store_global h]
      rfl
    · rw [Place.store_local h]
      rfl
  | element | field | staticField => rfl

theorem Place.isJump_storeAgain (place : Place) (scope : List String) :
    (place.storeAgain scope).isJump = false := by
  cases place with
  | element => rfl
  | «variable» name => exact (Place.variable name).isJump_store scope
  | field | staticField => rfl

/-- An operator is computed only if its operands are, and then its whole plain code computes the
result. -/
theorem Aligned.binary {left left' right right' : List Instruction} {op : BinaryOp}
    (hl : Aligned noExit a b left left')
    (hr : Aligned noExit (a + left.length) (b + left'.length) right right') :
    Aligned noExit a b (Code.binary false op line left right)
      (Code.binary true op line left' right') := by
  show Aligned noExit a b (left ++ right ++ [⟨.binary op, .none, line⟩]) _
  rcases Code.binary_cases true op line left' right' with
    ⟨x, y, l, lineX, lineY, rfl, rfl, happly, h⟩ | h
  · rw [h]
    exact .computed (.binary hl.computes hr.computes happly) line
  · rw [h]
    exact (hl.append hr).append (.one rfl)

theorem Aligned.invert {operand operand' : List Instruction}
    (ho : Aligned noExit a b operand operand') :
    Aligned noExit a b (Code.invert false line operand) (Code.invert true line operand') := by
  show Aligned noExit a b (operand ++ [⟨.invert, .none, line⟩]) _
  rcases Code.invert_cases true line operand' with ⟨x, l, pushLine, rfl, hinvert, h⟩ | h
  · rw [h]
    exact .computed (.invert ho.computes hinvert) pushLine
  · rw [h]
    exact ho.append (.one rfl)

/-- Arguments in their window, taken by an instruction. -/
theorem Aligned.window {args args' : List Instruction} {openLine : Nat} {i : Instruction}
    (hi : i.op.isJump = false) (ha : Aligned noExit (a + 1) (b + 1) args args') :
    Aligned noExit a b (⟨.openWindow, .none, openLine⟩ :: (args ++ [i]))
      (⟨.openWindow, .none, openLine⟩ :: (args' ++ [i])) :=
  (Aligned.one rfl).append (ha.append (.one hi))

/-- The second operand of a connective is skipped if the first one decides. -/
theorem Aligned.connect {first first' second second' : List Instruction} {op : Operation}
    (hop : op.isJump = true) (hl : Aligned noExit a b first first')
    (hr : Aligned noExit (a + first.length + 3) (b + first'.length + 3) second second') :
    Aligned noExit a b
      (first ++ [⟨.dup, .count 1, line⟩, jumpTo op (a + first.length + 3 + second.length) line,
        ⟨.pop, .count 1, line⟩] ++ second)
      (first' ++ [⟨.dup, .count 1, line⟩, jumpTo op (b + first'.length + 3 + second'.length) line,
        ⟨.pop, .count 1, line⟩] ++ second') := by
  have htest : Aligned noExit a b (first ++ [⟨.dup, .count 1, line⟩])
      (first' ++ [⟨.dup, .count 1, line⟩]) := hl.append (.one rfl)
  have hrest : Aligned noExit (a + (first ++ [(⟨.dup, .count 1, line⟩ : Instruction)]).length + 1)
      (b + (first' ++ [(⟨.dup, .count 1, line⟩ : Instruction)]).length + 1)
      (⟨.pop, .count 1, line⟩ :: second) (⟨.pop, .count 1, line⟩ :: second') := by
    rw [List.length_append, ← Nat.add_assoc, List.length_append, ← Nat.add_assoc]
    exact (Aligned.one rfl).append hr
  have hend (n : Nat) (left right : List Instruction) : n + left.length + 3 + right.length =
      n + (left ++ [(⟨.dup, .count 1, line⟩ : Instruction)]).length + 1 +
        ((⟨.pop, .count 1, line⟩ : Instruction) :: right).length := by
    simp
    omega
  simpa using htest.skip hop (hend a first second) (hend b first' second') hrest

mutual

/-- The plain code of an expression is aligned with its folded code. -/
theorem Expr.aligned (scope : List String) (a b : Nat) : (e : Expr) →
    Aligned noExit a b (e.code false scope a) (e.code true scope b)
  | .literal l line => .one rfl
  | .read place line =>
    (place.aligned scope a b).append (.one (place.isJump_access scope))
  | .assign place value line =>
    ((place.aligned scope a b).append (value.aligned scope _ _)).append
      (.one (place.isJump_store scope))
  | .update place op value readLine storeLine => by
    have hcopy (a b : Nat) : Aligned noExit a b (if place.operands = 0 then []
        else [⟨.dup, .count place.operands, readLine⟩]) _ :=
      .same fun i hi ↦ by split at hi <;> simp_all [Operation.isJump]
    have htarget := ((place.aligned scope a b).append (hcopy _ _)).append
      (.one (i := ⟨_, (place.access scope).2, readLine⟩) (place.isJump_access scope))
    have hstore (a b : Nat) : Aligned noExit a b [⟨.binary op, .none, storeLine⟩,
        ⟨place.storeAgain scope, (place.access scope).2, storeLine⟩] _ :=
      (Aligned.one rfl).append (.one (place.isJump_storeAgain scope))
    exact (htarget.append (value.aligned scope _ _)).append (hstore _ _)
  | .negate operand signLine line =>
    .binary (.one rfl) (operand.aligned scope _ _)
  | .not operand line => (operand.aligned scope a b).invert
  | .binary op left right line => by
    have hcode : Aligned noExit a b (Code.binary false op.base line _ _)
        (Code.binary true op.base line _ _) :=
      (left.aligned scope a b).binary (right.aligned scope _ _)
    rw [Expr.code, Expr.code]
    split
    · exact hcode.invert
    · exact hcode
  | .connect op left right line => by
    have hop : op.exit.isJump = true := by cases op <;> rfl
    rw [Expr.code, Expr.code]
    exact .connect hop (left.aligned scope a b) (right.aligned scope _ _)
  | .list items openLine closeLine => .window rfl (alignedAll scope _ _ items)
  | .call name args openLine closeLine => .window rfl (alignedAll scope _ _ args)
  | .construct type args openLine closeLine => .window rfl (alignedAll scope _ _ args)
  | .callStatic type member args openLine closeLine => .window rfl (alignedAll scope _ _ args)
  | .callMethod receiver name args openLine closeLine =>
    (receiver.aligned scope a b).append (.window rfl (alignedAll scope _ _ args))

theorem Place.aligned (scope : List String) (a b : Nat) : (place : Place) →
    Aligned noExit a b (place.code false scope a) (place.code true scope b)
  | .variable _ => .nil
  | .element target index => (target.aligned scope a b).append (index.aligned scope _ _)
  | .field receiver _ => receiver.aligned scope a b
  | .staticField _ _ => .nil

theorem alignedAll (scope : List String) (a b : Nat) : (items : List Expr) →
    Aligned noExit a b (codeAll false scope a items) (codeAll true scope b items)
  | [] => .nil
  | e :: rest => (e.aligned scope a b).append (alignedAll scope _ _ rest)

end

/-! ### Statements -/

/-- The loop around a statement in the two codes: its turns begin at corresponding places, and the
statement may go to the next turn and out of the loop. -/
def LoopPair (exits : Nat × Nat → Prop) (exit : Nat × Nat) : Option LoopFrame → Option LoopFrame → Prop
  | none, none => True
  | some frame, some frame' => frame.outside = frame'.outside ∧ exits (frame.top, frame'.top) ∧ exits exit
  | _, _ => False

/-- The pair of a loop that both codes have. -/
theorem LoopPair.inner (top top' exit exit' outside : Nat) :
    LoopPair (fun p ↦ p = (top, top') ∨ p = (exit, exit')) (exit, exit') (some ⟨top, outside⟩)
      (some ⟨top', outside⟩) :=
  ⟨rfl, .inl rfl, .inr rfl⟩

/-- Discarding locals does not jump. -/
theorem Aligned.discard (count line : Nat) :
    Aligned exits a b (Code.discard count line) (Code.discard count line) :=
  .same fun i hi ↦ by
    unfold Code.discard at hi
    split at hi <;> simp_all [Operation.isJump]

theorem Aligned.turns {body body' : List Instruction} {closeLine top top' exit exit' : Nat}
    (hexit : exit = top + 6 + body.length + 2) (hexit' : exit' = top' + 6 + body'.length + 2)
    (hb : Aligned (fun p ↦ p = (top, top') ∨ p = (exit, exit')) (top + 6) (top' + 6) body body') :
    Aligned exits top top' (Code.turns line closeLine top exit body)
      (Code.turns line closeLine top' exit' body') := by
  have hfetch (E : Nat × Nat → Prop) : Aligned E (top + 4) (top' + 4) [⟨.dup, .count 1, line⟩,
      ⟨.pushField, .name "Current", line⟩] _ := .same (by simp [Operation.isJump])
  refine .loop rfl rfl (by simp [hexit]; omega) (by simp [hexit']; omega)
    (.same (by simp [Operation.isJump])) ?_
  exact ((hfetch _).append hb).append (.one rfl)

theorem Aligned.forIn {source source' body body' : List Instruction}
    {closeLine top top' exit exit' : Nat} (htop : top = a + source.length + 2)
    (htop' : top' = b + source'.length + 2) (hexit : exit = top + 6 + body.length + 2)
    (hexit' : exit' = top' + 6 + body'.length + 2) (hs : Aligned noExit a b source source')
    (hb : Aligned (fun p ↦ p = (top, top') ∨ p = (exit, exit')) (top + 6) (top' + 6) body body') :
    Aligned exits a b (Code.enumerate line source ++ Code.turns line closeLine top exit body ++
        [⟨.pop, .count 1, closeLine⟩])
      (Code.enumerate line source' ++ Code.turns line closeLine top' exit' body' ++
        [⟨.pop, .count 1, closeLine⟩]) := by
  have hsource : Aligned exits a b (Code.enumerate line source) (Code.enumerate line source') :=
    hs.of_noExit.append (.same (by simp [Operation.isJump]))
  have hturns : Aligned exits (a + (Code.enumerate line source).length)
      (b + (Code.enumerate line source').length) (Code.turns line closeLine top exit body)
      (Code.turns line closeLine top' exit' body') := by
    rw [Code.enumerate, Code.enumerate, List.length_append, List.length_append, ← Nat.add_assoc,
      ← Nat.add_assoc]
    subst htop htop'
    exact .turns hexit hexit' hb
  exact (hsource.append hturns).append (.one rfl)

/-- The end of a block discards its locals. -/
theorem Aligned.block {loop loop' : Option LoopFrame} {scope : List String} {exit exit' : Nat}
    {body : List Stmt} (hb : Aligned exits a b
      (Code.resolve exit (bodyCode false loop scope a body))
      (Code.resolve exit' (bodyCode true loop' scope b body))) (closeLine : Nat) :
    Aligned exits a b (Code.resolve exit (blockCode false loop scope a body closeLine))
      (Code.resolve exit' (blockCode true loop' scope b body closeLine)) := by
  rw [blockCode, blockCode, Code.resolve_append, Code.resolve_append,
    Code.resolve_of_settled (Code.settled_discard _ _),
    Code.resolve_of_settled (Code.settled_discard _ _)]
  exact hb.append (.discard _ _)

mutual

/-- The plain code of a statement is aligned with its folded code. -/
theorem Stmt.aligned {exits : Nat × Nat → Prop} {loop loop' : Option LoopFrame} {exit exit' : Nat}
    (hl : LoopPair exits (exit, exit') loop loop') (scope : List String) (a b : Nat) : (s : Stmt) →
    Aligned exits a b (Code.resolve exit (s.code false loop scope a))
      (Code.resolve exit' (s.code true loop' scope b))
  | .declare name value => by
    rw [Stmt.code, Stmt.code, Code.resolve_of_settled (value.settled _ _ _),
      Code.resolve_of_settled (value.settled _ _ _)]
    exact (value.aligned scope a b).of_noExit
  | .giveBack value line => by
    rw [Stmt.code, Stmt.code, Code.resolve_of_settled (by simp [value.settled]),
      Code.resolve_of_settled (by simp [value.settled])]
    exact (value.aligned scope a b).of_noExit.append (.one rfl)
  | .ifThen condition line body closeLine => by
    rw [Stmt.code, Stmt.code, Code.resolve_append, Code.resolve_append,
      Code.resolve_of_settled (condition.settled _ _ _),
      Code.resolve_of_settled (condition.settled _ _ _), Code.resolve_cons (by simp),
      Code.resolve_cons (by simp)]
    exact .skip rfl (by simp) (by simp) (condition.aligned scope a b)
      ((alignedBody hl scope _ _ body).block closeLine)
  | .ifElse condition line body closeLine elseLine alternative => by
    rw [Stmt.code, Stmt.code, Code.resolve_append, Code.resolve_append,
      Code.resolve_of_settled (condition.settled _ _ _),
      Code.resolve_of_settled (condition.settled _ _ _), Code.resolve_cons (by simp),
      Code.resolve_cons (by simp), Code.resolve_append, Code.resolve_append,
      Code.resolve_cons (by simp), Code.resolve_cons (by simp)]
    exact .alternative rfl rfl (by simp) (by simp) (by simp) (by simp)
      (condition.aligned scope a b) ((alignedBody hl scope _ _ body).block closeLine)
      (alternative.aligned hl scope _ _)
  | .whileLoop condition line body closeLine => by
    rw [Code.resolve_of_settled Stmt.settled_whileLoop,
      Code.resolve_of_settled Stmt.settled_whileLoop, Stmt.code, Stmt.code]
    refine .loop rfl rfl ?_ ?_ (condition.aligned scope a b)
      ((alignedBody (.inner a b _ _ _) scope _ _ body).block closeLine) <;> simp
  | .forIn name items line body closeLine => by
    rw [Code.resolve_of_settled Stmt.settled_forIn, Code.resolve_of_settled Stmt.settled_forIn,
      Stmt.code_forIn _ _ _ _ _ _ _ _ _ _ _ rfl rfl, Stmt.code_forIn _ _ _ _ _ _ _ _ _ _ _ rfl rfl]
    refine .forIn rfl rfl ?_ ?_ (items.aligned scope a b)
      ((alignedBody (.inner _ _ _ _ _) _ _ _ body).block closeLine) <;> simp
  | .breakLoop line => by
    cases loop with
    | none =>
      cases loop' with
      | none =>
        rw [Stmt.code, Stmt.code]
        exact .nil
      | some frame' => exact hl.elim
    | some frame =>
      cases loop' with
      | none => exact hl.elim
      | some frame' =>
        obtain ⟨houtside, _, hexit⟩ := hl
        rw [Stmt.code, Stmt.code, Code.resolve_append, Code.resolve_append,
          Code.resolve_of_settled (Code.settled_discard _ _),
          Code.resolve_of_settled (Code.settled_discard _ _), houtside]
        exact (Aligned.discard _ _).append (.jump rfl hexit)
  | .continueLoop line => by
    cases loop with
    | none =>
      cases loop' with
      | none =>
        rw [Stmt.code, Stmt.code]
        exact .nil
      | some frame' => exact hl.elim
    | some frame =>
      cases loop' with
      | none => exact hl.elim
      | some frame' =>
        obtain ⟨houtside, htop, _⟩ := hl
        rw [Stmt.code, Stmt.code, Code.resolve_append, Code.resolve_append,
          Code.resolve_of_settled (Code.settled_discard _ _),
          Code.resolve_of_settled (Code.settled_discard _ _), houtside]
        exact (Aligned.discard _ _).append (.jump rfl htop)
  | .block body closeLine => by
    rw [Stmt.code, Stmt.code]
    exact (alignedBody hl scope a b body).block closeLine
  | .expression value line => by
    rw [Stmt.code, Stmt.code, Code.resolve_of_settled (by simp [value.settled]),
      Code.resolve_of_settled (by simp [value.settled])]
    exact (value.aligned scope a b).of_noExit.append (.one rfl)

theorem alignedBody {exits : Nat × Nat → Prop} {loop loop' : Option LoopFrame} {exit exit' : Nat}
    (hl : LoopPair exits (exit, exit') loop loop') (scope : List String) (a b : Nat) :
    (body : List Stmt) → Aligned exits a b (Code.resolve exit (bodyCode false loop scope a body))
      (Code.resolve exit' (bodyCode true loop' scope b body))
  | [] => by
    rw [bodyCode, bodyCode]
    exact .nil
  | s :: rest => by
    have hrest := alignedBody hl (s.scopeAfter scope) (a + (s.code false loop scope a).length)
      (b + (s.code true loop' scope b).length) rest
    rw [bodyCode, bodyCode, Code.resolve_append, Code.resolve_append]
    refine (s.aligned hl scope a b).append ?_
    rw [Code.length_resolve, Code.length_resolve]
    exact hrest

end

end StackScript
