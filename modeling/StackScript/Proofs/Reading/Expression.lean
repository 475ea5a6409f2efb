import StackScript.Proofs.Reading.Steady

/-!
# Reading expressions is steady

Every function that reads a part of an expression yields a written one, whatever was written before.
The induction is on the fuel, as in the functions themselves.
-/

namespace StackScript.Reading

/-- A name that opens an expression is not the one of enumerators. -/
theorem written_opening? {kind : TokenKind} (h : kind.Written) {opening : Opening}
    (ho : kind.opening? = some opening) : opening ≠ .variable enumeratorName := by
  rintro rfl
  apply h
  unfold TokenKind.opening? at ho
  split at ho <;> cases ho
  rfl

theorem steady_missing : Steady Expr.Written missing :=
  steady_line.bind fun _ _ ↦ .pure trivial

theorem steady_failOpening : Steady Expr.Written failOpening := by
  refine steady_current.bind fun kind _ ↦ ?_
  split
  · exact (steady_failHere _).bind fun _ _ ↦ steady_missing
  · exact (steady_failHere _).bind fun _ _ ↦ steady_advance.bind fun _ _ ↦ steady_missing

theorem steady_rejectAssignment : Steady Any rejectAssignment := by
  refine steady_current.bind fun kind _ ↦ ?_
  split
  · exact (steady_failHere _).bind fun _ _ ↦ steady_advance
  · exact .pure trivial

mutual

theorem steady_expressionFrom : (fuel : Nat) → (least : Precedence) →
    Steady Expr.Written (expressionFrom fuel least)
  | 0, _ => steady_starve trivial
  | fuel + 1, least => by
    refine steady_current.bind fun kind hkind ↦ ?_
    split
    · exact steady_failOpening
    · rename_i opening hopening
      refine steady_advance.bind fun _ _ ↦ ?_
      refine (steady_openWith fuel opening _ (written_opening? hkind hopening)).bind
        fun first hfirst ↦ ?_
      refine (steady_continueFrom fuel least _ first hfirst).bind fun whole hwhole ↦ ?_
      split
      · exact steady_rejectAssignment.bind fun _ _ ↦ .pure hwhole
      · exact .pure hwhole

theorem steady_openWith : (fuel : Nat) → (opening : Opening) → (assignable : Bool) →
    opening ≠ .variable enumeratorName → Steady Expr.Written (openWith fuel opening assignable)
  | 0, _, _, _ => steady_starve trivial
  | fuel + 1, opening, assignable, ho => by
    cases opening with
    | literal value =>
      exact (steady_push _).bind fun _ _ ↦ steady_line.bind fun _ _ ↦ .pure trivial
    | «variable» name =>
      have hname : name ≠ enumeratorName := fun h ↦ ho (h ▸ rfl)
      refine (steady_accept _).bind fun found _ ↦ ?_
      split
      · exact (steady_arguments fuel).bind fun args hargs ↦ .pure hargs
      · exact steady_place fuel _ _ _ hname
    | className type =>
      refine (steady_expect _ _).bind fun found _ ↦ ?_
      split
      · refine steady_memberName?.bind fun member? _ ↦ ?_
        cases member? with
        | none => exact steady_missing
        | some member =>
          refine (steady_accept _).bind fun found _ ↦ ?_
          split
          · exact (steady_arguments fuel).bind fun args hargs ↦ .pure hargs
          · exact steady_place fuel _ _ _ trivial
      · exact steady_missing
    | construct =>
      refine steady_current.bind fun kind _ ↦ ?_
      split
      · refine steady_advance.bind fun _ _ ↦ (steady_expect _ _).bind fun found _ ↦ ?_
        split
        · exact (steady_arguments fuel).bind fun args hargs ↦ .pure hargs
        · exact steady_missing
      · exact (steady_failExpecting _).bind fun _ _ ↦ steady_missing
    | group =>
      exact (steady_expressionFrom fuel _).bind fun inner hinner ↦
        (steady_close _ _).bind fun _ _ ↦ .pure hinner
    | list =>
      refine steady_line.bind fun _ _ ↦ (steady_emit _).bind fun _ _ ↦
        (steady_check _).bind fun found _ ↦ ?_
      have hclose {items : List Expr} (h : writtenExprs items) {openLine : Nat} :
          Steady Expr.Written (do
            close .rightBracket "']' after array elements"
            emit 1
            return .list items openLine (← line)) :=
        (steady_close _ _).bind fun _ _ ↦ (steady_emit _).bind fun _ _ ↦
          steady_line.bind fun _ _ ↦ .pure h
      split
      · exact hclose (show writtenExprs [] from trivial)
      · exact (steady_items fuel).bind fun items h ↦ hclose h
    | negate =>
      exact steady_line.bind fun _ _ ↦ (steady_push _).bind fun _ _ ↦
        (steady_expressionFrom fuel _).bind fun operand h ↦
        (steady_operate _).bind fun _ _ ↦ steady_line.bind fun _ _ ↦ .pure h
    | not =>
      exact (steady_expressionFrom fuel _).bind fun operand h ↦
        steady_operateNot.bind fun _ _ ↦ steady_line.bind fun _ _ ↦ .pure h

theorem steady_continueFrom : (fuel : Nat) → (least : Precedence) → (assignable : Bool) →
    (left : Expr) → left.Written → Steady Expr.Written (continueFrom fuel least assignable left)
  | 0, _, _, _, hl => steady_starve hl
  | fuel + 1, least, assignable, left, hl => by
    refine steady_current.bind fun kind _ ↦ ?_
    split
    · exact .pure hl
    · split
      · exact .pure hl
      · exact steady_advance.bind fun _ _ ↦
          (steady_continueWith fuel _ assignable left hl).bind fun left hl ↦
            steady_continueFrom fuel least assignable left hl

theorem steady_continueWith : (fuel : Nat) → (continuation : Continuation) →
    (assignable : Bool) → (left : Expr) → left.Written →
    Steady Expr.Written (continueWith fuel continuation assignable left)
  | 0, _, _, _, hl => steady_starve hl
  | fuel + 1, continuation, assignable, left, hl => by
    cases continuation with
    | index =>
      exact (steady_expressionFrom fuel _).bind fun index hindex ↦
        (steady_close _ _).bind fun _ _ ↦ steady_place fuel _ _ _ ⟨hl, hindex⟩
    | member =>
      refine steady_memberName?.bind fun name? _ ↦ ?_
      cases name? with
      | none => exact .pure hl
      | some name =>
        refine (steady_accept _).bind fun found _ ↦ ?_
        split
        · exact (steady_arguments fuel).bind fun args hargs ↦ .pure ⟨hl, hargs⟩
        · exact steady_place fuel _ _ _ hl
    | operator op =>
      refine (steady_expressionFrom fuel _).bind fun right hright ↦
        (steady_operate _).bind fun _ _ ↦ ?_
      dsimp only
      split
      · exact steady_operateNot.bind fun _ _ ↦ steady_line.bind fun _ _ ↦ .pure ⟨hl, hright⟩
      · exact steady_line.bind fun _ _ ↦ .pure ⟨hl, hright⟩
    | connect op =>
      exact steady_line.bind fun _ _ ↦ (steady_emit _).bind fun _ _ ↦
        (steady_expressionFrom fuel _).bind fun right hright ↦
        steady_join.bind fun _ _ ↦ .pure ⟨hl, hright⟩

theorem steady_place : (fuel : Nat) → (target : Place) → (operands : Nat) →
    (assignable : Bool) → target.Written →
    Steady Expr.Written (place fuel target operands assignable)
  | 0, _, _, _, ht => steady_starve ht
  | fuel + 1, target, operands, assignable, ht => by
    have hread : Steady Expr.Written (do
        emit 1
        return .read target (← line)) :=
      (steady_emit _).bind fun _ _ ↦ steady_line.bind fun _ _ ↦ .pure ht
    refine (steady_check _).bind fun found _ ↦ ?_
    split
    · exact steady_advance.bind fun _ _ ↦ (steady_expressionFrom fuel _).bind fun value h ↦
        (steady_emit _).bind fun _ _ ↦ steady_line.bind fun _ _ ↦ .pure ⟨ht, h⟩
    · refine steady_current.bind fun kind _ ↦ ?_
      split
      · split
        · exact steady_advance.bind fun _ _ ↦ steady_line.bind fun _ _ ↦
            (steady_emit _).bind fun _ _ ↦ (steady_expressionFrom fuel _).bind fun value h ↦
            (steady_operate _).bind fun _ _ ↦ (steady_emit _).bind fun _ _ ↦
            steady_line.bind fun _ _ ↦ .pure ⟨ht, h⟩
        · exact hread
      · exact hread

theorem steady_arguments : (fuel : Nat) → Steady (writtenExprs ·.1) (arguments fuel)
  | 0 => steady_starve trivial
  | fuel + 1 => by
    refine steady_line.bind fun _ _ ↦ (steady_emit _).bind fun _ _ ↦
      (steady_check _).bind fun found _ ↦ ?_
    have hclose {args : List Expr} (h : writtenExprs args) {openLine : Nat} :
        Steady (writtenExprs ·.1) (do
          close .rightParen "')' after arguments"
          emit 1
          return (args, openLine, ← line)) :=
      (steady_close _ _).bind fun _ _ ↦ (steady_emit _).bind fun _ _ ↦
        steady_line.bind fun _ _ ↦ .pure h
    split
    · exact hclose (show writtenExprs [] from trivial)
    · exact (steady_items fuel).bind fun items h ↦ hclose h

theorem steady_items : (fuel : Nat) → Steady writtenExprs (items fuel)
  | 0 => steady_starve trivial
  | fuel + 1 => by
    refine (steady_expressionFrom fuel _).bind fun first hfirst ↦
      (steady_accept _).bind fun found _ ↦ ?_
    split
    · exact (steady_items fuel).bind fun rest hrest ↦ .pure ⟨hfirst, hrest⟩
    · exact .pure ⟨hfirst, trivial⟩

end

theorem steady_fuel : Steady Any fuel :=
  steady_remaining.bind fun _ _ ↦ .pure trivial

theorem steady_expression : Steady Expr.Written expression :=
  steady_fuel.bind fun fuel _ ↦ steady_expressionFrom fuel _

end StackScript.Reading
