import StackScript.Compilation

/-!
# What reading never breaks

All that the functions of the reader do to it is to read tokens, to raise faults at positions of tokens,
and to keep their books. What these steps do not break (`Reader.Invariant`) is not broken by the reading
of a whole script (`Reader.Invariant.keeps_script`), whatever it finds in the text.
-/

namespace StackScript

variable {α β : Type}

/-- What no step of reading breaks. Faults are raised at positions of a kind that the tokens at the reader
have. -/
structure Reader.Invariant (I : Reader → Prop) (Found : Span → Prop) : Prop where
  advance : ∀ r, I r → I (Reading.advance.run r).2
  raise : ∀ r fault span, I r → Found span →
    I { r with recovering := true, diagnostics := r.diagnostics.raise fault span }
  /-- Nothing else has to do with tokens and faults. -/
  aside : ∀ r recovering functions globals globalsClosed scopes loops trail remarks starved, I r → I { r with
    recovering := recovering, functions := functions, globals := globals, globalsClosed := globalsClosed,
    scopes := scopes, loops := loops, trail := trail, remarks := remarks, starved := starved }
  current : ∀ r, I r → Found r.current.span
  previous : ∀ r, I r → Found r.previous.span

/-- Reading that does not break what holds of the reader. -/
def Reading.Keeps (I : Reader → Prop) (x : Reading α) : Prop :=
  ∀ r, I r → I (x.run r).2

namespace Reading.Keeps

variable {I : Reader → Prop}

theorem pure (a : α) : Keeps I (pure a : Reading α) :=
  fun _ hr ↦ hr

theorem bind {x : Reading α} {f : α → Reading β} (hx : Keeps I x) (hf : ∀ a, Keeps I (f a)) :
    Keeps I (x >>= f) :=
  fun r hr ↦ hf _ _ (hx r hr)

theorem get_bind {f : Reader → Reading β} (hf : ∀ r, I r → Keeps I (f r)) : Keeps I (get >>= f) :=
  fun r hr ↦ hf r hr r hr

theorem modify {f : Reader → Reader} (hf : ∀ r, I r → I (f r)) : Keeps I (modify f : Reading PUnit) :=
  hf

/-- Going on after something that may be left out. -/
theorem skip {c : Prop} [Decidable c] {y : Reading Unit} {x : Reading α} (hy : Keeps I y)
    (hx : Keeps I x) : Keeps I (do
      unless c do y
      x) := by
  dsimp only
  split
  · exact hx
  · exact hy.bind fun _ ↦ hx

end Reading.Keeps

namespace Reader.Invariant

open Reading (Keeps)

variable {I : Reader → Prop} {Found : Span → Prop}

/-! ### Tokens -/

theorem keeps_advance (h : Invariant I Found) : Keeps I Reading.advance :=
  h.advance

theorem keeps_current : Keeps I Reading.current :=
  fun _ hr ↦ hr

theorem keeps_line : Keeps I Reading.line :=
  fun _ hr ↦ hr

theorem keeps_check (kind : TokenKind) : Keeps I (Reading.check kind) :=
  fun _ hr ↦ hr

theorem keeps_remaining : Keeps I Reading.remaining :=
  fun _ hr ↦ hr

/-- Going on with the position of a token. -/
theorem currentSpan_bind (h : Invariant I Found) {f : Span → Reading β}
    (hf : ∀ span, Found span → Keeps I (f span)) : Keeps I (Reading.currentSpan >>= f) :=
  fun r hr ↦ hf _ (h.current r hr) r hr

theorem keeps_accept (h : Invariant I Found) (kind : TokenKind) : Keeps I (Reading.accept kind) := by
  refine (keeps_check kind).bind fun found ↦ ?_
  split
  · exact h.keeps_advance.bind fun _ ↦ .pure _
  · exact .pure _

theorem keeps_starve (h : Invariant I Found) (standIn : α) : Keeps I (Reading.starve standIn) :=
  Keeps.bind (.modify fun r hr ↦ h.aside r _ _ _ _ _ _ _ _ _ hr) fun _ ↦ .pure _

/-! ### Faults -/

theorem keeps_fail (h : Invariant I Found) (fault : Fault) {span : Span} (hspan : Found span) :
    Keeps I (Reading.fail fault span) := by
  refine .modify fun r hr ↦ ?_
  split
  · exact hr
  · exact h.raise r fault span hr hspan

theorem keeps_failHere (h : Invariant I Found) (fault : Fault) : Keeps I (Reading.failHere fault) :=
  h.currentSpan_bind fun _ hspan ↦ h.keeps_fail fault hspan

theorem keeps_failExpecting (h : Invariant I Found) (expected : String) :
    Keeps I (Reading.failExpecting expected) :=
  keeps_current.bind fun _ ↦ h.keeps_failHere _

theorem keeps_expect (h : Invariant I Found) (sign : Symbol) (expected : String) :
    Keeps I (Reading.expect sign expected) := by
  refine (h.keeps_accept _).bind fun found ↦ ?_
  split
  · exact .pure _
  · exact (h.keeps_failExpecting _).bind fun _ ↦ .pure _

theorem keeps_close (h : Invariant I Found) (sign : Symbol) (expected : String) :
    Keeps I (Reading.close sign expected) :=
  (h.keeps_expect _ _).bind fun _ ↦ .pure _

theorem keeps_name? (h : Invariant I Found) (expected : String) : Keeps I (Reading.name? expected) := by
  refine keeps_current.bind fun kind ↦ ?_
  split
  · exact h.keeps_advance.bind fun _ ↦ .pure _
  · exact (h.keeps_failExpecting _).bind fun _ ↦ .pure _

theorem keeps_memberName? (h : Invariant I Found) : Keeps I Reading.memberName? := by
  refine keeps_current.bind fun kind ↦ ?_
  split
  · exact h.keeps_advance.bind fun _ ↦ .pure _
  · exact h.keeps_advance.bind fun _ ↦ .pure _
  · exact (h.keeps_failExpecting _).bind fun _ ↦ .pure _

theorem keeps_skipUntil (h : Invariant I Found) {stops : Reading Bool} (hs : Keeps I stops) (fuel : Nat) :
    Keeps I (Reading.skipUntil stops fuel) := by
  induction fuel with
  | zero => exact h.keeps_starve _
  | succ fuel ih =>
    refine hs.bind fun stop ↦ ?_
    split
    · exact .pure _
    · exact h.keeps_advance.bind fun _ ↦ ih

theorem keeps_atStatement : Keeps I Reading.atStatement :=
  fun _ hr ↦ hr

theorem keeps_atDeclaration : Keeps I Reading.atDeclaration := by
  refine keeps_current.bind fun kind ↦ ?_
  split <;> exact .pure _

theorem keeps_recoverAt (h : Invariant I Found) {boundary : Reading Bool} (hb : Keeps I boundary) :
    Keeps I (Reading.recoverAt boundary) := by
  refine .get_bind fun r _ ↦ ?_
  split
  · exact Keeps.bind (.modify fun r hr ↦ h.aside r _ _ _ _ _ _ _ _ _ hr) fun _ ↦
      keeps_remaining.bind fun _ ↦ h.keeps_skipUntil hb _
  · exact .pure _

/-! ### The trail -/

theorem keeps_emit (h : Invariant I Found) (count : Nat) : Keeps I (Reading.emit count) :=
  .modify fun r hr ↦ h.aside r _ _ _ _ _ _ _ _ _ hr

theorem keeps_push (h : Invariant I Found) (l : Literal) : Keeps I (Reading.push l) :=
  .modify fun r hr ↦ h.aside r _ _ _ _ _ _ _ _ _ hr

theorem keeps_join (h : Invariant I Found) : Keeps I Reading.join :=
  .modify fun r hr ↦ h.aside r _ _ _ _ _ _ _ _ _ hr

theorem keeps_remark (h : Invariant I Found) (what : Remark) : Keeps I (Reading.remark what) :=
  .modify fun r hr ↦ h.aside r _ _ _ _ _ _ _ _ _ hr

/-- What is done about a computation: its result is taken, or its fault is raised at the token before the
reader. -/
theorem keeps_computed (h : Invariant I Found) (computed : Except Fault Literal)
    (after : Literal → Reader → Reader) (hafter : ∀ l r, I r → I (after l r)) {span : Span}
    (hspan : Found span) : Keeps I (match computed with
      | .ok result => modify (after result)
      | .error fault => do
        Reading.fail (.constantFold fault.message) span
        Reading.emit 1 : Reading Unit) := by
  cases computed with
  | ok result => exact .modify fun r hr ↦ hafter result r hr
  | error fault => exact (h.keeps_fail _ hspan).bind fun _ ↦ h.keeps_emit _

theorem keeps_operate (h : Invariant I Found) (op : BinaryOp) : Keeps I (Reading.operate op) := by
  refine .get_bind fun r hr ↦ ?_
  split
  · exact (h.keeps_remark _).bind fun _ ↦
      h.keeps_computed _ _ (fun l r hr ↦ h.aside r _ _ _ _ _ _ _ _ _ hr) (h.previous r hr)
  · exact h.keeps_emit _

theorem keeps_operateNot (h : Invariant I Found) : Keeps I Reading.operateNot := by
  refine .get_bind fun r hr ↦ ?_
  split
  · exact h.keeps_computed _ _ (fun l r hr ↦ h.aside r _ _ _ _ _ _ _ _ _ hr) (h.previous r hr)
  · exact h.keeps_emit _

/-! ### Scopes -/

theorem keeps_openScope (h : Invariant I Found) : Keeps I Reading.openScope :=
  .modify fun r hr ↦ h.aside r _ _ _ _ _ _ _ _ _ hr

theorem keeps_openLoop (h : Invariant I Found) : Keeps I Reading.openLoop :=
  .modify fun r hr ↦ h.aside r _ _ _ _ _ _ _ _ _ hr

theorem keeps_closeLoop (h : Invariant I Found) : Keeps I Reading.closeLoop :=
  .modify fun r hr ↦ h.aside r _ _ _ _ _ _ _ _ _ hr

theorem keeps_closeScope (h : Invariant I Found) : Keeps I Reading.closeScope := by
  refine .get_bind fun r _ ↦ ?_
  split
  · exact .pure _
  · refine Keeps.bind (.modify fun r hr ↦ h.aside r _ _ _ _ _ _ _ _ _ hr) fun _ ↦ ?_
    split
    · exact .pure _
    · exact h.keeps_emit _

theorem keeps_declare (h : Invariant I Found) (name : String) {span : Span} (hspan : Found span) :
    Keeps I (Reading.declare name span) := by
  refine .get_bind fun r _ ↦ ?_
  split
  · exact .pure _
  · have hset (scopes : List (List String)) :
        Keeps I (modify ({ · with scopes := scopes }) : Reading PUnit) :=
      .modify fun r hr ↦ h.aside r _ _ _ _ _ _ _ _ _ hr
    split
    · exact (h.keeps_fail _ hspan).bind fun _ ↦ hset _
    · exact hset _

theorem keeps_declareSome (h : Invariant I Found) (name? : Option String) {span : Span}
    (hspan : Found span) {x : Reading α} (hx : Keeps I x) : Keeps I (do
      if let some name := name? then Reading.declare name span
      x) := by
  cases name? with
  | none => exact hx
  | some name => exact (h.keeps_declare _ hspan).bind fun _ ↦ hx

theorem keeps_emitExit (h : Invariant I Found) (outside : Nat) : Keeps I (Reading.emitExit outside) := by
  refine .get_bind fun r _ ↦ ?_
  dsimp only
  split
  · exact h.keeps_emit _
  · exact (h.keeps_emit _).bind fun _ ↦ h.keeps_emit _

/-! ### Expressions -/

theorem keeps_missing : Keeps I Reading.missing :=
  keeps_line.bind fun _ ↦ .pure _

theorem keeps_failOpening (h : Invariant I Found) : Keeps I Reading.failOpening := by
  refine keeps_current.bind fun kind ↦ ?_
  split
  · exact (h.keeps_failHere _).bind fun _ ↦ keeps_missing
  · exact (h.keeps_failHere _).bind fun _ ↦ h.keeps_advance.bind fun _ ↦ keeps_missing

theorem keeps_rejectAssignment (h : Invariant I Found) : Keeps I Reading.rejectAssignment := by
  refine keeps_current.bind fun kind ↦ ?_
  split
  · exact (h.keeps_failHere _).bind fun _ ↦ h.keeps_advance
  · exact .pure _

mutual

theorem keeps_expressionFrom (h : Invariant I Found) : (fuel : Nat) → (least : Precedence) →
    Keeps I (Reading.expressionFrom fuel least)
  | 0, _ => h.keeps_starve _
  | fuel + 1, least => by
    refine keeps_current.bind fun kind ↦ ?_
    split
    · exact h.keeps_failOpening
    · refine h.keeps_advance.bind fun _ ↦ (h.keeps_openWith fuel _ _).bind fun first ↦
        (h.keeps_continueFrom fuel least _ first).bind fun whole ↦ ?_
      split
      · exact h.keeps_rejectAssignment.bind fun _ ↦ .pure _
      · exact .pure _

theorem keeps_openWith (h : Invariant I Found) : (fuel : Nat) → (opening : Opening) →
    (assignable : Bool) → Keeps I (Reading.openWith fuel opening assignable)
  | 0, _, _ => h.keeps_starve _
  | fuel + 1, opening, assignable => by
    cases opening with
    | literal value => exact (h.keeps_push _).bind fun _ ↦ keeps_line.bind fun _ ↦ .pure _
    | «variable» name =>
      refine (h.keeps_accept _).bind fun found ↦ ?_
      split
      · exact (h.keeps_arguments fuel).bind fun _ ↦ .pure _
      · exact h.keeps_place fuel _ _ _
    | className type =>
      refine (h.keeps_expect _ _).bind fun found ↦ ?_
      split
      · refine h.keeps_memberName?.bind fun member? ↦ ?_
        cases member? with
        | none => exact keeps_missing
        | some member =>
          refine (h.keeps_accept _).bind fun found ↦ ?_
          split
          · exact (h.keeps_arguments fuel).bind fun _ ↦ .pure _
          · exact h.keeps_place fuel _ _ _
      · exact keeps_missing
    | construct =>
      refine keeps_current.bind fun kind ↦ ?_
      split
      · refine h.keeps_advance.bind fun _ ↦ (h.keeps_expect _ _).bind fun found ↦ ?_
        split
        · exact (h.keeps_arguments fuel).bind fun _ ↦ .pure _
        · exact keeps_missing
      · exact (h.keeps_failExpecting _).bind fun _ ↦ keeps_missing
    | group =>
      exact (h.keeps_expressionFrom fuel _).bind fun _ ↦ (h.keeps_close _ _).bind fun _ ↦ .pure _
    | list =>
      have hclose (items : List Expr) (openLine : Nat) : Keeps I (do
          Reading.close .rightBracket "']' after array elements"
          Reading.emit 1
          return Expr.list items openLine (← Reading.line) : Reading Expr) :=
        (h.keeps_close _ _).bind fun _ ↦ (h.keeps_emit _).bind fun _ ↦ keeps_line.bind fun _ ↦ .pure _
      refine keeps_line.bind fun _ ↦ (h.keeps_emit _).bind fun _ ↦ (keeps_check _).bind fun found ↦ ?_
      split
      · exact hclose _ _
      · exact (h.keeps_items fuel).bind fun items ↦ hclose items _
    | negate =>
      exact keeps_line.bind fun _ ↦ (h.keeps_push _).bind fun _ ↦
        (h.keeps_expressionFrom fuel _).bind fun _ ↦ (h.keeps_operate _).bind fun _ ↦
        keeps_line.bind fun _ ↦ .pure _
    | not =>
      exact (h.keeps_expressionFrom fuel _).bind fun _ ↦ h.keeps_operateNot.bind fun _ ↦
        keeps_line.bind fun _ ↦ .pure _

theorem keeps_continueFrom (h : Invariant I Found) : (fuel : Nat) → (least : Precedence) →
    (assignable : Bool) → (left : Expr) → Keeps I (Reading.continueFrom fuel least assignable left)
  | 0, _, _, _ => h.keeps_starve _
  | fuel + 1, least, assignable, left => by
    refine keeps_current.bind fun kind ↦ ?_
    split
    · exact .pure _
    · split
      · exact .pure _
      · exact h.keeps_advance.bind fun _ ↦ (h.keeps_continueWith fuel _ assignable left).bind fun left ↦
          h.keeps_continueFrom fuel least assignable left

theorem keeps_continueWith (h : Invariant I Found) : (fuel : Nat) → (continuation : Continuation) →
    (assignable : Bool) → (left : Expr) →
    Keeps I (Reading.continueWith fuel continuation assignable left)
  | 0, _, _, _ => h.keeps_starve _
  | fuel + 1, continuation, assignable, left => by
    cases continuation with
    | index =>
      exact (h.keeps_expressionFrom fuel _).bind fun _ ↦ (h.keeps_close _ _).bind fun _ ↦
        h.keeps_place fuel _ _ _
    | member =>
      refine h.keeps_memberName?.bind fun name? ↦ ?_
      cases name? with
      | none => exact .pure _
      | some name =>
        refine (h.keeps_accept _).bind fun found ↦ ?_
        split
        · exact (h.keeps_arguments fuel).bind fun _ ↦ .pure _
        · exact h.keeps_place fuel _ _ _
    | operator op =>
      refine (h.keeps_expressionFrom fuel _).bind fun right ↦ (h.keeps_operate _).bind fun _ ↦ ?_
      dsimp only
      split
      · exact h.keeps_operateNot.bind fun _ ↦ keeps_line.bind fun _ ↦ .pure _
      · exact keeps_line.bind fun _ ↦ .pure _
    | connect op =>
      exact keeps_line.bind fun _ ↦ (h.keeps_emit _).bind fun _ ↦
        (h.keeps_expressionFrom fuel _).bind fun _ ↦ h.keeps_join.bind fun _ ↦ .pure _

theorem keeps_place (h : Invariant I Found) : (fuel : Nat) → (target : Place) → (operands : Nat) →
    (assignable : Bool) → Keeps I (Reading.place fuel target operands assignable)
  | 0, _, _, _ => h.keeps_starve _
  | fuel + 1, target, operands, assignable => by
    have hread : Keeps I (do
        Reading.emit 1
        return Expr.read target (← Reading.line) : Reading Expr) :=
      (h.keeps_emit _).bind fun _ ↦ keeps_line.bind fun _ ↦ .pure _
    refine (keeps_check _).bind fun found ↦ ?_
    split
    · exact h.keeps_advance.bind fun _ ↦ (h.keeps_expressionFrom fuel _).bind fun _ ↦
        (h.keeps_emit _).bind fun _ ↦ keeps_line.bind fun _ ↦ .pure _
    · refine keeps_current.bind fun kind ↦ ?_
      split
      · split
        · exact h.keeps_advance.bind fun _ ↦ keeps_line.bind fun _ ↦ (h.keeps_emit _).bind fun _ ↦
            (h.keeps_expressionFrom fuel _).bind fun _ ↦ (h.keeps_operate _).bind fun _ ↦
            (h.keeps_emit _).bind fun _ ↦ keeps_line.bind fun _ ↦ .pure _
        · exact hread
      · exact hread

theorem keeps_arguments (h : Invariant I Found) : (fuel : Nat) → Keeps I (Reading.arguments fuel)
  | 0 => h.keeps_starve _
  | fuel + 1 => by
    have hclose (args : List Expr) (openLine : Nat) : Keeps I (do
        Reading.close .rightParen "')' after arguments"
        Reading.emit 1
        return (args, openLine, ← Reading.line) : Reading (List Expr × Nat × Nat)) :=
      (h.keeps_close _ _).bind fun _ ↦ (h.keeps_emit _).bind fun _ ↦ keeps_line.bind fun _ ↦ .pure _
    refine keeps_line.bind fun _ ↦ (h.keeps_emit _).bind fun _ ↦ (keeps_check _).bind fun found ↦ ?_
    split
    · exact hclose _ _
    · exact (h.keeps_items fuel).bind fun args ↦ hclose args _

theorem keeps_items (h : Invariant I Found) : (fuel : Nat) → Keeps I (Reading.items fuel)
  | 0 => h.keeps_starve _
  | fuel + 1 => by
    refine (h.keeps_expressionFrom fuel _).bind fun first ↦ (h.keeps_accept _).bind fun found ↦ ?_
    split
    · exact (h.keeps_items fuel).bind fun _ ↦ .pure _
    · exact .pure _

end

theorem keeps_fuel : Keeps I Reading.fuel :=
  keeps_remaining.bind fun _ ↦ .pure _

theorem keeps_expression (h : Invariant I Found) : Keeps I Reading.expression :=
  keeps_fuel.bind fun fuel ↦ h.keeps_expressionFrom fuel _

/-! ### Statements -/

theorem keeps_initialValue (h : Invariant I Found) : Keeps I Reading.declareStmt.initialValue := by
  refine (h.keeps_accept _).bind fun found ↦ ?_
  split
  · exact h.keeps_expression
  · exact (h.keeps_push _).bind fun _ ↦ keeps_line.bind fun _ ↦ .pure _

theorem keeps_declareStmt (h : Invariant I Found) : Keeps I Reading.declareStmt :=
  h.keeps_advance.bind fun _ ↦ h.currentSpan_bind fun _ hspan ↦ (h.keeps_name? _).bind fun name? ↦
    h.keeps_initialValue.bind fun _ ↦ (h.keeps_close _ _).bind fun _ ↦
    h.keeps_declareSome name? hspan (.pure _)

theorem keeps_returned (h : Invariant I Found) : Keeps I Reading.returnStmt.returned := by
  refine (keeps_check _).bind fun found ↦ ?_
  split
  · exact (h.keeps_push _).bind fun _ ↦ keeps_line.bind fun _ ↦ .pure _
  · exact h.keeps_expression

theorem keeps_returnStmt (h : Invariant I Found) : Keeps I Reading.returnStmt :=
  h.keeps_advance.bind fun _ ↦ h.keeps_returned.bind fun _ ↦ (h.keeps_close _ _).bind fun _ ↦
    (h.keeps_emit _).bind fun _ ↦ keeps_line.bind fun _ ↦ .pure _

theorem keeps_exitStmt (h : Invariant I Found) (expected : String) (fault : Fault) (stmt : Nat → Stmt) :
    Keeps I (Reading.exitStmt expected fault stmt) := by
  refine h.currentSpan_bind fun span hspan ↦ h.keeps_advance.bind fun _ ↦
    (h.keeps_close _ _).bind fun _ ↦ .get_bind fun r _ ↦ ?_
  dsimp only
  split
  · exact (h.keeps_fail _ hspan).bind fun _ ↦ keeps_line.bind fun _ ↦ .pure _
  · exact (h.keeps_emitExit _).bind fun _ ↦ keeps_line.bind fun _ ↦ .pure _

theorem keeps_expressionStmt (h : Invariant I Found) : Keeps I Reading.expressionStmt :=
  h.keeps_expression.bind fun _ ↦ (h.keeps_close _ _).bind fun _ ↦ (h.keeps_emit _).bind fun _ ↦
    keeps_line.bind fun _ ↦ .pure _

mutual

theorem keeps_statement (h : Invariant I Found) : (fuel : Nat) → Keeps I (Reading.statement fuel)
  | 0 => h.keeps_starve _
  | fuel + 1 => by
    refine keeps_current.bind fun kind ↦ ?_
    split
    · exact h.keeps_declareStmt
    · exact h.keeps_returnStmt
    · exact h.keeps_ifStmt fuel
    · exact h.keeps_whileStmt fuel
    · exact h.keeps_forStmt fuel
    · exact h.keeps_exitStmt _ _ _
    · exact h.keeps_exitStmt _ _ _
    · exact h.keeps_advance.bind fun _ ↦ (h.keeps_block fuel).bind fun _ ↦ .pure _
    · exact h.keeps_expressionStmt

theorem keeps_ifStmt (h : Invariant I Found) : (fuel : Nat) → Keeps I (Reading.ifStmt fuel)
  | 0 => h.keeps_starve _
  | fuel + 1 => by
    refine h.keeps_advance.bind fun _ ↦ h.keeps_expression.bind fun _ ↦ keeps_line.bind fun _ ↦
      (h.keeps_emit _).bind fun _ ↦ (h.keeps_bracedBlock fuel _).bind fun _ ↦
      (h.keeps_accept _).bind fun found ↦ ?_
    split
    · exact keeps_line.bind fun _ ↦ (h.keeps_emit _).bind fun _ ↦ h.keeps_join.bind fun _ ↦
        (h.keeps_elseBranch fuel).bind fun _ ↦ h.keeps_join.bind fun _ ↦ .pure _
    · exact h.keeps_join.bind fun _ ↦ .pure _

theorem keeps_elseBranch (h : Invariant I Found) : (fuel : Nat) → Keeps I (Reading.elseBranch fuel)
  | 0 => h.keeps_starve _
  | fuel + 1 => by
    refine (keeps_check _).bind fun found ↦ ?_
    split
    · exact h.keeps_ifStmt fuel
    · exact (h.keeps_bracedBlock fuel _).bind fun _ ↦ .pure _

theorem keeps_whileStmt (h : Invariant I Found) : (fuel : Nat) → Keeps I (Reading.whileStmt fuel)
  | 0 => h.keeps_starve _
  | fuel + 1 =>
    h.keeps_advance.bind fun _ ↦ h.keeps_join.bind fun _ ↦ h.keeps_expression.bind fun _ ↦
      keeps_line.bind fun _ ↦ (h.keeps_emit _).bind fun _ ↦ h.keeps_openLoop.bind fun _ ↦
      (h.keeps_bracedBlock fuel _).bind fun _ ↦ (h.keeps_emit _).bind fun _ ↦
      h.keeps_join.bind fun _ ↦ h.keeps_closeLoop.bind fun _ ↦ .pure _

theorem keeps_forStmt (h : Invariant I Found) : (fuel : Nat) → Keeps I (Reading.forStmt fuel)
  | 0 => h.keeps_starve _
  | fuel + 1 => by
    refine h.keeps_advance.bind fun _ ↦ h.currentSpan_bind fun _ hspan ↦
      (h.keeps_name? _).bind fun name? ↦ (h.keeps_accept _).bind fun found ↦ ?_
    exact .skip (h.keeps_failExpecting _) <| h.keeps_openScope.bind fun _ ↦
      h.keeps_expression.bind fun _ ↦ keeps_line.bind fun _ ↦ (h.keeps_emit _).bind fun _ ↦
      (h.keeps_declare _ hspan).bind fun _ ↦ h.keeps_join.bind fun _ ↦ (h.keeps_emit _).bind fun _ ↦
      h.keeps_openLoop.bind fun _ ↦ h.keeps_openScope.bind fun _ ↦ (h.keeps_emit _).bind fun _ ↦
      h.keeps_declareSome name? hspan <| (h.keeps_bracedBlock fuel _).bind fun _ ↦
      h.keeps_closeScope.bind fun _ ↦ (h.keeps_emit _).bind fun _ ↦ h.keeps_join.bind fun _ ↦
      h.keeps_closeLoop.bind fun _ ↦ h.keeps_closeScope.bind fun _ ↦ .pure _

theorem keeps_bracedBlock (h : Invariant I Found) : (fuel : Nat) → (expected : String) →
    Keeps I (Reading.bracedBlock fuel expected)
  | 0, _ => h.keeps_starve _
  | fuel + 1, expected => by
    refine (h.keeps_expect _ _).bind fun found ↦ ?_
    split
    · exact h.keeps_block fuel
    · exact keeps_line.bind fun _ ↦ .pure _

theorem keeps_block (h : Invariant I Found) : (fuel : Nat) → Keeps I (Reading.block fuel)
  | 0 => h.keeps_starve _
  | fuel + 1 =>
    h.keeps_openScope.bind fun _ ↦ (h.keeps_statements fuel).bind fun _ ↦
      (h.keeps_close _ _).bind fun _ ↦ h.keeps_closeScope.bind fun _ ↦ keeps_line.bind fun _ ↦ .pure _

theorem keeps_statements (h : Invariant I Found) : (fuel : Nat) → Keeps I (Reading.statements fuel)
  | 0 => h.keeps_starve _
  | fuel + 1 => by
    refine keeps_current.bind fun kind ↦ ?_
    split
    · exact .pure _
    · exact .pure _
    · exact .pure _
    · exact (h.keeps_statement fuel).bind fun _ ↦ (h.keeps_recoverAt keeps_atStatement).bind fun _ ↦
        (h.keeps_statements fuel).bind fun _ ↦ .pure _

end

/-! ### Declarations -/

theorem keeps_declareGlobal (h : Invariant I Found) (name : String) {span : Span} (hspan : Found span) :
    Keeps I (Reading.declareGlobal name span) := by
  refine .get_bind fun r hr ↦ ?_
  split
  · exact h.keeps_fail _ hspan
  · split
    · exact h.keeps_fail _ hspan
    · exact fun _ _ ↦ h.aside r _ _ _ _ _ _ _ _ _ hr

theorem keeps_declareFunction (h : Invariant I Found) (name : String) {span : Span}
    (hspan : Found span) : Keeps I (Reading.declareFunction name span) := by
  refine .get_bind fun r hr ↦ ?_
  split
  · exact h.keeps_fail _ hspan
  · exact fun _ _ ↦ h.aside r _ _ _ _ _ _ _ _ _ hr

theorem keeps_globalDecl (h : Invariant I Found) : Keeps I Reading.globalDecl := by
  refine h.keeps_advance.bind fun _ ↦ h.currentSpan_bind fun _ hspan ↦
    (h.keeps_name? _).bind fun name? ↦ h.keeps_initialValue.bind fun _ ↦
    (h.keeps_close _ _).bind fun _ ↦ ?_
  cases name? with
  | none => exact .pure _
  | some name =>
    exact (h.keeps_declareGlobal name hspan).bind fun _ ↦ (h.keeps_emit _).bind fun _ ↦
      keeps_line.bind fun _ ↦ .pure _

theorem keeps_parameters (h : Invariant I Found) (fuel : Nat) : Keeps I (Reading.parameters fuel) := by
  induction fuel with
  | zero => exact h.keeps_starve _
  | succ fuel ih =>
    refine h.currentSpan_bind fun _ hspan ↦ (h.keeps_name? _).bind fun name? ↦ ?_
    cases name? with
    | none => exact .pure _
    | some name =>
      refine (h.keeps_declare name hspan).bind fun _ ↦ (h.keeps_accept _).bind fun found ↦ ?_
      split
      · exact ih.bind fun _ ↦ .pure _
      · exact .pure _

theorem keeps_parameterList (h : Invariant I Found) : Keeps I Reading.parameterList := by
  refine (keeps_check _).bind fun found ↦ ?_
  split
  · exact .pure _
  · exact keeps_remaining.bind fun fuel ↦ h.keeps_parameters fuel

theorem keeps_closeGlobals (h : Invariant I Found) : Keeps I Reading.closeGlobals := by
  refine .get_bind fun r _ ↦ ?_
  split
  · exact .pure _
  · exact (h.keeps_push _).bind fun _ ↦ (h.keeps_emit _).bind fun _ ↦
      .modify fun r hr ↦ h.aside r _ _ _ _ _ _ _ _ _ hr

theorem keeps_functionDecl (h : Invariant I Found) : Keeps I Reading.functionDecl := by
  refine h.keeps_advance.bind fun _ ↦ h.currentSpan_bind fun _ hspan ↦
    (h.keeps_name? _).bind fun name? ↦ ?_
  cases name? with
  | none => exact .pure _
  | some name =>
    exact h.keeps_join.bind fun _ ↦ .get_bind fun _ _ ↦ h.keeps_openScope.bind fun _ ↦
      (h.keeps_close _ _).bind fun _ ↦ h.keeps_parameterList.bind fun _ ↦
      (h.keeps_close _ _).bind fun _ ↦ (h.keeps_declareFunction name hspan).bind fun _ ↦
      keeps_fuel.bind fun fuel ↦ (h.keeps_bracedBlock fuel _).bind fun _ ↦
      (h.keeps_push _).bind fun _ ↦ (h.keeps_emit _).bind fun _ ↦
      Keeps.bind (.modify fun r hr ↦ h.aside r _ _ _ _ _ _ _ _ _ hr) fun _ ↦
      (h.keeps_remark _).bind fun _ ↦ .pure _

theorem keeps_declarations (h : Invariant I Found) (fuel : Nat) :
    Keeps I (Reading.declarations fuel) := by
  induction fuel with
  | zero => exact h.keeps_starve _
  | succ fuel ih =>
    have hrecover := h.keeps_recoverAt keeps_atDeclaration
    refine keeps_current.bind fun kind ↦ ?_
    split
    · exact .pure _
    · exact h.keeps_globalDecl.bind fun _ ↦ hrecover.bind fun _ ↦ ih.bind fun _ ↦ .pure _
    · exact h.keeps_closeGlobals.bind fun _ ↦ h.keeps_functionDecl.bind fun _ ↦
        hrecover.bind fun _ ↦ ih.bind fun _ ↦ .pure _
    · exact (h.keeps_failHere _).bind fun _ ↦ h.keeps_advance.bind fun _ ↦ hrecover.bind fun _ ↦ ih

/-- What no step of reading breaks is not broken by reading a script. -/
theorem keeps_script (h : Invariant I Found) : Keeps I Reading.script := by
  refine h.keeps_advance.bind fun _ ↦ keeps_remaining.bind fun fuel ↦
    (h.keeps_declarations fuel).bind fun _ ↦ h.keeps_closeGlobals.bind fun _ ↦ .get_bind fun r _ ↦ ?_
  dsimp only
  split
  · exact (h.keeps_failHere _).bind fun _ ↦ .pure _
  · exact .pure _

end Reader.Invariant

end StackScript
