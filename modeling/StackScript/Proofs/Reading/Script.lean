import StackScript.Proofs.Layout.Program
import StackScript.Proofs.Reading.Expression

/-!
# Reading scripts is steady

Statements, declarations and scripts are read steadily. So the tree of every source text is written
(`written_read`), and a text that is read without a fault is read in the same way when no constants are
computed (`readWith_false`).
-/

namespace StackScript

namespace Reading

/-! ### Statements -/

theorem steady_initialValue : Steady Expr.Written declareStmt.initialValue := by
  refine (steady_accept _).bind fun found _ ↦ ?_
  split
  · exact steady_expression
  · exact (steady_push _).bind fun _ _ ↦ steady_line.bind fun _ _ ↦ .pure trivial

/-- A missing name is taken for an empty one, which is no enumerator either. -/
theorem getD_ne {name? : Option String} (h : name? ≠ some enumeratorName) :
    name?.getD "" ≠ enumeratorName := by
  cases name? with
  | none => decide
  | some name => exact fun heq ↦ h (congrArg some heq)

theorem steady_declareSome (name? : Option String) (span : Span) {P : α → Prop} {x : Reading α}
    (hx : Steady P x) : Steady P (do
      if let some name := name? then declare name span
      x) := by
  cases name? with
  | none => exact hx
  | some name => exact (steady_declare _ _).bind fun _ _ ↦ hx

theorem steady_declareStmt : Steady Stmt.Written declareStmt :=
  steady_advance.bind fun _ _ ↦ steady_currentSpan.bind fun span _ ↦
    (steady_name? _).bind fun name? hname ↦ steady_initialValue.bind fun _ hvalue ↦
    (steady_close _ _).bind fun _ _ ↦ steady_declareSome name? span (.pure ⟨getD_ne hname, hvalue⟩)

theorem steady_returned : Steady Expr.Written returnStmt.returned := by
  refine (steady_check _).bind fun found _ ↦ ?_
  split
  · exact (steady_push _).bind fun _ _ ↦ steady_line.bind fun _ _ ↦ .pure trivial
  · exact steady_expression

theorem steady_returnStmt : Steady Stmt.Written returnStmt :=
  steady_advance.bind fun _ _ ↦ steady_returned.bind fun _ hvalue ↦
    (steady_close _ _).bind fun _ _ ↦ (steady_emit _).bind fun _ _ ↦
    steady_line.bind fun _ _ ↦ .pure hvalue

theorem steady_exitStmt (expected : String) (fault : Fault) {stmt : Nat → Stmt}
    (h : ∀ line, (stmt line).Written) : Steady Stmt.Written (exitStmt expected fault stmt) := by
  refine steady_currentSpan.bind fun span _ ↦ steady_advance.bind fun _ _ ↦
    (steady_close _ _).bind fun _ _ ↦ .get_bind (fun _ _ _ ↦ rfl) fun r hr ↦ ?_
  dsimp only
  split
  · exact (steady_fail _ _).bind fun _ _ ↦ steady_line.bind fun line _ ↦ .pure (h line)
  · exact (steady_emitExit _).bind fun _ _ ↦ steady_line.bind fun line _ ↦ .pure (h line)

theorem steady_expressionStmt : Steady Stmt.Written expressionStmt :=
  steady_expression.bind fun _ hvalue ↦ (steady_close _ _).bind fun _ _ ↦
    (steady_emit _).bind fun _ _ ↦ steady_line.bind fun _ _ ↦ .pure hvalue

/-- A conditional or a block. -/
def WrittenBranch (s : Stmt) : Prop := s.IsBranch ∧ s.Written

mutual

theorem steady_statement : (fuel : Nat) → Steady Stmt.Written (statement fuel)
  | 0 => steady_starve trivial
  | fuel + 1 => by
    refine steady_current.bind fun kind _ ↦ ?_
    split
    · exact steady_declareStmt
    · exact steady_returnStmt
    · exact (steady_ifStmt fuel).mono fun _ h ↦ h.2
    · exact steady_whileStmt fuel
    · exact steady_forStmt fuel
    · exact steady_exitStmt _ _ fun _ ↦ trivial
    · exact steady_exitStmt _ _ fun _ ↦ trivial
    · exact steady_advance.bind fun _ _ ↦ (steady_block fuel).bind fun body hbody ↦ .pure hbody
    · exact steady_expressionStmt

theorem steady_ifStmt : (fuel : Nat) → Steady WrittenBranch (ifStmt fuel)
  | 0 => steady_starve ⟨trivial, trivial⟩
  | fuel + 1 => by
    refine steady_advance.bind fun _ _ ↦ steady_expression.bind fun condition hcondition ↦
      steady_line.bind fun _ _ ↦ (steady_emit _).bind fun _ _ ↦
      (steady_bracedBlock fuel _).bind fun body hbody ↦ (steady_accept _).bind fun found _ ↦ ?_
    split
    · exact steady_line.bind fun _ _ ↦ (steady_emit _).bind fun _ _ ↦ steady_join.bind fun _ _ ↦
        (steady_elseBranch fuel).bind fun alternative halternative ↦
        steady_join.bind fun _ _ ↦ .pure ⟨trivial, hcondition, hbody, halternative⟩
    · exact steady_join.bind fun _ _ ↦ .pure ⟨trivial, hcondition, hbody⟩

theorem steady_elseBranch : (fuel : Nat) → Steady WrittenBranch (elseBranch fuel)
  | 0 => steady_starve ⟨trivial, trivial⟩
  | fuel + 1 => by
    refine (steady_check _).bind fun found _ ↦ ?_
    split
    · exact steady_ifStmt fuel
    · exact (steady_bracedBlock fuel _).bind fun body hbody ↦ .pure ⟨trivial, hbody⟩

theorem steady_whileStmt : (fuel : Nat) → Steady Stmt.Written (whileStmt fuel)
  | 0 => steady_starve trivial
  | fuel + 1 =>
    steady_advance.bind fun _ _ ↦ steady_join.bind fun _ _ ↦
      steady_expression.bind fun _ hcondition ↦ steady_line.bind fun _ _ ↦
      (steady_emit _).bind fun _ _ ↦ steady_openLoop.bind fun _ _ ↦
      (steady_bracedBlock fuel _).bind fun _ hbody ↦ (steady_emit _).bind fun _ _ ↦
      steady_join.bind fun _ _ ↦ steady_closeLoop.bind fun _ _ ↦ .pure ⟨hcondition, hbody⟩

theorem steady_forStmt : (fuel : Nat) → Steady Stmt.Written (forStmt fuel)
  | 0 => steady_starve trivial
  | fuel + 1 => by
    refine steady_advance.bind fun _ _ ↦ steady_currentSpan.bind fun span _ ↦
      (steady_name? _).bind fun name? hname ↦ (steady_accept _).bind fun found _ ↦ ?_
    exact .skip (steady_failExpecting _) <| steady_openScope.bind fun _ _ ↦
      steady_expression.bind fun source hsource ↦ steady_line.bind fun _ _ ↦
      (steady_emit _).bind fun _ _ ↦ (steady_declare _ _).bind fun _ _ ↦
      steady_join.bind fun _ _ ↦ (steady_emit _).bind fun _ _ ↦ steady_openLoop.bind fun _ _ ↦
      steady_openScope.bind fun _ _ ↦ (steady_emit _).bind fun _ _ ↦
      steady_declareSome name? span <| (steady_bracedBlock fuel _).bind fun body hbody ↦
      steady_closeScope.bind fun _ _ ↦ (steady_emit _).bind fun _ _ ↦ steady_join.bind fun _ _ ↦
      steady_closeLoop.bind fun _ _ ↦ steady_closeScope.bind fun _ _ ↦
      .pure ⟨getD_ne hname, hsource, hbody⟩

theorem steady_bracedBlock : (fuel : Nat) → (expected : String) →
    Steady (writtenBody ·.1) (bracedBlock fuel expected)
  | 0, _ => steady_starve trivial
  | fuel + 1, expected => by
    refine (steady_expect _ _).bind fun found _ ↦ ?_
    split
    · exact steady_block fuel
    · exact steady_line.bind fun _ _ ↦ .pure trivial

theorem steady_block : (fuel : Nat) → Steady (writtenBody ·.1) (block fuel)
  | 0 => steady_starve trivial
  | fuel + 1 =>
    steady_openScope.bind fun _ _ ↦ (steady_statements fuel).bind fun _ hbody ↦
      (steady_close _ _).bind fun _ _ ↦ steady_closeScope.bind fun _ _ ↦
      steady_line.bind fun _ _ ↦ .pure hbody

theorem steady_statements : (fuel : Nat) → Steady writtenBody (statements fuel)
  | 0 => steady_starve trivial
  | fuel + 1 => by
    refine steady_current.bind fun kind _ ↦ ?_
    split
    · exact .pure trivial
    · exact .pure trivial
    · exact .pure trivial
    · exact (steady_statement fuel).bind fun first hfirst ↦
        (steady_recoverAt steady_atStatement).bind fun _ _ ↦
        (steady_statements fuel).bind fun rest hrest ↦ .pure ⟨hfirst, hrest⟩

end

/-! ### Declarations -/

theorem steady_declareGlobal (name : String) (span : Span) :
    Steady Any (declareGlobal name span) := by
  constructor
  · intro r hr
    rw [declareGlobal, StateT.run_bind, StateT.run_get, pure_bind]
    split
    · exact (steady_fail _ _).keeps r hr
    · split
      · exact (steady_fail _ _).keeps r hr
      · exact ⟨trivial, ⟨hr.current, hr.upcoming, hr.recovering⟩, id⟩
  · rintro r _ hr ⟨trail, remarks, rfl⟩
    rw [declareGlobal, StateT.run_bind, StateT.run_get, StateT.run_bind, StateT.run_get, pure_bind,
      pure_bind]
    dsimp only
    split
    · exact (steady_fail _ _).twin r _ hr ⟨trail, remarks, rfl⟩
    · split
      · exact (steady_fail _ _).twin r _ hr ⟨trail, remarks, rfl⟩
      · exact .inr ⟨rfl, trail, remarks, rfl⟩

theorem steady_declareFunction (name : String) (span : Span) :
    Steady Any (declareFunction name span) := by
  constructor
  · intro r hr
    rw [declareFunction, StateT.run_bind, StateT.run_get, pure_bind]
    split
    · exact (steady_fail _ _).keeps r hr
    · exact ⟨trivial, ⟨hr.current, hr.upcoming, hr.recovering⟩, id⟩
  · rintro r _ hr ⟨trail, remarks, rfl⟩
    rw [declareFunction, StateT.run_bind, StateT.run_get, StateT.run_bind, StateT.run_get,
      pure_bind, pure_bind]
    dsimp only
    split
    · exact (steady_fail _ _).twin r _ hr ⟨trail, remarks, rfl⟩
    · exact .inr ⟨rfl, trail, remarks, rfl⟩

theorem steady_globalDecl : Steady (∀ g ∈ ·, g.Written) globalDecl := by
  refine steady_advance.bind fun _ _ ↦ steady_currentSpan.bind fun span _ ↦
    (steady_name? _).bind fun name? hname ↦ steady_initialValue.bind fun value hvalue ↦
    (steady_close _ _).bind fun _ _ ↦ ?_
  cases name? with
  | none => exact .pure fun _ h ↦ nomatch h
  | some name =>
    refine (steady_declareGlobal _ _).bind fun _ _ ↦ (steady_emit _).bind fun _ _ ↦
      steady_line.bind fun line _ ↦ .pure fun g hg ↦ ?_
    obtain rfl := List.mem_singleton.mp hg
    exact ⟨fun h ↦ hname (congrArg some h), hvalue⟩

theorem steady_parameters (fuel : Nat) : Steady (enumeratorName ∉ ·) (parameters fuel) := by
  induction fuel with
  | zero => exact steady_starve fun h ↦ nomatch h
  | succ fuel ih =>
    refine steady_currentSpan.bind fun span _ ↦ (steady_name? _).bind fun name? hname ↦ ?_
    cases name? with
    | none => exact .pure fun h ↦ nomatch h
    | some name =>
      have hne : enumeratorName ≠ name := fun h ↦ hname (congrArg some h.symm)
      refine (steady_declare _ _).bind fun _ _ ↦ (steady_accept _).bind fun found _ ↦ ?_
      split
      · exact ih.bind fun rest hrest ↦ .pure fun h ↦ (List.mem_cons.mp h).elim hne hrest
      · exact .pure fun h ↦ (List.mem_cons.mp h).elim hne fun h ↦ nomatch h

theorem steady_parameterList : Steady (enumeratorName ∉ ·) parameterList := by
  refine (steady_check _).bind fun found _ ↦ ?_
  split
  · exact .pure fun h ↦ nomatch h
  · exact steady_remaining.bind fun fuel _ ↦ steady_parameters fuel

theorem steady_closeGlobals : Steady Any closeGlobals := by
  refine .get_bind (fun _ _ _ ↦ rfl) fun r hr ↦ ?_
  split
  · exact .pure trivial
  · exact (steady_push _).bind fun _ _ ↦ (steady_emit _).bind fun _ _ ↦
      steady_scopes (fun _ ↦ ⟨_, _, _, _, _, rfl⟩) fun _ _ _ ↦ ⟨_, _, rfl⟩

theorem steady_leaveScopes :
    Steady Any (modify ({ · with scopes := [], loops := [] }) : Reading PUnit) :=
  steady_scopes (fun _ ↦ ⟨_, _, _, _, _, rfl⟩) fun _ _ _ ↦ ⟨_, _, rfl⟩

/-- The address of a function is told in a remark, and only there do the two readers differ. -/
theorem steady_functionDecl : Steady (∀ f ∈ ·, f.Written) functionDecl := by
  refine steady_advance.bind fun _ _ ↦ steady_currentSpan.bind fun span _ ↦
    (steady_name? _).bind fun name? _ ↦ ?_
  cases name? with
  | none => exact .pure fun _ h ↦ nomatch h
  | some name =>
    refine steady_join.bind fun _ _ ↦ .getting (fun address address' ↦ ?_)
    refine Alike.bind steady_openScope fun _ _ ↦ Alike.bind (steady_close _ _) fun _ _ ↦
      Alike.bind steady_parameterList fun params hparams ↦ Alike.bind (steady_close _ _) fun _ _ ↦
      Alike.bind (steady_declareFunction _ _) fun _ _ ↦ Alike.bind steady_fuel fun fuel _ ↦
      Alike.bind (steady_bracedBlock fuel _) fun body hbody ↦ Alike.bind (steady_push _) fun _ _ ↦
      Alike.bind (steady_emit _) fun _ _ ↦ Alike.bind steady_leaveScopes fun _ _ ↦
      Alike.bind (alike_remark _ _) fun _ _ ↦ Steady.pure fun f hf ↦ ?_
    obtain rfl := List.mem_singleton.mp hf
    exact ⟨hparams, hbody⟩

theorem steady_declarations (fuel : Nat) :
    Steady (fun s ↦ (∀ g ∈ s.1, g.Written) ∧ ∀ f ∈ s.2, f.Written) (declarations fuel) := by
  induction fuel with
  | zero => exact steady_starve (by simp)
  | succ fuel ih =>
    refine steady_current.bind fun kind _ ↦ ?_
    split
    · exact .pure (by simp)
    · exact steady_globalDecl.bind fun globals hglobals ↦
        (steady_recoverAt steady_atDeclaration).bind fun _ _ ↦ ih.bind fun rest hrest ↦
        .pure ⟨fun g hg ↦ (List.mem_append.mp hg).elim (hglobals g) (hrest.1 g), hrest.2⟩
    · exact steady_closeGlobals.bind fun _ _ ↦ steady_functionDecl.bind fun functions hfunctions ↦
        (steady_recoverAt steady_atDeclaration).bind fun _ _ ↦ ih.bind fun rest hrest ↦
        .pure ⟨hrest.1, fun f hf ↦ (List.mem_append.mp hf).elim (hfunctions f) (hrest.2 f)⟩
    · exact (steady_failHere _).bind fun _ _ ↦ steady_advance.bind fun _ _ ↦
        (steady_recoverAt steady_atDeclaration).bind fun _ _ ↦ ih

/-- Reading a script is steady. -/
theorem steady_script : Steady Script.Written script := by
  refine steady_advance.bind fun _ _ ↦ steady_remaining.bind fun fuel _ ↦
    (steady_declarations fuel).bind fun declared hdeclared ↦ steady_closeGlobals.bind fun _ _ ↦
    .get_bind (fun _ _ _ ↦ rfl) fun r hr ↦ ?_
  dsimp only
  split
  · exact (steady_failHere _).bind fun _ _ ↦ .pure hdeclared
  · exact .pure hdeclared

end Reading

/-! ### Source texts -/

theorem startsName_of_readWord {name : String} {first : Char} {rest : List Char}
    (h : (Scanned.readWord first rest).kind = .identifier name) : name.toList.head? = some first := by
  unfold Scanned.readWord Scanned.wordKind at h
  dsimp only at h
  split at h
  · cases h
  · split at h
    · cases h
    · cases h
      simp

/-- No name in a text is the one of enumerators, as it does not begin like a name. -/
theorem written_readPiece (start : Span) (first : Char) (rest : List Char) :
    (Scanned.readPiece start first rest).kind.Written := by
  intro h
  unfold Scanned.readPiece at h
  split at h
  · cases h
  · split at h
    · cases h
    · split at h
      · unfold Scanned.readNumber at h
        dsimp only at h
        split at h
        · split at h <;> cases h
        · split at h <;> cases h
      · split at h
        · rename_i hstarts
          have hhead := startsName_of_readWord h
          obtain rfl : '$' = first := Option.some.inj hhead
          have hnot : Scanned.startsName '$' = false := rfl
          rw [hnot] at hstarts
          cases hstarts
        · cases h

theorem written_next (pos : Span) (text : List Char) :
    (Scanned.next pos text).1.token.kind.Written := by
  unfold Scanned.next
  dsimp only
  split
  · exact fun h ↦ nomatch h
  · exact written_readPiece _ _ _

theorem written_scanFrom (fuel : Nat) (pos : Span) (text : List Char) :
    ∀ s ∈ Scanned.scanFrom fuel pos text, s.token.kind.Written := by
  induction fuel generalizing pos text with
  | zero => exact fun _ h ↦ nomatch h
  | succ fuel ih =>
    intro s hs
    rw [Scanned.scanFrom] at hs
    dsimp only at hs
    split at hs
    · obtain rfl := List.mem_singleton.mp hs
      exact written_next pos text
    · rcases List.mem_cons.mp hs with rfl | hs
      · exact written_next pos text
      · exact ih _ _ s hs

theorem Reader.proper_ofSource (folding : Bool) (source : String) :
    (Reader.ofSource folding source).Proper :=
  ⟨fun h ↦ (nomatch h), written_scanFrom _ _ _, fun h ↦ nomatch h⟩

/-- What is read is what the reader yields, with the faults it found. -/
theorem readWith_eq (folding : Bool) (source : String) :
    (readWith folding source).script = (Reading.script.run (.ofSource folding source)).1 ∧
      (readWith folding source).diagnostics =
        (Reading.script.run (.ofSource folding source)).2.diagnostics.finish := by
  unfold readWith
  rcases Reading.script.run (.ofSource folding source) with ⟨script, reader⟩
  exact ⟨rfl, rfl⟩

/-- Every tree that is read is written. -/
theorem written_readWith (folding : Bool) (source : String) :
    (readWith folding source).script.Written := by
  rw [(readWith_eq folding source).1]
  exact (Reading.steady_script.keeps _ (Reader.proper_ofSource folding source)).1

/-- A text in which no fault is found is read in the same way when no constants are computed. -/
theorem readWith_false {source : String} (h : (readWith true source).diagnostics.failed = false) :
    (readWith false source).script = (readWith true source).script ∧
      (readWith false source).diagnostics = (readWith true source).diagnostics := by
  have htwin : (Reader.ofSource true source).Twin (Reader.ofSource false source) :=
    ⟨.empty, [], rfl⟩
  obtain ⟨hscript, hdiagnostics⟩ := readWith_eq true source
  obtain ⟨hscript', hdiagnostics'⟩ := readWith_eq false source
  rw [hdiagnostics, Diagnostics.failed_finish] at h
  rcases Reading.steady_script.twin _ _ (Reader.proper_ofSource true source) htwin with
    hfailed | ⟨heq, trail, remarks, hreader⟩
  · rw [hfailed] at h
    cases h
  · rw [hscript, hscript', hdiagnostics, hdiagnostics', heq, hreader]
    exact ⟨rfl, rfl⟩

/-- A script compiles unless there are faults: no jump in its code is left without a target. -/
theorem Reading.Result.compile_eq (folding : Bool) (r : Reading.Result) :
    r.compile folding = if r.diagnostics.failed then .error r.diagnostics
      else .ok ⟨r.script.program folding, r.diagnostics⟩ := by
  simp only [Reading.Result.compile, Script.unresolved?_program]

/-- A text whose reading finds no fault compiles. -/
theorem exists_compile {source : String} {r : Reading.Result} (hr : read source = r)
    (h : r.diagnostics.failed = false) : ∃ c, compile source = .ok c := by
  rw [compile, compileWith, Reading.Result.compile_eq, ← read, hr, h]
  exact ⟨_, if_neg Bool.false_ne_true⟩

/-- The program that a text compiles to is that of the script read from it. -/
theorem program_of_compile {source : String} {c : Compiled} (h : compile source = .ok c) :
    (readWith true source).diagnostics.failed = false ∧
      c.program = (readWith true source).script.program true := by
  rw [compile, compileWith, Reading.Result.compile_eq] at h
  split at h
  · cases h
  · rename_i hfailed
    rw [← Except.ok.inj h]
    exact ⟨Bool.eq_false_iff.mpr hfailed, rfl⟩

end StackScript
