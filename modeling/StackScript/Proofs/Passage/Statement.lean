import StackScript.Proofs.Grammar.Script
import StackScript.Proofs.Passage.Expression

/-!
# The passage through statements

As with expressions: the functions that read statements leave the reader ready and never run out of
fuel. Every statement takes a token at least, a malformed one too, as a block does not go on before
what closes it. If no fault is found, the tokens that were read are those of a lawful statement.
-/

namespace StackScript

/-- Whether what is read stands in a loop. -/
def View.inLoop (v : View) : Bool := !v.loops.isEmpty

@[simp]
theorem View.inLoop_read (v : View) (ts : List Token) : (v.read ts).inLoop = v.inLoop := rfl

namespace Reading

variable {β : Type} {source : String} {r : Reader} {n : Nat} {R : β → Reader → Prop}

/-! ### Whole expressions -/

theorem ends_expression (hr : r.Ready source) :
    Ends source expression r (r.standing.length - if r.current.kind.closes then 0 else 1)
      fun e r' ↦ ∃ ts, r'.view = r.view.read ts ∧
        Phrase.Derives (.expression .assignment e) ts ∧ e.Sound := by
  have := r.length_standing_le
  refine .of_run rfl id ?_
  refine (ends_expressionFrom (16 * (r.upcoming.length + 1) + 16) .assignment r hr (by omega)
    (by decide)).mono (Nat.le_refl _) ?_
  rintro e r' ⟨ts, hview, hwhole⟩
  exact ⟨ts, hview, hwhole.derives, hwhole.sound⟩

/-- Before what closes a statement or block an expression is missing, and nothing is read. -/
theorem failed_expression_run (hr : r.Ready source) (hc : r.current.kind.closes = true) :
    Failed source r (expression.run r).2 := by
  have hopening : r.current.kind.opening? = none := by
    revert hc
    unfold TokenKind.closes TokenKind.opening?
    split <;> simp_all
  have hrun : expression.run r = failOpening.run r := by
    rw [expression, StateT.run_bind]
    show (expressionFrom (16 * r.upcoming.length + 31 + 1) .assignment).run r = _
    rw [expressionFrom, run_current, hopening]
  rw [hrun, failOpening, StateT.run_bind]
  show Failed source r ((if r.current.kind.closes then _ else _ : Reading Expr).run r).2
  rw [if_pos hc]
  exact failed_fail_run hr (by simp [Fault.stage]) _

/-! ### Names in scope -/

theorem ends_declare (hr : r.Ready source) (name : String) (span : Span) :
    Ends source (declare name span) r r.standing.length fun _ r' ↦
      ∀ names outer, r.view.scopes = names :: outer →
        name ∉ names ∧ r'.view = { r.view with scopes := (name :: names) :: outer } := by
  refine .get ?_
  split
  · rename_i hscopes
    refine .pure hr (Nat.le_refl _) fun names outer h ↦ ?_
    rw [show r.view.scopes = [] from hscopes] at h
    cases h
  · rename_i names outer hscopes
    dsimp only
    split
    · exact .bind (ends_fail hr (by simp [Fault.stage]) _) fun _ r' hr' hn ↦
        .change rfl ⟨hr'.beside _ _ _ _ _ _ _, id, hn, fun _ ↦ False.elim⟩
    · rename_i hname
      refine .change rfl ⟨hr.beside _ _ _ _ _ _ _, id, Nat.le_refl _, fun _ names' outer' h ↦ ?_⟩
      obtain ⟨rfl, rfl⟩ := List.cons.inj (hscopes.symm.trans h)
      exact ⟨hname, rfl⟩

theorem ends_closeScope (hr : r.Ready source) :
    Ends source closeScope r r.standing.length fun _ r' ↦
      ∀ names outer, r.view.scopes = names :: outer →
        r'.view = { r.view with scopes := outer } := by
  refine .get ?_
  split
  · rename_i hscopes
    refine .pure hr (Nat.le_refl _) fun names outer h ↦ ?_
    rw [show r.view.scopes = [] from hscopes] at h
    cases h
  · rename_i names outer hscopes
    refine .scopes hr fun r' hr' hs hview ↦ ?_
    have hq (names' : List String) (outer' : List (List String))
        (h : r.view.scopes = names' :: outer') : r'.view = { r.view with scopes := outer' } := by
      obtain ⟨rfl, rfl⟩ := List.cons.inj (hscopes.symm.trans h)
      exact hview
    split
    · exact .pure hr' (Nat.le_of_eq (congrArg List.length hs)) hq
    · exact ⟨hr'.trailing _, id, Nat.le_of_eq (congrArg List.length hs), fun _ ↦ hq⟩

theorem ends_emitExit (hr : r.Ready source) (outside : Nat) :
    Ends source (emitExit outside) r r.standing.length fun _ r' ↦ r'.view = r.view := by
  have hemit {r' : Reader} (hr' : r'.Ready source) (hs : r'.standing = r.standing)
      (hview : r'.view = r.view) :
      Ends source (emit 1) r' r.standing.length fun _ r'' ↦ r''.view = r.view :=
    ⟨hr'.trailing _, id, Nat.le_of_eq (congrArg List.length hs), fun _ ↦ hview⟩
  refine .get ?_
  dsimp only
  split
  · exact hemit hr rfl rfl
  · exact .trail hr fun r' hr' hs hview ↦ hemit hr' hs hview

/-! ### Statements without statements in them -/

/-- A statement has been read in a block. -/
def Told (r : Reader) (s : Stmt) (r' : Reader) : Prop :=
  ∀ names outer, r.view.scopes = names :: outer → ∃ ts,
    Clause.Derives (.statement s) ts ∧ s.Lawful r.view.inLoop ∧
    (∀ name ∈ s.declared?, name ∉ names) ∧
    r'.view = { r.view.read ts with scopes := (s.declared?.toList ++ names) :: outer }

/-- Most statements declare nothing. -/
theorem told_of_none {s : Stmt} {r' : Reader} (ts : List Token) (hs : s.declared? = none)
    (hd : Clause.Derives (.statement s) ts) (hl : s.Lawful r.view.inLoop)
    (hview : r'.view = r.view.read ts) : Told r s r' := by
  intro names outer hscopes
  refine ⟨ts, hd, hl, by simp [hs], ?_⟩
  rw [hview, hs, Option.toList_none, List.nil_append, ← hscopes]
  rfl

theorem Ends.close_of_eq {sign : Symbol} {expected : String} {f : Unit → Reading β}
    (hr : r.Ready source) (hc : r.current.kind = .symbol sign)
    (h : ∀ r', Advanced source r r' → Ends source (f ()) r' n R) :
    Ends source (Reading.close sign expected >>= f) r n R := by
  have hadvanced := advanced_advance hr (by simp [hc])
  exact .of_run (run_close_of_eq hc expected) hadvanced.failed (h _ hadvanced)

/-- What is behind the name in a declaration, up to the semicolon. -/
theorem ends_initialValue (hr : r.Ready source) :
    Ends source declareStmt.initialValue r r.standing.length fun value r' ↦
      ∃ us, r'.view = r.view.read us ∧ value.Sound ∧
        ∀ name v n s, v.kind = .keyword .varKw → n.kind = .identifier name →
          r.view.line = n.span.line → s.kind = .symbol .semicolon →
          Declares name value (v :: n :: us ++ [s]) := by
  refine .accept hr (by simp) (fun hc r₁ hr₁ ↦ ?_) fun _ ↦ ?_
  · have hn₁ := hr₁.length
    refine (ends_expression hr₁.ready).mono (by omega) ?_
    rintro value r₂ ⟨ts, hview, hderives, hsound⟩
    refine ⟨r.current :: ts, by rw [View.read_cons, ← hr₁.view, hview], hsound,
      fun name v n s hv hn _ hs ↦ .valued hv hn hc hderives hs⟩
  · refine .trail hr fun r₁ hr₁ hs hview ↦
      .line hr₁ (.pure hr₁ (Nat.le_of_eq (congrArg List.length hs)) ?_)
    refine ⟨[], hview, trivial, fun name v n s hv hn hline hs ↦ ?_⟩
    rw [hview, hline]
    exact .bare hv hn hs

theorem ends_declareStmt (hr : r.Ready source) (hc : r.current.kind = .keyword .varKw) :
    Ends source declareStmt r (r.standing.length - 1) fun s r' ↦ Told r s r' := by
  refine .advance hr (by simp [hc]) fun r₁ hr₁ ↦ .currentSpan ?_
  have hn₁ := hr₁.length
  refine .bind (ends_name? hr₁.ready _) fun name? r₂ hr₂ hn₂ ↦
    .bind (ends_initialValue hr₂) fun value r₃ hr₃ hn₃ ↦
    .bind (ends_close hr₃ _ _) fun _ r₄ hr₄ hn₄ ↦ ?_
  cases name? with
  | none =>
    refine .pure hr₄ (by omega) ?_
    rintro - - ⟨_, ⟨⟩, -⟩
  | some name =>
    refine .bind (ends_declare hr₄ _ _) fun _ r₅ hr₅ hn₅ ↦ .pure hr₅ (by omega) ?_
    rintro hdeclare ⟨hsemicolon, hr₄⟩ ⟨us, hview, hsound, hdeclares⟩ ⟨_, ⟨⟩, hname, hr₂⟩ names
      outer hscopes
    have hview₄ : r₄.view = r.view.read (r.current :: r₁.current :: us ++ [r₃.current]) := by
      simp [hr₄.view, hview, hr₂.view, hr₁.view]
    obtain ⟨hnew, hview'⟩ := hdeclare names outer (by rw [hview₄]; exact hscopes)
    refine ⟨r.current :: r₁.current :: us ++ [r₃.current], .declare (hdeclares _ _ _ _ hc hname
      (by simp [hr₂.view, View.line_read]) hsemicolon), hsound, ?_, ?_⟩
    · rintro _ ⟨⟩
      exact hnew
    · rw [hview', hview₄]
      rfl

theorem ends_returnStmt (hr : r.Ready source) (hc : r.current.kind = .keyword .returnKw) :
    Ends source returnStmt r (r.standing.length - 1) fun s r' ↦ Told r s r' := by
  refine .advance hr (by simp [hc]) fun r₁ hr₁ ↦ ?_
  have hn₁ := hr₁.length
  have hreturned : Ends source returnStmt.returned r₁ r₁.standing.length fun value r₂ ↦
      ∃ ts, r₂.view = r₁.view.read ts ∧ value.Sound ∧ ∀ s, s.kind = .symbol .semicolon →
        Clause.Derives (.statement (.giveBack value s.span.line)) (r.current :: ts ++ [s]) := by
    refine .check ?_
    split
    · refine .trail hr₁.ready fun r₂ hr₂ hs hview ↦
        .line hr₂ (.pure hr₂ (Nat.le_of_eq (congrArg List.length hs)) ⟨[], hview, trivial, ?_⟩)
      have hline : r₂.view.line = r.current.span.line := by
        simp [hview, hr₁.view, View.line_read]
      rw [hline]
      exact fun s hs ↦ .giveBackNull hc hs
    · refine (ends_expression hr₁.ready).mono (Nat.sub_le _ _) ?_
      rintro value r₂ ⟨ts, hview, hderives, hsound⟩
      exact ⟨ts, hview, hsound, fun s hs ↦ .giveBack hc hderives hs⟩
  refine .bind hreturned fun value r₂ hr₂ hn₂ ↦ .bind (ends_close hr₂ _ _) fun _ r₃ hr₃ hn₃ ↦
    .trail hr₃ fun r₄ hr₄ hs₄ hview₄ ↦ .line hr₄ (.pure hr₄ ?_ ?_)
  · rw [hs₄]
    omega
  · rintro ⟨hsemicolon, hr₃⟩ ⟨ts, hview, hsound, hderives⟩
    have hline : r₄.view.line = r₂.current.span.line := by
      simp [hview₄, hr₃.view, View.line_read]
    rw [hline]
    refine told_of_none _ rfl (hderives _ hsemicolon) hsound ?_
    simp [hview₄, hr₃.view, hview, hr₁.view]

theorem ends_exitStmt (hr : r.Ready source) (hc : r.current.kind ≠ .endOfInput)
    (expected : String) {fault : Fault} (hf : fault.stage ≠ .running) (stmt : Nat → Stmt) :
    Ends source (exitStmt expected fault stmt) r (r.standing.length - 1) fun s r' ↦
      ∃ c, c.kind = .symbol .semicolon ∧ s = stmt c.span.line ∧ r.view.inLoop = true ∧
        r'.view = r.view.read [r.current, c] := by
  refine .currentSpan (.advance hr hc fun r₁ hr₁ ↦ ?_)
  have hn₁ := hr₁.length
  refine .bind (ends_close hr₁.ready _ _) fun _ r₂ hr₂ hn₂ ↦ .get ?_
  split
  · exact .bind (ends_fail hr₂ hf _) fun _ r₃ hr₃ hn₃ ↦
      .line hr₃ (.pure hr₃ (by omega) False.elim)
  · rename_i outside _ hloops
    refine .bind (ends_emitExit hr₂ _) fun _ r₃ hr₃ hn₃ ↦ .line hr₃ (.pure hr₃ (by omega) ?_)
    rintro hview₃ ⟨hsemicolon, hr₂⟩
    have hview : r₃.view = r.view.read [r.current, r₁.current] := by
      simp [hview₃, hr₂.view, hr₁.view]
    refine ⟨r₁.current, hsemicolon, ?_, ?_, hview⟩
    · simp [hview, View.line_read, lastLine]
    · have hinLoop : r₂.view.inLoop = true := by simp [View.inLoop, Reader.view, hloops]
      simpa [hr₂.view, hr₁.view] using hinLoop

theorem ends_expressionStmt (hr : r.Ready source) (hbrace : r.current.kind ≠ .symbol .rightBrace)
    (hend : r.current.kind ≠ .endOfInput) :
    Ends source expressionStmt r (r.standing.length - 1) fun s r' ↦ Told r s r' := by
  by_cases hcloses : r.current.kind.closes = true
  · have hsemicolon : r.current.kind = .symbol .semicolon := by
      revert hcloses
      unfold TokenKind.closes
      split <;> simp_all
    -- The expression is missing, and nothing is read for it. The semicolon behind it is read.
    have hfailed := failed_expression_run hr hcloses
    obtain ⟨e, r₁, hrun⟩ : ∃ e r₁, expression.run r = (e, r₁) := ⟨_, _, rfl⟩
    rw [hrun] at hfailed
    have hcurrent : r₁.current = r.current := (List.cons.inj hfailed.standing).1
    refine .of_run hrun (absurd · hfailed.ne_false) ?_
    refine .close_of_eq hfailed.ready (hcurrent ▸ hsemicolon) fun r₂ hr₂ ↦ ?_
    have hn₂ := hr₂.length
    rw [hfailed.standing] at hn₂
    have hfailed₂ : r₂.diagnostics.failed = true :=
      eq_true_of_ne_false fun h ↦ hfailed.ne_false (hr₂.failed h)
    refine .of_failed hfailed₂ (.trail hr₂.ready fun r₃ hr₃ hs₃ _ ↦ .line hr₃ (.pure hr₃ ?_ trivial))
    rw [hs₃]
    omega
  · refine .bind (ends_expression hr) fun value r₁ hr₁ hn₁ ↦
      .bind (ends_close hr₁ _ _) fun _ r₂ hr₂ hn₂ ↦
      .trail hr₂ fun r₃ hr₃ hs₃ hview₃ ↦ .line hr₃ (.pure hr₃ ?_ ?_)
    · rw [if_neg hcloses] at hn₁
      rw [hs₃]
      omega
    · rintro ⟨hsemicolon, hr₂⟩ ⟨ts, hview, hderives, hsound⟩
      have hline : r₃.view.line = r₁.current.span.line := by
        simp [hview₃, hr₂.view, View.line_read]
      rw [hline]
      refine told_of_none _ rfl (.expression hderives hsemicolon) hsound ?_
      simp [hview₃, hr₂.view, hview]

/-! ### Recovery -/

/-- A place to go on at after a fault: the end of input is one, and looking for it reads nothing. -/
structure Boundary (stops : Reading Bool) : Prop where
  run : ∀ r, (stops.run r).2 = r
  atEnd : ∀ r : Reader, r.current.kind = .endOfInput → (stops.run r).1 = true

theorem boundary_atStatement : Boundary atStatement :=
  ⟨fun _ ↦ rfl, fun r h ↦ by
    show (beginsStatement r.current.kind || _) = true
    rw [h]
    rfl⟩

theorem run_atDeclaration (r : Reader) : atDeclaration.run r = (match r.current.kind with
    | .keyword .varKw | .keyword .funcKw | .endOfInput => true
    | _ => false, r) := by
  show (match r.current.kind with
    | .keyword .varKw | .keyword .funcKw | .endOfInput => pure true
    | _ => pure false : Reading Bool).run r = _
  split <;> rfl

theorem boundary_atDeclaration : Boundary atDeclaration :=
  ⟨fun r ↦ by rw [run_atDeclaration], fun r h ↦ by rw [run_atDeclaration, h]⟩

theorem ends_skipUntil {stops : Reading Bool} (h : Boundary stops) {fuel : Nat}
    (hr : r.Ready source) (hf : r.standing.length ≤ fuel) :
    Ends source (skipUntil stops fuel) r r.standing.length fun _ _ ↦ True := by
  induction fuel generalizing r with
  | zero => exact absurd hf (Nat.not_le_of_lt (Reader.Ready.standing_pos r))
  | succ fuel ih =>
    obtain ⟨stop, hrun, hend⟩ : ∃ stop, stops.run r = (stop, r) ∧
        (r.current.kind = .endOfInput → stop = true) :=
      ⟨_, Prod.ext rfl (h.run r), h.atEnd r⟩
    refine .of_run hrun id ?_
    split
    · exact .pure hr (Nat.le_refl _) trivial
    · rename_i hstop
      refine .advance hr (fun hc ↦ hstop (hend hc)) fun r₁ hr₁ ↦ ?_
      have hn₁ := hr₁.length
      exact (ih hr₁.ready (by omega)).le (by omega)

/-- A reader that has found no fault has nothing to recover from. -/
theorem ends_recoverAt {boundary : Reading Bool} (h : Boundary boundary) (hr : r.Ready source) :
    Ends source (recoverAt boundary) r r.standing.length fun _ r' ↦ r' = r := by
  refine .get ?_
  split
  · rename_i hrecovering
    have hn := r.length_standing_le
    refine .of_failed (hr.recovering hrecovering) (.change rfl (.remaining ?_))
    exact ends_skipUntil h hr.recovered hn
  · exact .pure hr (Nat.le_refl _) rfl

/-! ### Statements with statements in them -/

/-- Statements between braces have been read, behind some of their tokens. -/
def Enclosed (opened : List Token) (r : Reader) (b : List Stmt × Nat) (r' : Reader) : Prop :=
  ∃ ts, Clause.Derives (.braced b.1 b.2) (opened ++ ts) ∧
    (b.1.filterMap Stmt.declared?).Nodup ∧ lawfulAll r.view.inLoop b.1 ∧ r'.view = r.view.read ts

/-- The body of a loop over elements and what follows it, with the scopes of the loop variable and of
the enumerator around the body. -/
theorem ends_forBody {body : Reading (List Stmt × Nat)} {k : Nat}
    (hb : ∀ r : Reader, r.Ready source → r.standing.length ≤ k →
      Ends source body r r.standing.length fun b r' ↦ Enclosed [] r b r')
    (stmt : List Stmt → Nat → Stmt) (hr : r.Ready source) (hn : r.standing.length ≤ k) :
    Ends source (do
      let (body, closeLine) ← body
      closeScope
      emit 1
      join
      closeLoop
      closeScope
      return stmt body closeLine) r r.standing.length fun s r' ↦
        ∀ inner outer scopes, r.view.scopes = inner :: outer :: scopes → ∃ ts body closeLine,
          Clause.Derives (.braced body closeLine) ts ∧ (body.filterMap Stmt.declared?).Nodup ∧
          lawfulAll r.view.inLoop body ∧ s = stmt body closeLine ∧
          r'.view = { r.view.read ts with scopes := scopes, loops := r.view.loops.tail } := by
  refine .bind (hb r hr hn) fun (body, closeLine) r₁ hr₁ hn₁ ↦
    .bind (ends_closeScope hr₁) fun _ r₂ hr₂ hn₂ ↦
    .trail hr₂ fun r₃ hr₃ hs₃ hview₃ ↦ .trail hr₃ fun r₄ hr₄ hs₄ hview₄ ↦
    .loops hr₄ fun r₅ hr₅ hs₅ hview₅ ↦ ?_
  rw [← hs₃, ← hs₄, ← hs₅] at hn₂
  refine .bind (ends_closeScope hr₅) fun _ r₆ hr₆ hn₆ ↦ .pure hr₆ (by omega) ?_
  rintro hclose' hclose ⟨ts, hderives, hnodup, hlawful, hview₁⟩ inner outer scopes hscopes
  refine ⟨ts, body, closeLine, hderives, hnodup, hlawful, rfl, ?_⟩
  have hview₂ := hclose inner (outer :: scopes) (by rw [hview₁]; exact hscopes)
  have hview₅ : r₅.view = { r₄.view with loops := r₄.view.loops.tail } := hview₅
  rw [hclose' outer scopes (by rw [hview₅, hview₄, hview₃, hview₂]), hview₅, hview₄, hview₃, hview₂,
    hview₁]
  rfl

/-- A loop over elements behind `in`. -/
theorem ends_forRest {body : Reading (List Stmt × Nat)} {k : Nat}
    (hb : ∀ r : Reader, r.Ready source → r.standing.length ≤ k →
      Ends source body r r.standing.length fun b r' ↦ Enclosed [] r b r')
    (name? : Option String) (span : Span) (hr : r.Ready source) (hn : r.standing.length ≤ k) :
    Ends source (do
      openScope
      let items ← expression
      let testLine ← line
      emit 2
      declare "$enumerator" span
      join
      emit 4
      openLoop
      openScope
      emit 2
      if let some name := name? then declare name span
      let (body, closeLine) ← body
      closeScope
      emit 1
      join
      closeLoop
      closeScope
      return Stmt.forIn (name?.getD "") items testLine body closeLine) r r.standing.length
      fun s r' ↦ ∀ name, name? = some name → ∃ ts us items body closeLine,
        Phrase.Derives (.expression .assignment items) ts ∧
        Clause.Derives (.braced body closeLine) us ∧
        (Stmt.forIn name items (lastLine ts) body closeLine).Lawful r.view.inLoop ∧
        s = .forIn name items (lastLine ts) body closeLine ∧ r'.view = r.view.read (ts ++ us) := by
  refine .scopes hr fun r₁ hr₁ hs₁ hview₁ ↦ ?_
  rw [← hs₁] at hn ⊢
  refine .bind ((ends_expression hr₁).le (Nat.sub_le _ _)) fun items r₂ hr₂ hn₂ ↦
    .line hr₂ (.trail hr₂ fun r₃ hr₃ hs₃ hview₃ ↦ ?_)
  rw [← hs₃] at hn₂
  refine .bind (ends_declare hr₃ _ _) fun _ r₄ hr₄ hn₄ ↦ .trail hr₄ fun r₅ hr₅ hs₅ hview₅ ↦
    .trail hr₅ fun r₆ hr₆ hs₆ hview₆ ↦ .loops hr₆ fun r₇ hr₇ hs₇ hview₇ ↦
    .scopes hr₇ fun r₈ hr₈ hs₈ hview₈ ↦ .trail hr₈ fun r₉ hr₉ hs₉ hview₉ ↦ ?_
  rw [← hs₅, ← hs₆, ← hs₇, ← hs₈, ← hs₉] at hn₄
  cases name? with
  | none =>
    refine (ends_forBody hb _ hr₉ (by omega)).mono (by omega) ?_
    rintro s r' - - - - ⟨⟩
  | some name =>
    refine .bind (ends_declare hr₉ _ _) fun _ r₁₀ hr₁₀ hn₁₀ ↦ ?_
    refine (ends_forBody hb _ hr₁₀ (by omega)).mono (by omega) ?_
    rintro s r' h hdeclare hhidden ⟨ts, hview₂, hitems, hsound⟩ _ ⟨⟩
    obtain ⟨-, hview₄⟩ := hhidden [] r.view.scopes (by rw [hview₃, hview₂, hview₁]; rfl)
    have hview₇ : r₇.view = { r₆.view with
        loops := r₆.view.scopes.length :: r₆.view.loops } := hview₇
    have hview₈ : r₈.view = { r₇.view with scopes := [] :: r₇.view.scopes } := hview₈
    have hview₉ : r₉.view = { r.view.read ts with
        scopes := [] :: ["$enumerator"] :: r.view.scopes
        loops := (r.view.scopes.length + 1) :: r.view.loops } := by
      rw [hview₉, hview₈, hview₇, hview₆, hview₅, hview₄, hview₃, hview₂, hview₁]
      rfl
    obtain ⟨-, hview₁₀⟩ := hdeclare [] (["$enumerator"] :: r.view.scopes) (by rw [hview₉])
    obtain ⟨us, body, closeLine, hbody, hnodup, hlawful, rfl, hview⟩ :=
      h [name] ["$enumerator"] r.view.scopes (by rw [hview₁₀])
    refine ⟨ts, us, items, body, closeLine, hitems, hbody, ⟨hsound, hnodup, ?_⟩, ?_, ?_⟩
    · rwa [hview₁₀, hview₉] at hlawful
    · rw [hview₂, View.line_read _ hitems.ne_nil]
      rfl
    · rw [hview, hview₁₀, hview₉, ← View.read_read]
      rfl

mutual

theorem ends_statement : (fuel : Nat) → (r : Reader) → r.Ready source →
    8 * r.standing.length + 2 ≤ fuel → r.current.kind ≠ .symbol .rightBrace →
    r.current.kind ≠ .endOfInput →
    Ends source (statement fuel) r (r.standing.length - 1) fun s r' ↦ Told r s r'
  | 0, _, _, hf, _, _ => absurd hf (by omega)
  | fuel + 1, r, hr, hf, hbrace, hend => by
    refine .current ?_
    split
    · rename_i hc
      exact ends_declareStmt hr hc
    · rename_i hc
      exact ends_returnStmt hr hc
    · rename_i hc
      refine (ends_ifStmt fuel r hr (by omega) hc).mono (Nat.le_refl _) ?_
      rintro s r' ⟨ts, hderives, hnone, hlawful, hview⟩
      exact told_of_none _ hnone (.branch hderives) hlawful hview
    · rename_i hc
      exact ends_whileStmt fuel r hr (by omega) hc
    · rename_i hc
      exact ends_forStmt fuel r hr (by omega) hc
    · rename_i hc
      refine (ends_exitStmt hr hend _ (by simp [Fault.stage]) _).mono (Nat.le_refl _) ?_
      rintro s r' ⟨c, hsemicolon, rfl, hloop, hview⟩
      exact told_of_none _ rfl (.breakLoop hc hsemicolon) hloop hview
    · rename_i hc
      refine (ends_exitStmt hr hend _ (by simp [Fault.stage]) _).mono (Nat.le_refl _) ?_
      rintro s r' ⟨c, hsemicolon, rfl, hloop, hview⟩
      exact told_of_none _ rfl (.continueLoop hc hsemicolon) hloop hview
    · rename_i hc
      refine .advance hr hend fun r₁ hr₁ ↦ ?_
      have hn₁ := hr₁.length
      refine .bind (ends_block fuel r₁ hr₁.ready (by omega))
        fun (body, closeLine) r₂ hr₂ hn₂ ↦ .pure hr₂ (by omega) fun hblock ↦ ?_
      obtain ⟨ts, hderives, hnodup, hlawful, hview⟩ := hblock r.current hc
      rw [hr₁.view] at hlawful
      exact told_of_none _ rfl (.block hderives) ⟨hnodup, hlawful⟩
        (by rw [← View.read_read, ← hr₁.view, hview])
    · exact ends_expressionStmt hr hbrace hend

theorem ends_ifStmt : (fuel : Nat) → (r : Reader) → r.Ready source →
    8 * r.standing.length + 1 ≤ fuel → r.current.kind = .keyword .ifKw →
    Ends source (ifStmt fuel) r (r.standing.length - 1) fun s r' ↦ ∃ ts,
      Clause.Derives (.conditional s) ts ∧ s.declared? = none ∧ s.Lawful r.view.inLoop ∧
      r'.view = r.view.read ts
  | 0, _, _, hf, _ => absurd hf (by omega)
  | fuel + 1, r, hr, hf, hc => by
    refine .advance hr (by simp [hc]) fun r₁ hr₁ ↦ ?_
    have hn₁ := hr₁.length
    refine .bind ((ends_expression hr₁.ready).le (Nat.sub_le _ _)) fun condition r₂ hr₂ hn₂ ↦
      .line hr₂ (.trail hr₂ fun r₃ hr₃ hs₃ hview₃ ↦ ?_)
    rw [← hs₃] at hn₂
    refine .bind (ends_bracedBlock fuel _ r₃ hr₃ (by omega)) fun (body, closeLine) r₄ hr₄ hn₄ ↦ ?_
    refine .accept hr₄ (by simp) (fun helse r₅ hr₅ ↦ ?_) fun _ ↦ ?_
    · have hn₅ := hr₅.length
      refine .line hr₅.ready (.trail hr₅.ready fun r₆ hr₆ hs₆ hview₆ ↦
        .trail hr₆ fun r₇ hr₇ hs₇ hview₇ ↦ ?_)
      rw [← hs₆, ← hs₇] at hn₅
      refine .bind (ends_elseBranch fuel r₇ hr₇ (by omega)) fun alternative r₈ hr₈ hn₈ ↦
        .trail hr₈ fun r₉ hr₉ hs₉ hview₉ ↦ .pure hr₉ (by rw [hs₉]; omega) ?_
      rintro ⟨vs, halternative, hlawful', hview₈⟩ ⟨us, hbody, hnodup, hlawful, hview₄⟩
        ⟨ts, hview₂, hcondition, hsound⟩
      have hview : r₉.view = r.view.read (r.current :: ts ++ us ++ r₄.current :: vs) := by
        simp [hview₉, hview₈, hview₇, hview₆, hr₅.view, hview₄, hview₃, hview₂, hr₁.view]
      refine ⟨_, ?_, rfl, ⟨hsound, hnodup, ?_, ?_⟩, hview⟩
      · rw [hview₂, View.line_read _ hcondition.ne_nil, hr₅.view, View.line_read _ (by simp),
          lastLine_singleton]
        exact .ifElse hc hcondition hbody helse halternative
      · simpa [hview₃, hview₂, hr₁.view] using hlawful
      · simpa [hview₇, hview₆, hr₅.view, hview₄, hview₃, hview₂, hr₁.view] using hlawful'
    · refine .trail hr₄ fun r₅ hr₅ hs₅ hview₅ ↦ .pure hr₅ (by rw [hs₅]; omega) ?_
      rintro ⟨us, hbody, hnodup, hlawful, hview₄⟩ ⟨ts, hview₂, hcondition, hsound⟩
      refine ⟨r.current :: ts ++ us, ?_, rfl, ⟨hsound, hnodup, ?_⟩, ?_⟩
      · rw [hview₂, View.line_read _ hcondition.ne_nil]
        exact .ifThen hc hcondition hbody
      · simpa [hview₃, hview₂, hr₁.view] using hlawful
      · simp [hview₅, hview₄, hview₃, hview₂, hr₁.view]

theorem ends_elseBranch : (fuel : Nat) → (r : Reader) → r.Ready source →
    8 * r.standing.length + 6 ≤ fuel →
    Ends source (elseBranch fuel) r r.standing.length fun s r' ↦ ∃ ts,
      Clause.Derives (.alternative s) ts ∧ s.Lawful r.view.inLoop ∧ r'.view = r.view.read ts
  | 0, _, _, hf => absurd hf (by omega)
  | fuel + 1, r, hr, hf => by
    refine .check ?_
    split
    · rename_i hc
      refine (ends_ifStmt fuel r hr (by omega) (of_decide_eq_true hc)).mono (Nat.sub_le _ _) ?_
      rintro s r' ⟨ts, hderives, -, hlawful, hview⟩
      exact ⟨ts, .elseIf hderives, hlawful, hview⟩
    · refine .bind (ends_bracedBlock fuel _ r hr (by omega)) fun (body, closeLine) r₁ hr₁ hn₁ ↦
        .pure hr₁ hn₁ ?_
      rintro ⟨ts, hderives, hnodup, hlawful, hview⟩
      exact ⟨ts, .elseBlock hderives, ⟨hnodup, hlawful⟩, hview⟩

theorem ends_whileStmt : (fuel : Nat) → (r : Reader) → r.Ready source →
    8 * r.standing.length + 1 ≤ fuel → r.current.kind = .keyword .whileKw →
    Ends source (whileStmt fuel) r (r.standing.length - 1) fun s r' ↦ Told r s r'
  | 0, _, _, hf, _ => absurd hf (by omega)
  | fuel + 1, r, hr, hf, hc => by
    refine .advance hr (by simp [hc]) fun r₁ hr₁ ↦ .trail hr₁.ready fun r₂ hr₂ hs₂ hview₂ ↦ ?_
    have hn₁ := hr₁.length
    refine .bind ((ends_expression hr₂).le (Nat.sub_le _ _)) fun condition r₃ hr₃ hn₃ ↦
      .line hr₃ (.trail hr₃ fun r₄ hr₄ hs₄ hview₄ ↦ .loops hr₄ fun r₅ hr₅ hs₅ hview₅ ↦ ?_)
    rw [hs₂, ← hs₄, ← hs₅] at hn₃
    refine .bind (ends_bracedBlock fuel _ r₅ hr₅ (by omega)) fun (body, closeLine) r₆ hr₆ hn₆ ↦
      .trail hr₆ fun r₇ hr₇ hs₇ hview₇ ↦ .trail hr₇ fun r₈ hr₈ hs₈ hview₈ ↦
      .loops hr₈ fun r₉ hr₉ hs₉ hview₉ ↦ .pure hr₉ (by rw [hs₉, hs₈, hs₇]; omega) ?_
    rintro ⟨us, hbody, hnodup, hlawful, hview₆⟩ ⟨ts, hview₃, hcondition, hsound⟩
    have hview : r₉.view = r₄.view.read us := by
      have hview₉ : r₉.view = { r₈.view with loops := r₈.view.loops.tail } := hview₉
      rw [hview₉, hview₈, hview₇, hview₆, hview₅]
      rfl
    rw [hview₅] at hlawful
    refine told_of_none (r.current :: ts ++ us) rfl ?_ ⟨hsound, hnodup, hlawful⟩ (hview.trans ?_)
    · rw [hview₃, View.line_read _ hcondition.ne_nil]
      exact .whileLoop hc hcondition hbody
    · simp [hview₄, hview₃, hview₂, hr₁.view]

theorem ends_forStmt : (fuel : Nat) → (r : Reader) → r.Ready source →
    8 * r.standing.length + 1 ≤ fuel → r.current.kind = .keyword .forKw →
    Ends source (forStmt fuel) r (r.standing.length - 1) fun s r' ↦ Told r s r'
  | 0, _, _, hf, _ => absurd hf (by omega)
  | fuel + 1, r, hr, hf, hc => by
    refine .advance hr (by simp [hc]) fun r₁ hr₁ ↦ .currentSpan ?_
    have hn₁ := hr₁.length
    refine .bind (ends_name? hr₁.ready _) fun name? r₂ hr₂ hn₂ ↦ ?_
    have hbody (r : Reader) (hr : r.Ready source) (hn : r.standing.length ≤ r₂.standing.length) :=
      ends_bracedBlock fuel "'\x7b' after for clause" r hr (by omega)
    refine .accept hr₂ (by simp) (fun hin r₃ hr₃ ↦ ?_) fun _ ↦ ?_
    · have hn₃ := hr₃.length
      refine (ends_forRest hbody name? _ hr₃.ready (by omega)).mono (by omega) fun s r' h ↦ ?_
      rintro ⟨name, rfl, hname, hr₂⟩
      obtain ⟨ts, us, items, body, closeLine, hitems, hbraced, hlawful, rfl, hview⟩ := h name rfl
      refine told_of_none (r.current :: r₁.current :: r₂.current :: ts ++ us) rfl
        (.forIn hc hname hin hitems hbraced) hlawful ?_
      simp [hview, hr₃.view, hr₂.view, hr₁.view]
    · refine .bind (ends_failExpecting hr₂ _) fun _ r₃ hr₃ hn₃ ↦ ?_
      exact (ends_forRest hbody name? _ hr₃ hn₃).mono (by omega) fun _ _ _ ↦ False.elim

theorem ends_bracedBlock : (fuel : Nat) → (expected : String) → (r : Reader) → r.Ready source →
    8 * r.standing.length + 5 ≤ fuel →
    Ends source (bracedBlock fuel expected) r r.standing.length fun b r' ↦ Enclosed [] r b r'
  | 0, _, _, _, hf => absurd hf (by omega)
  | fuel + 1, expected, r, hr, hf => by
    refine .bind (ends_expect hr _ _) fun found r₁ hr₁ hn₁ ↦ ?_
    split
    · refine (ends_block fuel r₁ hr₁ (by omega)).mono hn₁ fun b r₂ hblock ↦ ?_
      rintro ⟨_, hopening, hr₁⟩
      obtain ⟨ts, hderives, hnodup, hlawful, hview⟩ := hblock r.current hopening
      rw [hr₁.view] at hlawful
      exact ⟨r.current :: ts, hderives, hnodup, hlawful, by rw [View.read_cons, ← hr₁.view, hview]⟩
    · rename_i hnot
      exact .line hr₁ (.pure hr₁ hn₁ fun h ↦ absurd h.1 hnot)

theorem ends_block : (fuel : Nat) → (r : Reader) → r.Ready source →
    8 * r.standing.length + 4 ≤ fuel →
    Ends source (block fuel) r r.standing.length fun b r' ↦
      ∀ o, o.kind = .symbol .leftBrace → Enclosed [o] r b r'
  | 0, _, _, hf => absurd hf (by omega)
  | fuel + 1, r, hr, hf => by
    refine .scopes hr fun r₁ hr₁ hs₁ hview₁ ↦ ?_
    rw [← hs₁] at hf ⊢
    refine .bind (ends_statements fuel r₁ hr₁ (by omega)) fun body r₂ hr₂ hn₂ ↦
      .bind (ends_close hr₂ _ _) fun _ r₃ hr₃ hn₃ ↦ .bind (ends_closeScope hr₃) fun _ r₄ hr₄ hn₄ ↦
      .line hr₄ (.pure hr₄ (by omega) ?_)
    rintro hclose ⟨hclosing, hr₃⟩ hbody o ho
    obtain ⟨ts, hderives, hlawful, hnodup, -, hview₂⟩ := hbody [] r.view.scopes (by rw [hview₁]; rfl)
    have hview₄ : r₄.view = r.view.read (ts ++ [r₂.current]) := by
      rw [hclose _ r.view.scopes (by rw [hr₃.view, hview₂]; rfl), hr₃.view, hview₂, hview₁,
        ← View.read_read]
      rfl
    have hline : r₄.view.line = r₂.current.span.line := by simp [hview₄, View.line_read]
    rw [hview₁] at hlawful
    rw [hline]
    exact ⟨ts ++ [r₂.current], .braced ho hderives hclosing, hnodup, hlawful, hview₄⟩

theorem ends_statements : (fuel : Nat) → (r : Reader) → r.Ready source →
    8 * r.standing.length + 3 ≤ fuel →
    Ends source (statements fuel) r r.standing.length fun body r' ↦
      ∀ names outer, r.view.scopes = names :: outer → ∃ ts,
        Clause.Derives (.sequence body) ts ∧ lawfulAll r.view.inLoop body ∧
        (body.filterMap Stmt.declared?).Nodup ∧
        (∀ name ∈ body.filterMap Stmt.declared?, name ∉ names) ∧
        r'.view = { r.view.read ts with
          scopes := ((body.filterMap Stmt.declared?).reverse ++ names) :: outer }
  | 0, _, _, hf => absurd hf (by omega)
  | fuel + 1, r, hr, hf => by
    refine .current ?_
    have hnone : Ends source (pure []) r r.standing.length fun body r' ↦
        ∀ names outer, r.view.scopes = names :: outer → ∃ ts,
          Clause.Derives (.sequence body) ts ∧ lawfulAll r.view.inLoop body ∧
          (body.filterMap Stmt.declared?).Nodup ∧
          (∀ name ∈ body.filterMap Stmt.declared?, name ∉ names) ∧
          r'.view = { r.view.read ts with
            scopes := ((body.filterMap Stmt.declared?).reverse ++ names) :: outer } := by
      refine .pure hr (Nat.le_refl _) fun names outer hscopes ↦
        ⟨[], .nil, trivial, by simp, by simp, ?_⟩
      show r.view = { r.view with scopes := names :: outer }
      rw [← hscopes]
    split
    · exact hnone
    · exact hnone
    · exact hnone
    · rename_i hbrace hend _
      refine .bind (ends_statement fuel r hr (by omega) hbrace hend) fun first r₁ hr₁ hn₁ ↦
        .bind (ends_recoverAt boundary_atStatement hr₁) fun _ r₂ hr₂ hn₂ ↦ ?_
      have := Reader.Ready.standing_pos r
      refine .bind (ends_statements fuel r₂ hr₂ (by omega)) fun rest r₃ hr₃ hn₃ ↦
        .pure hr₃ (by omega) ?_
      rintro hrest rfl hfirst names outer hscopes
      obtain ⟨ts, hderives, hlawful, hnew, hview⟩ := hfirst names outer hscopes
      obtain ⟨us, hderives', hlawful', hnodup, hnew', hview'⟩ := hrest _ outer (by rw [hview])
      have hinLoop : r₂.view.inLoop = r.view.inLoop := by rw [hview]; rfl
      refine ⟨ts ++ us, .cons hderives hderives', ⟨hlawful, hinLoop ▸ hlawful'⟩, ?_⟩
      rw [hview', hview]
      -- A name that the first statement declares is taken for those behind it.
      rcases hdeclared : first.declared? with _ | name
      · simp only [hdeclared, Option.toList_none, List.nil_append] at hnew'
        simp only [List.filterMap_cons, hdeclared]
        exact ⟨hnodup, hnew', by rw [← View.read_read]; rfl⟩
      · simp only [hdeclared, Option.toList_some, List.singleton_append, List.mem_cons, not_or]
          at hnew'
        simp only [List.filterMap_cons, hdeclared, List.nodup_cons, List.mem_cons]
        refine ⟨⟨fun hmem ↦ (hnew' name hmem).1 rfl, hnodup⟩, ?_, ?_⟩
        · rintro other (rfl | hmem)
          · exact hnew _ hdeclared
          · exact (hnew' other hmem).2
        · rw [← View.read_read]
          simp [View.read]

end

end Reading

end StackScript
