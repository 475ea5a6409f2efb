import StackScript.Proofs.Acceptance.Expression
import StackScript.Proofs.Passage.Statement

/-!
# Reading statements that are written well

A lawful statement is read up to its end, whatever stands behind it: only behind a conditional there
must be no `else`. Its names are in scope then. The induction is on how the statement is written
(`reads_clause`).
-/

namespace StackScript

/-! ### How statements begin -/

/-- Tokens that no statement begins with. -/
def TokenKind.bars (k : TokenKind) : Prop :=
  k = .symbol .rightBrace ∨ k = .endOfInput ∨ k = .keyword .funcKw ∨ k = .keyword .elseKw

theorem Opening.Begins.not_bars {k : TokenKind} {o : Opening} (h : o.Begins k) : ¬k.bars := by
  rw [← TokenKind.opening?_eq_some] at h
  rintro (rfl | rfl | rfl | rfl) <;> cases h

/-- A conditional begins with `if`, braces with a brace, and no statement with what bars one. -/
theorem Clause.Derives.begins {c : Clause} {ts : List Token} (h : c.Derives ts) :
    match c with
    | .statement _ => ∃ t rest, ts = t :: rest ∧ ¬t.kind.bars
    | .conditional s => s.declared? = none ∧ ∃ t rest, ts = t :: rest ∧ t.kind = .keyword .ifKw
    | .braced _ _ => ∃ t rest, ts = t :: rest ∧ t.kind = .symbol .leftBrace
    | .sequence _ => ∀ t ∈ ts.head?, ¬t.kind.bars
    | .alternative _ => True := by
  induction h with
  | declare h =>
    cases h with
    | bare hv => exact ⟨_, _, rfl, by simp [TokenKind.bars, hv]⟩
    | valued hv => exact ⟨_, _, rfl, by simp [TokenKind.bars, hv]⟩
  | giveBackNull hk | giveBack hk | whileLoop hk | forIn hk | breakLoop hk | continueLoop hk =>
    exact ⟨_, _, rfl, by simp [TokenKind.bars, hk]⟩
  | block _ ih =>
    obtain ⟨t, rest, rfl, ht⟩ := ih
    exact ⟨t, rest, rfl, by simp [TokenKind.bars, ht]⟩
  | expression h =>
    obtain ⟨t, rest, rfl, o, ho⟩ := h.begins
    exact ⟨t, _, rfl, ho.not_bars⟩
  | branch _ ih =>
    obtain ⟨-, t, rest, rfl, ht⟩ := ih
    exact ⟨t, rest, rfl, by simp [TokenKind.bars, ht]⟩
  | ifThen hk | ifElse hk => exact ⟨rfl, _, _, rfl, hk⟩
  | braced ho => exact ⟨_, _, rfl, ho⟩
  | elseIf | elseBlock => trivial
  | nil => simp
  | cons _ _ ih =>
    obtain ⟨t, rest, rfl, ht⟩ := ih
    simpa using ht

namespace Reading

variable {source : String} {r : Reader} {u : Token} {us : List Token} {v : View}
  {literals : List Literal}

/-! ### What is shown of clauses -/

/-- A statement is read, and its name is in scope. -/
def ReadsStatement (s : Stmt) (ts : List Token) : Prop :=
  ∀ {source : String} {fuel : Nat} {r : Reader} {u : Token} {us : List Token} {v : View}
    {literals : List Literal} {names : List String} {outer : List (List String)},
    r.At source (ts ++ u :: us) v literals → s.Lawful v.inLoop → v.scopes = names :: outer →
    (∀ name ∈ s.declared?, name ∉ names) → 8 * (ts ++ u :: us).length + 2 ≤ fuel →
    u.kind ≠ .keyword .elseKw →
    Leads (statement fuel) r fun s' r' ↦ s' = s ∧ ∃ literals', r'.At source (u :: us)
      { v.read ts with scopes := (s.declared?.toList ++ names) :: outer } literals'

/-- A conditional is read. -/
def ReadsConditional (s : Stmt) (ts : List Token) : Prop :=
  ∀ {source : String} {fuel : Nat} {r : Reader} {u : Token} {us : List Token} {v : View}
    {literals : List Literal}, r.At source (ts ++ u :: us) v literals → s.Lawful v.inLoop →
    8 * (ts ++ u :: us).length + 1 ≤ fuel → u.kind ≠ .keyword .elseKw →
    Leads (ifStmt fuel) r fun s' r' ↦
      s' = s ∧ ∃ literals', r'.At source (u :: us) (v.read ts) literals'

/-- What stands behind `else` is read. -/
def ReadsAlternative (s : Stmt) (ts : List Token) : Prop :=
  ∀ {source : String} {fuel : Nat} {r : Reader} {u : Token} {us : List Token} {v : View}
    {literals : List Literal}, r.At source (ts ++ u :: us) v literals → s.Lawful v.inLoop →
    8 * (ts ++ u :: us).length + 6 ≤ fuel → u.kind ≠ .keyword .elseKw →
    Leads (elseBranch fuel) r fun s' r' ↦
      s' = s ∧ ∃ literals', r'.At source (u :: us) (v.read ts) literals'

/-- Statements between braces are read behind the opening brace. -/
def ReadsBraced (body : List Stmt) (closeLine : Nat) (ts : List Token) : Prop :=
  ∃ o rest, ts = o :: rest ∧ o.kind = .symbol .leftBrace ∧
    ∀ {source : String} {fuel : Nat} {r : Reader} {u : Token} {us : List Token} {v : View}
      {literals : List Literal}, r.At source (rest ++ u :: us) v literals →
      (body.filterMap Stmt.declared?).Nodup → lawfulAll v.inLoop body →
      8 * (rest ++ u :: us).length + 4 ≤ fuel →
      Leads (block fuel) r fun b r' ↦
        b = (body, closeLine) ∧ ∃ literals', r'.At source (u :: us) (v.read rest) literals'

/-- Statements are read up to the end of their block, and their names are in scope. -/
def ReadsSequence (body : List Stmt) (ts : List Token) : Prop :=
  ∀ {source : String} {fuel : Nat} {r : Reader} {u : Token} {us : List Token} {v : View}
    {literals : List Literal} {names : List String} {outer : List (List String)},
    r.At source (ts ++ u :: us) v literals → lawfulAll v.inLoop body →
    v.scopes = names :: outer → (body.filterMap Stmt.declared?).Nodup →
    (∀ name ∈ body.filterMap Stmt.declared?, name ∉ names) →
    8 * (ts ++ u :: us).length + 3 ≤ fuel → u.kind = .symbol .rightBrace →
    Leads (statements fuel) r fun body' r' ↦ body' = body ∧ ∃ literals', r'.At source (u :: us)
      { v.read ts with
        scopes := ((body.filterMap Stmt.declared?).reverse ++ names) :: outer } literals'

/-- What is shown of a clause. -/
def ReadsClause : Clause → List Token → Prop
  | .statement s, ts => ReadsStatement s ts
  | .conditional s, ts => ReadsConditional s ts
  | .alternative s, ts => ReadsAlternative s ts
  | .braced body closeLine, ts => ReadsBraced body closeLine ts
  | .sequence body, ts => ReadsSequence body ts

/-- Most statements declare nothing. -/
theorem readsStatement_of_none {s : Stmt} {ts : List Token} (hs : s.declared? = none)
    (h : ∀ {source : String} {fuel : Nat} {r : Reader} {u : Token} {us : List Token} {v : View}
      {literals : List Literal}, r.At source (ts ++ u :: us) v literals → s.Lawful v.inLoop →
      8 * (ts ++ u :: us).length + 1 ≤ fuel → u.kind ≠ .keyword .elseKw →
      Leads (statement (fuel + 1)) r fun s' r' ↦
        s' = s ∧ ∃ literals', r'.At source (u :: us) (v.read ts) literals') :
    ReadsStatement s ts := by
  intro source fuel r u us v literals names outer hr hl hscopes _ hf hu
  obtain ⟨fuel, rfl⟩ := Nat.exists_eq_add_of_le' (show 1 ≤ fuel by omega)
  refine (h hr hl (by omega) hu).imp fun s' r' ⟨hs', literals', h'⟩ ↦ ⟨hs', literals', ?_⟩
  rw [hs, Option.toList_none, List.nil_append, ← hscopes]
  exact h'

/-! ### Statements without statements in them -/

theorem closes_of_eq {k : TokenKind} {sign : Symbol} (h : k = .symbol sign)
    (hs : sign = .semicolon ∨ sign = .leftBrace) : Closes .assignment k := by
  subst h
  rcases hs with rfl | rfl <;> exact ⟨by simp [TokenKind.continuation?], by simp, fun _ ↦ rfl⟩

/-- The value of a declaration is read behind the name. -/
theorem leads_initialValue {name : String} {value : Expr} {ts : List Token}
    (hd : Declares name value ts) (hs : value.Sound) : ∃ t n mid s, ts = t :: n :: mid ++ [s] ∧
      t.kind = .keyword .varKw ∧ n.kind = .identifier name ∧ s.kind = .symbol .semicolon ∧
      ∀ {source : String} {r : Reader} {us : List Token} {v : View} {literals : List Literal},
        r.At source (mid ++ s :: us) (v.read [n]) literals → us ≠ [] →
        Leads declareStmt.initialValue r fun value' r' ↦
          value' = value ∧ ∃ literals', r'.At source (s :: us) (v.read (n :: mid)) literals' := by
  cases hd with
  | @bare t n s ht hn hsemicolon =>
    refine ⟨t, n, [], s, rfl, ht, hn, hsemicolon, fun {source r us v literals} h _ ↦ ?_⟩
    exact .pass h (by simp [hsemicolon]) (.push h fun r₁ h₁ ↦ .line h₁ (.pure ⟨rfl, _, h₁⟩))
  | @valued _ t n o ts s ht hn ho hvalue hsemicolon =>
    refine ⟨t, n, o :: ts, s, by simp, ht, hn, hsemicolon, fun {source r us v literals} h hus ↦ ?_⟩
    refine .accept h ho (by simp) fun r₁ h₁ ↦ ?_
    refine (leads_expression hvalue hs h₁ (closes_of_eq hsemicolon (.inl rfl))).imp ?_
    rintro value r₂ ⟨rfl, h₂⟩
    exact ⟨rfl, value.trail literals, by simpa using h₂⟩

theorem reads_declare {name : String} {value : Expr} {ts : List Token}
    (hd : Declares name value ts) : ReadsStatement (.declare name value) ts := by
  intro source fuel r u us v literals names outer h hs hscopes hnew hf _
  obtain ⟨t, n, mid, s, rfl, ht, hn, hsemicolon, hvalue⟩ := leads_initialValue hd hs
  obtain ⟨fuel, rfl⟩ := Nat.exists_eq_add_of_le' (show 1 ≤ fuel by omega)
  have h : r.At source (t :: n :: (mid ++ s :: u :: us)) v literals := by simpa using h
  rw [statement]
  refine .current h ?_
  rw [ht]
  refine .advance h (by simp) fun r₁ h₁ ↦ .currentSpan (.name? h₁ hn fun r₂ h₂ ↦
    .bind (hvalue h₂ (by simp)) ?_)
  rintro _ r₃ ⟨rfl, literals', h₃⟩
  refine .close h₃ hsemicolon fun r₄ h₄ ↦ .declare h₄ hscopes (hnew name rfl) fun r₅ h₅ ↦
    .pure ⟨rfl, literals', ?_⟩
  simpa [View.read, Stmt.declared?] using h₅

/-- What is given back is read behind the keyword. -/
theorem reads_giveBack {value : Expr} {t s : Token} {ts : List Token}
    (ht : t.kind = .keyword .returnKw) (hs : s.kind = .symbol .semicolon)
    (hvalue : ∀ {source : String} {r : Reader} {us : List Token} {v : View}
      {literals : List Literal}, value.Sound → r.At source (ts ++ s :: us) (v.read [t]) literals →
      us ≠ [] → Leads returnStmt.returned r fun value' r' ↦
        value' = value ∧ ∃ literals', r'.At source (s :: us) (v.read (t :: ts)) literals') :
    ReadsStatement (.giveBack value s.span.line) (t :: ts ++ [s]) := by
  refine readsStatement_of_none rfl fun {source fuel r u us v literals} h hsound _ _ ↦ ?_
  have h : r.At source (t :: (ts ++ s :: u :: us)) v literals := by simpa using h
  rw [statement]
  refine .current h ?_
  rw [ht]
  refine .advance h (by simp) fun r₁ h₁ ↦ .bind (hvalue hsound h₁ (by simp)) ?_
  rintro _ r₂ ⟨rfl, literals', h₂⟩
  refine .close h₂ hs fun r₃ h₃ ↦ .emit h₃ fun r₄ h₄ ↦ .line h₄ (.pure ⟨rfl, [], ?_⟩)
  simpa using h₄

theorem leads_returned_of_semicolon {t s : Token} (hs : s.kind = .symbol .semicolon)
    (h : r.At source (s :: us) (v.read [t]) literals) : Leads returnStmt.returned r fun value' r' ↦
      value' = .literal .null t.span.line ∧
        ∃ literals', r'.At source (s :: us) (v.read [t]) literals' := by
  refine .check h ?_
  rw [if_pos (decide_eq_true hs)]
  exact .push h fun r₁ h₁ ↦ .line h₁ (.pure ⟨rfl, _, h₁⟩)

theorem leads_returned {value : Expr} {t s : Token} {ts : List Token}
    (hvalue : Phrase.Derives (.expression .assignment value) ts) (hsound : value.Sound)
    (hs : s.kind = .symbol .semicolon) (h : r.At source (ts ++ s :: us) (v.read [t]) literals) :
    Leads returnStmt.returned r fun value' r' ↦
      value' = value ∧ ∃ literals', r'.At source (s :: us) (v.read (t :: ts)) literals' := by
  obtain ⟨u, rest, hts, o, ho⟩ := hvalue.begins
  have hsemicolon : u.kind ≠ .symbol .semicolon := by
    rintro hu
    rw [hu, ← TokenKind.opening?_eq_some] at ho
    cases ho
  have hcheck : r.At source (u :: (rest ++ s :: us)) (v.read [t]) literals := by simpa [hts] using h
  refine .check hcheck ?_
  rw [if_neg (by simpa using hsemicolon)]
  refine (leads_expression hvalue hsound h (closes_of_eq hs (.inl rfl))).imp ?_
  rintro value r₁ ⟨rfl, h₁⟩
  exact ⟨rfl, value.trail literals, by simpa using h₁⟩

theorem reads_expression {value : Expr} {ts : List Token} {s : Token}
    (hvalue : Phrase.Derives (.expression .assignment value) ts) (hs : s.kind = .symbol .semicolon) :
    ReadsStatement (.expression value s.span.line) (ts ++ [s]) := by
  refine readsStatement_of_none rfl fun {source fuel r u us v literals} h hsound _ _ ↦ ?_
  have h : r.At source (ts ++ s :: u :: us) v literals := by simpa using h
  have hstatement : Leads expressionStmt r fun s' r' ↦ s' = .expression value s.span.line ∧
      ∃ literals', r'.At source (u :: us) (v.read (ts ++ [s])) literals' := by
    refine .bind (leads_expression hvalue hsound h (closes_of_eq hs (.inl rfl))) ?_
    rintro _ r₁ ⟨rfl, h₁⟩
    refine .close h₁ hs fun r₂ h₂ ↦ .emit h₂ fun r₃ h₃ ↦ .line h₃ (.pure ⟨rfl, [], ?_⟩)
    simpa using h₃
  obtain ⟨t, rest, rfl, o, ho⟩ := hvalue.begins
  have ho := TokenKind.opening?_eq_some.mpr ho
  rw [statement]
  refine .current h ?_
  -- No other statement begins as an expression does.
  split <;> rename_i hk <;> first | (rw [hk] at ho; cases ho) | exact hstatement

/-- A jump out of a loop, or back to its top, is read in a loop. -/
theorem leads_exitStmt {t s : Token} (ht : r.At source (t :: s :: u :: us) v literals)
    (hs : s.kind = .symbol .semicolon) (hloop : v.inLoop = true) (expected : String) (fault : Fault)
    (stmt : Nat → Stmt) : Leads (exitStmt expected fault stmt) r fun s' r' ↦
      s' = stmt s.span.line ∧ ∃ literals', r'.At source (u :: us) (v.read [t, s]) literals' := by
  refine .currentSpan (.advance ht (by simp) fun r₁ h₁ ↦ .close h₁ hs fun r₂ h₂ ↦ .of_run rfl ?_)
  have hloops : r₂.loops = v.loops := h₂.loops_eq
  split
  · rename_i hnone
    rw [View.inLoop, ← hloops, hnone] at hloop
    cases hloop
  · exact .emitExit h₂ fun r₃ h₃ ↦ .line h₃ (.pure ⟨rfl, [], by simpa using h₃⟩)

theorem reads_breakLoop {t s : Token} (ht : t.kind = .keyword .breakKw)
    (hs : s.kind = .symbol .semicolon) : ReadsStatement (.breakLoop s.span.line) [t, s] := by
  refine readsStatement_of_none rfl fun {source fuel r u us v literals} h hloop _ _ ↦ ?_
  rw [statement]
  refine .current h ?_
  rw [ht]
  exact leads_exitStmt h hs hloop _ _ _

theorem reads_continueLoop {t s : Token} (ht : t.kind = .keyword .continueKw)
    (hs : s.kind = .symbol .semicolon) : ReadsStatement (.continueLoop s.span.line) [t, s] := by
  refine readsStatement_of_none rfl fun {source fuel r u us v literals} h hloop _ _ ↦ ?_
  rw [statement]
  refine .current h ?_
  rw [ht]
  exact leads_exitStmt h hs hloop _ _ _

/-! ### Blocks -/

theorem leads_bracedBlock {fuel : Nat} {body : List Stmt} {closeLine : Nat} {ts : List Token}
    (hbody : ReadsBraced body closeLine ts) (h : r.At source (ts ++ u :: us) v literals)
    (hnodup : (body.filterMap Stmt.declared?).Nodup) (hl : lawfulAll v.inLoop body)
    (hf : 8 * (ts ++ u :: us).length < fuel) (expected : String) :
    Leads (bracedBlock fuel expected) r fun b r' ↦
      b = (body, closeLine) ∧ ∃ literals', r'.At source (u :: us) (v.read ts) literals' := by
  obtain ⟨o, rest, rfl, ho, hblock⟩ := hbody
  obtain ⟨fuel, rfl⟩ := Nat.exists_eq_add_of_le' (show 1 ≤ fuel by omega)
  have hlength : 8 * (rest ++ u :: us).length + 4 ≤ fuel := by grind
  rw [bracedBlock]
  refine .expect h ho fun r₁ h₁ ↦ (hblock h₁ hnodup hl hlength).imp ?_
  rintro _ r₂ ⟨rfl, literals', h₂⟩
  exact ⟨rfl, literals', by simpa using h₂⟩

theorem reads_block {body : List Stmt} {closeLine : Nat} {ts : List Token}
    (hbody : ReadsBraced body closeLine ts) : ReadsStatement (.block body closeLine) ts := by
  obtain ⟨o, rest, rfl, ho, hblock⟩ := hbody
  refine readsStatement_of_none rfl fun {source fuel r u us v literals} h hl hf _ ↦ ?_
  rw [statement]
  refine .current h ?_
  rw [ho]
  refine .advance h (by simp) fun r₁ h₁ ↦ .bind (hblock h₁ hl.1 hl.2 (by grind)) ?_
  rintro _ r₂ ⟨rfl, literals', h₂⟩
  exact .pure ⟨rfl, literals', by simpa using h₂⟩

theorem reads_braced {body : List Stmt} {ts : List Token} {o c : Token}
    (ho : o.kind = .symbol .leftBrace) (hbody : ReadsSequence body ts)
    (hc : c.kind = .symbol .rightBrace) : ReadsBraced body c.span.line (o :: ts ++ [c]) := by
  refine ⟨o, ts ++ [c], rfl, ho, fun {source fuel r u us v literals} h hnodup hl hf ↦ ?_⟩
  have h : r.At source (ts ++ c :: u :: us) v literals := by simpa using h
  obtain ⟨fuel, rfl⟩ := Nat.exists_eq_add_of_le' (show 1 ≤ fuel by omega)
  rw [block]
  refine .openScope h fun r₁ h₁ ↦ .bind (hbody h₁ hl rfl hnodup (by simp) (by grind) hc) ?_
  rintro _ r₂ ⟨rfl, literals₂, h₂⟩
  refine .close h₂ hc fun r₃ h₃ ↦ .closeScope h₃ rfl fun r₄ literals₄ h₄ ↦ .line h₄
    (.pure ⟨rfl, literals₄, ?_⟩)
  simpa [View.read] using h₄

theorem reads_nil : ReadsSequence [] [] := by
  intro source fuel r u us v literals names outer h _ hscopes _ _ hf hu
  obtain ⟨fuel, rfl⟩ := Nat.exists_eq_add_of_le' (show 1 ≤ fuel by omega)
  have h : r.At source (u :: us) v literals := h
  rw [statements]
  refine .current h ?_
  rw [hu]
  refine .pure ⟨rfl, literals, ?_⟩
  rw [List.filterMap_nil, List.reverse_nil, List.nil_append, ← hscopes]
  exact h

theorem filterMap_declared?_cons (first : Stmt) (rest : List Stmt) :
    (first :: rest).filterMap Stmt.declared? =
      first.declared?.toList ++ rest.filterMap Stmt.declared? := by
  cases h : first.declared? <;> simp [h]

theorem reads_cons {first : Stmt} {rest : List Stmt} {ts us' : List Token}
    (hfirst : ReadsStatement first ts) (hbegins : ∃ t rest, ts = t :: rest ∧ ¬t.kind.bars)
    (hrest : ReadsSequence rest us') (hbegins' : ∀ t ∈ us'.head?, ¬t.kind.bars) :
    ReadsSequence (first :: rest) (ts ++ us') := by
  intro source fuel r u us v literals names outer h hl hscopes hnodup hnew hf hu
  rw [filterMap_declared?_cons] at hnodup hnew ⊢
  obtain ⟨fuel, rfl⟩ := Nat.exists_eq_add_of_le' (show 1 ≤ fuel by omega)
  obtain ⟨t, ts, rfl, ht⟩ := hbegins
  -- What follows the first statement is another one, or the end of the block.
  obtain ⟨w, ws, hw, helse⟩ : ∃ w ws, us' ++ u :: us = w :: ws ∧ w.kind ≠ .keyword .elseKw := by
    cases us' with
    | nil => exact ⟨u, us, rfl, by simp [hu]⟩
    | cons w ws => exact ⟨w, ws ++ u :: us, rfl, fun h ↦ hbegins' w rfl (by simp [TokenKind.bars, h])⟩
  have hlength := congrArg List.length hw
  rw [List.append_assoc, hw] at h hf
  rw [statements]
  refine .current h ?_
  split
  · rename_i hk
    exact absurd (.inl hk) ht
  · rename_i hk
    exact absurd (.inr (.inl hk)) ht
  · rename_i hk
    exact absurd (.inr (.inr (.inl hk))) ht
  · refine .bind (hfirst h hl.1 hscopes (fun name hname ↦ hnew name ?_) (by grind) helse) ?_
    · exact List.mem_append_left _ (Option.mem_toList.mpr hname)
    rintro first r₁ ⟨rfl, literals₁, h₁⟩
    rw [← hw] at h₁
    obtain ⟨-, hnodup', hdisjoint⟩ := List.nodup_append.mp hnodup
    refine .recoverAt h₁ (.bind (hrest h₁ hl.2 rfl hnodup' (fun name hname hmem ↦ ?_) (by grind) hu) ?_)
    · rcases List.mem_append.mp hmem with hmem | hmem
      · exact hdisjoint _ hmem _ hname rfl
      · exact hnew name (List.mem_append_right _ hname) hmem
    · rintro _ r₂ ⟨rfl, literals₂, h₂⟩
      have hreverse : first.declared?.toList.reverse = first.declared?.toList := by
        cases first.declared? <;> rfl
      refine .pure ⟨rfl, literals₂, ?_⟩
      simpa [View.read, hreverse] using h₂

/-! ### Conditionals and loops -/

theorem reads_branch {s : Stmt} {ts : List Token} (h : ReadsConditional s ts)
    (hbegins : s.declared? = none ∧ ∃ t rest, ts = t :: rest ∧ t.kind = .keyword .ifKw) :
    ReadsStatement s ts := by
  obtain ⟨hdeclared, t, rest, rfl, ht⟩ := hbegins
  refine readsStatement_of_none hdeclared fun {source fuel r u us v literals} hr hl hf hu ↦ ?_
  rw [statement]
  refine .current hr ?_
  rw [ht]
  exact h hr hl hf hu

/-- A condition is read up to the brace behind it. -/
theorem leads_condition {condition : Expr} {body : List Stmt} {closeLine : Nat}
    {ts us' : List Token} (hcondition : Phrase.Derives (.expression .assignment condition) ts)
    (hs : condition.Sound) (hbody : ReadsBraced body closeLine us')
    (h : r.At source (ts ++ (us' ++ us)) v literals) : Leads expression r fun e' r' ↦
      e' = condition ∧ ∃ literals', r'.At source (us' ++ us) (v.read ts) literals' := by
  obtain ⟨o, rest, rfl, ho, -⟩ := hbody
  refine (leads_expression hcondition hs h (closes_of_eq ho (.inr rfl))).imp ?_
  rintro e r₁ ⟨rfl, h₁⟩
  exact ⟨rfl, _, h₁⟩

theorem reads_ifThen {condition : Expr} {body : List Stmt} {closeLine : Nat} {t : Token}
    {ts us' : List Token}
    (hcondition : Phrase.Derives (.expression .assignment condition) ts)
    (hbody : ReadsBraced body closeLine us') :
    ReadsConditional (.ifThen condition (lastLine ts) body closeLine) (t :: ts ++ us') := by
  intro source fuel r u us v literals h ⟨hs, hnodup, hl⟩ hf hu
  obtain ⟨fuel, rfl⟩ := Nat.exists_eq_add_of_le' (show 1 ≤ fuel by omega)
  have h : r.At source (t :: (ts ++ (us' ++ u :: us))) v literals := by simpa using h
  rw [ifStmt]
  refine .advance h (by simp) fun r₁ h₁ ↦ .bind (leads_condition hcondition hs hbody h₁) ?_
  rintro _ r₂ ⟨rfl, literals₂, h₂⟩
  refine .line h₂ (.emit h₂ fun r₃ h₃ ↦ .bind
    (leads_bracedBlock hbody h₃ hnodup hl (by grind) _) ?_)
  rintro _ r₄ ⟨rfl, literals₄, h₄⟩
  refine .pass h₄ hu (.join h₄ fun r₅ h₅ ↦ .pure ⟨?_, [], by simpa using h₅⟩)
  rw [View.line_read _ hcondition.ne_nil]

theorem reads_ifElse {condition : Expr} {body : List Stmt} {closeLine : Nat} {alternative : Stmt}
    {t e : Token} {ts us' vs : List Token}
    (hcondition : Phrase.Derives (.expression .assignment condition) ts)
    (hbody : ReadsBraced body closeLine us') (he : e.kind = .keyword .elseKw)
    (hother : ReadsAlternative alternative vs) :
    ReadsConditional (.ifElse condition (lastLine ts) body closeLine e.span.line alternative)
      (t :: ts ++ us' ++ e :: vs) := by
  intro source fuel r u us v literals h ⟨hs, hnodup, hl, hl'⟩ hf hu
  obtain ⟨fuel, rfl⟩ := Nat.exists_eq_add_of_le' (show 1 ≤ fuel by omega)
  have h : r.At source (t :: (ts ++ (us' ++ e :: (vs ++ u :: us)))) v literals := by simpa using h
  rw [ifStmt]
  refine .advance h (by simp) fun r₁ h₁ ↦ .bind (leads_condition hcondition hs hbody h₁) ?_
  rintro _ r₂ ⟨rfl, literals₂, h₂⟩
  refine .line h₂ (.emit h₂ fun r₃ h₃ ↦ .bind
    (leads_bracedBlock hbody h₃ hnodup hl (by grind) _) ?_)
  rintro _ r₄ ⟨rfl, literals₄, h₄⟩
  refine .accept h₄ he (by simp) fun r₅ h₅ ↦ .line h₅ (.emit h₅ fun r₆ h₆ ↦ .join h₆ fun r₇ h₇ ↦
    .bind (hother h₇ hl' (by grind) hu) ?_)
  rintro _ r₈ ⟨rfl, literals₈, h₈⟩
  refine .join h₈ fun r₉ h₉ ↦ .pure ⟨?_, [], by simpa using h₉⟩
  rw [View.line_read _ hcondition.ne_nil, View.line_read_singleton]

theorem reads_elseIf {s : Stmt} {ts : List Token} (h : ReadsConditional s ts)
    (hbegins : ∃ t rest, ts = t :: rest ∧ t.kind = .keyword .ifKw) : ReadsAlternative s ts := by
  intro source fuel r u us v literals hr hl hf hu
  obtain ⟨fuel, rfl⟩ := Nat.exists_eq_add_of_le' (show 1 ≤ fuel by omega)
  obtain ⟨t, rest, rfl, ht⟩ := hbegins
  rw [elseBranch]
  refine .check hr ?_
  rw [if_pos (decide_eq_true ht)]
  exact h hr hl (by omega) hu

theorem reads_elseBlock {body : List Stmt} {closeLine : Nat} {ts : List Token}
    (hbody : ReadsBraced body closeLine ts) : ReadsAlternative (.block body closeLine) ts := by
  intro source fuel r u us v literals h ⟨hnodup, hl⟩ hf hu
  obtain ⟨fuel, rfl⟩ := Nat.exists_eq_add_of_le' (show 1 ≤ fuel by omega)
  have hblock := leads_bracedBlock hbody h hnodup hl (show _ < fuel by omega) "'\x7b' after else"
  obtain ⟨o, rest, rfl, ho, -⟩ := hbody
  rw [elseBranch]
  refine .check h ?_
  rw [if_neg (by simp [ho])]
  refine .bind hblock ?_
  rintro _ r₁ ⟨rfl, literals₁, h₁⟩
  exact .pure ⟨rfl, literals₁, h₁⟩

theorem reads_whileLoop {condition : Expr} {body : List Stmt} {closeLine : Nat} {t : Token}
    {ts us' : List Token} (ht : t.kind = .keyword .whileKw)
    (hcondition : Phrase.Derives (.expression .assignment condition) ts)
    (hbody : ReadsBraced body closeLine us') :
    ReadsStatement (.whileLoop condition (lastLine ts) body closeLine) (t :: ts ++ us') := by
  refine readsStatement_of_none rfl fun {source fuel r u us v literals} h hl hf _ ↦ ?_
  obtain ⟨hs, hnodup, hl⟩ := hl
  obtain ⟨fuel, rfl⟩ := Nat.exists_eq_add_of_le' (show 1 ≤ fuel by omega)
  have h : r.At source (t :: (ts ++ (us' ++ u :: us))) v literals := by simpa using h
  rw [statement]
  refine .current h ?_
  rw [ht]
  show Leads (whileStmt (fuel + 1)) r _
  rw [whileStmt]
  refine .advance h (by simp) fun r₁ h₁ ↦ .join h₁ fun r₂ h₂ ↦
    .bind (leads_condition hcondition hs hbody h₂) ?_
  rintro _ r₃ ⟨rfl, literals₃, h₃⟩
  refine .line h₃ (.emit h₃ fun r₄ h₄ ↦ .openLoop h₄ fun r₅ h₅ ↦ .bind
    (leads_bracedBlock hbody h₅ hnodup hl (by grind) _) ?_)
  rintro _ r₆ ⟨rfl, literals₆, h₆⟩
  refine .emit h₆ fun r₇ h₇ ↦ .join h₇ fun r₈ h₈ ↦ .closeLoop h₈ fun r₉ h₉ ↦
    .pure ⟨?_, [], ?_⟩
  · rw [View.line_read _ hcondition.ne_nil]
  · simpa [View.read] using h₉

theorem reads_forIn {name : String} {items : Expr} {body : List Stmt} {closeLine : Nat}
    {t n i : Token} {ts us' : List Token} (ht : t.kind = .keyword .forKw)
    (hn : n.kind = .identifier name) (hi : i.kind = .keyword .inKw)
    (hitems : Phrase.Derives (.expression .assignment items) ts)
    (hbody : ReadsBraced body closeLine us') :
    ReadsStatement (.forIn name items (lastLine ts) body closeLine)
      (t :: n :: i :: ts ++ us') := by
  refine readsStatement_of_none rfl fun {source fuel r u us v literals} h hl hf _ ↦ ?_
  obtain ⟨hs, hnodup, hl⟩ := hl
  obtain ⟨fuel, rfl⟩ := Nat.exists_eq_add_of_le' (show 1 ≤ fuel by omega)
  have h : r.At source (t :: n :: i :: (ts ++ (us' ++ u :: us))) v literals := by simpa using h
  rw [statement]
  refine .current h ?_
  rw [ht]
  show Leads (forStmt (fuel + 1)) r _
  rw [forStmt]
  refine .advance h (by simp) fun r₁ h₁ ↦ .currentSpan (.name? h₁ hn fun r₂ h₂ ↦
    .accept h₂ hi (by simp) fun r₃ h₃ ↦ .openScope h₃ fun r₄ h₄ ↦
    .bind (leads_condition hitems hs hbody h₄) ?_)
  rintro _ r₅ ⟨rfl, literals₅, h₅⟩
  refine .line h₅ (.emit h₅ fun r₆ h₆ ↦ .declare h₆ rfl (by simp) fun r₇ h₇ ↦
    .join h₇ fun r₈ h₈ ↦ .emit h₈ fun r₉ h₉ ↦ .openLoop h₉ fun r₁₀ h₁₀ ↦
    .openScope h₁₀ fun r₁₁ h₁₁ ↦ .emit h₁₁ fun r₁₂ h₁₂ ↦ .declare h₁₂ rfl (by simp) fun r₁₃ h₁₃ ↦
    .bind (leads_bracedBlock hbody h₁₃ hnodup hl (by grind) _) ?_)
  rintro _ r₁₄ ⟨rfl, literals₁₄, h₁₄⟩
  refine .closeScope h₁₄ rfl fun r₁₅ _ h₁₅ ↦ .emit h₁₅ fun r₁₆ h₁₆ ↦ .join h₁₆ fun r₁₇ h₁₇ ↦
    .closeLoop h₁₇ fun r₁₈ h₁₈ ↦ .closeScope h₁₈ rfl fun r₁₉ literals₁₉ h₁₉ ↦
    .pure ⟨?_, literals₁₉, ?_⟩
  · rw [View.line_read _ hitems.ne_nil]
    rfl
  · simpa [View.read] using h₁₉

/-! ### Every clause -/

theorem reads_clause {c : Clause} {ts : List Token} (h : c.Derives ts) : ReadsClause c ts := by
  induction h with
  | declare h => exact reads_declare h
  | giveBackNull ht hs =>
    exact reads_giveBack ht hs fun _ h _ ↦ leads_returned_of_semicolon hs h
  | giveBack ht hvalue hs =>
    exact reads_giveBack ht hs fun hsound h _ ↦ leads_returned hvalue hsound hs h
  | whileLoop ht hcondition _ ih => exact reads_whileLoop ht hcondition ih
  | forIn ht hn hi hitems _ ih => exact reads_forIn ht hn hi hitems ih
  | breakLoop ht hs => exact reads_breakLoop ht hs
  | continueLoop ht hs => exact reads_continueLoop ht hs
  | block _ ih => exact reads_block ih
  | expression hvalue hs => exact reads_expression hvalue hs
  | branch h ih => exact reads_branch ih h.begins
  | ifThen _ hcondition _ ih => exact reads_ifThen hcondition ih
  | ifElse _ hcondition _ he _ ih ihother => exact reads_ifElse hcondition ih he ihother
  | elseIf h ih => exact reads_elseIf ih h.begins.2
  | elseBlock _ ih => exact reads_elseBlock ih
  | braced ho _ hc ih => exact reads_braced ho ih hc
  | nil => exact reads_nil
  | cons hfirst hrest ih ihrest => exact reads_cons ih hfirst.begins ihrest hrest.begins

end Reading

end StackScript
