import StackScript.Proofs.Acceptance.Statement
import StackScript.Proofs.Refusal.Expression
import StackScript.Proofs.Writing.Hole

/-!
# Statements with constants that fail

A statement that would be lawful but for the expression in its hole is read as any other one up to the hole, and
there reading stumbles if the expression is not sound. The induction is on how the statement is written before
and behind its hole (`Hole.Derives.stumbles`).
-/

namespace StackScript

namespace Reading

open Reader (invariant_spoiled)
open Reader.Invariant (keeps_line)

/-! ### What is shown of clauses -/

/-- Reading stumbles over a row of tokens where a statement that is lawful could stand. -/
def StumblesStatement (s : Stmt) (ts : List Token) : Prop :=
  ∀ ⦃source : String⦄ ⦃fuel : Nat⦄ ⦃r : Reader⦄ ⦃u : Token⦄ ⦃us : List Token⦄ ⦃v : View⦄
    ⦃literals : List Literal⦄, r.At source (ts ++ u :: us) v literals → s.Lawful v.inLoop →
    8 * (ts ++ u :: us).length + 2 ≤ fuel → Stumbles (statement fuel) r

/-- The same for a conditional. -/
def StumblesConditional (s : Stmt) (ts : List Token) : Prop :=
  ∀ ⦃source : String⦄ ⦃fuel : Nat⦄ ⦃r : Reader⦄ ⦃u : Token⦄ ⦃us : List Token⦄ ⦃v : View⦄
    ⦃literals : List Literal⦄, r.At source (ts ++ u :: us) v literals → s.Lawful v.inLoop →
    8 * (ts ++ u :: us).length + 1 ≤ fuel → Stumbles (ifStmt fuel) r

/-- The same for what stands behind `else`. -/
def StumblesAlternative (s : Stmt) (ts : List Token) : Prop :=
  ∀ ⦃source : String⦄ ⦃fuel : Nat⦄ ⦃r : Reader⦄ ⦃u : Token⦄ ⦃us : List Token⦄ ⦃v : View⦄
    ⦃literals : List Literal⦄, r.At source (ts ++ u :: us) v literals → s.Lawful v.inLoop →
    8 * (ts ++ u :: us).length + 6 ≤ fuel → Stumbles (elseBranch fuel) r

/-- The same for statements between braces, behind the opening one. -/
def StumblesBraced (body : List Stmt) (ts : List Token) : Prop :=
  ∃ o rest, ts = o :: rest ∧ o.kind = .symbol .leftBrace ∧
    ∀ ⦃source : String⦄ ⦃fuel : Nat⦄ ⦃r : Reader⦄ ⦃u : Token⦄ ⦃us : List Token⦄ ⦃v : View⦄
      ⦃literals : List Literal⦄, r.At source (rest ++ u :: us) v literals →
      (body.filterMap Stmt.declared?).Nodup → lawfulAll v.inLoop body →
      8 * (rest ++ u :: us).length + 4 ≤ fuel → Stumbles (block fuel) r

/-- The same for statements of a block. -/
def StumblesSequence (body : List Stmt) (ts : List Token) : Prop :=
  ∀ ⦃source : String⦄ ⦃fuel : Nat⦄ ⦃r : Reader⦄ ⦃u : Token⦄ ⦃us : List Token⦄ ⦃v : View⦄
    ⦃literals : List Literal⦄ ⦃names : List String⦄ ⦃outer : List (List String)⦄,
    r.At source (ts ++ u :: us) v literals → lawfulAll v.inLoop body →
    v.scopes = names :: outer → (body.filterMap Stmt.declared?).Nodup →
    (∀ name ∈ body.filterMap Stmt.declared?, name ∉ names) →
    8 * (ts ++ u :: us).length + 3 ≤ fuel → Stumbles (statements fuel) r

/-- What is shown of a clause. -/
def StumblesClause : Clause → List Token → Prop
  | .statement s, ts => StumblesStatement s ts
  | .conditional s, ts => StumblesConditional s ts
  | .alternative s, ts => StumblesAlternative s ts
  | .braced body _, ts => StumblesBraced body ts
  | .sequence body, ts => StumblesSequence body ts

variable {source : String} {r : Reader} {u : Token} {us : List Token} {v : View}
  {literals : List Literal} {s : Stmt} {condition e : Expr} {body : List Stmt} {closeLine : Nat}
  {ts us' : List Token}

/-! ### Statements without statements in them -/

theorem stumbles_declare {name : String} {t n o c : Token} (ht : t.kind = .keyword .varKw)
    (hn : n.kind = .identifier name) (ho : o.kind = .symbol .equal) (hc : c.kind = .symbol .semicolon)
    (he : Phrase.Derives (.expression .assignment e) ts) (hs : ¬ e.Sound) :
    StumblesStatement s (t :: n :: o :: ts ++ [c]) := by
  intro source fuel r u us v literals h _ hf
  obtain ⟨fuel, rfl⟩ := Nat.exists_eq_add_of_le' (show 1 ≤ fuel by omega)
  have h : r.At source (t :: n :: o :: (ts ++ c :: u :: us)) v literals := by simpa using h
  have hvalue {r' : Reader} {v' : View} (h : r'.At source (o :: (ts ++ c :: u :: us)) v' literals) :
      Stumbles declareStmt.initialValue r' :=
    Leads.accept h ho (by simp) fun r₁ h₁ ↦
      stumbles_expression he hs h₁ (closes_of_eq hc (.inl rfl))
  rw [statement]
  refine Leads.current h ?_
  rw [ht]
  exact Leads.advance h (by simp) fun r₁ h₁ ↦ Leads.currentSpan (Leads.name? h₁ hn fun r₂ h₂ ↦
    (hvalue h₂).bind fun _ ↦ (invariant_spoiled.keeps_close _ _).bind fun _ ↦
    (invariant_spoiled.keeps_declare name trivial).bind fun _ ↦ .pure _)

theorem stumbles_giveBack {t c : Token} (ht : t.kind = .keyword .returnKw)
    (hc : c.kind = .symbol .semicolon) (he : Phrase.Derives (.expression .assignment e) ts)
    (hs : ¬ e.Sound) : StumblesStatement s (t :: ts ++ [c]) := by
  intro source fuel r u us v literals h _ hf
  obtain ⟨fuel, rfl⟩ := Nat.exists_eq_add_of_le' (show 1 ≤ fuel by omega)
  have h : r.At source (t :: (ts ++ c :: u :: us)) v literals := by simpa using h
  have hreturned {r' : Reader} {v' : View} (h : r'.At source (ts ++ c :: u :: us) v' literals) :
      Stumbles returnStmt.returned r' := by
    obtain ⟨w, rest, hts, o, ho⟩ := he.begins
    have hsemicolon : w.kind ≠ .symbol .semicolon := by
      rintro hw
      rw [hw, ← TokenKind.opening?_eq_some] at ho
      cases ho
    have hcheck : r'.At source (w :: (rest ++ c :: u :: us)) v' literals := by simpa [hts] using h
    refine Leads.check hcheck ?_
    rw [if_neg (by simpa using hsemicolon)]
    exact stumbles_expression he hs h (closes_of_eq hc (.inl rfl))
  rw [statement]
  refine Leads.current h ?_
  rw [ht]
  exact Leads.advance h (by simp) fun r₁ h₁ ↦ (hreturned h₁).bind fun _ ↦
    (invariant_spoiled.keeps_close _ _).bind fun _ ↦ (invariant_spoiled.keeps_emit _).bind fun _ ↦
    keeps_line.bind fun _ ↦ .pure _

theorem stumbles_expressionStmt {c : Token} (hc : c.kind = .symbol .semicolon)
    (he : Phrase.Derives (.expression .assignment e) ts) (hs : ¬ e.Sound) :
    StumblesStatement s (ts ++ [c]) := by
  intro source fuel r u us v literals h _ hf
  obtain ⟨fuel, rfl⟩ := Nat.exists_eq_add_of_le' (show 1 ≤ fuel by omega)
  have h : r.At source (ts ++ c :: u :: us) v literals := by simpa using h
  have hstatement : Stumbles expressionStmt r :=
    (stumbles_expression he hs h (closes_of_eq hc (.inl rfl))).bind fun _ ↦
      (invariant_spoiled.keeps_close _ _).bind fun _ ↦ (invariant_spoiled.keeps_emit _).bind fun _ ↦
      keeps_line.bind fun _ ↦ .pure _
  obtain ⟨t, rest, rfl, o, ho⟩ := he.begins
  have ho := TokenKind.opening?_eq_some.mpr ho
  rw [statement]
  refine Leads.current h ?_
  -- No other statement begins as an expression does.
  split <;> rename_i hk <;> first | (rw [hk] at ho; cases ho) | exact hstatement

/-! ### Blocks -/

theorem stumbles_bracedBlock {fuel : Nat} (hbody : StumblesBraced body ts)
    (h : r.At source (ts ++ u :: us) v literals) (hnodup : (body.filterMap Stmt.declared?).Nodup)
    (hl : lawfulAll v.inLoop body) (hf : 8 * (ts ++ u :: us).length < fuel) (expected : String) :
    Stumbles (bracedBlock fuel expected) r := by
  obtain ⟨o, rest, rfl, ho, hblock⟩ := hbody
  obtain ⟨fuel, rfl⟩ := Nat.exists_eq_add_of_le' (show 1 ≤ fuel by omega)
  have hlength : 8 * (rest ++ u :: us).length + 4 ≤ fuel := by grind
  rw [bracedBlock]
  exact Leads.expect h ho fun r₁ h₁ ↦ hblock h₁ hnodup hl hlength

theorem stumbles_block (hbody : StumblesBraced body ts) :
    StumblesStatement (.block body closeLine) ts := by
  obtain ⟨o, rest, rfl, ho, hblock⟩ := hbody
  intro source fuel r u us v literals h hl hf
  obtain ⟨fuel, rfl⟩ := Nat.exists_eq_add_of_le' (show 1 ≤ fuel by omega)
  rw [statement]
  refine Leads.current h ?_
  rw [ho]
  exact Leads.advance h (by simp) fun r₁ h₁ ↦ (hblock h₁ hl.1 hl.2 (by grind)).bind fun _ ↦ .pure _

theorem stumbles_braced {o c : Token} (ho : o.kind = .symbol .leftBrace)
    (hbody : StumblesSequence body ts) : StumblesBraced body (o :: ts ++ [c]) := by
  refine ⟨o, ts ++ [c], rfl, ho, fun source fuel r u us v literals h hnodup hl hf ↦ ?_⟩
  have h : r.At source (ts ++ c :: u :: us) v literals := by simpa using h
  obtain ⟨fuel, rfl⟩ := Nat.exists_eq_add_of_le' (show 1 ≤ fuel by omega)
  rw [block]
  exact Leads.openScope h fun r₁ h₁ ↦ (hbody h₁ hl rfl hnodup (by simp) (by grind)).bind fun _ ↦
    (invariant_spoiled.keeps_close _ _).bind fun _ ↦ invariant_spoiled.keeps_closeScope.bind fun _ ↦
    keeps_line.bind fun _ ↦ .pure _

/-- A statement is read where the block does not end. -/
theorem leads_statements {fuel : Nat} {t : Token} {P : List Stmt → Reader → Prop} (ht : ¬t.kind.bars)
    (h : r.At source (t :: ts) v literals)
    (hs : Leads (do
      let first ← statement fuel
      recoverAt atStatement
      return first :: (← statements fuel)) r P) : Leads (statements (fuel + 1)) r P := by
  rw [statements]
  refine Leads.current h ?_
  split
  · rename_i hk
    exact absurd (.inl hk) ht
  · rename_i hk
    exact absurd (.inr (.inl hk)) ht
  · rename_i hk
    exact absurd (.inr (.inr (.inl hk))) ht
  · exact hs

theorem stumbles_first {first : Stmt} {rest : List Stmt} (hfirst : StumblesStatement first ts)
    (hbegins : ∃ t rest, ts = t :: rest ∧ ¬t.kind.bars) (us' : List Token) :
    StumblesSequence (first :: rest) (ts ++ us') := by
  intro source fuel r u us v literals names outer h hl _ _ _ hf
  obtain ⟨fuel, rfl⟩ := Nat.exists_eq_add_of_le' (show 1 ≤ fuel by omega)
  obtain ⟨w, ws, hw⟩ := List.exists_cons_of_ne_nil (show us' ++ u :: us ≠ [] by simp)
  obtain ⟨t, ts, rfl, ht⟩ := hbegins
  have hlength := congrArg List.length hw
  rw [List.append_assoc, hw] at h hf
  exact leads_statements ht h ((hfirst h hl.1 (by grind)).bind fun _ ↦
    (invariant_spoiled.keeps_recoverAt Reader.Invariant.keeps_atStatement).bind fun _ ↦
    (invariant_spoiled.keeps_statements fuel).bind fun _ ↦ .pure _)

theorem stumbles_later {first : Stmt} {rest : List Stmt} (hfirst : ReadsStatement first ts)
    (hbegins : ∃ t rest, ts = t :: rest ∧ ¬t.kind.bars) (hrest : StumblesSequence rest us')
    (hne : us' ≠ []) (hbegins' : ∀ t ∈ us'.head?, ¬t.kind.bars) :
    StumblesSequence (first :: rest) (ts ++ us') := by
  intro source fuel r u us v literals names outer h hl hscopes hnodup hnew hf
  rw [filterMap_declared?_cons] at hnodup hnew
  obtain ⟨fuel, rfl⟩ := Nat.exists_eq_add_of_le' (show 1 ≤ fuel by omega)
  obtain ⟨t, ts, rfl, ht⟩ := hbegins
  obtain ⟨w, ws, hw, helse⟩ : ∃ w ws, us' ++ u :: us = w :: ws ∧ w.kind ≠ .keyword .elseKw := by
    obtain ⟨w, ws, rfl⟩ := List.exists_cons_of_ne_nil hne
    exact ⟨w, ws ++ u :: us, rfl, fun h ↦ hbegins' w rfl (by simp [TokenKind.bars, h])⟩
  have hlength := congrArg List.length hw
  rw [List.append_assoc, hw] at h hf
  refine leads_statements ht h (Leads.bind (hfirst h hl.1 hscopes (fun name hname ↦ hnew name ?_)
    (by grind) helse) ?_)
  · exact List.mem_append_left _ (Option.mem_toList.mpr hname)
  rintro _ r₁ ⟨rfl, literals₁, h₁⟩
  rw [← hw] at h₁
  obtain ⟨-, hnodup', hdisjoint⟩ := List.nodup_append.mp hnodup
  refine Leads.recoverAt h₁ (Stumbles.bind (hrest h₁ hl.2 rfl hnodup' (fun name hname hmem ↦ ?_)
    (by grind)) fun _ ↦ .pure _)
  rcases List.mem_append.mp hmem with hmem | hmem
  · exact hdisjoint _ hmem _ hname rfl
  · exact hnew name (List.mem_append_right _ hname) hmem

/-! ### Conditionals and loops -/

/-- A condition that is not sound stumbles before the brace behind it. -/
theorem stumbles_condition (he : Phrase.Derives (.expression .assignment e) ts) (hs : ¬ e.Sound)
    (hbrace : ∃ o rest, us' = o :: rest ∧ o.kind = .symbol .leftBrace)
    (h : r.At source (ts ++ (us' ++ us)) v literals) : Stumbles expression r := by
  obtain ⟨o, rest, rfl, ho⟩ := hbrace
  exact stumbles_expression he hs h (closes_of_eq ho (.inr rfl))

/-- A sound condition is read up to the brace behind it. -/
theorem leads_condition_of_stumbles
    (hcondition : Phrase.Derives (.expression .assignment condition) ts) (hs : condition.Sound)
    (hbody : StumblesBraced body us') (h : r.At source (ts ++ (us' ++ us)) v literals) :
    Leads expression r fun _ r' ↦ ∃ literals', r'.At source (us' ++ us) (v.read ts) literals' := by
  obtain ⟨o, rest, rfl, ho, -⟩ := hbody
  exact (leads_expression hcondition hs h (closes_of_eq ho (.inr rfl))).imp fun _ _ h' ↦ ⟨_, h'.2⟩

/-- Behind the block of a conditional nothing is lost. -/
theorem keeps_elseOrNot (fuel : Nat) (condition : Expr) (testLine : Nat) (body : List Stmt)
    (closeLine : Nat) : Keeps Reader.Spoiled (do
      if ← accept (.keyword .elseKw) then
        let elseLine ← line
        emit 1
        join
        let alternative ← elseBranch fuel
        join
        return Stmt.ifElse condition testLine body closeLine elseLine alternative
      join
      return .ifThen condition testLine body closeLine) := by
  refine (invariant_spoiled.keeps_accept _).bind fun found ↦ ?_
  split
  · exact keeps_line.bind fun _ ↦ (invariant_spoiled.keeps_emit _).bind fun _ ↦
      invariant_spoiled.keeps_join.bind fun _ ↦ (invariant_spoiled.keeps_elseBranch fuel).bind fun _ ↦
      invariant_spoiled.keeps_join.bind fun _ ↦ .pure _
  · exact invariant_spoiled.keeps_join.bind fun _ ↦ .pure _

theorem stumbles_ifTest {t : Token} (he : Phrase.Derives (.expression .assignment e) ts)
    (hs : ¬ e.Sound) (hbrace : ∃ o rest, us' = o :: rest ∧ o.kind = .symbol .leftBrace) :
    StumblesConditional s (t :: ts ++ us') := by
  intro source fuel r u us v literals h _ hf
  obtain ⟨fuel, rfl⟩ := Nat.exists_eq_add_of_le' (show 1 ≤ fuel by omega)
  have h : r.At source (t :: (ts ++ (us' ++ u :: us))) v literals := by simpa using h
  rw [ifStmt]
  exact Leads.advance h (by simp) fun r₁ h₁ ↦ (stumbles_condition he hs hbrace h₁).bind fun _ ↦
    keeps_line.bind fun _ ↦ (invariant_spoiled.keeps_emit _).bind fun _ ↦
    (invariant_spoiled.keeps_bracedBlock fuel _).bind fun _ ↦ keeps_elseOrNot fuel _ _ _ _

/-- The block of a conditional, with or without alternative. -/
theorem stumbles_ifBody {t : Token} (vs : List Token)
    (hlawful : ∀ inLoop, s.Lawful inLoop →
      condition.Sound ∧ (body.filterMap Stmt.declared?).Nodup ∧ lawfulAll inLoop body)
    (hcondition : Phrase.Derives (.expression .assignment condition) ts)
    (hbody : StumblesBraced body us') : StumblesConditional s (t :: ts ++ us' ++ vs) := by
  intro source fuel r u us v literals h hl hf
  obtain ⟨hs, hnodup, hl⟩ := hlawful _ hl
  obtain ⟨w, ws, hw⟩ := List.exists_cons_of_ne_nil (show vs ++ u :: us ≠ [] by simp)
  have hlength := congrArg List.length hw
  obtain ⟨fuel, rfl⟩ := Nat.exists_eq_add_of_le' (show 1 ≤ fuel by omega)
  have h : r.At source (t :: (ts ++ (us' ++ w :: ws))) v literals := by simpa [← hw] using h
  rw [ifStmt]
  refine Leads.advance h (by simp) fun r₁ h₁ ↦
    Leads.bind (leads_condition_of_stumbles hcondition hs hbody h₁) ?_
  rintro _ r₂ ⟨literals₂, h₂⟩
  exact Leads.line h₂ (Leads.emit h₂ fun r₃ h₃ ↦
    (stumbles_bracedBlock hbody h₃ hnodup hl (by grind) _).bind fun _ ↦ keeps_elseOrNot fuel _ _ _ _)

theorem stumbles_elseOther {alternative : Stmt} {testLine elseLine : Nat} {t k : Token}
    {vs : List Token} (hcondition : Phrase.Derives (.expression .assignment condition) ts)
    (hbody : ReadsBraced body closeLine us') (hk : k.kind = .keyword .elseKw)
    (hother : StumblesAlternative alternative vs) :
    StumblesConditional (.ifElse condition testLine body closeLine elseLine alternative)
      (t :: ts ++ us' ++ k :: vs) := by
  intro source fuel r u us v literals h ⟨hs, hnodup, hl, hl'⟩ hf
  obtain ⟨fuel, rfl⟩ := Nat.exists_eq_add_of_le' (show 1 ≤ fuel by omega)
  have h : r.At source (t :: (ts ++ (us' ++ k :: (vs ++ u :: us)))) v literals := by simpa using h
  rw [ifStmt]
  refine Leads.advance h (by simp) fun r₁ h₁ ↦
    Leads.bind (leads_condition hcondition hs hbody h₁) ?_
  rintro _ r₂ ⟨rfl, literals₂, h₂⟩
  refine Leads.line h₂ (Leads.emit h₂ fun r₃ h₃ ↦
    Leads.bind (leads_bracedBlock hbody h₃ hnodup hl (by grind) _) ?_)
  rintro _ r₄ ⟨rfl, literals₄, h₄⟩
  exact Leads.accept h₄ hk (by simp) fun r₅ h₅ ↦ Leads.line h₅ (Leads.emit h₅ fun r₆ h₆ ↦
    Leads.join h₆ fun r₇ h₇ ↦ (hother h₇ hl' (by grind)).bind fun _ ↦
    invariant_spoiled.keeps_join.bind fun _ ↦ .pure _)

theorem stumbles_branch (h : StumblesConditional s ts)
    (hbegins : ∃ t rest, ts = t :: rest ∧ t.kind = .keyword .ifKw) : StumblesStatement s ts := by
  intro source fuel r u us v literals hr hl hf
  obtain ⟨fuel, rfl⟩ := Nat.exists_eq_add_of_le' (show 1 ≤ fuel by omega)
  obtain ⟨t, rest, rfl, ht⟩ := hbegins
  rw [statement]
  refine Leads.current hr ?_
  rw [ht]
  exact h hr hl (by omega)

theorem stumbles_elseIf (h : StumblesConditional s ts)
    (hbegins : ∃ t rest, ts = t :: rest ∧ t.kind = .keyword .ifKw) : StumblesAlternative s ts := by
  intro source fuel r u us v literals hr hl hf
  obtain ⟨fuel, rfl⟩ := Nat.exists_eq_add_of_le' (show 1 ≤ fuel by omega)
  obtain ⟨t, rest, rfl, ht⟩ := hbegins
  rw [elseBranch]
  refine Leads.check hr ?_
  rw [if_pos (decide_eq_true ht)]
  exact h hr hl (by omega)

theorem stumbles_elseBlock (hbody : StumblesBraced body ts) :
    StumblesAlternative (.block body closeLine) ts := by
  intro source fuel r u us v literals h ⟨hnodup, hl⟩ hf
  obtain ⟨fuel, rfl⟩ := Nat.exists_eq_add_of_le' (show 1 ≤ fuel by omega)
  have hblock := stumbles_bracedBlock hbody h hnodup hl (show _ < fuel by omega) "'\x7b' after else"
  obtain ⟨o, rest, rfl, ho, -⟩ := hbody
  rw [elseBranch]
  refine Leads.check h ?_
  rw [if_neg (by simp [ho])]
  exact hblock.bind fun _ ↦ .pure _

/-- Behind the condition of a loop nothing is lost. -/
theorem keeps_whileRest (fuel : Nat) (condition : Expr) (testLine : Nat) : Keeps Reader.Spoiled (do
    let (body, closeLine) ← bracedBlock fuel "'\x7b' after condition"
    emit 1
    join
    closeLoop
    return Stmt.whileLoop condition testLine body closeLine) :=
  (invariant_spoiled.keeps_bracedBlock fuel _).bind fun _ ↦ (invariant_spoiled.keeps_emit _).bind fun _ ↦
    invariant_spoiled.keeps_join.bind fun _ ↦ invariant_spoiled.keeps_closeLoop.bind fun _ ↦ .pure _

theorem stumbles_whileTest {t : Token} (ht : t.kind = .keyword .whileKw)
    (he : Phrase.Derives (.expression .assignment e) ts) (hs : ¬ e.Sound)
    (hbrace : ∃ o rest, us' = o :: rest ∧ o.kind = .symbol .leftBrace) :
    StumblesStatement s (t :: ts ++ us') := by
  intro source fuel r u us v literals h _ hf
  obtain ⟨fuel, rfl⟩ := Nat.exists_eq_add_of_le' (show 2 ≤ fuel by omega)
  have h : r.At source (t :: (ts ++ (us' ++ u :: us))) v literals := by simpa using h
  rw [statement]
  refine Leads.current h ?_
  rw [ht]
  show Stumbles (whileStmt (fuel + 1)) r
  rw [whileStmt]
  exact Leads.advance h (by simp) fun r₁ h₁ ↦ Leads.join h₁ fun r₂ h₂ ↦
    (stumbles_condition he hs hbrace h₂).bind fun _ ↦ keeps_line.bind fun _ ↦
    (invariant_spoiled.keeps_emit _).bind fun _ ↦ invariant_spoiled.keeps_openLoop.bind fun _ ↦
    keeps_whileRest fuel _ _

theorem stumbles_whileBody {testLine : Nat} {t : Token} (ht : t.kind = .keyword .whileKw)
    (hcondition : Phrase.Derives (.expression .assignment condition) ts)
    (hbody : StumblesBraced body us') :
    StumblesStatement (.whileLoop condition testLine body closeLine) (t :: ts ++ us') := by
  intro source fuel r u us v literals h ⟨hs, hnodup, hl⟩ hf
  obtain ⟨fuel, rfl⟩ := Nat.exists_eq_add_of_le' (show 2 ≤ fuel by omega)
  have h : r.At source (t :: (ts ++ (us' ++ u :: us))) v literals := by simpa using h
  rw [statement]
  refine Leads.current h ?_
  rw [ht]
  show Stumbles (whileStmt (fuel + 1)) r
  rw [whileStmt]
  refine Leads.advance h (by simp) fun r₁ h₁ ↦ Leads.join h₁ fun r₂ h₂ ↦
    Leads.bind (leads_condition_of_stumbles hcondition hs hbody h₂) ?_
  rintro _ r₃ ⟨literals₃, h₃⟩
  exact Leads.line h₃ (Leads.emit h₃ fun r₄ h₄ ↦ Leads.openLoop h₄ fun r₅ h₅ ↦
    (stumbles_bracedBlock hbody h₅ hnodup hl (by grind) _).bind fun _ ↦
    (invariant_spoiled.keeps_emit _).bind fun _ ↦ invariant_spoiled.keeps_join.bind fun _ ↦
    invariant_spoiled.keeps_closeLoop.bind fun _ ↦ .pure _)

/-- Behind the block of a loop over elements nothing is lost. -/
theorem keeps_forRest (stmt : Stmt) : Keeps Reader.Spoiled (do
    closeScope
    emit 1
    join
    closeLoop
    closeScope
    return stmt) :=
  invariant_spoiled.keeps_closeScope.bind fun _ ↦ (invariant_spoiled.keeps_emit _).bind fun _ ↦
    invariant_spoiled.keeps_join.bind fun _ ↦ invariant_spoiled.keeps_closeLoop.bind fun _ ↦
    invariant_spoiled.keeps_closeScope.bind fun _ ↦ .pure _

theorem stumbles_forSource {name : String} {t n i : Token} (ht : t.kind = .keyword .forKw)
    (hn : n.kind = .identifier name) (hi : i.kind = .keyword .inKw)
    (he : Phrase.Derives (.expression .assignment e) ts) (hs : ¬ e.Sound)
    (hbrace : ∃ o rest, us' = o :: rest ∧ o.kind = .symbol .leftBrace) :
    StumblesStatement s (t :: n :: i :: ts ++ us') := by
  intro source fuel r u us v literals h _ hf
  obtain ⟨fuel, rfl⟩ := Nat.exists_eq_add_of_le' (show 2 ≤ fuel by omega)
  have h : r.At source (t :: n :: i :: (ts ++ (us' ++ u :: us))) v literals := by simpa using h
  rw [statement]
  refine Leads.current h ?_
  rw [ht]
  show Stumbles (forStmt (fuel + 1)) r
  rw [forStmt]
  exact Leads.advance h (by simp) fun r₁ h₁ ↦ Leads.currentSpan (Leads.name? h₁ hn fun r₂ h₂ ↦
    Leads.accept h₂ hi (by simp) fun r₃ h₃ ↦ Leads.openScope h₃ fun r₄ h₄ ↦
    (stumbles_condition he hs hbrace h₄).bind fun _ ↦ keeps_line.bind fun _ ↦
    (invariant_spoiled.keeps_emit _).bind fun _ ↦ (invariant_spoiled.keeps_declare _ trivial).bind fun _ ↦
    invariant_spoiled.keeps_join.bind fun _ ↦ (invariant_spoiled.keeps_emit _).bind fun _ ↦
    invariant_spoiled.keeps_openLoop.bind fun _ ↦ invariant_spoiled.keeps_openScope.bind fun _ ↦
    (invariant_spoiled.keeps_emit _).bind fun _ ↦ (invariant_spoiled.keeps_declare _ trivial).bind fun _ ↦
    (invariant_spoiled.keeps_bracedBlock fuel _).bind fun _ ↦ keeps_forRest _)

theorem stumbles_forBody {name : String} {items : Expr} {testLine : Nat} {t n i : Token}
    (ht : t.kind = .keyword .forKw) (hn : n.kind = .identifier name) (hi : i.kind = .keyword .inKw)
    (hitems : Phrase.Derives (.expression .assignment items) ts) (hbody : StumblesBraced body us') :
    StumblesStatement (.forIn name items testLine body closeLine) (t :: n :: i :: ts ++ us') := by
  intro source fuel r u us v literals h ⟨hs, hnodup, hl⟩ hf
  obtain ⟨fuel, rfl⟩ := Nat.exists_eq_add_of_le' (show 2 ≤ fuel by omega)
  have h : r.At source (t :: n :: i :: (ts ++ (us' ++ u :: us))) v literals := by simpa using h
  rw [statement]
  refine Leads.current h ?_
  rw [ht]
  show Stumbles (forStmt (fuel + 1)) r
  rw [forStmt]
  refine Leads.advance h (by simp) fun r₁ h₁ ↦ Leads.currentSpan (Leads.name? h₁ hn fun r₂ h₂ ↦
    Leads.accept h₂ hi (by simp) fun r₃ h₃ ↦ Leads.openScope h₃ fun r₄ h₄ ↦
    Leads.bind (leads_condition_of_stumbles hitems hs hbody h₄) ?_)
  rintro _ r₅ ⟨literals₅, h₅⟩
  exact Leads.line h₅ (Leads.emit h₅ fun r₆ h₆ ↦ Leads.declare h₆ rfl (by simp) fun r₇ h₇ ↦
    Leads.join h₇ fun r₈ h₈ ↦ Leads.emit h₈ fun r₉ h₉ ↦ Leads.openLoop h₉ fun r₁₀ h₁₀ ↦
    Leads.openScope h₁₀ fun r₁₁ h₁₁ ↦ Leads.emit h₁₁ fun r₁₂ h₁₂ ↦
    Leads.declare h₁₂ rfl (by simp) fun r₁₃ h₁₃ ↦
    (stumbles_bracedBlock hbody h₁₃ hnodup hl (by grind) _).bind fun _ ↦ keeps_forRest _)

end Reading

/-! ### Every clause -/

namespace Hole

open Reading

variable {line : Nat} {hole : Hole} {before behind ts : List Token} {e : Expr}

/-- With an expression that is not sound in its hole, every clause stumbles that is lawful with another. -/
theorem Derives.stumbles (h : hole.Derives line before behind)
    (he : Phrase.Derives (.expression .assignment e) ts) (hline : lastLine ts = line) (hs : ¬ e.Sound)
    (e₀ : Expr) : StumblesClause (hole.fill e₀) (before ++ ts ++ behind) := by
  have regroup {c : Clause} {us us' : List Token} (h : StumblesClause c us) (hus : us = us') :
      StumblesClause c us' := hus ▸ h
  induction h with
  | declare ht hn ho hc => exact stumbles_declare ht hn ho hc he hs
  | giveBack ht hc => exact stumbles_giveBack ht hc he hs
  | expression hc => exact stumbles_expressionStmt hc he hs
  | whileTest ht hbody => exact stumbles_whileTest ht he hs hbody.begins
  | whileBody ht htest _ ih =>
    exact regroup (c := .statement _) (stumbles_whileBody ht htest ih) (by simp)
  | forSource ht hn hi hbody => exact stumbles_forSource ht hn hi he hs hbody.begins
  | forBody ht hn hi hsource _ ih =>
    exact regroup (c := .statement _) (stumbles_forBody ht hn hi hsource ih) (by simp)
  | block _ ih => exact stumbles_block ih
  | branch h ih => exact stumbles_branch ih (h.fill he hline).begins.2
  | ifTest _ hbody => exact stumbles_ifTest he hs hbody.begins
  | @ifBody _ _ _ i _ _ _ _ htest _ ih =>
    refine regroup (stumbles_ifBody (s := .ifThen _ _ _ _) (t := i) [] ?_ htest ih) (by simp)
    exact fun _ hl ↦ hl
  | @elseTest _ _ _ i us k vs _ hbody =>
    obtain ⟨o, rest, rfl, ho⟩ := hbody.begins
    exact stumbles_ifTest he hs ⟨o, rest ++ k :: vs, rfl, ho⟩
  | @elseBody _ _ _ _ i _ _ _ k vs _ htest _ _ _ ih =>
    refine regroup (stumbles_ifBody (s := .ifElse _ _ _ _ _ _) (t := i) (k :: vs) ?_ htest ih) (by simp)
    exact fun _ hl ↦ ⟨hl.1, hl.2.1, hl.2.2.1⟩
  | @elseOther _ _ _ _ i _ _ _ _ _ _ htest hbody hk _ ih =>
    exact regroup (c := .conditional _)
      (stumbles_elseOther (t := i) htest (reads_clause hbody) hk ih) (by simp)
  | elseIf h ih => exact stumbles_elseIf ih (h.fill he hline).begins.2
  | elseBlock _ ih => exact stumbles_elseBlock ih
  | @braced _ _ c _ _ ho _ _ ih =>
    exact regroup (c := .braced _ 0) (stumbles_braced (c := c) ho ih) (by simp)
  | @first _ _ _ _ us h _ ih =>
    exact regroup (c := .sequence _) (stumbles_first ih (h.fill he hline).begins us) (by simp)
  | later hfirst h ih =>
    exact regroup (c := .sequence _) (stumbles_later (reads_clause hfirst) hfirst.begins ih
      (by simp [he.ne_nil]) (h.fill he hline).begins) (by simp)

end Hole

end StackScript
