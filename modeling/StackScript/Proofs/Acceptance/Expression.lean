import StackScript.Proofs.Acceptance.Basic
import StackScript.Proofs.Passage.Precedence

/-!
# Reading expressions that are written well

The reader reads the first operand of an expression before it knows what it will be an operand of. So
what is shown of every phrase, along its derivation, is that reading from its first token on comes to
continuing from behind it, with the tree of the phrase in hand (`reads_phrase`). For a whole expression
there is nothing to continue, and its tree is what is read (`leads_expressionFrom`).
-/

namespace StackScript

/-! ### How phrases begin -/

/-- A phrase begins with a token that opens an expression; between brackets there is the opening one
before it. -/
theorem Phrase.Derives.begins {p : Phrase} {ts : List Token} (h : p.Derives ts) :
    ∃ t rest, ts = t :: rest ∧ match p with
      | .enclosed opening _ _ _ _ => t.kind = .symbol opening
      | _ => ∃ o : Opening, o.Begins t.kind := by
  induction h with
  | tighter _ ih | read _ ih | one _ ih => exact ih
  | literal h => exact ⟨_, _, rfl, .literal _, h⟩
  | group h => exact ⟨_, _, rfl, .group, h⟩
  | list _ ih =>
    obtain ⟨t, rest, rfl, h⟩ := ih
    exact ⟨t, rest, rfl, .list, h⟩
  | call h => exact ⟨_, _, rfl, .variable _, h⟩
  | construct h => exact ⟨_, _, rfl, .construct, h⟩
  | callStatic h | staticField h => exact ⟨_, _, rfl, .className _, h⟩
  | negate h => exact ⟨_, _, rfl, .negate, h⟩
  | not h => exact ⟨_, _, rfl, .not, h⟩
  | «variable» h => exact ⟨_, _, rfl, .variable _, h⟩
  | callMethod _ _ _ _ ih | binary _ _ _ ih | connect _ _ _ ih | assign _ _ _ ih
  | update _ _ _ _ ih | element _ _ _ _ ih | field _ _ _ ih | more _ _ _ ih =>
    obtain ⟨t, rest, rfl, h⟩ := ih
    exact ⟨t, _, rfl, h⟩
  | none h => exact ⟨_, _, rfl, h⟩
  | some h => exact ⟨_, _, rfl, h⟩

namespace Reading

variable {source : String}

/-! ### What is shown of phrases -/

/-- A token that may stand behind an expression of some layer, and does not belong to it. -/
structure Follows (layer : Layer) (least : Precedence) (k : TokenKind) : Prop where
  continuation : ∀ c, k.continuation? = some c → c.layer.rank ≤ layer.rank
  notCall : k ≠ .symbol .leftParen
  assigns : least = .assignment → k.assigns = false

/-- Reading from an opening token on. -/
def opened (fuel : Nat) (least : Precedence) (opening : Opening) : Reading Expr := do
  advance
  let first ← openWith fuel opening (least = .assignment)
  continueFrom fuel least (least = .assignment) first

/-- Reading from the first token of an expression on comes to continuing behind it. -/
def ReadsExpression (layer : Layer) (e : Expr) (ts : List Token) : Prop :=
  e.Sound → ∀ {source : String} {fuel : Nat} {least : Precedence} {r : Reader} {u : Token}
    {us : List Token} {v : View} {literals : List Literal} {P : Expr → Reader → Prop},
    r.At source (ts ++ u :: us) v literals → 8 * (ts ++ u :: us).length ≤ fuel →
    least.level ≤ 7 → least.layer.rank ≤ layer.rank → Follows layer least u.kind →
    (∀ fuel' (r' : Reader), 8 * (u :: us).length < fuel' →
      r'.At source (u :: us) (v.read ts) (e.trail literals) →
      Leads (continueFrom fuel' least (least = .assignment) e) r' P) →
    ∀ o : Opening, o.Begins r.current.kind → Leads (opened fuel least o) r P

/-- Reading from the first token of a place on comes to what may follow a place. -/
def ReadsPlace (p : Place) (ts : List Token) : Prop :=
  p.Sound → ∀ {source : String} {fuel : Nat} {least : Precedence} {r : Reader} {u : Token}
    {us : List Token} {v : View} {literals : List Literal} {P : Expr → Reader → Prop},
    r.At source (ts ++ u :: us) v literals → 8 * (ts ++ u :: us).length ≤ fuel →
    least.level ≤ 7 → u.kind ≠ .symbol .leftParen →
    (∀ fuel' fuel'' operands (r' : Reader) literals', 8 * (u :: us).length < fuel' →
      8 * (u :: us).length < fuel'' → r'.At source (u :: us) (v.read ts) literals' →
      Leads (place fuel' p operands (least = .assignment) >>=
        continueFrom fuel'' least (least = .assignment)) r' P) →
    ∀ o : Opening, o.Begins r.current.kind → Leads (opened fuel least o) r P

/-- A token that may stand behind a whole expression. -/
structure Closes (least : Precedence) (k : TokenKind) : Prop where
  continuation : ∀ c, k.continuation? = some c → c.layer.rank < least.layer.rank
  notCall : k ≠ .symbol .leftParen
  assigns : least = .assignment → k.assigns = false

/-- Expressions between commas are read one after the other. -/
def ReadsItems (es : List Expr) (ts : List Token) : Prop :=
  soundAll es → ∀ {source : String} {fuel : Nat} {r : Reader} {u : Token} {us : List Token}
    {v : View} {literals : List Literal},
    r.At source (ts ++ u :: us) v literals → 8 * (ts ++ u :: us).length + 2 ≤ fuel →
    Closes .assignment u.kind → u.kind ≠ .symbol .comma →
    Leads (items fuel) r fun es' r' ↦
      es' = es ∧ ∃ literals', r'.At source (u :: us) (v.read ts) literals'

/-- What stands between brackets are expressions, or nothing. -/
def ReadsEnclosed (opening closing : Symbol) (es : List Expr) (openLine closeLine : Nat)
    (ts : List Token) : Prop :=
  ∃ o mid c, ts = o :: mid ++ [c] ∧ o.kind = .symbol opening ∧ c.kind = .symbol closing ∧
    openLine = o.span.line ∧ closeLine = c.span.line ∧
    (es = [] ∧ mid = [] ∨
      (∃ t rest, mid = t :: rest ∧ ∃ o : Opening, o.Begins t.kind) ∧ ReadsItems es mid)

/-- What is shown of a phrase. -/
def ReadsPhrase : Phrase → List Token → Prop
  | .expression layer e, ts => ReadsExpression layer e ts
  | .place p, ts => ReadsPlace p ts
  | .items es, ts => ReadsItems es ts
  | .enclosed opening closing es openLine closeLine, ts =>
    ReadsEnclosed opening closing es openLine closeLine ts

variable {r : Reader} {u : Token} {us : List Token} {v : View} {literals : List Literal}

/-! ### Whole expressions -/

theorem run_rejectAssignment (h : r.current.kind.assigns = false) :
    rejectAssignment.run r = ((), r) := by
  rw [rejectAssignment, StateT.run_bind]
  show (if r.current.kind.assigns then _ else _ : Reading Unit).run r = _
  rw [h]
  rfl

/-- Nothing is read where nothing continues. -/
theorem run_continueFrom {fuel : Nat} {least : Precedence} (hf : 0 < fuel) (hl : least.level ≤ 7)
    (hstops : ∀ c, r.current.kind.continuation? = some c → c.layer.rank < least.layer.rank)
    (assignable : Bool) (left : Expr) :
    (continueFrom fuel least assignable left).run r = (left, r) := by
  obtain ⟨fuel, rfl⟩ : ∃ n, fuel = n + 1 := ⟨fuel - 1, by omega⟩
  rw [continueFrom, run_current]
  cases hc : r.current.kind.continuation? with
  | none => rfl
  | some c =>
    dsimp only
    rw [if_pos ((Continuation.level_lt_iff hl c).mpr (hstops c hc))]
    rfl

/-- An expression is read with everything that belongs to it. -/
theorem leads_expressionFrom {fuel : Nat} {least : Precedence} {e : Expr} {ts : List Token}
    (hreads : ReadsExpression least.layer e ts)
    (hbegins : ∃ t rest, ts = t :: rest ∧ ∃ o : Opening, o.Begins t.kind) (hs : e.Sound)
    (h : r.At source (ts ++ u :: us) v literals) (hf : 8 * (ts ++ u :: us).length < fuel)
    (hl : least.level ≤ 7) (hu : Closes least u.kind) :
    Leads (expressionFrom fuel least) r fun e' r' ↦
      e' = e ∧ r'.At source (u :: us) (v.read ts) (e.trail literals) := by
  obtain ⟨t, rest, rfl, o, ho⟩ := hbegins
  obtain ⟨fuel, rfl⟩ : ∃ n, fuel = n + 1 := ⟨fuel - 1, by omega⟩
  have hopened : Leads (opened fuel least o) r fun e' r' ↦
      e' = e ∧ r'.At source (u :: us) (v.read (t :: rest)) (e.trail literals) := by
    refine hreads hs h (by omega) hl (Nat.le_refl _)
      ⟨fun c hc ↦ Nat.le_of_lt (hu.continuation c hc), hu.notCall, hu.assigns⟩
      (fun fuel' r' hf' h' ↦ ?_) o (h.current_eq ▸ ho)
    -- What stands behind a whole expression does not continue it.
    rw [Leads, run_continueFrom (Nat.zero_lt_of_lt hf') hl (h'.current_eq ▸ hu.continuation)]
    exact ⟨rfl, h'⟩
  rw [expressionFrom]
  refine .current h ?_
  rw [TokenKind.opening?_eq_some.mpr ho]
  show Leads (opened fuel least o >>= fun whole ↦ do
    if least = .assignment then rejectAssignment
    return whole) r _
  refine .bind hopened ?_
  rintro _ r' ⟨rfl, h'⟩
  split
  · rename_i hassignment
    exact .of_run (run_rejectAssignment (h'.current_eq ▸ hu.assigns hassignment)) ⟨rfl, h'⟩
  · exact ⟨rfl, h'⟩

/-! ### The parts of phrases -/

theorem leads_opened {fuel : Nat} {least : Precedence} {opening : Opening} {t : Token}
    {ts : List Token} {P : Expr → Reader → Prop} (h : r.At source (t :: ts) v literals)
    (hts : ts ≠ []) (hP : ∀ r' : Reader, r'.At source ts (v.read [t]) literals →
      Leads (openWith fuel opening (least = .assignment)) r' fun first r'' ↦
        Leads (continueFrom fuel least (least = .assignment) first) r'' P) :
    Leads (opened fuel least opening) r P :=
  .advance h hts hP

/-- A token that continues an expression is read, and what it asks for. -/
theorem leads_continueFrom (c : Continuation) {fuel : Nat} {least : Precedence} {assignable : Bool}
    {left : Expr} {t : Token} {ts : List Token} {P : Expr → Reader → Prop}
    (h : r.At source (t :: ts) v literals) (hts : ts ≠ []) (hc : c.Begins t.kind)
    (hl : least.level ≤ 7) (hrank : least.layer.rank ≤ c.layer.rank)
    (hP : ∀ r' : Reader, r'.At source ts (v.read [t]) literals →
      Leads (continueWith fuel c assignable left) r' fun next r'' ↦
        Leads (continueFrom fuel least assignable next) r'' P) :
    Leads (continueFrom (fuel + 1) least assignable left) r P := by
  rw [continueFrom]
  refine .current h ?_
  rw [TokenKind.continuation?_eq_some.mpr hc]
  dsimp only
  rw [if_neg fun hlevel ↦ Nat.not_lt_of_le hrank ((Continuation.level_lt_iff hl c).mp hlevel)]
  exact .advance h hts hP

/-- What stands between brackets is read up to the closing one. -/
theorem leads_between {α : Type} {fuel : Nat} {closing : Symbol} {es : List Expr}
    {mid : List Token} {c : Token} {rest : List Expr → Reading α} {P : α → Reader → Prop}
    (hclosing : closing = .rightParen ∨ closing = .rightBracket)
    (hmid : es = [] ∧ mid = [] ∨
      (∃ t rest, mid = t :: rest ∧ ∃ o : Opening, o.Begins t.kind) ∧ ReadsItems es mid)
    (hs : soundAll es) (hc : c.kind = .symbol closing)
    (h : r.At source (mid ++ c :: u :: us) v literals)
    (hf : 8 * (mid ++ c :: u :: us).length + 2 ≤ fuel)
    (hrest : ∀ (r' : Reader) literals', r'.At source (c :: u :: us) (v.read mid) literals' →
      Leads (rest es) r' P) :
    Leads (do if ← check (.symbol closing) then rest [] else rest (← items fuel)) r P := by
  rcases hmid with ⟨rfl, rfl⟩ | ⟨⟨t, tail, rfl, o, ho⟩, hitems⟩
  · refine .check h ?_
    rw [if_pos (decide_eq_true hc)]
    exact hrest r literals h
  · refine .check h ?_
    rw [if_neg]
    · refine .bind (hitems hs h hf ?_ ?_) ?_
      · rw [hc]
        rcases hclosing with rfl | rfl <;>
          exact ⟨by simp [TokenKind.continuation?], by simp, fun _ ↦ rfl⟩
      · rw [hc]
        rcases hclosing with rfl | rfl <;> simp
      · rintro _ r' ⟨rfl, literals', h'⟩
        exact hrest r' literals' h'
    · intro ht
      have ht := of_decide_eq_true ht
      have hopening := TokenKind.opening?_eq_some.mpr ho
      rw [ht] at hopening
      rcases hclosing with rfl | rfl <;> cases hopening

/-- Arguments are read behind their opening parenthesis. -/
theorem leads_arguments (fuel : Nat) {es : List Expr} {openLine closeLine : Nat} {ts : List Token}
    (henclosed : ReadsEnclosed .leftParen .rightParen es openLine closeLine ts) (hs : soundAll es) :
    ∃ o rest, ts = o :: rest ∧ o.kind = .symbol .leftParen ∧
      ∀ {source : String} {r : Reader} {u : Token} {us : List Token} {v : View}
        {literals : List Literal}, r.At source (rest ++ u :: us) (v.read [o]) literals →
        8 * (rest ++ u :: us).length + 3 ≤ fuel →
        Leads (arguments fuel) r fun args r' ↦
          args = (es, openLine, closeLine) ∧ r'.At source (u :: us) (v.read (o :: rest)) [] := by
  obtain ⟨o, mid, c, rfl, ho, hc, rfl, rfl, hmid⟩ := henclosed
  refine ⟨o, mid ++ [c], rfl, ho, fun {source r u us v literals} h hf ↦ ?_⟩
  obtain ⟨fuel, rfl⟩ := Nat.exists_eq_add_of_le' (show 1 ≤ fuel by omega)
  rw [List.append_assoc] at h
  rw [arguments]
  refine .line h (.emit h fun r₁ h₁ ↦ ?_)
  refine leads_between (.inl rfl) hmid hs hc h₁ (by grind) fun r₂ literals' h₂ ↦ ?_
  refine .close h₂ hc fun r₃ h₃ ↦ .emit h₃ fun r₄ h₄ ↦ .line h₄ (.pure ⟨rfl, ?_⟩)
  simpa using h₄

/-! ### Operands -/

theorem reads_literal {value : Literal} {t : Token} (ht : t.kind.literal? = some value) :
    ReadsExpression .primary (.literal value t.span.line) [t] := by
  intro _ source fuel least r u us v literals P h hf _ _ _ hP o ho
  obtain rfl : Opening.literal value = o := Opening.Begins.unique ht (h.current_eq ▸ ho)
  obtain ⟨fuel, rfl⟩ := Nat.exists_eq_add_of_le' (show 1 ≤ fuel by grind)
  refine leads_opened h (by simp) fun r₁ h₁ ↦ ?_
  rw [openWith]
  exact .push h₁ fun r₂ h₂ ↦ .line h₂ (.pure (hP _ r₂ (by grind) h₂))

theorem reads_group {e : Expr} {ts : List Token} {o c : Token} (ho : o.kind = .symbol .leftParen)
    (hreads : ReadsExpression .assignment e ts)
    (hbegins : ∃ t rest, ts = t :: rest ∧ ∃ o : Opening, o.Begins t.kind)
    (hc : c.kind = .symbol .rightParen) : ReadsExpression .primary e (o :: ts ++ [c]) := by
  intro hs source fuel least r u us v literals P h hf hl _ _ hP o' ho'
  have h : r.At source (o :: (ts ++ c :: u :: us)) v literals := by simpa using h
  obtain rfl : Opening.group = o' := Opening.Begins.unique ho (h.current_eq ▸ ho')
  obtain ⟨fuel, rfl⟩ := Nat.exists_eq_add_of_le' (show 1 ≤ fuel by grind)
  refine leads_opened h (by simp) fun r₁ h₁ ↦ ?_
  rw [openWith]
  refine .bind (leads_expressionFrom hreads hbegins hs h₁ (by grind) (by decide)
    ⟨by simp [hc, TokenKind.continuation?], by simp [hc], fun _ ↦ by rw [hc]; rfl⟩) ?_
  rintro _ r₂ ⟨rfl, h₂⟩
  refine .close h₂ hc fun r₃ h₃ ↦ .pure (hP _ r₃ (by grind) ?_)
  simpa using h₃

theorem reads_list {es : List Expr} {openLine closeLine : Nat} {ts : List Token}
    (h : ReadsEnclosed .leftBracket .rightBracket es openLine closeLine ts) :
    ReadsExpression .primary (.list es openLine closeLine) ts := by
  obtain ⟨t, mid, c, rfl, ho, hc, rfl, rfl, hmid⟩ := h
  intro hs source fuel least r u us v literals P h hf hl _ _ hP o' ho'
  have h : r.At source (t :: (mid ++ c :: u :: us)) v literals := by simpa using h
  obtain rfl : Opening.list = o' := Opening.Begins.unique ho (h.current_eq ▸ ho')
  obtain ⟨fuel, rfl⟩ := Nat.exists_eq_add_of_le' (show 1 ≤ fuel by grind)
  refine leads_opened h (by simp) fun r₁ h₁ ↦ ?_
  rw [openWith]
  refine .line h₁ (.emit h₁ fun r₂ h₂ ↦ ?_)
  refine leads_between (.inr rfl) hmid hs hc h₂ (by grind) fun r₃ literals' h₃ ↦ ?_
  refine .close h₃ hc fun r₄ h₄ ↦ .emit h₄ fun r₅ h₅ ↦ .line h₅ (.pure (hP _ r₅ (by grind) ?_))
  show r₅.At source (u :: us) _ []
  simpa using h₅

theorem reads_call {name : String} {args : List Expr} {openLine closeLine : Nat} {t : Token}
    {ts : List Token} (ht : t.kind = .identifier name)
    (hargs : ReadsEnclosed .leftParen .rightParen args openLine closeLine ts) :
    ReadsExpression .primary (.call name args openLine closeLine) (t :: ts) := by
  intro hs source fuel least r u us v literals P h hf hl _ _ hP o' ho'
  obtain rfl : Opening.variable name = o' := Opening.Begins.unique ht (h.current_eq ▸ ho')
  obtain ⟨fuel, rfl⟩ := Nat.exists_eq_add_of_le' (show 1 ≤ fuel by grind)
  obtain ⟨o, rest, rfl, ho, harguments⟩ := leads_arguments fuel hargs hs
  refine leads_opened h (by simp) fun r₁ h₁ ↦ ?_
  rw [openWith]
  refine .accept h₁ ho (by simp) fun r₂ h₂ ↦ .bind (harguments h₂ (by grind)) ?_
  rintro _ r₃ ⟨rfl, h₃⟩
  exact .pure (hP _ r₃ (by grind) (by simpa [Expr.trail, Expr.constant?] using h₃))

theorem reads_construct {type : String} {args : List Expr} {openLine closeLine : Nat} {n t : Token}
    {ts : List Token} (hn : n.kind = .keyword .newKw) (ht : t.kind = .className type)
    (hargs : ReadsEnclosed .leftParen .rightParen args openLine closeLine ts) :
    ReadsExpression .primary (.construct type args openLine closeLine) (n :: t :: ts) := by
  intro hs source fuel least r u us v literals P h hf hl _ _ hP o' ho'
  obtain rfl : Opening.construct = o' := Opening.Begins.unique hn (h.current_eq ▸ ho')
  obtain ⟨fuel, rfl⟩ := Nat.exists_eq_add_of_le' (show 1 ≤ fuel by grind)
  obtain ⟨o, rest, rfl, ho, harguments⟩ := leads_arguments fuel hargs hs
  refine leads_opened h (by simp) fun r₁ h₁ ↦ ?_
  rw [openWith]
  refine .current h₁ ?_
  rw [ht]
  refine .advance h₁ (by simp) fun r₂ h₂ ↦ .expect h₂ ho fun r₃ h₃ ↦
    .bind (harguments h₃ (by grind)) ?_
  rintro _ r₄ ⟨rfl, h₄⟩
  exact .pure (hP _ r₄ (by grind) (by simpa [Expr.trail, Expr.constant?] using h₄))

theorem reads_callStatic {type member : String} {args : List Expr} {openLine closeLine : Nat}
    {t c m : Token} {ts : List Token} (ht : t.kind = .className type)
    (hc : c.kind = .symbol .colon) (hm : m.kind.member? = some member)
    (hargs : ReadsEnclosed .leftParen .rightParen args openLine closeLine ts) :
    ReadsExpression .primary (.callStatic type member args openLine closeLine)
      (t :: c :: m :: ts) := by
  intro hs source fuel least r u us v literals P h hf hl _ _ hP o' ho'
  obtain rfl : Opening.className type = o' := Opening.Begins.unique ht (h.current_eq ▸ ho')
  obtain ⟨fuel, rfl⟩ := Nat.exists_eq_add_of_le' (show 1 ≤ fuel by grind)
  obtain ⟨o, rest, rfl, ho, harguments⟩ := leads_arguments fuel hargs hs
  refine leads_opened h (by simp) fun r₁ h₁ ↦ ?_
  rw [openWith]
  refine .expect h₁ hc fun r₂ h₂ ↦ .memberName? h₂ hm fun r₃ h₃ ↦ .accept h₃ ho (by simp) fun r₄ h₄ ↦
    .bind (harguments h₄ (by grind)) ?_
  rintro _ r₅ ⟨rfl, h₅⟩
  exact .pure (hP _ r₅ (by grind) (by simpa [Expr.trail, Expr.constant?] using h₅))

/-! ### Operators and continuations -/

/-- Behind an expression of the layer that a continuation makes, the continuation may follow. -/
theorem Follows.of_begins {c : Continuation} {k : TokenKind} (h : c.Begins k)
    {least : Precedence} : Follows c.layer least k := by
  refine ⟨fun c' hc' ↦ ?_, fun hk ↦ ?_, fun _ ↦ ?_⟩
  · obtain rfl : c = c' := Option.some.inj ((TokenKind.continuation?_eq_some.mpr h).symm.trans hc')
    exact Nat.le_refl _
  · rw [hk] at h
    rcases c with _ | _ | op | op <;> try cases op
    all_goals cases h
  · rcases c with _ | _ | op | op <;> try cases op
    all_goals cases h; rfl

/-- What may stand behind an assignment closes it. -/
theorem Follows.closes_assignment {k : TokenKind} (h : Follows .assignment .assignment k) :
    Closes .assignment k where
  continuation c hc := Nat.lt_of_le_of_ne (h.continuation c hc) c.rank_layer_ne.1
  notCall := h.notCall
  assigns := h.assigns

/-- What may stand behind a sign closes its operand. -/
theorem Follows.closes_sign {least : Precedence} {k : TokenKind} (h : Follows .sign least k) :
    Closes .unary k where
  continuation c hc := Nat.lt_of_le_of_ne (h.continuation c hc) c.rank_layer_ne.2
  notCall := h.notCall
  assigns := nofun

/-- What may stand behind an operation closes its right operand. -/
theorem Follows.closes_operator {op : Infix} {least : Precedence} {k : TokenKind}
    (h : Follows op.layer least k) : Closes (Continuation.operator op).precedence.next k where
  continuation c hc := by
    rw [Continuation.rank_next_operator]
    exact Nat.lt_succ_of_le (h.continuation c hc)
  notCall := h.notCall
  assigns hnext := absurd hnext (Continuation.layer_next_operator op).2.2

theorem Follows.closes_connect {op : Connective} {least : Precedence} {k : TokenKind}
    (h : Follows op.layer least k) : Closes (Continuation.connect op).precedence.next k where
  continuation c hc := by
    rw [Continuation.rank_next_connect]
    exact Nat.lt_succ_of_le (h.continuation c hc)
  notCall := h.notCall
  assigns hnext := absurd hnext (Continuation.layer_next_connect op).2.2

theorem reads_callMethod {e : Expr} {name : String} {args : List Expr} {openLine closeLine : Nat}
    {ts us' : List Token} {c m : Token} (hreceiver : ReadsExpression .primary e ts)
    (hc : c.kind = .symbol .colon) (hm : m.kind.member? = some name)
    (hargs : ReadsEnclosed .leftParen .rightParen args openLine closeLine us') :
    ReadsExpression .primary (.callMethod e name args openLine closeLine)
      (ts ++ c :: m :: us') := by
  rintro ⟨hs, hs'⟩ source fuel least r u us v literals P h hf hl hrank hu hP o' ho'
  have hbegins : Continuation.member.Begins c.kind := hc
  have h : r.At source (ts ++ c :: m :: (us' ++ u :: us)) v literals := by simpa using h
  refine hreceiver hs h (by grind) hl hrank (.of_begins hbegins) (fun fuel' r₁ hf' h₁ ↦ ?_) o' ho'
  obtain ⟨fuel, rfl⟩ := Nat.exists_eq_add_of_le' (show 2 ≤ fuel' by grind)
  obtain ⟨o, rest, rfl, ho, harguments⟩ := leads_arguments fuel hargs hs'
  refine leads_continueFrom .member h₁ (by simp) hc hl hrank fun r₂ h₂ ↦ ?_
  rw [continueWith]
  refine .memberName? h₂ hm fun r₃ h₃ ↦ .accept h₃ ho (by simp) fun r₄ h₄ ↦
    .bind (harguments h₄ (by grind)) ?_
  rintro _ r₅ ⟨rfl, h₅⟩
  exact .pure (hP _ r₅ (by grind) (by simpa [Expr.trail, Expr.constant?] using h₅))

theorem reads_negate {e : Expr} {t : Token} {ts : List Token} (ht : t.kind = .symbol .minus)
    (hreads : ReadsExpression .sign e ts)
    (hbegins : ∃ t rest, ts = t :: rest ∧ ∃ o : Opening, o.Begins t.kind) :
    ReadsExpression .sign (.negate e t.span.line (lastLine ts)) (t :: ts) := by
  rintro ⟨hs, hnot⟩ source fuel least r u us v literals P h hf hl _ hu hP o' ho'
  have hts : ts ≠ [] := by grind
  obtain rfl : Opening.negate = o' := Opening.Begins.unique ht (h.current_eq ▸ ho')
  obtain ⟨fuel, rfl⟩ := Nat.exists_eq_add_of_le' (show 1 ≤ fuel by grind)
  refine leads_opened h (by simp) fun r₁ h₁ ↦ ?_
  rw [openWith]
  refine .line h₁ (.push h₁ fun r₂ h₂ ↦ .bind (leads_expressionFrom hreads hbegins hs h₂
    (by grind) (by decide) hu.closes_sign) ?_)
  rintro _ r₃ ⟨rfl, h₃⟩
  refine .operate h₃ ((computed_negate hs t.span.line (lastLine ts) _ _).mpr ⟨hnot, rfl⟩)
    fun r₄ h₄ ↦ .line h₄ (.pure ?_)
  rw [View.line_read _ hts, View.line_read_singleton]
  exact hP _ r₄ (by grind) (by simpa using h₄)

theorem reads_not {e : Expr} {t : Token} {ts : List Token} (ht : t.kind = .symbol .bang)
    (hreads : ReadsExpression .sign e ts)
    (hbegins : ∃ t rest, ts = t :: rest ∧ ∃ o : Opening, o.Begins t.kind) :
    ReadsExpression .sign (.not e (lastLine ts)) (t :: ts) := by
  rintro ⟨hs, hnot⟩ source fuel least r u us v literals P h hf hl _ hu hP o' ho'
  have hts : ts ≠ [] := by grind
  obtain rfl : Opening.not = o' := Opening.Begins.unique ht (h.current_eq ▸ ho')
  obtain ⟨fuel, rfl⟩ := Nat.exists_eq_add_of_le' (show 1 ≤ fuel by grind)
  refine leads_opened h (by simp) fun r₁ h₁ ↦ ?_
  rw [openWith]
  refine .bind (leads_expressionFrom hreads hbegins hs h₁ (by grind) (by decide) hu.closes_sign) ?_
  rintro _ r₂ ⟨rfl, h₂⟩
  refine .operateNot h₂ ((inverted_not hs (lastLine ts) _ _).mpr ⟨hnot, rfl⟩)
    fun r₃ h₃ ↦ .line h₃ (.pure ?_)
  rw [View.line_read _ hts]
  exact hP _ r₃ (by grind) (by simpa using h₃)

theorem reads_binary {op : Infix} {left right : Expr} {ts us' : List Token} {t : Token}
    (hleft : ReadsExpression op.layer left ts) (ht : t.kind = .symbol op.symbol)
    (hright : ReadsExpression op.layer.tighter right us')
    (hbegins : ∃ t rest, us' = t :: rest ∧ ∃ o : Opening, o.Begins t.kind) :
    ReadsExpression op.layer (.binary op left right (lastLine us')) (ts ++ t :: us') := by
  rintro ⟨hs, hs', hnot⟩ source fuel least r u us v literals P h hf hl hrank hu hP o' ho'
  have hus : us' ≠ [] := by grind
  have hoperator : (Continuation.operator op).Begins t.kind := ht
  obtain ⟨hlayer, hlevel, _⟩ := Continuation.layer_next_operator op
  have h : r.At source (ts ++ t :: (us' ++ u :: us)) v literals := by simpa using h
  -- Reading the left operand comes to continuing behind it, where the operator stands.
  refine hleft hs h (by grind) hl hrank (.of_begins hoperator) (fun fuel' r₁ hf' h₁ ↦ ?_) o' ho'
  obtain ⟨fuel, rfl⟩ := Nat.exists_eq_add_of_le' (show 2 ≤ fuel' by grind)
  refine leads_continueFrom (.operator op) h₁ (by simp) ht hl hrank fun r₂ h₂ ↦ ?_
  rw [continueWith]
  refine .bind (leads_expressionFrom (hlayer ▸ hright) hbegins hs' h₂ (by grind) hlevel
    hu.closes_operator) ?_
  rintro _ r₃ ⟨rfl, h₃⟩
  obtain ⟨literals₁, hcomputed, hinverted⟩ := Option.bind_eq_some_iff.mp
    ((computed_binary hs hs' op (lastLine us') literals _).mpr ⟨hnot, rfl⟩)
  refine .operate h₃ hcomputed fun r₄ h₄ ↦ ?_
  split
  · rename_i hnegated
    rw [if_pos hnegated] at hinverted
    refine .operateNot h₄ hinverted fun r₅ h₅ ↦ .line h₅ (.pure ?_)
    rw [View.line_read _ hus]
    exact hP _ r₅ (by grind) (by simpa using h₅)
  · rename_i hnegated
    rw [if_neg hnegated] at hinverted
    obtain rfl := Option.some.inj hinverted
    refine .line h₄ (.pure ?_)
    rw [View.line_read _ hus]
    exact hP _ r₄ (by grind) (by simpa using h₄)

theorem reads_connect {op : Connective} {left right : Expr} {ts us' : List Token} {t : Token}
    (hleft : ReadsExpression op.layer left ts) (ht : t.kind = .symbol op.symbol)
    (hright : ReadsExpression op.layer.tighter right us')
    (hbegins : ∃ t rest, us' = t :: rest ∧ ∃ o : Opening, o.Begins t.kind) :
    ReadsExpression op.layer (.connect op left right t.span.line) (ts ++ t :: us') := by
  rintro ⟨hs, hs'⟩ source fuel least r u us v literals P h hf hl hrank hu hP o' ho'
  have hconnective : (Continuation.connect op).Begins t.kind := ht
  obtain ⟨hlayer, hlevel, _⟩ := Continuation.layer_next_connect op
  have h : r.At source (ts ++ t :: (us' ++ u :: us)) v literals := by simpa using h
  refine hleft hs h (by grind) hl hrank (.of_begins hconnective) (fun fuel' r₁ hf' h₁ ↦ ?_) o' ho'
  obtain ⟨fuel, rfl⟩ := Nat.exists_eq_add_of_le' (show 2 ≤ fuel' by grind)
  refine leads_continueFrom (.connect op) h₁ (by simp) ht hl hrank fun r₂ h₂ ↦ ?_
  rw [continueWith]
  refine .line h₂ (.emit h₂ fun r₃ h₃ ↦ .bind
    (leads_expressionFrom (hlayer ▸ hright) hbegins hs' h₃ (by grind) hlevel hu.closes_connect) ?_)
  rintro _ r₄ ⟨rfl, h₄⟩
  exact .join h₄ fun r₅ h₅ ↦ .pure (hP _ r₅ (by grind) (by simpa [Expr.trail, Expr.constant?] using h₅))

theorem reads_tighter {layer : Layer} {e : Expr} {ts : List Token}
    (hreads : ReadsExpression layer.tighter e ts) : ReadsExpression layer e ts := by
  intro hs source fuel least r u us v literals P h hf hl hrank hu hP o ho
  have htighter : layer.rank ≤ layer.tighter.rank := by cases layer <;> decide
  exact hreads hs h hf hl (Nat.le_trans hrank htighter)
    ⟨fun c hc ↦ Nat.le_trans (hu.continuation c hc) htighter, hu.notCall, hu.assigns⟩ hP o ho

/-! ### Places -/

/-- A place that nothing is assigned to is read from. -/
theorem leads_place {fuel operands : Nat} {p : Place} {assignable : Bool} {P : Expr → Reader → Prop}
    (h : r.At source (u :: us) v literals) (hf : 0 < fuel)
    (hu : assignable = true → u.kind.assigns = false)
    (hP : ∀ r' : Reader, r'.At source (u :: us) v [] → P (.read p v.line) r') :
    Leads (place fuel p operands assignable) r P := by
  obtain ⟨fuel, rfl⟩ := Nat.exists_eq_add_of_lt hf
  have hread : Leads (do emit 1; return .read p (← line)) r P :=
    .emit h fun r₁ h₁ ↦ .line h₁ (.pure (hP r₁ h₁))
  rw [place]
  refine .check h ?_
  rw [if_neg]
  · refine .current h ?_
    split
    · rename_i op hop
      rw [if_neg]
      · exact hread
      · intro hassignable
        have hnot := hu hassignable
        rw [TokenKind.assigns, hop] at hnot
        simp at hnot
    · exact hread
  · intro hboth
    obtain ⟨hassignable, hequal⟩ := Bool.and_eq_true_iff.mp hboth
    have hnot := hu hassignable
    rw [of_decide_eq_true hequal] at hnot
    cases hnot

theorem reads_read {p : Place} {ts : List Token} (hplace : ReadsPlace p ts) (hts : ts ≠ []) :
    ReadsExpression .primary (.read p (lastLine ts)) ts := by
  intro hs source fuel least r u us v literals P h hf hl _ hu hP o ho
  refine hplace hs h hf hl hu.notCall (fun fuel' fuel'' operands r₁ literals' hf' hf'' h₁ ↦ ?_) o ho
  refine .bind (leads_place h₁ (Nat.zero_lt_of_lt hf') (fun ha ↦ hu.assigns (of_decide_eq_true ha))
    fun r₂ h₂ ↦ ?_) fun _ _ ↦ id
  rw [View.line_read _ hts]
  exact hP _ r₂ hf'' h₂

/-- A computation behind an expression that stands alone cannot fail. -/
theorem computed_trail_nil (op : BinaryOp) (e : Expr) : computed op (e.trail []) = some [] := by
  unfold Expr.trail
  split <;> rfl

theorem reads_assign {p : Place} {e : Expr} {ts us' : List Token} {t : Token}
    (hplace : ReadsPlace p ts) (ht : t.kind = .symbol .equal)
    (hvalue : ReadsExpression .assignment e us')
    (hbegins : ∃ t rest, us' = t :: rest ∧ ∃ o : Opening, o.Begins t.kind) :
    ReadsExpression .assignment (.assign p e (lastLine us')) (ts ++ t :: us') := by
  rintro ⟨hs, hs'⟩ source fuel least r u us v literals P h hf hl hrank hu hP o ho
  have hus : us' ≠ [] := by grind
  obtain rfl : least = .assignment := Precedence.eq_assignment hrank
  have h : r.At source (ts ++ t :: (us' ++ u :: us)) v literals := by simpa using h
  refine hplace hs h (by grind) hl (by simp [ht])
    (fun fuel' fuel'' operands r₁ literals' hf' hf'' h₁ ↦ ?_) o ho
  obtain ⟨fuel, rfl⟩ := Nat.exists_eq_add_of_le' (show 1 ≤ fuel' by grind)
  rw [place]
  refine .bind (.check h₁ ?_) fun _ _ ↦ id
  rw [if_pos (by simp [ht])]
  refine .advance h₁ (by simp) fun r₂ h₂ ↦ .bind
    (leads_expressionFrom hvalue hbegins hs' h₂ (by grind) hl hu.closes_assignment) ?_
  rintro _ r₃ ⟨rfl, h₃⟩
  refine .emit h₃ fun r₄ h₄ ↦ .line h₄ (.pure ?_)
  rw [View.line_read _ hus]
  exact hP _ r₄ (by grind) (by simpa [Expr.trail, Expr.constant?] using h₄)

theorem reads_update {p : Place} {op : BinaryOp} {sign : Symbol} {e : Expr} {ts us' : List Token}
    {t : Token} (hplace : ReadsPlace p ts) (hsign : op.assigning? = some sign)
    (ht : t.kind = .symbol sign) (hvalue : ReadsExpression .assignment e us')
    (hbegins : ∃ t rest, us' = t :: rest ∧ ∃ o : Opening, o.Begins t.kind) :
    ReadsExpression .assignment (.update p op e t.span.line (lastLine us')) (ts ++ t :: us') := by
  rintro ⟨hs, hs'⟩ source fuel least r u us v literals P h hf hl hrank hu hP o ho
  have hus : us' ≠ [] := by grind
  obtain rfl : least = .assignment := Precedence.eq_assignment hrank
  have hcompound : t.kind.compound? = some op := TokenKind.compound?_eq_some.mpr ⟨sign, hsign, ht⟩
  obtain ⟨hequal, hparen⟩ := TokenKind.ne_of_compound? hcompound
  have h : r.At source (ts ++ t :: (us' ++ u :: us)) v literals := by simpa using h
  refine hplace hs h (by grind) hl hparen
    (fun fuel' fuel'' operands r₁ literals' hf' hf'' h₁ ↦ ?_) o ho
  obtain ⟨fuel, rfl⟩ := Nat.exists_eq_add_of_le' (show 1 ≤ fuel' by grind)
  rw [place]
  refine .bind (.check h₁ ?_) fun _ _ ↦ id
  rw [if_neg (by simp [hequal])]
  refine .current h₁ ?_
  rw [hcompound]
  refine .advance h₁ (by simp) fun r₂ h₂ ↦ .line h₂ (.emit h₂ fun r₃ h₃ ↦ .bind
    (leads_expressionFrom hvalue hbegins hs' h₃ (by grind) hl hu.closes_assignment) ?_)
  rintro _ r₄ ⟨rfl, h₄⟩
  refine .operate h₄ (computed_trail_nil op _) fun r₅ h₅ ↦ .emit h₅ fun r₆ h₆ ↦ .line h₆ (.pure ?_)
  rw [View.line_read _ hus]
  exact hP _ r₆ (by grind) (by simpa [Expr.trail, Expr.constant?] using h₆)

theorem reads_variable {name : String} {t : Token} (ht : t.kind = .identifier name) :
    ReadsPlace (.variable name) [t] := by
  intro _ source fuel least r u us v literals P h hf _ hu hP o ho
  obtain rfl : Opening.variable name = o := Opening.Begins.unique ht (h.current_eq ▸ ho)
  obtain ⟨fuel, rfl⟩ := Nat.exists_eq_add_of_le' (show 1 ≤ fuel by grind)
  refine leads_opened h (by simp) fun r₁ h₁ ↦ ?_
  rw [openWith]
  exact .pass h₁ hu (hP fuel (fuel + 1) 0 r₁ literals (by grind) (by grind) h₁)

theorem reads_element {e index : Expr} {ts us' : List Token} {t c : Token}
    (htarget : ReadsExpression .primary e ts) (ht : t.kind = .symbol .leftBracket)
    (hindex : ReadsExpression .assignment index us')
    (hbegins : ∃ t rest, us' = t :: rest ∧ ∃ o : Opening, o.Begins t.kind)
    (hc : c.kind = .symbol .rightBracket) :
    ReadsPlace (.element e index) (ts ++ t :: us' ++ [c]) := by
  rintro ⟨hs, hs'⟩ source fuel least r u us v literals P h hf hl hu hP o ho
  have hopening : Continuation.index.Begins t.kind := ht
  have h : r.At source (ts ++ t :: (us' ++ c :: u :: us)) v literals := by simpa using h
  refine htarget hs h (by grind) hl (Layer.rank_le _) (.of_begins hopening)
    (fun fuel' r₁ hf' h₁ ↦ ?_) o ho
  obtain ⟨fuel, rfl⟩ := Nat.exists_eq_add_of_le' (show 2 ≤ fuel' by grind)
  refine leads_continueFrom .index h₁ (by simp) ht hl (Layer.rank_le _) fun r₂ h₂ ↦ ?_
  rw [continueWith]
  refine .bind (leads_expressionFrom hindex hbegins hs' h₂ (by grind) (by decide)
    ⟨by simp [hc, TokenKind.continuation?], by simp [hc], fun _ ↦ by rw [hc]; rfl⟩) ?_
  rintro _ r₃ ⟨rfl, h₃⟩
  exact .close h₃ hc fun r₄ h₄ ↦
    hP fuel (fuel + 1) 2 r₄ _ (by grind) (by grind) (by simpa using h₄)

theorem reads_field {e : Expr} {name : String} {ts : List Token} {c m : Token}
    (hreceiver : ReadsExpression .primary e ts) (hc : c.kind = .symbol .colon)
    (hm : m.kind.member? = some name) : ReadsPlace (.field e name) (ts ++ [c, m]) := by
  intro hs source fuel least r u us v literals P h hf hl hu hP o ho
  have hcolon : Continuation.member.Begins c.kind := hc
  have h : r.At source (ts ++ c :: m :: u :: us) v literals := by simpa using h
  refine hreceiver hs h (by grind) hl (Layer.rank_le _) (.of_begins hcolon)
    (fun fuel' r₁ hf' h₁ ↦ ?_) o ho
  obtain ⟨fuel, rfl⟩ := Nat.exists_eq_add_of_le' (show 2 ≤ fuel' by grind)
  refine leads_continueFrom .member h₁ (by simp) hc hl (Layer.rank_le _) fun r₂ h₂ ↦ ?_
  rw [continueWith]
  exact .memberName? h₂ hm fun r₃ h₃ ↦ .pass h₃ hu
    (hP fuel (fuel + 1) 1 r₃ _ (by grind) (by grind) (by simpa using h₃))

theorem reads_staticField {type member : String} {t c m : Token} (ht : t.kind = .className type)
    (hc : c.kind = .symbol .colon) (hm : m.kind.member? = some member) :
    ReadsPlace (.staticField type member) [t, c, m] := by
  intro _ source fuel least r u us v literals P h hf _ hu hP o ho
  obtain rfl : Opening.className type = o := Opening.Begins.unique ht (h.current_eq ▸ ho)
  obtain ⟨fuel, rfl⟩ := Nat.exists_eq_add_of_le' (show 1 ≤ fuel by grind)
  refine leads_opened h (by simp) fun r₁ h₁ ↦ ?_
  rw [openWith]
  exact .expect h₁ hc fun r₂ h₂ ↦ .memberName? h₂ hm fun r₃ h₃ ↦ .pass h₃ hu
    (hP fuel (fuel + 1) 0 r₃ _ (by grind) (by grind) (by simpa using h₃))

/-! ### Expressions between commas -/

theorem reads_one {e : Expr} {ts : List Token} (hreads : ReadsExpression .assignment e ts)
    (hbegins : ∃ t rest, ts = t :: rest ∧ ∃ o : Opening, o.Begins t.kind) : ReadsItems [e] ts := by
  rintro ⟨hs, -⟩ source fuel r u us v literals h hf hu hcomma
  obtain ⟨fuel, rfl⟩ := Nat.exists_eq_add_of_le' (show 1 ≤ fuel by omega)
  rw [items]
  refine .bind (leads_expressionFrom hreads hbegins hs h (by omega) (by decide) hu) ?_
  rintro _ r₁ ⟨rfl, h₁⟩
  exact .pass h₁ hcomma (.pure ⟨rfl, _, h₁⟩)

theorem reads_more {e : Expr} {es : List Expr} {ts us' : List Token} {c : Token}
    (hreads : ReadsExpression .assignment e ts)
    (hbegins : ∃ t rest, ts = t :: rest ∧ ∃ o : Opening, o.Begins t.kind)
    (hc : c.kind = .symbol .comma) (hrest : ReadsItems es us') :
    ReadsItems (e :: es) (ts ++ c :: us') := by
  rintro ⟨hs, hs'⟩ source fuel r u us v literals h hf hu hcomma
  obtain ⟨fuel, rfl⟩ := Nat.exists_eq_add_of_le' (show 1 ≤ fuel by omega)
  have h : r.At source (ts ++ c :: (us' ++ u :: us)) v literals := by simpa using h
  rw [items]
  refine .bind (leads_expressionFrom hreads hbegins hs h (by grind) (by decide)
    ⟨by simp [hc, TokenKind.continuation?], by simp [hc], fun _ ↦ by rw [hc]; rfl⟩) ?_
  rintro _ r₁ ⟨rfl, h₁⟩
  refine .accept h₁ hc (by simp) fun r₂ h₂ ↦ .bind (hrest hs' h₂ (by grind) hu hcomma) ?_
  rintro _ r₃ ⟨rfl, literals', h₃⟩
  exact .pure ⟨rfl, literals', by simpa using h₃⟩

/-! ### Every phrase -/

theorem reads_phrase {p : Phrase} {ts : List Token} (h : p.Derives ts) : ReadsPhrase p ts := by
  induction h with
  | tighter _ ih => exact reads_tighter ih
  | literal ht => exact reads_literal ht
  | group ho hinner hc ih => exact reads_group ho ih hinner.begins hc
  | list _ ih => exact reads_list ih
  | call ht _ ih => exact reads_call ht ih
  | construct hn ht _ ih => exact reads_construct hn ht ih
  | callStatic ht hc hm _ ih => exact reads_callStatic ht hc hm ih
  | callMethod _ hc hm _ ihreceiver ih => exact reads_callMethod ihreceiver hc hm ih
  | read hp ih => exact reads_read ih hp.ne_nil
  | negate ht hoperand ih => exact reads_negate ht ih hoperand.begins
  | not ht hoperand ih => exact reads_not ht ih hoperand.begins
  | binary _ ht hright ihleft ihright => exact reads_binary ihleft ht ihright hright.begins
  | connect _ ht hright ihleft ihright => exact reads_connect ihleft ht ihright hright.begins
  | assign _ ht hvalue ihplace ihvalue => exact reads_assign ihplace ht ihvalue hvalue.begins
  | update _ hsign ht hvalue ihplace ihvalue =>
    exact reads_update ihplace hsign ht ihvalue hvalue.begins
  | «variable» ht => exact reads_variable ht
  | element _ ht hindex hc ihtarget ihindex =>
    exact reads_element ihtarget ht ihindex hindex.begins hc
  | field _ hc hm ih => exact reads_field ih hc hm
  | staticField ht hc hm => exact reads_staticField ht hc hm
  | one h ih => exact reads_one ih h.begins
  | more h hc _ ih ihrest => exact reads_more ih h.begins hc ihrest
  | none ho hc => exact ⟨_, [], _, rfl, ho, hc, rfl, rfl, .inl ⟨rfl, rfl⟩⟩
  | some ho hinner hc ih =>
    exact ⟨_, _, _, rfl, ho, hc, rfl, rfl, .inr ⟨hinner.begins, ih⟩⟩

/-- A whole expression is read. -/
theorem leads_expression {e : Expr} {ts : List Token}
    (he : Phrase.Derives (.expression .assignment e) ts) (hs : e.Sound)
    (h : r.At source (ts ++ u :: us) v literals) (hu : Closes .assignment u.kind) :
    Leads expression r fun e' r' ↦
      e' = e ∧ r'.At source (u :: us) (v.read ts) (e.trail literals) := by
  have hlength := h.standing ▸ r.length_standing_le
  exact .of_run rfl (leads_expressionFrom (reads_phrase he) he.begins hs h (by omega) (by decide) hu)

end Reading

end StackScript
