import StackScript.Proofs.Acceptance.Expression
import StackScript.Proofs.Refusal.Basic

/-!
# Expressions with constants that fail

An expression that is not sound has a first operator, in the order of reading, that is constant and fails. What
is read before it is read as in any other expression (`reads_phrase`), and there reading stumbles. So along the
derivation of every phrase that is not sound there is one part that stumbles, and everything before it is sound
(`stumbles_phrase`).
-/

namespace StackScript.Reading

open Reader (invariant_spoiled)

/-! ### What is shown of phrases -/

/-- Reading from the first token of an expression on stumbles if the expression is not sound. -/
def StumblesExpression (layer : Layer) (e : Expr) (ts : List Token) : Prop :=
  ¬ e.Sound → ∀ {source : String} {fuel : Nat} {least : Precedence} {r : Reader} {u : Token}
    {us : List Token} {v : View} {literals : List Literal},
    r.At source (ts ++ u :: us) v literals → 8 * (ts ++ u :: us).length ≤ fuel →
    least.level ≤ 7 → least.layer.rank ≤ layer.rank → Follows layer least u.kind →
    ∀ o : Opening, o.Begins r.current.kind → Stumbles (opened fuel least o) r

/-- The same for a place. -/
def StumblesPlace (p : Place) (ts : List Token) : Prop :=
  ¬ p.Sound → ∀ {source : String} {fuel : Nat} {least : Precedence} {r : Reader} {u : Token}
    {us : List Token} {v : View} {literals : List Literal},
    r.At source (ts ++ u :: us) v literals → 8 * (ts ++ u :: us).length ≤ fuel →
    least.level ≤ 7 → u.kind ≠ .symbol .leftParen →
    ∀ o : Opening, o.Begins r.current.kind → Stumbles (opened fuel least o) r

/-- Reading expressions between commas stumbles if one of them is not sound. -/
def StumblesItems (es : List Expr) (ts : List Token) : Prop :=
  ¬ soundAll es → ∀ {source : String} {fuel : Nat} {r : Reader} {u : Token} {us : List Token}
    {v : View} {literals : List Literal},
    r.At source (ts ++ u :: us) v literals → 8 * (ts ++ u :: us).length + 2 ≤ fuel →
    Closes .assignment u.kind → u.kind ≠ .symbol .comma → Stumbles (items fuel) r

/-- Brackets have expressions between them if one is not sound. -/
def StumblesEnclosed (opening closing : Symbol) (es : List Expr) (ts : List Token) : Prop :=
  ¬ soundAll es → ∃ o mid c, ts = o :: mid ++ [c] ∧ o.kind = .symbol opening ∧
    c.kind = .symbol closing ∧ (∃ t rest, mid = t :: rest ∧ ∃ o : Opening, o.Begins t.kind) ∧
    StumblesItems es mid

/-- What is shown of a phrase. -/
def StumblesPhrase : Phrase → List Token → Prop
  | .expression layer e, ts => StumblesExpression layer e ts
  | .place p, ts => StumblesPlace p ts
  | .items es, ts => StumblesItems es ts
  | .enclosed opening closing es _ _, ts => StumblesEnclosed opening closing es ts

variable {source : String} {r : Reader} {u : Token} {us : List Token} {v : View}
  {literals : List Literal}

/-! ### The parts of phrases -/

/-- A whole expression. -/
theorem stumbles_expressionFrom {fuel : Nat} {least : Precedence} {e : Expr} {ts : List Token}
    (hstumbles : StumblesExpression least.layer e ts)
    (hbegins : ∃ t rest, ts = t :: rest ∧ ∃ o : Opening, o.Begins t.kind) (hs : ¬ e.Sound)
    (h : r.At source (ts ++ u :: us) v literals) (hf : 8 * (ts ++ u :: us).length < fuel)
    (hl : least.level ≤ 7) (hu : Closes least u.kind) : Stumbles (expressionFrom fuel least) r := by
  obtain ⟨t, rest, rfl, o, ho⟩ := hbegins
  obtain ⟨fuel, rfl⟩ : ∃ n, fuel = n + 1 := ⟨fuel - 1, by omega⟩
  have hopened : Stumbles (opened fuel least o) r :=
    hstumbles hs h (by omega) hl (Nat.le_refl _)
      ⟨fun c hc ↦ Nat.le_of_lt (hu.continuation c hc), hu.notCall, hu.assigns⟩ o (h.current_eq ▸ ho)
  rw [expressionFrom]
  refine .current h ?_
  rw [TokenKind.opening?_eq_some.mpr ho]
  show Stumbles (opened fuel least o >>= fun whole ↦ do
    if least = .assignment then rejectAssignment
    return whole) r
  refine hopened.bind fun whole ↦ ?_
  split
  · exact invariant_spoiled.keeps_rejectAssignment.bind fun _ ↦ .pure _
  · exact .pure _

theorem stumbles_opened {fuel : Nat} {least : Precedence} {opening : Opening} {t : Token}
    {ts : List Token} (h : r.At source (t :: ts) v literals) (hts : ts ≠ [])
    (hs : ∀ r' : Reader, r'.At source ts (v.read [t]) literals →
      Stumbles (openWith fuel opening (least = .assignment)) r') :
    Stumbles (opened fuel least opening) r :=
  leads_opened h hts fun r' h' ↦ (hs r' h').bind fun first ↦
    invariant_spoiled.keeps_continueFrom fuel least _ first

theorem stumbles_continueFrom (c : Continuation) {fuel : Nat} {least : Precedence}
    {assignable : Bool} {left : Expr} {t : Token} {ts : List Token}
    (h : r.At source (t :: ts) v literals) (hts : ts ≠ []) (hc : c.Begins t.kind)
    (hl : least.level ≤ 7) (hrank : least.layer.rank ≤ c.layer.rank)
    (hs : ∀ r' : Reader, r'.At source ts (v.read [t]) literals →
      Stumbles (continueWith fuel c assignable left) r') :
    Stumbles (continueFrom (fuel + 1) least assignable left) r :=
  leads_continueFrom c h hts hc hl hrank fun r' h' ↦ (hs r' h').bind fun next ↦
    invariant_spoiled.keeps_continueFrom fuel least assignable next

/-- What stands between brackets. -/
theorem stumbles_between {α : Type} {fuel : Nat} {closing : Symbol} {es : List Expr}
    {mid : List Token} {c : Token} {rest : List Expr → Reading α}
    (hclosing : closing = .rightParen ∨ closing = .rightBracket)
    (hbegins : ∃ t rest, mid = t :: rest ∧ ∃ o : Opening, o.Begins t.kind)
    (hitems : StumblesItems es mid) (hs : ¬ soundAll es) (hc : c.kind = .symbol closing)
    (h : r.At source (mid ++ c :: u :: us) v literals)
    (hf : 8 * (mid ++ c :: u :: us).length + 2 ≤ fuel)
    (hrest : ∀ es, Keeps Reader.Spoiled (rest es)) :
    Stumbles (do if ← check (.symbol closing) then rest [] else rest (← items fuel)) r := by
  obtain ⟨t, tail, rfl, o, ho⟩ := hbegins
  refine .check h ?_
  rw [if_neg]
  · refine (hitems hs h hf ?_ ?_).bind hrest
    · rw [hc]
      rcases hclosing with rfl | rfl <;>
        exact ⟨by simp [TokenKind.continuation?], by simp, fun _ ↦ rfl⟩
    · rw [hc]
      rcases hclosing with rfl | rfl <;> simp
  · intro ht
    have hopening := TokenKind.opening?_eq_some.mpr ho
    rw [of_decide_eq_true ht] at hopening
    rcases hclosing with rfl | rfl <;> cases hopening

/-- Arguments, behind their opening parenthesis. -/
theorem stumbles_arguments (fuel : Nat) {es : List Expr} {ts : List Token}
    (henclosed : StumblesEnclosed .leftParen .rightParen es ts) (hs : ¬ soundAll es) :
    ∃ o rest, ts = o :: rest ∧ o.kind = .symbol .leftParen ∧
      ∀ {source : String} {r : Reader} {u : Token} {us : List Token} {v : View}
        {literals : List Literal}, r.At source (rest ++ u :: us) v literals →
        8 * (rest ++ u :: us).length + 3 ≤ fuel → Stumbles (arguments fuel) r := by
  obtain ⟨o, mid, c, rfl, ho, hc, hbegins, hitems⟩ := henclosed hs
  refine ⟨o, mid ++ [c], rfl, ho, fun {source r u us v literals} h hf ↦ ?_⟩
  obtain ⟨fuel, rfl⟩ := Nat.exists_eq_add_of_le' (show 1 ≤ fuel by omega)
  rw [List.append_assoc] at h
  rw [arguments]
  refine .line h (.emit h fun r₁ h₁ ↦ ?_)
  exact stumbles_between (.inl rfl) hbegins hitems hs hc h₁ (by grind) fun es ↦
    (invariant_spoiled.keeps_close _ _).bind fun _ ↦ (invariant_spoiled.keeps_emit _).bind fun _ ↦
    Reader.Invariant.keeps_line.bind fun _ ↦ .pure _

/-! ### Operands -/

theorem stumbles_group {e : Expr} {ts : List Token} {o c : Token} (ho : o.kind = .symbol .leftParen)
    (hstumbles : StumblesExpression .assignment e ts)
    (hbegins : ∃ t rest, ts = t :: rest ∧ ∃ o : Opening, o.Begins t.kind)
    (hc : c.kind = .symbol .rightParen) : StumblesExpression .primary e (o :: ts ++ [c]) := by
  intro hs source fuel least r u us v literals h hf hl _ _ o' ho'
  have h : r.At source (o :: (ts ++ c :: u :: us)) v literals := by simpa using h
  obtain rfl : Opening.group = o' := Opening.Begins.unique ho (h.current_eq ▸ ho')
  obtain ⟨fuel, rfl⟩ := Nat.exists_eq_add_of_le' (show 1 ≤ fuel by grind)
  refine stumbles_opened h (by simp) fun r₁ h₁ ↦ ?_
  rw [openWith]
  refine Stumbles.bind (stumbles_expressionFrom hstumbles hbegins hs h₁ (by grind) (by decide)
    ⟨by simp [hc, TokenKind.continuation?], by simp [hc], fun _ ↦ by rw [hc]; rfl⟩) fun _ ↦ ?_
  exact (invariant_spoiled.keeps_close _ _).bind fun _ ↦ .pure _

theorem stumbles_list {es : List Expr} {openLine closeLine : Nat} {ts : List Token}
    (h : StumblesEnclosed .leftBracket .rightBracket es ts) :
    StumblesExpression .primary (.list es openLine closeLine) ts := by
  intro hs source fuel least r u us v literals hr hf hl _ _ o' ho'
  obtain ⟨t, mid, c, rfl, ho, hc, hbegins, hitems⟩ := h hs
  have hr : r.At source (t :: (mid ++ c :: u :: us)) v literals := by simpa using hr
  obtain rfl : Opening.list = o' := Opening.Begins.unique ho (hr.current_eq ▸ ho')
  obtain ⟨fuel, rfl⟩ := Nat.exists_eq_add_of_le' (show 1 ≤ fuel by grind)
  refine stumbles_opened hr (by simp) fun r₁ h₁ ↦ ?_
  rw [openWith]
  refine .line h₁ (.emit h₁ fun r₂ h₂ ↦ ?_)
  exact stumbles_between (.inr rfl) hbegins hitems hs hc h₂ (by grind) fun es ↦
    (invariant_spoiled.keeps_close _ _).bind fun _ ↦ (invariant_spoiled.keeps_emit _).bind fun _ ↦
    Reader.Invariant.keeps_line.bind fun _ ↦ .pure _

theorem stumbles_call {name : String} {args : List Expr} {openLine closeLine : Nat} {t : Token}
    {ts : List Token} (ht : t.kind = .identifier name)
    (hargs : StumblesEnclosed .leftParen .rightParen args ts) :
    StumblesExpression .primary (.call name args openLine closeLine) (t :: ts) := by
  intro hs source fuel least r u us v literals h hf hl _ _ o' ho'
  obtain rfl : Opening.variable name = o' := Opening.Begins.unique ht (h.current_eq ▸ ho')
  obtain ⟨fuel, rfl⟩ := Nat.exists_eq_add_of_le' (show 1 ≤ fuel by grind)
  obtain ⟨o, rest, rfl, ho, harguments⟩ := stumbles_arguments fuel hargs hs
  refine stumbles_opened h (by simp) fun r₁ h₁ ↦ ?_
  rw [openWith]
  exact .accept h₁ ho (by simp) fun r₂ h₂ ↦ (harguments h₂ (by grind)).bind fun _ ↦ .pure _

theorem stumbles_construct {type : String} {args : List Expr} {openLine closeLine : Nat}
    {n t : Token} {ts : List Token} (hn : n.kind = .keyword .newKw) (ht : t.kind = .className type)
    (hargs : StumblesEnclosed .leftParen .rightParen args ts) :
    StumblesExpression .primary (.construct type args openLine closeLine) (n :: t :: ts) := by
  intro hs source fuel least r u us v literals h hf hl _ _ o' ho'
  obtain rfl : Opening.construct = o' := Opening.Begins.unique hn (h.current_eq ▸ ho')
  obtain ⟨fuel, rfl⟩ := Nat.exists_eq_add_of_le' (show 1 ≤ fuel by grind)
  obtain ⟨o, rest, rfl, ho, harguments⟩ := stumbles_arguments fuel hargs hs
  refine stumbles_opened h (by simp) fun r₁ h₁ ↦ ?_
  rw [openWith]
  refine .current h₁ ?_
  rw [ht]
  exact .advance h₁ (by simp) fun r₂ h₂ ↦ .expect h₂ ho fun r₃ h₃ ↦
    (harguments h₃ (by grind)).bind fun _ ↦ .pure _

theorem stumbles_callStatic {type member : String} {args : List Expr} {openLine closeLine : Nat}
    {t c m : Token} {ts : List Token} (ht : t.kind = .className type)
    (hc : c.kind = .symbol .colon) (hm : m.kind.member? = some member)
    (hargs : StumblesEnclosed .leftParen .rightParen args ts) :
    StumblesExpression .primary (.callStatic type member args openLine closeLine)
      (t :: c :: m :: ts) := by
  intro hs source fuel least r u us v literals h hf hl _ _ o' ho'
  obtain rfl : Opening.className type = o' := Opening.Begins.unique ht (h.current_eq ▸ ho')
  obtain ⟨fuel, rfl⟩ := Nat.exists_eq_add_of_le' (show 1 ≤ fuel by grind)
  obtain ⟨o, rest, rfl, ho, harguments⟩ := stumbles_arguments fuel hargs hs
  refine stumbles_opened h (by simp) fun r₁ h₁ ↦ ?_
  rw [openWith]
  exact .expect h₁ hc fun r₂ h₂ ↦ .memberName? h₂ hm fun r₃ h₃ ↦ .accept h₃ ho (by simp) fun r₄ h₄ ↦
    (harguments h₄ (by grind)).bind fun _ ↦ .pure _

theorem stumbles_callMethod {e : Expr} {name : String} {args : List Expr} {openLine closeLine : Nat}
    {ts us' : List Token} {c m : Token} (hreads : ReadsExpression .primary e ts)
    (hreceiver : StumblesExpression .primary e ts) (hc : c.kind = .symbol .colon)
    (hm : m.kind.member? = some name) (hargs : StumblesEnclosed .leftParen .rightParen args us') :
    StumblesExpression .primary (.callMethod e name args openLine closeLine)
      (ts ++ c :: m :: us') := by
  intro hs source fuel least r u us v literals h hf hl hrank _ o' ho'
  have hbegins : Continuation.member.Begins c.kind := hc
  have h : r.At source (ts ++ c :: m :: (us' ++ u :: us)) v literals := by simpa using h
  by_cases he : e.Sound
  · have hargs' : ¬ soundAll args := fun hsound ↦ hs ⟨he, hsound⟩
    refine hreads he h (by grind) hl hrank (.of_begins hbegins) (fun fuel' r₁ hf' h₁ ↦ ?_) o' ho'
    obtain ⟨fuel, rfl⟩ := Nat.exists_eq_add_of_le' (show 2 ≤ fuel' by grind)
    obtain ⟨o, rest, rfl, ho, harguments⟩ := stumbles_arguments fuel hargs hargs'
    refine stumbles_continueFrom .member h₁ (by simp) hc hl hrank fun r₂ h₂ ↦ ?_
    rw [continueWith]
    exact .memberName? h₂ hm fun r₃ h₃ ↦ .accept h₃ ho (by simp) fun r₄ h₄ ↦
      (harguments h₄ (by grind)).bind fun _ ↦ .pure _
  · exact hreceiver he h (by grind) hl hrank (.of_begins hbegins) o' ho'

/-! ### Operators -/

theorem stumbles_negate {e : Expr} {t : Token} {ts : List Token} (ht : t.kind = .symbol .minus)
    (hreads : ReadsExpression .sign e ts) (hstumbles : StumblesExpression .sign e ts)
    (hbegins : ∃ t rest, ts = t :: rest ∧ ∃ o : Opening, o.Begins t.kind) (last : Nat) :
    StumblesExpression .sign (.negate e t.span.line last) (t :: ts) := by
  intro hs source fuel least r u us v literals h hf hl _ hu o' ho'
  obtain rfl : Opening.negate = o' := Opening.Begins.unique ht (h.current_eq ▸ ho')
  obtain ⟨fuel, rfl⟩ := Nat.exists_eq_add_of_le' (show 1 ≤ fuel by grind)
  refine stumbles_opened h (by simp) fun r₁ h₁ ↦ ?_
  rw [openWith]
  refine .line h₁ (.push h₁ fun r₂ h₂ ↦ ?_)
  have hrest (operand : Expr) (signLine : Nat) :
      Keeps Reader.Spoiled (do return Expr.negate operand signLine (← line)) :=
    Reader.Invariant.keeps_line.bind fun _ ↦ .pure _
  by_cases he : e.Sound
  · refine Leads.bind (leads_expressionFrom hreads hbegins he h₂ (by grind) (by decide) hu.closes_sign) ?_
    rintro _ r₃ ⟨rfl, h₃⟩
    refine Stumbles.bind (.operate h₃ ?_) fun _ ↦ hrest _ _
    refine Option.eq_none_iff_forall_ne_some.mpr fun literals' hc ↦ ?_
    exact hs ⟨he, ((computed_negate he t.span.line last _ _).mp hc).1⟩
  · refine Stumbles.bind (stumbles_expressionFrom hstumbles hbegins he h₂ (by grind) (by decide)
      hu.closes_sign) fun operand ↦ ?_
    exact (invariant_spoiled.keeps_operate _).bind fun _ ↦ hrest _ _

theorem stumbles_not {e : Expr} {t : Token} {ts : List Token} (ht : t.kind = .symbol .bang)
    (hreads : ReadsExpression .sign e ts) (hstumbles : StumblesExpression .sign e ts)
    (hbegins : ∃ t rest, ts = t :: rest ∧ ∃ o : Opening, o.Begins t.kind) (last : Nat) :
    StumblesExpression .sign (.not e last) (t :: ts) := by
  intro hs source fuel least r u us v literals h hf hl _ hu o' ho'
  obtain rfl : Opening.not = o' := Opening.Begins.unique ht (h.current_eq ▸ ho')
  obtain ⟨fuel, rfl⟩ := Nat.exists_eq_add_of_le' (show 1 ≤ fuel by grind)
  refine stumbles_opened h (by simp) fun r₁ h₁ ↦ ?_
  rw [openWith]
  have hrest (operand : Expr) : Keeps Reader.Spoiled (do return Expr.not operand (← line)) :=
    Reader.Invariant.keeps_line.bind fun _ ↦ .pure _
  by_cases he : e.Sound
  · refine Leads.bind (leads_expressionFrom hreads hbegins he h₁ (by grind) (by decide) hu.closes_sign) ?_
    rintro _ r₂ ⟨rfl, h₂⟩
    refine Stumbles.bind (.operateNot h₂ ?_) fun _ ↦ hrest _
    refine Option.eq_none_iff_forall_ne_some.mpr fun literals' hc ↦ ?_
    exact hs ⟨he, ((inverted_not he last _ _).mp hc).1⟩
  · refine Stumbles.bind (stumbles_expressionFrom hstumbles hbegins he h₁ (by grind) (by decide)
      hu.closes_sign) fun operand ↦ ?_
    exact invariant_spoiled.keeps_operateNot.bind fun _ ↦ hrest _

/-- The one or two operations of an operator that fails. -/
theorem stumbles_operation {left right : Expr} (hleft : left.Sound) (hright : right.Sound) {op : Infix}
    {last : Nat} (hfails : (Expr.binary op left right last).Fails) {ts : List Token}
    (h : r.At source ts v (right.trail (left.trail literals))) : Stumbles (do
      operate op.base
      if op.isNegated then operateNot
      return Expr.binary op left right (← line)) r := by
  have hrest : Keeps Reader.Spoiled (do return Expr.binary op left right (← line)) :=
    Reader.Invariant.keeps_line.bind fun _ ↦ .pure _
  have hnone : (computed op.base (right.trail (left.trail literals))).bind
      (if op.isNegated then inverted else some) = none :=
    Option.eq_none_iff_forall_ne_some.mpr fun literals' hc ↦
      ((computed_binary hleft hright op last _ _).mp hc).1 hfails
  rcases hcomputed : computed op.base (right.trail (left.trail literals)) with _ | literals'
  · refine Stumbles.bind (.operate h hcomputed) fun _ ↦ ?_
    split
    · exact invariant_spoiled.keeps_operateNot.bind fun _ ↦ hrest
    · exact hrest
  · rw [hcomputed, Option.bind_some] at hnone
    refine Leads.operate h hcomputed fun r₁ h₁ ↦ ?_
    split
    · rename_i hnegated
      rw [if_pos hnegated] at hnone
      exact Stumbles.bind (.operateNot h₁ hnone) fun _ ↦ hrest
    · rename_i hnegated
      rw [if_neg hnegated] at hnone
      cases hnone

theorem stumbles_binary {op : Infix} {left right : Expr} {ts us' : List Token} {t : Token}
    (hreads : ReadsExpression op.layer left ts) (hleft : StumblesExpression op.layer left ts)
    (ht : t.kind = .symbol op.symbol) (hreads' : ReadsExpression op.layer.tighter right us')
    (hright : StumblesExpression op.layer.tighter right us')
    (hbegins : ∃ t rest, us' = t :: rest ∧ ∃ o : Opening, o.Begins t.kind) (last : Nat) :
    StumblesExpression op.layer (.binary op left right last) (ts ++ t :: us') := by
  intro hs source fuel least r u us v literals h hf hl hrank hu o' ho'
  have hoperator : (Continuation.operator op).Begins t.kind := ht
  obtain ⟨hlayer, hlevel, _⟩ := Continuation.layer_next_operator op
  have h : r.At source (ts ++ t :: (us' ++ u :: us)) v literals := by simpa using h
  by_cases he : left.Sound
  · refine hreads he h (by grind) hl hrank (.of_begins hoperator) (fun fuel' r₁ hf' h₁ ↦ ?_) o' ho'
    obtain ⟨fuel, rfl⟩ := Nat.exists_eq_add_of_le' (show 2 ≤ fuel' by grind)
    refine stumbles_continueFrom (.operator op) h₁ (by simp) ht hl hrank fun r₂ h₂ ↦ ?_
    rw [continueWith]
    by_cases he' : right.Sound
    · have hfails : (Expr.binary op left right last).Fails :=
        Classical.not_not.mp fun hnot ↦ hs ⟨he, he', hnot⟩
      refine Leads.bind (leads_expressionFrom (hlayer ▸ hreads') hbegins he' h₂ (by grind) hlevel
        hu.closes_operator) ?_
      rintro _ r₃ ⟨rfl, h₃⟩
      exact stumbles_operation he he' hfails h₃
    · refine Stumbles.bind (stumbles_expressionFrom (hlayer ▸ hright) hbegins he' h₂ (by grind) hlevel
        hu.closes_operator) fun _ ↦ (invariant_spoiled.keeps_operate _).bind fun _ ↦ ?_
      split
      · exact invariant_spoiled.keeps_operateNot.bind fun _ ↦
          Reader.Invariant.keeps_line.bind fun _ ↦ .pure _
      · exact Reader.Invariant.keeps_line.bind fun _ ↦ .pure _
  · exact hleft he h (by grind) hl hrank (.of_begins hoperator) o' ho'

theorem stumbles_connect {op : Connective} {left right : Expr} {ts us' : List Token} {t : Token}
    (hreads : ReadsExpression op.layer left ts) (hleft : StumblesExpression op.layer left ts)
    (ht : t.kind = .symbol op.symbol) (hright : StumblesExpression op.layer.tighter right us')
    (hbegins : ∃ t rest, us' = t :: rest ∧ ∃ o : Opening, o.Begins t.kind) (last : Nat) :
    StumblesExpression op.layer (.connect op left right last) (ts ++ t :: us') := by
  intro hs source fuel least r u us v literals h hf hl hrank hu o' ho'
  have hconnective : (Continuation.connect op).Begins t.kind := ht
  obtain ⟨hlayer, hlevel, _⟩ := Continuation.layer_next_connect op
  have h : r.At source (ts ++ t :: (us' ++ u :: us)) v literals := by simpa using h
  by_cases he : left.Sound
  · have he' : ¬ right.Sound := fun hsound ↦ hs ⟨he, hsound⟩
    refine hreads he h (by grind) hl hrank (.of_begins hconnective) (fun fuel' r₁ hf' h₁ ↦ ?_) o' ho'
    obtain ⟨fuel, rfl⟩ := Nat.exists_eq_add_of_le' (show 2 ≤ fuel' by grind)
    refine stumbles_continueFrom (.connect op) h₁ (by simp) ht hl hrank fun r₂ h₂ ↦ ?_
    rw [continueWith]
    exact .line h₂ (.emit h₂ fun r₃ h₃ ↦ Stumbles.bind (stumbles_expressionFrom (hlayer ▸ hright)
      hbegins he' h₃ (by grind) hlevel hu.closes_connect) fun _ ↦
      invariant_spoiled.keeps_join.bind fun _ ↦ .pure _)
  · exact hleft he h (by grind) hl hrank (.of_begins hconnective) o' ho'

theorem stumbles_tighter {layer : Layer} {e : Expr} {ts : List Token}
    (hstumbles : StumblesExpression layer.tighter e ts) : StumblesExpression layer e ts := by
  intro hs source fuel least r u us v literals h hf hl hrank hu o ho
  have htighter : layer.rank ≤ layer.tighter.rank := by cases layer <;> decide
  exact hstumbles hs h hf hl (Nat.le_trans hrank htighter)
    ⟨fun c hc ↦ Nat.le_trans (hu.continuation c hc) htighter, hu.notCall, hu.assigns⟩ o ho

/-! ### Places -/

theorem stumbles_read {p : Place} {ts : List Token} (hplace : StumblesPlace p ts) (last : Nat) :
    StumblesExpression .primary (.read p last) ts := by
  intro hs source fuel least r u us v literals h hf hl _ hu o ho
  exact hplace hs h hf hl hu.notCall o ho

theorem stumbles_assign {p : Place} {e : Expr} {ts us' : List Token} {t : Token}
    (hreads : ReadsPlace p ts) (hplace : StumblesPlace p ts) (ht : t.kind = .symbol .equal)
    (hvalue : StumblesExpression .assignment e us')
    (hbegins : ∃ t rest, us' = t :: rest ∧ ∃ o : Opening, o.Begins t.kind) (last : Nat) :
    StumblesExpression .assignment (.assign p e last) (ts ++ t :: us') := by
  intro hs source fuel least r u us v literals h hf hl hrank hu o ho
  obtain rfl : least = .assignment := Precedence.eq_assignment hrank
  have h : r.At source (ts ++ t :: (us' ++ u :: us)) v literals := by simpa using h
  by_cases hp : p.Sound
  · have he : ¬ e.Sound := fun hsound ↦ hs ⟨hp, hsound⟩
    refine hreads hp h (by grind) hl (by simp [ht])
      (fun fuel' fuel'' operands r₁ literals' hf' hf'' h₁ ↦ ?_) o ho
    obtain ⟨fuel, rfl⟩ := Nat.exists_eq_add_of_le' (show 1 ≤ fuel' by grind)
    refine Stumbles.bind ?_ fun _ ↦ invariant_spoiled.keeps_continueFrom _ _ _ _
    rw [place]
    refine .check h₁ ?_
    rw [if_pos (by simp [ht])]
    exact .advance h₁ (by simp) fun r₂ h₂ ↦ Stumbles.bind (stumbles_expressionFrom hvalue hbegins he h₂
      (by grind) hl hu.closes_assignment) fun _ ↦ (invariant_spoiled.keeps_emit _).bind fun _ ↦
      Reader.Invariant.keeps_line.bind fun _ ↦ .pure _
  · exact hplace hp h (by grind) hl (by simp [ht]) o ho

theorem stumbles_update {p : Place} {op : BinaryOp} {sign : Symbol} {e : Expr} {ts us' : List Token}
    {t : Token} (hreads : ReadsPlace p ts) (hplace : StumblesPlace p ts)
    (hsign : op.assigning? = some sign) (ht : t.kind = .symbol sign)
    (hvalue : StumblesExpression .assignment e us')
    (hbegins : ∃ t rest, us' = t :: rest ∧ ∃ o : Opening, o.Begins t.kind) (first last : Nat) :
    StumblesExpression .assignment (.update p op e first last) (ts ++ t :: us') := by
  intro hs source fuel least r u us v literals h hf hl hrank hu o ho
  obtain rfl : least = .assignment := Precedence.eq_assignment hrank
  have hcompound : t.kind.compound? = some op := TokenKind.compound?_eq_some.mpr ⟨sign, hsign, ht⟩
  obtain ⟨hequal, hparen⟩ := TokenKind.ne_of_compound? hcompound
  have h : r.At source (ts ++ t :: (us' ++ u :: us)) v literals := by simpa using h
  by_cases hp : p.Sound
  · have he : ¬ e.Sound := fun hsound ↦ hs ⟨hp, hsound⟩
    refine hreads hp h (by grind) hl hparen
      (fun fuel' fuel'' operands r₁ literals' hf' hf'' h₁ ↦ ?_) o ho
    obtain ⟨fuel, rfl⟩ := Nat.exists_eq_add_of_le' (show 1 ≤ fuel' by grind)
    refine Stumbles.bind ?_ fun _ ↦ invariant_spoiled.keeps_continueFrom _ _ _ _
    rw [place]
    refine .check h₁ ?_
    rw [if_neg (by simp [hequal])]
    refine .current h₁ ?_
    rw [hcompound]
    exact .advance h₁ (by simp) fun r₂ h₂ ↦ .line h₂ (.emit h₂ fun r₃ h₃ ↦ Stumbles.bind
      (stumbles_expressionFrom hvalue hbegins he h₃ (by grind) hl hu.closes_assignment) fun _ ↦
      (invariant_spoiled.keeps_operate _).bind fun _ ↦ (invariant_spoiled.keeps_emit _).bind fun _ ↦
      Reader.Invariant.keeps_line.bind fun _ ↦ .pure _)
  · exact hplace hp h (by grind) hl hparen o ho

theorem stumbles_element {e index : Expr} {ts us' : List Token} {t c : Token}
    (hreads : ReadsExpression .primary e ts) (htarget : StumblesExpression .primary e ts)
    (ht : t.kind = .symbol .leftBracket) (hindex : StumblesExpression .assignment index us')
    (hbegins : ∃ t rest, us' = t :: rest ∧ ∃ o : Opening, o.Begins t.kind)
    (hc : c.kind = .symbol .rightBracket) :
    StumblesPlace (.element e index) (ts ++ t :: us' ++ [c]) := by
  intro hs source fuel least r u us v literals h hf hl hu o ho
  have hopening : Continuation.index.Begins t.kind := ht
  have h : r.At source (ts ++ t :: (us' ++ c :: u :: us)) v literals := by simpa using h
  by_cases he : e.Sound
  · have he' : ¬ index.Sound := fun hsound ↦ hs ⟨he, hsound⟩
    refine hreads he h (by grind) hl (Layer.rank_le _) (.of_begins hopening)
      (fun fuel' r₁ hf' h₁ ↦ ?_) o ho
    obtain ⟨fuel, rfl⟩ := Nat.exists_eq_add_of_le' (show 2 ≤ fuel' by grind)
    refine stumbles_continueFrom .index h₁ (by simp) ht hl (Layer.rank_le _) fun r₂ h₂ ↦ ?_
    rw [continueWith]
    refine Stumbles.bind (stumbles_expressionFrom hindex hbegins he' h₂ (by grind) (by decide)
      ⟨by simp [hc, TokenKind.continuation?], by simp [hc], fun _ ↦ by rw [hc]; rfl⟩) fun _ ↦ ?_
    exact (invariant_spoiled.keeps_close _ _).bind fun _ ↦ invariant_spoiled.keeps_place _ _ _ _
  · exact htarget he h (by grind) hl (Layer.rank_le _) (.of_begins hopening) o ho

theorem stumbles_field {e : Expr} {name : String} {ts : List Token} {c m : Token}
    (hreceiver : StumblesExpression .primary e ts) (hc : c.kind = .symbol .colon) :
    StumblesPlace (.field e name) (ts ++ [c, m]) := by
  intro hs source fuel least r u us v literals h hf hl hu o ho
  have hcolon : Continuation.member.Begins c.kind := hc
  have h : r.At source (ts ++ c :: m :: u :: us) v literals := by simpa using h
  exact hreceiver hs h (by grind) hl (Layer.rank_le _) (.of_begins hcolon) o ho

/-! ### Expressions between commas -/

theorem stumbles_one {e : Expr} {ts : List Token} (hstumbles : StumblesExpression .assignment e ts)
    (hbegins : ∃ t rest, ts = t :: rest ∧ ∃ o : Opening, o.Begins t.kind) :
    StumblesItems [e] ts := by
  intro hs source fuel r u us v literals h hf hu hcomma
  have he : ¬ e.Sound := fun hsound ↦ hs ⟨hsound, trivial⟩
  obtain ⟨fuel, rfl⟩ := Nat.exists_eq_add_of_le' (show 1 ≤ fuel by omega)
  rw [items]
  refine Stumbles.bind (stumbles_expressionFrom hstumbles hbegins he h (by omega) (by decide) hu)
    fun first ↦ (invariant_spoiled.keeps_accept _).bind fun found ↦ ?_
  split
  · exact (invariant_spoiled.keeps_items fuel).bind fun _ ↦ .pure _
  · exact .pure _

theorem stumbles_more {e : Expr} {es : List Expr} {ts us' : List Token} {c : Token}
    (hreads : ReadsExpression .assignment e ts) (hstumbles : StumblesExpression .assignment e ts)
    (hbegins : ∃ t rest, ts = t :: rest ∧ ∃ o : Opening, o.Begins t.kind)
    (hc : c.kind = .symbol .comma) (hrest : StumblesItems es us') :
    StumblesItems (e :: es) (ts ++ c :: us') := by
  intro hs source fuel r u us v literals h hf hu hcomma
  obtain ⟨fuel, rfl⟩ := Nat.exists_eq_add_of_le' (show 1 ≤ fuel by omega)
  have h : r.At source (ts ++ c :: (us' ++ u :: us)) v literals := by simpa using h
  have hcloses : Closes .assignment c.kind :=
    ⟨by simp [hc, TokenKind.continuation?], by simp [hc], fun _ ↦ by rw [hc]; rfl⟩
  rw [items]
  by_cases he : e.Sound
  · refine Leads.bind (leads_expressionFrom hreads hbegins he h (by grind) (by decide) hcloses) ?_
    rintro _ r₁ ⟨rfl, h₁⟩
    exact .accept h₁ hc (by simp) fun r₂ h₂ ↦
      (hrest (fun hsound ↦ hs ⟨he, hsound⟩) h₂ (by grind) hu hcomma).bind fun _ ↦ .pure _
  · refine Stumbles.bind (stumbles_expressionFrom hstumbles hbegins he h (by grind) (by decide)
      hcloses) fun first ↦ (invariant_spoiled.keeps_accept _).bind fun found ↦ ?_
    split
    · exact (invariant_spoiled.keeps_items fuel).bind fun _ ↦ .pure _
    · exact .pure _

/-! ### Every phrase -/

theorem stumbles_phrase {p : Phrase} {ts : List Token} (h : p.Derives ts) : StumblesPhrase p ts := by
  induction h with
  | tighter _ ih => exact stumbles_tighter ih
  | literal | «variable» | staticField => exact fun hs ↦ absurd trivial hs
  | group ho hinner hc ih => exact stumbles_group ho ih hinner.begins hc
  | list _ ih => exact stumbles_list ih
  | call ht _ ih => exact stumbles_call ht ih
  | construct hn ht _ ih => exact stumbles_construct hn ht ih
  | callStatic ht hc hm _ ih => exact stumbles_callStatic ht hc hm ih
  | callMethod hreceiver hc hm hargs ihreceiver ih =>
    exact stumbles_callMethod (reads_phrase hreceiver) ihreceiver hc hm ih
  | read _ ih => exact stumbles_read ih _
  | negate ht hoperand ih => exact stumbles_negate ht (reads_phrase hoperand) ih hoperand.begins _
  | not ht hoperand ih => exact stumbles_not ht (reads_phrase hoperand) ih hoperand.begins _
  | binary hleft ht hright ihleft ihright =>
    exact stumbles_binary (reads_phrase hleft) ihleft ht (reads_phrase hright) ihright hright.begins _
  | connect hleft ht hright ihleft ihright =>
    exact stumbles_connect (reads_phrase hleft) ihleft ht ihright hright.begins _
  | assign hplace ht hvalue ihplace ihvalue =>
    exact stumbles_assign (reads_phrase hplace) ihplace ht ihvalue hvalue.begins _
  | update hplace hsign ht hvalue ihplace ihvalue =>
    exact stumbles_update (reads_phrase hplace) ihplace hsign ht ihvalue hvalue.begins _ _
  | element htarget ht hindex hc ihtarget ihindex =>
    exact stumbles_element (reads_phrase htarget) ihtarget ht ihindex hindex.begins hc
  | field _ hc _ ih => exact stumbles_field ih hc
  | one h ih => exact stumbles_one ih h.begins
  | more h hc _ ih ihrest => exact stumbles_more (reads_phrase h) ih h.begins hc ihrest
  | none => exact fun hs ↦ absurd trivial hs
  | some ho hinner hc ih =>
    exact fun _ ↦ ⟨_, _, _, rfl, ho, hc, hinner.begins, ih⟩

/-- A whole expression that is not sound stumbles. -/
theorem stumbles_expression {e : Expr} {ts : List Token}
    (he : Phrase.Derives (.expression .assignment e) ts) (hs : ¬ e.Sound)
    (h : r.At source (ts ++ u :: us) v literals) (hu : Closes .assignment u.kind) :
    Stumbles expression r := by
  have hlength := h.standing ▸ r.length_standing_le
  exact .of_run rfl (stumbles_expressionFrom (stumbles_phrase he) he.begins hs h (by omega) (by decide) hu)

end StackScript.Reading
