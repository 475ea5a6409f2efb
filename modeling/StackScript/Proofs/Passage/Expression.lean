import StackScript.Proofs.Passage.Basic
import StackScript.Proofs.Passage.Precedence

/-!
# The passage through expressions

Whatever the tokens are, the functions that read an expression leave the reader ready, never run out of
fuel, and read a token at least unless a statement or block is closed. If they find no fault, then the
tokens that they have read are those of the expression that they yield, and it is sound. The induction
is on the fuel, as in the functions themselves.
-/

namespace StackScript.Reading

variable {source : String}

/-! ### What has been read -/

/-- An expression has been read from some tokens up to a reader, with everything in it that binds
tighter than its layer. -/
structure Behind (least : Precedence) (before : List Literal) (ts : List Token) (e : Expr)
    (r : Reader) : Prop where
  derives : ∃ layer, Phrase.Derives (.expression layer e) ts ∧
    least.layer.rank ≤ layer.rank ∧
    ∀ c, r.current.kind.continuation? = some c → c.layer.rank ≤ layer.rank
  sound : e.Sound
  literals : r.trail.literals = e.trail before

/-- An expression has been read with everything that belongs to it. -/
structure Whole (least : Precedence) (before : List Literal) (ts : List Token) (e : Expr)
    (r : Reader) : Prop where
  derives : Phrase.Derives (.expression least.layer e) ts
  sound : e.Sound
  literals : r.trail.literals = e.trail before
  stops : ∀ c, r.current.kind.continuation? = some c → c.layer.rank < least.layer.rank

variable {r : Reader}

theorem Behind.of_primary {least : Precedence} {before : List Literal} {ts : List Token} {e : Expr}
    (h : Phrase.Derives (.expression .primary e) ts) (hs : e.Sound)
    (hl : r.trail.literals = e.trail before) : Behind least before ts e r :=
  ⟨⟨.primary, h, Layer.rank_le _, fun _ _ ↦ Layer.rank_le _⟩, hs, hl⟩

theorem ends_missing (hr : r.Ready source) {n : Nat} (hn : r.standing.length ≤ n)
    {Q : Expr → Reader → Prop} (hq : ∀ e, Q e r) : Ends source missing r n Q :=
  .line hr (.pure hr hn (hq _))

theorem ends_failOpening (hr : r.Ready source) {Q : Expr → Reader → Prop} :
    Ends source failOpening r (r.standing.length - if r.current.kind.closes then 0 else 1) Q := by
  refine .current ?_
  split
  · rename_i hcloses
    exact .bind (ends_failHere hr (by simp [Fault.stage])) fun _ r' hr' hn ↦
      ends_missing hr' hn fun _ ↦ False.elim
  · rename_i hcloses
    refine .skip hr (by simp [Fault.stage]) (fun hend ↦ hcloses (by rw [hend]; rfl))
      fun r' hr' hn hfailed ↦ ?_
    exact .of_failed hfailed (ends_missing hr' (by omega) fun _ ↦ trivial)

theorem ends_rejectAssignment (hr : r.Ready source) :
    Ends source rejectAssignment r r.standing.length fun _ r' ↦ r' = r := by
  refine .current ?_
  split
  · rename_i hassigns
    refine .skip hr (by simp [Fault.stage]) (fun hend ↦ ?_) fun r' hr' hn hfailed ↦ ?_
    · rw [hend] at hassigns
      cases hassigns
    · exact .of_failed hfailed (.pure hr' (by omega) trivial)
  · exact .pure hr (Nat.le_refl _) rfl

/-- What is done behind the last of some expressions between brackets. -/
theorem ends_closing {α : Type} {f : Nat → α} {sign : Symbol} {expected : String} {n : Nat}
    {Q : α → Reader → Prop} (hr : r.Ready source) (hn : r.standing.length ≤ n)
    (hq : r.current.kind = .symbol sign → ∀ r', r'.view = r.view.read [r.current] →
      r'.trail.literals = [] → Q (f r.current.span.line) r') :
    Ends source (do close sign expected; emit 1; return f (← line)) r n Q := by
  refine .bind (ends_close hr sign expected) fun _ r₁ hr₁ hn₁ ↦ .change rfl ?_
  have hr₂ := hr₁.trailing (r₁.trail.emit 1)
  refine .line hr₂ (.pure hr₂ (Nat.le_trans hn₁ hn) ?_)
  rintro ⟨hsign, hadvanced⟩
  have hline : View.line { r₁ with trail := r₁.trail.emit 1 : Reader }.view = r.current.span.line := by
    show r₁.view.line = _
    simp [hadvanced.view, View.line_read]
  rw [hline]
  exact hq hsign _ hadvanced.view rfl

/-! ### Functions with fuel

Every token that stands to be read is worth eight units of fuel. A call takes one, and fewer than eight
calls are made one inside the other before a token is read; what a function asks for beyond its tokens
is how many of them may come. -/

mutual

theorem ends_expressionFrom : (fuel : Nat) → (least : Precedence) → (r : Reader) →
    r.Ready source → 8 * r.standing.length + 1 ≤ fuel → least.level ≤ 7 →
    Ends source (expressionFrom fuel least) r
      (r.standing.length - if r.current.kind.closes then 0 else 1) fun e r' ↦
        ∃ ts, r'.view = r.view.read ts ∧ Whole least r.trail.literals ts e r'
  | 0, _, _, _, hf, _ => absurd hf (by omega)
  | fuel + 1, least, r, hr, hf, hl => by
    refine .current ?_
    split
    · exact ends_failOpening hr
    · rename_i opening hopening
      have hbound : (if r.current.kind.closes then 0 else 1) ≤ 1 := by split <;> omega
      refine .advance hr (fun hend ↦ by simp [hend, TokenKind.opening?] at hopening)
        fun r₁ hr₁ ↦ ?_
      have hn₁ := hr₁.length
      refine .bind (ends_openWith fuel opening least r.current r₁ hr₁.ready (by omega) hl
        (TokenKind.opening?_eq_some.mp hopening) (by simp [hr₁.view, View.line_read]))
        fun first r₂ hr₂ hn₂ ↦ ?_
      refine .bind (ends_continueFrom fuel least _ first r₂ hr₂ (by omega) hl
        of_decide_eq_true) fun whole r₃ hr₃ hn₃ ↦ ?_
      -- The tokens of the first operand and those that continue it are those of the whole.
      have hdone : (∀ ts before, Behind least before ts first r₂ →
          ∃ us, r₃.view = r₂.view.read us ∧ Whole least before (ts ++ us) whole r₃) →
          (∃ ts, r₂.view = r₁.view.read ts ∧
            Behind least r₁.trail.literals (r.current :: ts) first r₂) →
          ∃ ts, r₃.view = r.view.read ts ∧ Whole least r.trail.literals ts whole r₃ := by
        rintro hwhole ⟨ts, hview, hbehind⟩
        obtain ⟨us, hview', hwhole⟩ := hwhole _ _ hbehind
        refine ⟨r.current :: ts ++ us, ?_, hr₁.literals ▸ hwhole⟩
        simp [hview', hview, hr₁.view]
      split
      · refine .bind (ends_rejectAssignment hr₃) fun _ r₄ hr₄ hn₄ ↦ .pure hr₄ (by omega) ?_
        rintro rfl
        exact hdone
      · exact .pure hr₃ (by omega) hdone

theorem ends_openWith : (fuel : Nat) → (opening : Opening) → (least : Precedence) → (t : Token) →
    (r : Reader) → r.Ready source → 8 * r.standing.length + 3 ≤ fuel → least.level ≤ 7 →
    opening.Begins t.kind → r.view.line = t.span.line →
    Ends source (openWith fuel opening (least = .assignment)) r r.standing.length fun e r' ↦
      ∃ ts, r'.view = r.view.read ts ∧ Behind least r.trail.literals (t :: ts) e r'
  | 0, _, _, _, _, _, hf, _, _, _ => absurd hf (by omega)
  | fuel + 1, opening, least, t, r, hr, hf, hl, ho, hline => by
    have hassignable : decide (least = .assignment) = true → least = .assignment :=
      of_decide_eq_true
    cases opening with
    | literal value =>
      have hr' := hr.trailing (r.trail.push value)
      refine .change rfl (.line hr' (.pure hr' (Nat.le_refl _) ⟨[], rfl, ?_⟩))
      have hline' : View.line { r with trail := r.trail.push value : Reader }.view = t.span.line :=
        hline
      rw [hline']
      exact .of_primary (.literal ho) trivial rfl
    | «variable» name =>
      refine .accept hr (by simp) (fun hc r₁ hr₁ ↦ ?_) fun _ ↦ ?_
      · have hn₁ := hr₁.length
        refine .bind (ends_arguments fuel r₁ hr₁.ready (by omega))
          fun (args, openLine, closeLine) r₂ hr₂ hn₂ ↦ .pure hr₂ (by omega) ?_
        intro hargs
        obtain ⟨ts, hview, hargs, hsound, hliterals⟩ :=
          hargs r.current hc (by simp [hr₁.view, View.line_read])
        refine ⟨r.current :: ts, by simp [hview, hr₁.view], ?_⟩
        exact .of_primary (.call ho hargs) hsound hliterals
      · refine (ends_place fuel (.variable name) 0 _ least r hr (by omega) hassignable).mono
          (Nat.le_refl _) fun e r' h ↦ ?_
        exact h [t] _ (.variable ho) trivial hline
    | className type =>
      refine .bind (ends_expect hr _ _) fun found r₁ hr₁ hn₁ ↦ ?_
      split
      · refine .bind (ends_memberName? hr₁) fun member? r₂ hr₂ hn₂ ↦ ?_
        cases member? with
        | none =>
          refine ends_missing hr₂ (by omega) ?_
          rintro - ⟨_, ⟨⟩, -⟩
        | some member =>
          refine .accept hr₂ (by simp) (fun hc r₃ hr₃ ↦ ?_) fun _ ↦ ?_
          · have hn₃ := hr₃.length
            refine .bind (ends_arguments fuel r₃ hr₃.ready (by omega))
              fun (args, openLine, closeLine) r₄ hr₄ hn₄ ↦ .pure hr₄ (by omega) ?_
            rintro hargs ⟨_, ⟨⟩, hmember, hr₂⟩ ⟨_, hcolon, hr₁⟩
            obtain ⟨ts, hview, hargs, hsound, hliterals⟩ :=
              hargs r₂.current hc (by simp [hr₃.view, View.line_read])
            refine ⟨r.current :: r₁.current :: r₂.current :: ts, ?_,
              .of_primary (.callStatic ho hcolon hmember hargs) hsound hliterals⟩
            simp [hview, hr₃.view, hr₂.view, hr₁.view]
          · refine (ends_place fuel (.staticField type member) 0 _ least r₂ hr₂ (by omega)
              hassignable).mono (by omega) fun e r₃ h ↦ ?_
            rintro ⟨_, ⟨⟩, hmember, hr₂⟩ ⟨_, hcolon, hr₁⟩
            obtain ⟨us, hview, hbehind⟩ := h [t, r.current, r₁.current] r.trail.literals
              (.staticField ho hcolon hmember) trivial
              (by simp [hr₂.view, hr₁.view, View.line_read, lastLine])
            exact ⟨r.current :: r₁.current :: us, by simp [hview, hr₂.view, hr₁.view], hbehind⟩
      · rename_i hnot
        exact ends_missing hr₁ hn₁ fun _ h ↦ absurd h.1 hnot
    | construct =>
      refine .current ?_
      split
      · rename_i type htype
        refine .advance hr (by simp [htype]) fun r₁ hr₁ ↦ ?_
        have hn₁ := hr₁.length
        refine .bind (ends_expect hr₁.ready _ _) fun found r₂ hr₂ hn₂ ↦ ?_
        split
        · refine .bind (ends_arguments fuel r₂ hr₂ (by omega))
            fun (args, openLine, closeLine) r₃ hr₃ hn₃ ↦ .pure hr₃ (by omega) ?_
          rintro hargs ⟨_, hopening, hr₂⟩
          obtain ⟨ts, hview, hargs, hsound, hliterals⟩ :=
            hargs r₁.current hopening (by simp [hr₂.view, View.line_read])
          refine ⟨r.current :: r₁.current :: ts, ?_,
            .of_primary (.construct ho htype hargs) hsound hliterals⟩
          simp [hview, hr₂.view, hr₁.view]
        · rename_i hnot
          exact ends_missing hr₂ (by omega) fun _ h ↦ absurd h.1 hnot
      · exact .bind (ends_failExpecting hr _) fun _ r₁ hr₁ hn₁ ↦
          ends_missing hr₁ hn₁ fun _ ↦ False.elim
    | group =>
      refine .bind ((ends_expressionFrom fuel .assignment r hr (by omega) (by decide)).le
        (Nat.sub_le _ _)) fun inner r₁ hr₁ hn₁ ↦ ?_
      refine .bind (ends_close hr₁ _ _) fun _ r₂ hr₂ hn₂ ↦ .pure hr₂ (by omega) ?_
      rintro ⟨hclosing, hr₂⟩ ⟨ts, hview, hwhole⟩
      refine ⟨ts ++ [r₁.current], by simp [hr₂.view, hview], ?_⟩
      exact .of_primary (.group ho hwhole.derives hclosing) hwhole.sound
        (hr₂.literals.trans hwhole.literals)
    | list =>
      have hr' := hr.trailing (r.trail.emit 1)
      refine .line hr (.change rfl (.check ?_))
      split
      · rename_i hc
        have hc : r.current.kind = .symbol .rightBracket := of_decide_eq_true hc
        refine ends_closing hr' (Nat.le_refl _) fun _ r₁ hview hliterals ↦
          ⟨[r.current], hview, .of_primary (.list ?_) trivial hliterals⟩
        rw [hline]
        exact .none ho hc
      · refine .bind (ends_items fuel _ hr' (show 8 * r.standing.length + 2 ≤ fuel by omega))
          fun items r₁ hr₁ hn₁ ↦ ends_closing hr₁ hn₁ ?_
        rintro hclosing r₂ hview hliterals ⟨ts, hview', hitems, hsound⟩
        refine ⟨ts ++ [r₁.current], by rw [hview, hview', View.read_read]; rfl,
          .of_primary (.list ?_) hsound hliterals⟩
        rw [hline]
        exact .some ho hitems hclosing
    | negate =>
      have hr' := hr.trailing (r.trail.push (.int 0))
      refine .line hr (.change rfl ?_)
      refine .bind ((ends_expressionFrom fuel .unary _ hr'
        (show 8 * r.standing.length + 1 ≤ fuel by omega) (by decide)).le (Nat.sub_le _ _))
        fun operand r₁ hr₁ hn₁ ↦ ?_
      refine .bind (ends_operate hr₁ .sub) fun _ r₂ hr₂ hn₂ ↦ .line hr₂ (.pure hr₂ ?_ ?_)
      · exact Nat.le_trans hn₂ hn₁
      · rintro ⟨hcurrent, hview', hcomputed⟩ ⟨ts, hview, hwhole⟩
        -- The zero that the operand is taken from lies on the trail before it.
        rw [hwhole.literals, Trail.push, computed_negate hwhole.sound r.view.line r₂.view.line]
          at hcomputed
        refine ⟨ts, hview'.trans hview, ⟨.sign, ?_, Precedence.rank_layer_le hl, fun c hc ↦ ?_⟩,
          ⟨hwhole.sound, hcomputed.1⟩, hcomputed.2⟩
        · rw [hline, hview', hview]
          exact View.line_read _ hwhole.derives.ne_nil ▸ .negate ho hwhole.derives
        · exact Nat.le_of_lt (hwhole.stops c (hcurrent ▸ hc))
    | not =>
      refine .bind ((ends_expressionFrom fuel .unary r hr (by omega) (by decide)).le
        (Nat.sub_le _ _)) fun operand r₁ hr₁ hn₁ ↦ ?_
      refine .bind (ends_operateNot hr₁) fun _ r₂ hr₂ hn₂ ↦ .line hr₂ (.pure hr₂ (by omega) ?_)
      rintro ⟨hcurrent, hview', hinverted⟩ ⟨ts, hview, hwhole⟩
      rw [hwhole.literals, inverted_not hwhole.sound r₂.view.line] at hinverted
      refine ⟨ts, hview'.trans hview, ⟨.sign, ?_, Precedence.rank_layer_le hl, fun c hc ↦ ?_⟩,
        ⟨hwhole.sound, hinverted.1⟩, hinverted.2⟩
      · rw [hview', hview]
        exact View.line_read _ hwhole.derives.ne_nil ▸ .not ho hwhole.derives
      · exact Nat.le_of_lt (hwhole.stops c (hcurrent ▸ hc))

theorem ends_continueFrom : (fuel : Nat) → (least : Precedence) → (assignable : Bool) →
    (left : Expr) → (r : Reader) → r.Ready source → 8 * r.standing.length + 1 ≤ fuel →
    least.level ≤ 7 → (assignable = true → least = .assignment) →
    Ends source (continueFrom fuel least assignable left) r r.standing.length fun e r' ↦
      ∀ ts before, Behind least before ts left r →
        ∃ us, r'.view = r.view.read us ∧ Whole least before (ts ++ us) e r'
  | 0, _, _, _, _, _, hf, _, _ => absurd hf (by omega)
  | fuel + 1, least, assignable, left, r, hr, hf, hl, ha => by
    -- What is looser than asked for is left to the caller.
    have hstop (hstops : ∀ c, r.current.kind.continuation? = some c →
        c.layer.rank < least.layer.rank) :
        Ends source (pure left) r r.standing.length fun e r' ↦
          ∀ ts before, Behind least before ts left r →
            ∃ us, r'.view = r.view.read us ∧ Whole least before (ts ++ us) e r' := by
      refine .pure hr (Nat.le_refl _) fun ts before hbehind ↦ ⟨[], rfl, ?_⟩
      obtain ⟨⟨layer, hderives, hrank, _⟩, hsound, hliterals⟩ := hbehind
      rw [List.append_nil]
      exact ⟨hderives.loosen hrank, hsound, hliterals, hstops⟩
    refine .current ?_
    split
    · rename_i hnone
      exact hstop (by simp [hnone])
    · rename_i continuation hcontinuation
      split
      · rename_i hlevel
        refine hstop fun c hc ↦ (Continuation.level_lt_iff hl c).mp ?_
        obtain rfl : continuation = c := Option.some.inj (hcontinuation.symm.trans hc)
        exact hlevel
      · rename_i hlevel
        have hrank : least.layer.rank ≤ continuation.layer.rank :=
          Nat.le_of_not_lt fun h ↦ hlevel ((Continuation.level_lt_iff hl _).mpr h)
        refine .advance hr (fun hend ↦ by simp [hend, TokenKind.continuation?] at hcontinuation)
          fun r₁ hr₁ ↦ ?_
        have hn₁ := hr₁.length
        refine .bind (ends_continueWith fuel continuation assignable left least r.current r₁
          hr₁.ready (by omega) ha (TokenKind.continuation?_eq_some.mp hcontinuation) hrank
          (by simp [hr₁.view, View.line_read])) fun next r₂ hr₂ hn₂ ↦ ?_
        refine (ends_continueFrom fuel least assignable next r₂ hr₂ (by omega) hl ha).mono
          (by omega) fun e r₃ hrest hnext ts before hbehind ↦ ?_
        obtain ⟨⟨layer, hderives, _, hcontinues⟩, hsound, hliterals⟩ := hbehind
        obtain ⟨us, hview, hbehind⟩ := hnext ts before
          (hderives.loosen (hcontinues _ hcontinuation)) hsound (hr₁.literals.trans hliterals)
        obtain ⟨vs, hview', hwhole⟩ := hrest _ _ hbehind
        exact ⟨r.current :: us ++ vs, by simp [hview', hview, hr₁.view], by simpa using hwhole⟩

theorem ends_continueWith : (fuel : Nat) → (continuation : Continuation) → (assignable : Bool) →
    (left : Expr) → (least : Precedence) → (t : Token) → (r : Reader) → r.Ready source →
    8 * r.standing.length + 2 ≤ fuel → (assignable = true → least = .assignment) →
    continuation.Begins t.kind → least.layer.rank ≤ continuation.layer.rank →
    r.view.line = t.span.line →
    Ends source (continueWith fuel continuation assignable left) r r.standing.length fun e r' ↦
      ∀ ts before, Phrase.Derives (.expression continuation.layer left) ts → left.Sound →
        r.trail.literals = left.trail before →
        ∃ us, r'.view = r.view.read us ∧ Behind least before (ts ++ t :: us) e r'
  | 0, _, _, _, _, _, _, _, hf, _, _, _, _ => absurd hf (by omega)
  | fuel + 1, continuation, assignable, left, least, t, r, hr, hf, ha, hc, hrank, hline => by
    cases continuation with
    | index =>
      refine .bind ((ends_expressionFrom fuel .assignment r hr (by omega) (by decide)).le
        (Nat.sub_le _ _)) fun index r₁ hr₁ hn₁ ↦ ?_
      refine .bind (ends_close hr₁ _ _) fun _ r₂ hr₂ hn₂ ↦ ?_
      refine (ends_place fuel (.element left index) 2 _ least r₂ hr₂ (by omega) ha).mono
        (by omega) fun e r₃ h ↦ ?_
      rintro ⟨hclosing, hr₂⟩ ⟨us, hview, hwhole⟩ ts before hleft hsound -
      obtain ⟨vs, hview', hbehind⟩ := h (ts ++ t :: us ++ [r₁.current]) before
        (.element hleft hc hwhole.derives hclosing) ⟨hsound, hwhole.sound⟩
        (by rw [lastLine_concat]; simp [hr₂.view, View.line_read])
      exact ⟨us ++ r₁.current :: vs, by simp [hview', hr₂.view, hview], by simpa using hbehind⟩
    | member =>
      refine .bind (ends_memberName? hr) fun member? r₁ hr₁ hn₁ ↦ ?_
      cases member? with
      | none =>
        refine .pure hr₁ hn₁ ?_
        rintro ⟨_, ⟨⟩, -⟩
      | some name =>
        refine .accept hr₁ (by simp) (fun ho r₂ hr₂ ↦ ?_) fun _ ↦ ?_
        · have hn₂ := hr₂.length
          refine .bind (ends_arguments fuel r₂ hr₂.ready (by omega))
            fun (args, openLine, closeLine) r₃ hr₃ hn₃ ↦ .pure hr₃ (by omega) ?_
          rintro hargs ⟨_, ⟨⟩, hname, hr₁⟩ ts before hleft hsound -
          obtain ⟨us, hview, hargs, hsound', hliterals⟩ :=
            hargs r₁.current ho (by simp [hr₂.view, View.line_read])
          refine ⟨r.current :: r₁.current :: us, by simp [hview, hr₂.view, hr₁.view], ?_⟩
          exact .of_primary (.callMethod hleft hc hname hargs) ⟨hsound, hsound'⟩ hliterals
        · refine (ends_place fuel (.field left name) 1 _ least r₁ hr₁ (by omega) ha).mono
            (by omega) fun e r₂ h ↦ ?_
          rintro ⟨_, ⟨⟩, hname, hr₁⟩ ts before hleft hsound -
          obtain ⟨us, hview, hbehind⟩ := h (ts ++ [t, r.current]) before
            (.field hleft hc hname) hsound (by simp [hr₁.view, View.line_read, lastLine])
          exact ⟨r.current :: us, by simp [hview, hr₁.view], by simpa using hbehind⟩
    | operator op =>
      obtain ⟨hlayer, hlevel, _⟩ := Continuation.layer_next_operator op
      refine .bind ((ends_expressionFrom fuel _ r hr (by omega) hlevel).le (Nat.sub_le _ _))
        fun right r₁ hr₁ hn₁ ↦ .bind (ends_operate hr₁ op.base) fun _ r₂ hr₂ hn₂ ↦ ?_
      -- Behind the operator there may be a negation; both are computed as their expression is.
      have hdone : ∀ r₃ : Reader, r₃.current = r₂.current → r₃.view = r₂.view →
          (if op.isNegated then inverted else some) r₂.trail.literals = some r₃.trail.literals →
          (r₂.current = r₁.current ∧ r₂.view = r₁.view ∧
            computed op.base r₁.trail.literals = some r₂.trail.literals) →
          (∃ us, r₁.view = r.view.read us ∧ Whole (Continuation.operator op).precedence.next
            r.trail.literals us right r₁) →
          ∀ ts before, Phrase.Derives (.expression op.layer left) ts → left.Sound →
            r.trail.literals = left.trail before →
            ∃ us, r₃.view = r.view.read us ∧
              Behind least before (ts ++ t :: us) (.binary op left right r₃.view.line) r₃ := by
        rintro r₃ hcurrent₃ hview₃ hinverted ⟨hcurrent₂, hview₂, hcomputed⟩ ⟨us, hview₁, hwhole⟩ ts
          before hleft hsound hliterals
        have hboth := (computed_binary hsound hwhole.sound op r₃.view.line before
          r₃.trail.literals).mp (by
            rw [← hliterals, ← hwhole.literals, hcomputed]
            exact hinverted)
        have hview : r₃.view = r.view.read us := hview₃.trans (hview₂.trans hview₁)
        refine ⟨us, hview, ⟨op.layer, ?_, hrank, fun c hcont ↦ ?_⟩,
          ⟨hsound, hwhole.sound, hboth.1⟩, hboth.2⟩
        · rw [hview, View.line_read _ hwhole.derives.ne_nil]
          exact .binary hleft hc (hlayer ▸ hwhole.derives)
        · rw [hcurrent₃, hcurrent₂] at hcont
          have := hwhole.stops c hcont
          rw [Continuation.rank_next_operator] at this
          omega
      split
      · rename_i hnegated
        refine .bind (ends_operateNot hr₂) fun _ r₃ hr₃ hn₃ ↦ .line hr₃ (.pure hr₃ (by omega) ?_)
        rintro ⟨hcurrent, hview, hinverted⟩
        exact hdone r₃ hcurrent hview (by rwa [if_pos hnegated])
      · rename_i hnegated
        exact .line hr₂ (.pure hr₂ (by omega) (hdone r₂ rfl rfl (by rw [if_neg hnegated])))
    | connect op =>
      obtain ⟨hlayer, hlevel, _⟩ := Continuation.layer_next_connect op
      have hr' := hr.trailing (r.trail.emit 3)
      refine .line hr (.change rfl ?_)
      refine .bind ((ends_expressionFrom fuel _ _ hr' (show 8 * r.standing.length + 1 ≤ fuel by omega)
        hlevel).le (Nat.sub_le _ _)) fun right r₁ hr₁ hn₁ ↦ .change rfl ?_
      refine .pure (hr₁.beside _ _ _ _ _ _ _) hn₁ ?_
      rintro ⟨us, hview, hwhole⟩ ts before hleft hsound -
      refine ⟨us, hview, ⟨op.layer, ?_, hrank, fun c hcont ↦ ?_⟩, ⟨hsound, hwhole.sound⟩, rfl⟩
      · rw [hline]
        exact .connect hleft hc (hlayer ▸ hwhole.derives)
      · have := hwhole.stops c hcont
        rw [Continuation.rank_next_connect] at this
        omega

theorem ends_place : (fuel : Nat) → (target : Place) → (operands : Nat) → (assignable : Bool) →
    (least : Precedence) → (r : Reader) → r.Ready source → 8 * r.standing.length + 1 ≤ fuel →
    (assignable = true → least = .assignment) →
    Ends source (place fuel target operands assignable) r r.standing.length fun e r' ↦
      ∀ ts before, Phrase.Derives (.place target) ts → target.Sound → r.view.line = lastLine ts →
        ∃ us, r'.view = r.view.read us ∧ Behind least before (ts ++ us) e r'
  | 0, _, _, _, _, _, _, hf, _ => absurd hf (by omega)
  | fuel + 1, target, operands, assignable, least, r, hr, hf, ha => by
    -- Where nothing is assigned to it, the place is read from.
    have hread : Ends source (do emit 1; return .read target (← line)) r r.standing.length
        fun e r' ↦ ∀ ts before, Phrase.Derives (.place target) ts → target.Sound →
          r.view.line = lastLine ts →
          ∃ us, r'.view = r.view.read us ∧ Behind least before (ts ++ us) e r' := by
      have hr' := hr.trailing (r.trail.emit 1)
      refine .change rfl (.line hr' (.pure hr' (Nat.le_refl _) fun ts before ht hs hline ↦
        ⟨[], rfl, ?_⟩))
      have hline' : View.line { r with trail := r.trail.emit 1 : Reader }.view = lastLine ts := hline
      rw [hline', List.append_nil]
      exact .of_primary (.read ht) hs rfl
    refine .check ?_
    split
    · rename_i hboth
      obtain ⟨hassignable, hc⟩ := Bool.and_eq_true_iff.mp hboth
      have hc : r.current.kind = .symbol .equal := of_decide_eq_true hc
      obtain rfl := ha hassignable
      refine .advance hr (by simp [hc]) fun r₁ hr₁ ↦ ?_
      have hn₁ := hr₁.length
      refine .bind ((ends_expressionFrom fuel .assignment r₁ hr₁.ready (by omega) (by decide)).le
        (Nat.sub_le _ _)) fun value r₂ hr₂ hn₂ ↦ .change rfl ?_
      have hr₃ := hr₂.trailing (r₂.trail.emit 1)
      refine .line hr₃ (.pure hr₃ (Nat.le_trans hn₂ (by omega)) ?_)
      rintro ⟨us, hview, hwhole⟩ ts before ht hs -
      have hline' : View.line { r₂ with trail := r₂.trail.emit 1 : Reader }.view = lastLine us := by
        show r₂.view.line = _
        rw [hview, View.line_read _ hwhole.derives.ne_nil]
      refine ⟨r.current :: us, by rw [View.read_cons, ← hr₁.view, ← hview]; rfl,
        ⟨.assignment, ?_, Nat.le_refl _, fun c hcont ↦ Nat.le_of_lt (hwhole.stops c hcont)⟩,
        ⟨hs, hwhole.sound⟩, rfl⟩
      rw [hline']
      exact .assign ht hc hwhole.derives
    · refine .current ?_
      split
      · rename_i op hop
        obtain ⟨sign, hsign, hc⟩ := TokenKind.compound?_eq_some.mp hop
        split
        · rename_i hassignable
          obtain rfl := ha hassignable
          refine .advance hr (by simp [hc]) fun r₁ hr₁ ↦ ?_
          have hn₁ := hr₁.length
          have hr₁' := hr₁.ready.trailing (r₁.trail.emit (if operands = 0 then 1 else 2))
          refine .line hr₁.ready (.change rfl ?_)
          refine .bind ((ends_expressionFrom fuel .assignment _ hr₁'
            (show 8 * r₁.standing.length + 1 ≤ fuel by omega) (by decide)).le (Nat.sub_le _ _))
            fun value r₂ hr₂ hn₂ ↦ .bind (ends_operate hr₂ op) fun _ r₃ hr₃ hn₃ ↦ .change rfl ?_
          have hr₄ := hr₃.trailing (r₃.trail.emit 1)
          have hn₂ : r₂.standing.length ≤ r₁.standing.length := hn₂
          refine .line hr₄ (.pure hr₄ (show r₃.standing.length ≤ _ by omega) ?_)
          rintro ⟨hcurrent₃, hview₃, -⟩ ⟨us, hview₂, hwhole⟩ ts before ht hs -
          have hview : r₃.view = r.view.read (r.current :: us) := by
            rw [View.read_cons, ← hr₁.view, hview₃, hview₂]
            rfl
          have hline : r₁.view.line = r.current.span.line := by simp [hr₁.view, View.line_read]
          have hline' : View.line { r₃ with trail := r₃.trail.emit 1 : Reader }.view =
              lastLine us := by
            show r₃.view.line = _
            rw [hview₃, hview₂, View.line_read _ hwhole.derives.ne_nil]
          refine ⟨r.current :: us, hview, ⟨.assignment, ?_, Nat.le_refl _, fun c hcont ↦ ?_⟩,
            ⟨hs, hwhole.sound⟩, rfl⟩
          · rw [hline, hline']
            exact .update ht hsign hc hwhole.derives
          · have hcont : r₃.current.kind.continuation? = some c := hcont
            rw [hcurrent₃] at hcont
            exact Nat.le_of_lt (hwhole.stops c hcont)
        · exact hread
      · exact hread

theorem ends_arguments : (fuel : Nat) → (r : Reader) → r.Ready source →
    8 * r.standing.length + 3 ≤ fuel →
    Ends source (arguments fuel) r r.standing.length fun args r' ↦
      ∀ o, o.kind = .symbol .leftParen → r.view.line = o.span.line → ∃ ts,
        r'.view = r.view.read ts ∧
        Phrase.Derives (.enclosed .leftParen .rightParen args.1 args.2.1 args.2.2) (o :: ts) ∧
        soundAll args.1 ∧ r'.trail.literals = []
  | 0, _, _, hf => absurd hf (by omega)
  | fuel + 1, r, hr, hf => by
    have hr' := hr.trailing (r.trail.emit 1)
    refine .line hr (.change rfl (.check ?_))
    split
    · rename_i hc
      have hc : r.current.kind = .symbol .rightParen := of_decide_eq_true hc
      show Ends source (do
        close .rightParen "')' after arguments"
        emit 1
        return ([], r.view.line, ← line)) _ _ _
      refine ends_closing hr' (Nat.le_refl _) ?_
      intro _ r₁ hview hliterals o ho hline
      refine ⟨[r.current], hview, ?_, trivial, hliterals⟩
      rw [hline]
      exact .none ho hc
    · refine .bind (ends_items fuel _ hr' (show 8 * r.standing.length + 2 ≤ fuel by omega))
        fun items r₁ hr₁ hn₁ ↦ ends_closing hr₁ hn₁ ?_
      rintro hclosing r₂ hview hliterals ⟨ts, hview', hitems, hsound⟩ o ho hline
      refine ⟨ts ++ [r₁.current], by rw [hview, hview', View.read_read]; rfl, ?_, hsound, hliterals⟩
      rw [hline]
      exact .some ho hitems hclosing

theorem ends_items : (fuel : Nat) → (r : Reader) → r.Ready source →
    8 * r.standing.length + 2 ≤ fuel →
    Ends source (items fuel) r r.standing.length fun es r' ↦
      ∃ ts, r'.view = r.view.read ts ∧ Phrase.Derives (.items es) ts ∧ soundAll es
  | 0, _, _, hf => absurd hf (by omega)
  | fuel + 1, r, hr, hf => by
    refine .bind ((ends_expressionFrom fuel .assignment r hr (by omega) (by decide)).le
      (Nat.sub_le _ _)) fun first r₁ hr₁ hn₁ ↦ ?_
    refine .accept hr₁ (by simp) (fun hc r₂ hr₂ ↦ ?_) fun _ ↦ ?_
    · have hn₂ := hr₂.length
      refine .bind (ends_items fuel r₂ hr₂.ready (by omega))
        fun rest r₃ hr₃ hn₃ ↦ .pure hr₃ (by omega) ?_
      rintro ⟨us, hview', hitems, hsound⟩ ⟨ts, hview, hwhole⟩
      exact ⟨ts ++ r₁.current :: us, by simp [hview', hr₂.view, hview],
        .more hwhole.derives hc hitems, hwhole.sound, hsound⟩
    · refine .pure hr₁ hn₁ ?_
      rintro ⟨ts, hview, hwhole⟩
      exact ⟨ts, hview, .one hwhole.derives, hwhole.sound, trivial⟩

end

end StackScript.Reading
