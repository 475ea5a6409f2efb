import StackScript.Compilation
import StackScript.Proofs.Source.Reports
import StackScript.Proofs.Syntax.Written

/-!
# Steady readings

Three facts about the reader are shown for all of its functions at once, along their code. Each
function is `Steady`:

* it yields what is `Written`, as long as the tokens are those of a text;
* a fault once found stays found, and a reader that recovers has found one;
* read again without computing constants, the same text yields the same result, unless a fault was
  found the first time. The two readers are `Twin`: they differ in their trails and remarks only.

Steadiness is kept by sequencing, so that each function is steady because its parts are.
-/

namespace StackScript

variable {α β γ : Type}

/-! ### Readers -/

/-- A name in a text is not the one of enumerators. -/
def TokenKind.Written (kind : TokenKind) : Prop := kind ≠ .identifier enumeratorName

namespace Reader

/-- The tokens are those of a text, and recovery has its reason. -/
structure Proper (r : Reader) : Prop where
  current : r.current.kind.Written
  upcoming : ∀ s ∈ r.upcoming, s.token.kind.Written
  recovering : r.recovering → r.diagnostics.failed

/-- Two readers of one text, of which the second computes no constants. -/
def Twin (r r' : Reader) : Prop :=
  ∃ trail remarks, r' = { r with folding := false, trail := trail, remarks := remarks }

end Reader

namespace Reading

/-- Reading that yields results of a kind, and the same as the other reading yields when it computes no
constants. -/
structure Alike (P : α → Prop) (x x' : Reading α) : Prop where
  keeps : ∀ r : Reader, r.Proper → P (x.run r).1 ∧ (x.run r).2.Proper ∧
    (r.diagnostics.failed → (x.run r).2.diagnostics.failed)
  twin : ∀ r r' : Reader, r.Proper → r.Twin r' → (x.run r).2.diagnostics.failed ∨
    (x'.run r').1 = (x.run r).1 ∧ (x.run r).2.Twin (x'.run r').2

/-- Reading that yields results of a kind, and the same whether constants are computed or not. -/
abbrev Steady (P : α → Prop) (x : Reading α) : Prop := Alike P x x

/-- Anything may be yielded. -/
abbrev Any : α → Prop := fun _ ↦ True

theorem Alike.bind {P : α → Prop} {Q : β → Prop} {x x' : Reading α} {f f' : α → Reading β}
    (hx : Alike P x x') (hf : ∀ a, P a → Alike Q (f a) (f' a)) :
    Alike Q (x >>= f) (x' >>= f') := by
  constructor
  · intro r hr
    obtain ⟨ha, hs, hfailed⟩ := hx.keeps r hr
    obtain ⟨hb, hs', hfailed'⟩ := (hf _ ha).keeps _ hs
    exact ⟨hb, hs', hfailed' ∘ hfailed⟩
  · intro r r' hr ht
    obtain ⟨ha, hs, _⟩ := hx.keeps r hr
    rcases hx.twin r r' hr ht with hfailed | ⟨heq, hst⟩
    · exact .inl (((hf _ ha).keeps _ hs).2.2 hfailed)
    · have hrun (x : Reading α) (f : α → Reading β) (r : Reader) :
        (x >>= f).run r = (f (x.run r).1).run (x.run r).2 := rfl
      rw [hrun, hrun, heq]
      exact (hf _ ha).twin _ _ hs hst

/-- Going on from the reader itself, whatever is made of it. -/
theorem Alike.getting {Q : β → Prop} {f f' : Reader → Reading β}
    (hf : ∀ r r', Alike Q (f r) (f' r')) : Alike Q (get >>= f) (get >>= f') :=
  ⟨fun r hr ↦ (hf r r).keeps r hr, fun r r' hr ht ↦ (hf r r').twin r r' hr ht⟩

namespace Steady

variable {P : α → Prop} {Q : β → Prop}

theorem pure {a : α} (h : P a) : Steady P (pure a : Reading α) :=
  ⟨fun _ hr ↦ ⟨h, hr, id⟩, fun _ _ _ ht ↦ .inr ⟨rfl, ht⟩⟩

theorem bind {x : Reading α} {f : α → Reading β} (hx : Steady P x)
    (hf : ∀ a, P a → Steady Q (f a)) : Steady Q (x >>= f) :=
  Alike.bind hx hf

theorem mono {P' : α → Prop} {x : Reading α} (h : Steady P x) (hp : ∀ a, P a → P' a) :
    Steady P' x :=
  ⟨fun r hr ↦ ⟨hp _ (h.keeps r hr).1, (h.keeps r hr).2⟩, h.twin⟩

/-- Changing the reader in the same way whatever its trail. -/
theorem modify {f : Reader → Reader}
    (hf : ∀ r : Reader, r.Proper →
      (f r).Proper ∧ (r.diagnostics.failed → (f r).diagnostics.failed))
    (ht : ∀ r r' : Reader, r.Twin r' → (f r).Twin (f r')) :
    Steady Any (modify f : Reading PUnit) :=
  ⟨fun r hr ↦ ⟨trivial, hf r hr⟩, fun r r' _ h ↦ .inr ⟨rfl, ht r r' h⟩⟩

/-- Going on after something that may be left out. -/
theorem skip {c : Prop} [Decidable c] {y : Reading Unit} {x : Reading α} (hy : Steady Any y)
    (hx : Steady P x) : Steady P (do
      unless c do y
      x) := by
  dsimp only
  split
  · exact hx
  · exact hy.bind fun _ _ ↦ hx

/-- Going on from something that twins have in common. -/
theorem get_bind {f : Reader → Reading β}
    (ht : ∀ r trail remarks,
      f { r with folding := false, trail := trail, remarks := remarks } = f r)
    (hf : ∀ r : Reader, r.Proper → Steady Q (f r)) : Steady Q (get >>= f) := by
  have hrun (r : Reader) : (get >>= f).run r = (f r).run r := rfl
  constructor
  · intro r hr
    exact (hf r hr).keeps r hr
  · rintro r _ hr ⟨trail, remarks, rfl⟩
    rw [hrun, hrun, ht]
    exact (hf r hr).twin r _ hr ⟨trail, remarks, rfl⟩

end Steady

/-! ### Tokens -/

/-- Something that twins have in common. -/
theorem steady_get {P : γ → Prop} {g : Reader → γ}
    (ht : ∀ r trail remarks, g { r with folding := false, trail := trail, remarks := remarks } = g r)
    (hp : ∀ r : Reader, r.Proper → P (g r)) : Steady P (do return g (← get) : Reading γ) :=
  .get_bind (fun r _ _ ↦ congrArg Pure.pure (ht r _ _)) fun r hr ↦ .pure (hp r hr)

theorem steady_current : Steady TokenKind.Written current :=
  steady_get (fun _ _ _ ↦ rfl) fun _ hr ↦ hr.current

theorem steady_currentSpan : Steady Any currentSpan :=
  steady_get (fun _ _ _ ↦ rfl) fun _ _ ↦ trivial

theorem steady_line : Steady Any line :=
  steady_get (fun _ _ _ ↦ rfl) fun _ _ ↦ trivial

theorem steady_remaining : Steady Any remaining :=
  steady_get (fun _ _ _ ↦ rfl) fun _ _ ↦ trivial

theorem skim_spec (d : Diagnostics) (upcoming : List Scanned)
    (h : ∀ s ∈ upcoming, s.token.kind.Written) :
    (∀ token, (skim d upcoming).1 = some token → token.kind.Written) ∧
      (∀ s ∈ (skim d upcoming).2.1, s.token.kind.Written) ∧
      (d.failed → (skim d upcoming).2.2.failed) := by
  induction upcoming generalizing d with
  | nil => simp [skim]
  | cons s rest ih =>
    have hrest : ∀ s ∈ rest, s.token.kind.Written := fun s hs ↦ h s (.tail _ hs)
    rw [skim]
    split
    · obtain ⟨h₁, h₂, h₃⟩ := ih (d.absorb s) hrest
      exact ⟨h₁, h₂, fun hd ↦ h₃ (d.failed_absorb s hd)⟩
    · refine ⟨fun token ht ↦ ?_, hrest, d.failed_absorb s⟩
      cases ht
      exact h s (.head _)

theorem steady_advance : Steady Any advance := by
  refine .modify (fun r hr ↦ ?_) ?_
  · obtain ⟨htoken, hrest, hfailed⟩ := skim_spec r.diagnostics r.upcoming hr.upcoming
    refine ⟨⟨?_, hrest, fun h ↦ hfailed (hr.recovering h)⟩, hfailed⟩
    show ((skim r.diagnostics r.upcoming).1.getD r.current).kind.Written
    rcases hs : (skim r.diagnostics r.upcoming).1 with _ | token
    · exact hr.current
    · exact htoken token hs
  · rintro r _ ⟨trail, remarks, rfl⟩
    exact ⟨trail, remarks, rfl⟩

theorem steady_check (kind : TokenKind) : Steady Any (check kind) :=
  steady_current.bind fun _ _ ↦ .pure trivial

theorem steady_accept (kind : TokenKind) : Steady Any (accept kind) := by
  refine (steady_check kind).bind fun found _ ↦ ?_
  split
  · exact steady_advance.bind fun _ _ ↦ .pure trivial
  · exact .pure trivial

/-! ### Faults -/

theorem steady_fail (fault : Fault) (span : Span) : Steady Any (fail fault span) := by
  refine .modify (fun r hr ↦ ?_) ?_
  · split
    · exact ⟨hr, id⟩
    · have hfailed := r.diagnostics.failed_raise fault span
      exact ⟨⟨hr.current, hr.upcoming, fun _ ↦ hfailed⟩, fun _ ↦ hfailed⟩
  · rintro r _ ⟨trail, remarks, rfl⟩
    dsimp only
    split
    · exact ⟨trail, remarks, rfl⟩
    · exact ⟨trail, remarks, rfl⟩

theorem steady_failHere (fault : Fault) : Steady Any (failHere fault) :=
  steady_currentSpan.bind fun _ _ ↦ steady_fail _ _

theorem steady_failExpecting (expected : String) : Steady Any (failExpecting expected) :=
  steady_current.bind fun _ _ ↦ steady_failHere _

theorem steady_expect (sign : Symbol) (expected : String) : Steady Any (expect sign expected) := by
  refine (steady_accept _).bind fun found _ ↦ ?_
  split
  · exact .pure trivial
  · exact (steady_failExpecting _).bind fun _ _ ↦ .pure trivial

theorem steady_close (sign : Symbol) (expected : String) : Steady Any (close sign expected) :=
  (steady_expect _ _).bind fun _ _ ↦ .pure trivial

/-- A name that was read is not the one of enumerators. -/
theorem steady_name? (expected : String) : Steady (· ≠ some enumeratorName) (name? expected) := by
  refine steady_current.bind fun kind hkind ↦ ?_
  split
  · refine steady_advance.bind fun _ _ ↦ .pure fun h ↦ hkind ?_
    rw [Option.some.inj h]
  · exact (steady_failExpecting _).bind fun _ _ ↦ .pure fun h ↦ nomatch h

theorem steady_memberName? : Steady Any memberName? := by
  refine steady_current.bind fun kind hkind ↦ ?_
  split
  · exact steady_advance.bind fun _ _ ↦ .pure trivial
  · exact steady_advance.bind fun _ _ ↦ .pure trivial
  · exact (steady_failExpecting _).bind fun _ _ ↦ .pure trivial

theorem steady_starve {P : α → Prop} {standIn : α} (h : P standIn) : Steady P (starve standIn) := by
  refine .bind (.modify (fun r hr ↦ ⟨⟨hr.current, hr.upcoming, hr.recovering⟩, id⟩) ?_)
    fun _ _ ↦ .pure h
  rintro r _ ⟨trail, remarks, rfl⟩
  exact ⟨trail, remarks, rfl⟩

theorem steady_skipUntil {stops : Reading Bool} (h : Steady Any stops) (fuel : Nat) :
    Steady Any (skipUntil stops fuel) := by
  induction fuel with
  | zero => exact steady_starve trivial
  | succ fuel ih =>
    refine h.bind fun stop _ ↦ ?_
    split
    · exact .pure trivial
    · exact steady_advance.bind fun _ _ ↦ ih

theorem steady_atStatement : Steady Any atStatement :=
  steady_get (fun _ _ _ ↦ rfl) fun _ _ ↦ trivial

theorem steady_atDeclaration : Steady Any atDeclaration := by
  refine steady_current.bind fun kind _ ↦ ?_
  split <;> exact .pure trivial

theorem steady_recoverAt {boundary : Reading Bool} (h : Steady Any boundary) :
    Steady Any (recoverAt boundary) := by
  refine .get_bind (fun _ _ _ ↦ rfl) fun r hr ↦ ?_
  split
  · refine .bind (.modify (fun r hr ↦ ⟨⟨hr.current, hr.upcoming, fun h ↦ nomatch h⟩, id⟩) ?_)
      fun _ _ ↦ steady_remaining.bind fun _ _ ↦ steady_skipUntil h _
    rintro r _ ⟨trail, remarks, rfl⟩
    exact ⟨trail, remarks, rfl⟩
  · exact .pure trivial

/-! ### The trail -/

/-- Nothing but trail and remarks is changed. -/
theorem steady_trail {f : Reader → Reader}
    (hf : ∀ r, ∃ trail remarks, f r = { r with trail := trail, remarks := remarks }) :
    Steady Any (modify f : Reading PUnit) := by
  refine .modify (fun r hr ↦ ?_) ?_
  · obtain ⟨trail, remarks, h⟩ := hf r
    rw [h]
    exact ⟨⟨hr.current, hr.upcoming, hr.recovering⟩, id⟩
  · rintro r _ ⟨trail, remarks, rfl⟩
    obtain ⟨_, _, h⟩ := hf r
    obtain ⟨_, _, h'⟩ := hf { r with folding := false, trail := trail, remarks := remarks }
    rw [h, h']
    exact ⟨_, _, rfl⟩

theorem steady_emit (count : Nat) : Steady Any (emit count) :=
  steady_trail fun _ ↦ ⟨_, _, rfl⟩

theorem steady_push (l : Literal) : Steady Any (push l) :=
  steady_trail fun _ ↦ ⟨_, _, rfl⟩

theorem steady_join : Steady Any join :=
  steady_trail fun _ ↦ ⟨_, _, rfl⟩

theorem steady_remark (what : Remark) : Steady Any (remark what) :=
  steady_trail fun _ ↦ ⟨_, _, rfl⟩

/-- Remarks are of no consequence. -/
theorem alike_remark (what what' : Remark) : Alike Any (remark what) (remark what') := by
  refine ⟨(steady_remark what).keeps, ?_⟩
  rintro r _ _ ⟨trail, remarks, rfl⟩
  exact .inr ⟨rfl, _, _, rfl⟩

theorem failed_fail {r : Reader} (hr : r.Proper) (fault : Fault) (span : Span) :
    ((fail fault span).run r).2.diagnostics.failed := by
  show (if r.recovering then r
    else { r with recovering := true, diagnostics := r.diagnostics.raise fault span }).diagnostics.failed
  split
  · rename_i h
    exact hr.recovering h
  · exact r.diagnostics.failed_raise fault span

/-- Computing constants changes the trail at most, or finds a fault. -/
theorem Steady.of_computing {x : Reading Unit}
    (hx : ∀ r : Reader, r.Proper →
      (∃ trail remarks, (x.run r).2 = { r with trail := trail, remarks := remarks }) ∨
        (x.run r).2.Proper ∧ (x.run r).2.diagnostics.failed)
    (hx' : ∀ r : Reader, r.folding = false →
      ∃ trail remarks, (x.run r).2 = { r with trail := trail, remarks := remarks }) :
    Steady Any x := by
  constructor
  · intro r hr
    rcases hx r hr with ⟨trail, remarks, h⟩ | ⟨hproper, hfailed⟩
    · rw [h]
      exact ⟨trivial, ⟨hr.current, hr.upcoming, hr.recovering⟩, id⟩
    · exact ⟨trivial, hproper, fun _ ↦ hfailed⟩
  · rintro r _ hr ⟨trail, remarks, rfl⟩
    obtain ⟨_, _, h'⟩ := hx' { r with folding := false, trail := trail, remarks := remarks } rfl
    rcases hx r hr with ⟨_, _, h⟩ | ⟨_, hfailed⟩
    · rw [h, h']
      exact .inr ⟨rfl, _, _, rfl⟩
    · exact .inl hfailed

/-- What is done about a computation that fails. -/
theorem fail_emit_spec {r : Reader} (hr : r.Proper) (fault : Fault) (span : Span) (count : Nat) :
    ((do fail fault span; emit count : Reading Unit).run r).2.Proper ∧
      ((do fail fault span; emit count : Reading Unit).run r).2.diagnostics.failed := by
  obtain ⟨_, hproper, _⟩ := (steady_fail fault span).keeps r hr
  obtain ⟨_, hproper', hfailed⟩ := (steady_emit count).keeps _ hproper
  exact ⟨hproper', hfailed (failed_fail hr fault span)⟩

/-- Here the two readers differ: the first one may compute the operator, and may find a fault in doing
so. The second one never does. -/
theorem steady_operate (op : BinaryOp) : Steady Any (operate op) := by
  refine .of_computing (fun r hr ↦ ?_) fun r hf ↦ ?_
  · rw [operate, StateT.run_bind, StateT.run_get, pure_bind]
    dsimp only
    split
    · rename_i right left rest _ _
      rcases hop : op.apply (.literal left) (.literal right) with fault | result
      · obtain ⟨_, hproper, _⟩ :=
          (steady_remark (.computed op left right r.previous.span.line)).keeps r hr
        exact .inr (fail_emit_spec hproper _ _ _)
      · exact .inl ⟨_, _, rfl⟩
    · exact .inl ⟨_, _, rfl⟩
  · rw [operate, StateT.run_bind, StateT.run_get, pure_bind]
    dsimp only
    split
    · simp_all
    · exact ⟨_, _, rfl⟩

theorem steady_operateNot : Steady Any operateNot := by
  refine .of_computing (fun r hr ↦ ?_) fun r hf ↦ ?_
  · rw [operateNot, StateT.run_bind, StateT.run_get, pure_bind]
    dsimp only
    split
    · rename_i operand rest _ _
      rcases Value.invert (.literal operand) with fault | result
      · exact .inr (fail_emit_spec hr _ _ _)
      · exact .inl ⟨_, _, rfl⟩
    · exact .inl ⟨_, _, rfl⟩
  · rw [operateNot, StateT.run_bind, StateT.run_get, pure_bind]
    dsimp only
    split
    · simp_all
    · exact ⟨_, _, rfl⟩

/-! ### Scopes -/

/-- Nothing is changed that has to do with tokens or faults, and nothing looks at the trail. -/
theorem steady_scopes {f : Reader → Reader}
    (hf : ∀ r, ∃ functions globals globalsClosed scopes loops, f r = { r with
      functions := functions, globals := globals, globalsClosed := globalsClosed,
      scopes := scopes, loops := loops })
    (ht : ∀ r trail remarks, ∃ trail' remarks',
      f { r with folding := false, trail := trail, remarks := remarks } =
        { f r with folding := false, trail := trail', remarks := remarks' }) :
    Steady Any (modify f : Reading PUnit) := by
  refine .modify (fun r hr ↦ ?_) ?_
  · obtain ⟨_, _, _, _, _, h⟩ := hf r
    rw [h]
    exact ⟨⟨hr.current, hr.upcoming, hr.recovering⟩, id⟩
  · rintro r _ ⟨trail, remarks, rfl⟩
    exact ht r trail remarks

theorem steady_openScope : Steady Any openScope :=
  steady_scopes (fun _ ↦ ⟨_, _, _, _, _, rfl⟩) fun _ _ _ ↦ ⟨_, _, rfl⟩

theorem steady_openLoop : Steady Any openLoop :=
  steady_scopes (fun _ ↦ ⟨_, _, _, _, _, rfl⟩) fun _ _ _ ↦ ⟨_, _, rfl⟩

theorem steady_closeLoop : Steady Any closeLoop :=
  steady_scopes (fun _ ↦ ⟨_, _, _, _, _, rfl⟩) fun _ _ _ ↦ ⟨_, _, rfl⟩

theorem steady_setScopes (scopes : List (List String)) :
    Steady Any (modify ({ · with scopes := scopes }) : Reading PUnit) :=
  steady_scopes (fun _ ↦ ⟨_, _, _, _, _, rfl⟩) fun _ _ _ ↦ ⟨_, _, rfl⟩

theorem steady_closeScope : Steady Any closeScope := by
  refine .get_bind (fun _ _ _ ↦ rfl) fun r hr ↦ ?_
  split
  · exact .pure trivial
  · refine (steady_setScopes _).bind fun _ _ ↦ ?_
    split
    · exact .pure trivial
    · exact steady_emit 1

theorem steady_declare (name : String) (span : Span) : Steady Any (declare name span) := by
  refine .get_bind (fun _ _ _ ↦ rfl) fun r hr ↦ ?_
  split
  · exact .pure trivial
  · split
    · exact (steady_fail _ _).bind fun _ _ ↦ steady_setScopes _
    · exact steady_setScopes _

theorem steady_emitExit (outside : Nat) : Steady Any (emitExit outside) := by
  refine .get_bind (fun _ _ _ ↦ rfl) fun r hr ↦ ?_
  dsimp only
  split
  · exact steady_emit 1
  · exact (steady_emit 1).bind fun _ _ ↦ steady_emit 1

end Reading

end StackScript
