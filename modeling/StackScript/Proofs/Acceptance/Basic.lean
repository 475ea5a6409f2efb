import StackScript.Proofs.Passage.Basic

/-!
# Reading what is written well

A reader that has found no fault stands at some tokens (`At`). If they begin with what a function of
the reader reads, then the function yields just that and leaves the reader behind it. The rules for
`Leads` follow the code of the functions along the tokens.
-/

namespace StackScript

variable {α β : Type} {source : String}

/-- A reader of a text without lexical faults that has found no fault stands before some tokens. -/
structure Reader.At (source : String) (r : Reader) (ts : List Token) (v : View)
    (literals : List Literal) : Prop where
  faultless : ∀ s ∈ Scanned.scan source, s.faults = []
  ready : r.Ready source
  failed : r.diagnostics.failed = false
  standing : r.standing = ts
  view : r.view = v
  literals : r.trail.literals = literals

namespace Reading

/-- What a function of the reader comes to. -/
def Leads (x : Reading α) (r : Reader) (P : α → Reader → Prop) : Prop := P (x.run r).1 (x.run r).2

namespace Leads

variable {r : Reader} {P : β → Reader → Prop}

theorem pure {a : α} {P : α → Reader → Prop} (h : P a r) : Leads (pure a : Reading α) r P := h

theorem bind {x : Reading α} {f : α → Reading β} {Q : α → Reader → Prop} (hx : Leads x r Q)
    (hf : ∀ a r', Q a r' → Leads (f a) r' P) : Leads (x >>= f) r P :=
  hf _ _ hx

theorem of_run {x : Reading α} {f : α → Reading β} {a : α} {r' : Reader} (hx : x.run r = (a, r'))
    (h : Leads (f a) r' P) : Leads (x >>= f) r P := by
  rw [Leads, StateT.run_bind, hx]
  exact h

theorem imp {x : Reading α} {Q Q' : α → Reader → Prop} (h : Leads x r Q)
    (hq : ∀ a r', Q a r' → Q' a r') : Leads x r Q' :=
  hq _ _ h

end Leads

end Reading

namespace Reader.At

variable {r : Reader} {t : Token} {ts : List Token} {v : View} {literals : List Literal}

theorem current_eq (h : r.At source (t :: ts) v literals) : r.current = t :=
  (List.cons.inj h.standing).1

theorem line_eq (h : r.At source ts v literals) : r.previous.span.line = v.line :=
  h.ready.line_eq.trans (congrArg View.line h.view)

/-- Only the last token is the end of input. -/
theorem ne_endOfInput (h : r.At source (t :: ts) v literals) (hts : ts ≠ []) :
    r.current.kind ≠ .endOfInput := by
  intro hend
  have hended := h.ready.ended
  rw [if_pos hend] at hended
  have hstanding := h.standing
  rw [Reader.standing, hended] at hstanding
  exact hts (List.cons.inj hstanding).2.symm

/-- Behind a token that is not the end of input there is another one. -/
theorem ne_nil (h : r.At source (t :: ts) v literals) (ht : t.kind ≠ .endOfInput) : ts ≠ [] := by
  have hended := h.ready.ended
  rw [if_neg (h.current_eq ▸ ht)] at hended
  rw [← (List.cons.inj h.standing).2]
  exact hended.tokens_ne_nil

theorem advance (h : r.At source (t :: ts) v literals) (hts : ts ≠ []) :
    ((Reading.advance).run r).2.At source ts (v.read [t]) literals := by
  have hadvanced := Reading.advanced_advance h.ready (h.ne_endOfInput hts)
  refine ⟨h.faultless, hadvanced.ready, ?_, ?_, ?_, hadvanced.literals.trans h.literals⟩
  · have hfaultless : ∀ s ∈ r.upcoming, s.faults = [] :=
      fun s hs ↦ h.faultless s (h.ready.upcoming.mem hs)
    exact (Reading.failed_skim r.diagnostics hfaultless).trans h.failed
  · exact (List.cons.inj (hadvanced.standing.symm.trans h.standing)).2
  · rw [hadvanced.view, h.view, h.current_eq]

theorem trailing (h : r.At source ts v literals) (trail : Trail) :
    Reader.At source { r with trail := trail } ts v trail.literals :=
  ⟨h.faultless, h.ready.trailing _, h.failed, h.standing, h.view, rfl⟩

theorem scopes_eq (h : r.At source ts v literals) : r.scopes = v.scopes :=
  congrArg View.scopes h.view

theorem loops_eq (h : r.At source ts v literals) : r.loops = v.loops :=
  congrArg View.loops h.view

theorem scoping (h : r.At source ts v literals) {scopes scopes' : List (List String)}
    (hscopes : scopes = scopes') :
    Reader.At source { r with scopes := scopes } ts { v with scopes := scopes' } literals :=
  ⟨h.faultless, h.ready.beside _ _ _ _ _ _ _, h.failed, h.standing, h.view ▸ hscopes ▸ rfl,
    h.literals⟩

theorem looping (h : r.At source ts v literals) {loops loops' : List Nat}
    (hloops : loops = loops') :
    Reader.At source { r with loops := loops } ts { v with loops := loops' } literals :=
  ⟨h.faultless, h.ready.beside _ _ _ _ _ _ _, h.failed, h.standing, h.view ▸ hloops ▸ rfl,
    h.literals⟩

theorem recovering_eq (h : r.At source ts v literals) : r.recovering = false :=
  eq_false_of_ne_true fun hr ↦ Bool.false_ne_true (h.failed.symm.trans (h.ready.recovering hr))

end Reader.At

namespace Reading

/-! ### Scopes -/

theorem run_closeScope {r : Reader} {names : List String} {outer : List (List String)}
    (h : r.scopes = names :: outer) : closeScope.run r = ((), { r with
      scopes := outer
      trail := if names.isEmpty then r.trail else r.trail.emit 1 }) := by
  rw [closeScope, StateT.run_bind, StateT.run_get, pure_bind]
  dsimp only
  rw [h]
  dsimp only
  split <;> rfl

theorem run_declare_of_notMem {r : Reader} {names : List String} {outer : List (List String)}
    {name : String} (h : r.scopes = names :: outer) (hnew : name ∉ names) (span : Span) :
    (declare name span).run r = ((), { r with scopes := (name :: names) :: outer }) := by
  rw [declare, StateT.run_bind, StateT.run_get, pure_bind]
  dsimp only
  rw [h]
  dsimp only
  rw [if_neg hnew]
  rfl

theorem exists_emitExit (r : Reader) (outside : Nat) : ∃ trail : Trail, trail.literals = [] ∧
    (emitExit outside).run r = ((), { r with trail := trail }) := by
  rw [emitExit, StateT.run_bind, StateT.run_get, pure_bind]
  dsimp only
  split
  · exact ⟨_, rfl, rfl⟩
  · exact ⟨_, rfl, rfl⟩

end Reading

namespace Reading.Leads

variable {r : Reader} {t : Token} {ts : List Token} {v : View} {literals : List Literal}
  {P : β → Reader → Prop}

/-! ### Tokens -/

theorem current {f : TokenKind → Reading β} (h : r.At source (t :: ts) v literals)
    (hf : Leads (f t.kind) r P) : Leads (Reading.current >>= f) r P :=
  of_run (congrArg (fun t : Token ↦ (t.kind, r)) h.current_eq) hf

theorem check {kind : TokenKind} {f : Bool → Reading β} (h : r.At source (t :: ts) v literals)
    (hf : Leads (f (t.kind = kind)) r P) : Leads (Reading.check kind >>= f) r P :=
  of_run (congrArg (fun t : Token ↦ (decide (t.kind = kind), r)) h.current_eq) hf

theorem line {f : Nat → Reading β} (h : r.At source ts v literals) (hf : Leads (f v.line) r P) :
    Leads (Reading.line >>= f) r P :=
  of_run (congrArg (·, r) h.line_eq) hf

theorem advance {f : Unit → Reading β} (h : r.At source (t :: ts) v literals) (hts : ts ≠ [])
    (hf : ∀ r' : Reader, r'.At source ts (v.read [t]) literals → Leads (f ()) r' P) :
    Leads (Reading.advance >>= f) r P :=
  of_run rfl (hf _ (h.advance hts))

theorem accept {kind : TokenKind} {f : Bool → Reading β} (h : r.At source (t :: ts) v literals)
    (ht : t.kind = kind) (hts : ts ≠ [])
    (hf : ∀ r' : Reader, r'.At source ts (v.read [t]) literals → Leads (f true) r' P) :
    Leads (Reading.accept kind >>= f) r P :=
  of_run (run_accept_of_eq (h.current_eq ▸ ht)) (hf _ (h.advance hts))

theorem pass {kind : TokenKind} {f : Bool → Reading β} (h : r.At source (t :: ts) v literals)
    (ht : t.kind ≠ kind) (hf : Leads (f false) r P) : Leads (Reading.accept kind >>= f) r P :=
  of_run (run_accept_of_ne (h.current_eq ▸ ht)) hf

theorem expect {sign : Symbol} {expected : String} {f : Bool → Reading β}
    (h : r.At source (t :: ts) v literals) (ht : t.kind = .symbol sign)
    (hf : ∀ r' : Reader, r'.At source ts (v.read [t]) literals → Leads (f true) r' P) :
    Leads (Reading.expect sign expected >>= f) r P :=
  of_run (run_expect_of_eq (h.current_eq ▸ ht) expected) (hf _ (h.advance (h.ne_nil (by simp [ht]))))

theorem close {sign : Symbol} {expected : String} {f : Unit → Reading β}
    (h : r.At source (t :: ts) v literals) (ht : t.kind = .symbol sign)
    (hf : ∀ r' : Reader, r'.At source ts (v.read [t]) literals → Leads (f ()) r' P) :
    Leads (Reading.close sign expected >>= f) r P :=
  of_run (run_close_of_eq (h.current_eq ▸ ht) expected) (hf _ (h.advance (h.ne_nil (by simp [ht]))))

theorem name? {name expected : String} {f : Option String → Reading β}
    (h : r.At source (t :: ts) v literals) (ht : t.kind = .identifier name)
    (hf : ∀ r' : Reader, r'.At source ts (v.read [t]) literals →
      Leads (f (some name)) r' P) :
    Leads (Reading.name? expected >>= f) r P :=
  of_run (run_name?_of_eq (h.current_eq ▸ ht) expected) (hf _ (h.advance (h.ne_nil (by simp [ht]))))

theorem memberName? {name : String} {f : Option String → Reading β}
    (h : r.At source (t :: ts) v literals) (ht : t.kind.member? = some name)
    (hf : ∀ r' : Reader, r'.At source ts (v.read [t]) literals →
      Leads (f (some name)) r' P) :
    Leads (Reading.memberName? >>= f) r P :=
  have hend : t.kind ≠ .endOfInput := fun hend ↦ by
    rw [hend] at ht
    cases ht
  of_run (run_memberName?_of_eq (h.current_eq ▸ ht)) (hf _ (h.advance (h.ne_nil hend)))

/-! ### The trail -/

theorem emit {count : Nat} {f : PUnit → Reading β} (h : r.At source ts v literals)
    (hf : ∀ r' : Reader, r'.At source ts v [] → Leads (f ⟨⟩) r' P) :
    Leads (Reading.emit count >>= f) r P :=
  hf _ (h.trailing (r.trail.emit count))

theorem join {f : PUnit → Reading β} (h : r.At source ts v literals)
    (hf : ∀ r' : Reader, r'.At source ts v [] → Leads (f ⟨⟩) r' P) :
    Leads (Reading.join >>= f) r P :=
  hf _ (h.trailing r.trail.join)

theorem push {l : Literal} {f : PUnit → Reading β} (h : r.At source ts v literals)
    (hf : ∀ r' : Reader, r'.At source ts v (l :: literals) → Leads (f ⟨⟩) r' P) :
    Leads (Reading.push l >>= f) r P :=
  hf _ (h.literals ▸ h.trailing (r.trail.push l))

/-- An operator that is not computed to fail changes the trail. -/
theorem exists_operate {op : BinaryOp} {literals' : List Literal} (hr : r.folding = true)
    (hc : computed op r.trail.literals = some literals') : ∃ trail remarks,
    (Reading.operate op).run r = ((), { r with trail := trail, remarks := remarks }) ∧
      trail.literals = literals' := by
  rw [Reading.operate, StateT.run_bind, StateT.run_get, pure_bind]
  dsimp only
  split
  · rename_i right left rest _ hliterals
    rw [hliterals, computed] at hc
    rcases hresult : op.apply (.literal left) (.literal right) with fault | result
    · rw [hresult] at hc
      cases hc
    · rw [hresult] at hc
      cases hc
      exact ⟨_, _, rfl, rfl⟩
  · rename_i hnot
    refine ⟨_, _, rfl, ?_⟩
    unfold computed at hc
    split at hc
    · rename_i hliterals
      exact absurd hliterals (hnot _ _ _ hr)
    · exact Option.some.inj hc

theorem exists_operateNot {literals' : List Literal} (hr : r.folding = true)
    (hc : inverted r.trail.literals = some literals') : ∃ trail remarks,
    Reading.operateNot.run r = ((), { r with trail := trail, remarks := remarks }) ∧
      trail.literals = literals' := by
  rw [Reading.operateNot, StateT.run_bind, StateT.run_get, pure_bind]
  dsimp only
  split
  · rename_i operand rest _ hliterals
    rw [hliterals, inverted] at hc
    rcases hresult : Value.invert (.literal operand) with fault | result
    · rw [hresult] at hc
      cases hc
    · rw [hresult] at hc
      cases hc
      exact ⟨_, _, rfl, rfl⟩
  · rename_i hnot
    refine ⟨_, _, rfl, ?_⟩
    unfold inverted at hc
    split at hc
    · rename_i hliterals
      exact absurd hliterals (hnot _ _ hr)
    · exact Option.some.inj hc

/-- An operator that is computed, or cannot be, leads on. -/
theorem operate {op : BinaryOp} {literals' : List Literal} {f : Unit → Reading β}
    (h : r.At source ts v literals) (hc : computed op literals = some literals')
    (hf : ∀ r' : Reader, r'.At source ts v literals' → Leads (f ()) r' P) :
    Leads (Reading.operate op >>= f) r P := by
  obtain ⟨trail, remarks, hrun, htrail⟩ := exists_operate h.ready.folding (h.literals ▸ hc)
  exact of_run hrun (hf _ ⟨h.faultless, h.ready.beside _ _ _ _ _ _ _, h.failed, h.standing, h.view,
    htrail⟩)

theorem operateNot {literals' : List Literal} {f : Unit → Reading β}
    (h : r.At source ts v literals) (hc : inverted literals = some literals')
    (hf : ∀ r' : Reader, r'.At source ts v literals' → Leads (f ()) r' P) :
    Leads (Reading.operateNot >>= f) r P := by
  obtain ⟨trail, remarks, hrun, htrail⟩ := exists_operateNot h.ready.folding (h.literals ▸ hc)
  exact of_run hrun (hf _ ⟨h.faultless, h.ready.beside _ _ _ _ _ _ _, h.failed, h.standing, h.view,
    htrail⟩)

/-! ### Bookkeeping -/

theorem currentSpan {f : Span → Reading β} (hf : Leads (f r.current.span) r P) :
    Leads (Reading.currentSpan >>= f) r P :=
  hf

/-- There are no more tokens to be read than remain. -/
theorem remaining {f : Nat → Reading β} (h : r.At source ts v literals)
    (hf : ∀ n, ts.length ≤ n → Leads (f n) r P) : Leads (Reading.remaining >>= f) r P :=
  hf _ (h.standing ▸ r.length_standing_le)

theorem openScope {f : PUnit → Reading β} (h : r.At source ts v literals)
    (hf : ∀ r' : Reader, r'.At source ts { v with scopes := [] :: v.scopes } literals →
      Leads (f ⟨⟩) r' P) : Leads (Reading.openScope >>= f) r P :=
  hf _ (h.scoping (congrArg ([] :: ·) h.scopes_eq))

theorem openLoop {f : PUnit → Reading β} (h : r.At source ts v literals)
    (hf : ∀ r' : Reader, r'.At source ts { v with loops := v.scopes.length :: v.loops } literals →
      Leads (f ⟨⟩) r' P) : Leads (Reading.openLoop >>= f) r P :=
  hf _ (h.looping (by rw [h.scopes_eq, h.loops_eq]))

theorem closeLoop {f : PUnit → Reading β} (h : r.At source ts v literals)
    (hf : ∀ r' : Reader, r'.At source ts { v with loops := v.loops.tail } literals →
      Leads (f ⟨⟩) r' P) : Leads (Reading.closeLoop >>= f) r P :=
  hf _ (h.looping (congrArg List.tail h.loops_eq))

theorem closeScope {names : List String} {outer : List (List String)} {f : Unit → Reading β}
    (h : r.At source ts v literals) (hv : v.scopes = names :: outer)
    (hf : ∀ (r' : Reader) literals', r'.At source ts { v with scopes := outer } literals' →
      Leads (f ()) r' P) : Leads (Reading.closeScope >>= f) r P :=
  of_run (run_closeScope (h.scopes_eq.trans hv)) (hf _ _ ((h.trailing
    (if names.isEmpty then r.trail else r.trail.emit 1)).scoping rfl))

/-- A new name is declared. -/
theorem declare {name : String} {span : Span} {names : List String} {outer : List (List String)}
    {f : Unit → Reading β} (h : r.At source ts v literals) (hv : v.scopes = names :: outer)
    (hnew : name ∉ names)
    (hf : ∀ r' : Reader, r'.At source ts { v with scopes := (name :: names) :: outer } literals →
      Leads (f ()) r' P) : Leads (Reading.declare name span >>= f) r P :=
  of_run (run_declare_of_notMem (h.scopes_eq.trans hv) hnew span) (hf _ (h.scoping rfl))

theorem emitExit {outside : Nat} {f : Unit → Reading β} (h : r.At source ts v literals)
    (hf : ∀ r' : Reader, r'.At source ts v [] → Leads (f ()) r' P) :
    Leads (Reading.emitExit outside >>= f) r P := by
  obtain ⟨trail, hliterals, hrun⟩ := exists_emitExit r outside
  exact of_run hrun (hf _ (hliterals ▸ h.trailing trail))

/-- A reader that has found no fault has nothing to recover from. -/
theorem recoverAt {boundary : Reading Bool} {f : Unit → Reading β} (h : r.At source ts v literals)
    (hf : Leads (f ()) r P) : Leads (Reading.recoverAt boundary >>= f) r P := by
  refine of_run ?_ hf
  rw [Reading.recoverAt, StateT.run_bind, StateT.run_get, pure_bind, if_neg]
  · rfl
  · rw [h.recovering_eq]
    exact Bool.false_ne_true

theorem leave {f : PUnit → Reading β} (h : r.At source ts v literals)
    (hf : ∀ r' : Reader, r'.At source ts { v with scopes := [], loops := [] } literals →
      Leads (f ⟨⟩) r' P) :
    Leads ((modify ({ · with scopes := [], loops := [] }) : Reading PUnit) >>= f) r P :=
  hf _ ((h.scoping (rfl : ([] : List (List String)) = [])).looping (rfl : ([] : List Nat) = []))

theorem remark {what : Remark} {f : PUnit → Reading β} (h : r.At source ts v literals)
    (hf : ∀ r' : Reader, r'.At source ts v literals → Leads (f ⟨⟩) r' P) :
    Leads (Reading.remark what >>= f) r P :=
  hf _ ⟨h.faultless, h.ready.beside _ _ _ _ _ _ _, h.failed, h.standing, h.view, h.literals⟩

end Reading.Leads

end StackScript
