import StackScript.Proofs.Grammar.Script
import StackScript.Proofs.Layout.Code

/-!
# The lines of code

Instructions carry the lines that they are reported under. Generated code takes all of them from tokens of
the script, be it folded or not; only the end of an initialiser with nothing to initialise is put on the
first line. So whatever is known of the lines of the tokens is known of the lines of the code
(`Script.Derives.on_program`).
-/

namespace StackScript

variable {P : Nat → Prop} {folding : Bool}

namespace Code

/-- The lines of the code are as told. -/
def On (P : Nat → Prop) (code : List Instruction) : Prop :=
  ∀ i ∈ code, P i.line

@[simp]
theorem on_nil : On P [] :=
  fun _ h ↦ nomatch h

@[simp]
theorem on_cons {i : Instruction} {code : List Instruction} :
    On P (i :: code) ↔ P i.line ∧ On P code := by
  simp [On]

@[simp]
theorem on_append {code code' : List Instruction} : On P (code ++ code') ↔ On P code ∧ On P code' := by
  simp [On, or_imp, forall_and]

theorem on_push {line : Nat} (h : P line) (l : Literal) : On P [push l line] := by
  simpa [push] using h

theorem on_discard {line : Nat} (h : P line) (count : Nat) : On P (discard count line) := by
  unfold discard
  split <;> simp [h]

/-- Resolving a jump leaves the lines alone. -/
theorem on_resolve {exit : Nat} {code : List Instruction} (h : On P code) : On P (resolve exit code) := by
  intro i hi
  obtain ⟨j, hj, rfl⟩ := List.mem_map.mp hi
  split <;> exact h j hj

theorem on_binary {op : BinaryOp} {line : Nat} {left right : List Instruction} (h : P line)
    (hl : On P left) (hr : On P right) : On P (binary folding op line left right) := by
  rcases binary_cases folding op line left right with ⟨_, _, l, _, _, _, _, _, hc⟩ | hc <;> rw [hc]
  · exact on_push h l
  · simp [hl, hr, h]

/-- A negation that is computed keeps the line of its operand. -/
theorem on_invert {line : Nat} {operand : List Instruction} (h : P line) (ho : On P operand) :
    On P (invert folding line operand) := by
  rcases invert_cases folding line operand with ⟨x, l, pushLine, rfl, _, hc⟩ | hc <;> rw [hc]
  · exact on_push (ho _ (List.mem_singleton_self _)) l
  · simp [ho, h]

end Code

/-! ### Expressions -/

/-- The lines of the tokens are as told. -/
def TokensOn (P : Nat → Prop) (ts : List Token) : Prop :=
  ∀ t ∈ ts, P t.span.line

@[simp]
theorem tokensOn_cons {t : Token} {ts : List Token} :
    TokensOn P (t :: ts) ↔ P t.span.line ∧ TokensOn P ts := by
  simp [TokensOn]

@[simp]
theorem tokensOn_append {ts us : List Token} : TokensOn P (ts ++ us) ↔ TokensOn P ts ∧ TokensOn P us := by
  simp [TokensOn, or_imp, forall_and]

theorem Declares.ne_nil {name : String} {value : Expr} {ts : List Token} (h : Declares name value ts) :
    ts ≠ [] := by
  cases h <;> simp

/-- The last line of a row of tokens is the line of one of them. -/
theorem TokensOn.lastLine {ts : List Token} (hts : TokensOn P ts) (hne : ts ≠ []) : P (lastLine ts) := by
  rw [← List.dropLast_concat_getLast hne, lastLine_concat]
  exact hts _ (List.getLast_mem hne)

/-- The lines of the code of a phrase are as told, and so are those that the phrase itself keeps. -/
def Phrase.On (P : Nat → Prop) (folding : Bool) : Phrase → Prop
  | .expression _ e => ∀ scope start, Code.On P (e.code folding scope start)
  | .place p => ∀ scope start, Code.On P (p.code folding scope start)
  | .items es => ∀ scope start, Code.On P (codeAll folding scope start es)
  | .enclosed _ _ es openLine closeLine =>
    P openLine ∧ P closeLine ∧ ∀ scope start, Code.On P (codeAll folding scope start es)

open Code in
/-- The code of a phrase takes its lines from the tokens. -/
theorem Phrase.Derives.on {p : Phrase} {ts : List Token} (h : p.Derives ts) (hts : TokensOn P ts)
    (folding : Bool) : p.On P folding := by
  induction h with
  | tighter _ ih => exact ih hts
  | literal =>
    simp only [tokensOn_cons] at hts
    exact fun _ _ ↦ on_push hts.1 _
  | group _ _ _ ih =>
    simp only [tokensOn_append, tokensOn_cons] at hts
    exact ih hts.1.2
  | list _ ih =>
    obtain ⟨hopen, hclose, hitems⟩ := ih hts
    intro scope start
    simp [Expr.code, hopen, hclose, hitems]
  | call _ _ ih =>
    simp only [tokensOn_cons] at hts
    obtain ⟨hopen, hclose, hargs⟩ := ih hts.2
    intro scope start
    simp [Expr.code, hopen, hclose, hargs]
  | construct _ _ _ ih =>
    simp only [tokensOn_cons] at hts
    obtain ⟨hopen, hclose, hargs⟩ := ih hts.2.2
    intro scope start
    simp [Expr.code, hopen, hclose, hargs]
  | callStatic _ _ _ _ ih =>
    simp only [tokensOn_cons] at hts
    obtain ⟨hopen, hclose, hargs⟩ := ih hts.2.2.2
    intro scope start
    simp [Expr.code, hopen, hclose, hargs]
  | callMethod _ _ _ _ ihReceiver ih =>
    simp only [tokensOn_append, tokensOn_cons] at hts
    obtain ⟨hopen, hclose, hargs⟩ := ih hts.2.2.2
    intro scope start
    simp [Expr.code, hopen, hclose, hargs, ihReceiver hts.1 scope start]
  | read hp ih =>
    intro scope start
    simp [Expr.code, hts.lastLine hp.ne_nil, ih hts scope start]
  | negate _ he ih =>
    simp only [tokensOn_cons] at hts
    intro scope start
    rw [Expr.code]
    exact on_binary (hts.2.lastLine he.ne_nil) (on_push hts.1 _) (ih hts.2 scope _)
  | not _ he ih =>
    simp only [tokensOn_cons] at hts
    intro scope start
    rw [Expr.code]
    exact on_invert (hts.2.lastLine he.ne_nil) (ih hts.2 scope _)
  | @binary op left right _ _ us _ _ hr ihLeft ihRight =>
    simp only [tokensOn_append, tokensOn_cons] at hts
    have hline := hts.2.2.lastLine hr.ne_nil
    intro scope start
    have hcode : Code.On P (Code.binary folding op.base (lastLine us) _ _) := on_binary hline
      (ihLeft hts.1 scope start)
      (ihRight hts.2.2 scope (start + (left.code folding scope start).length))
    rw [Expr.code]
    split
    · exact on_invert hline hcode
    · exact hcode
  | connect _ _ _ ihLeft ihRight =>
    simp only [tokensOn_append, tokensOn_cons] at hts
    intro scope start
    simp [Expr.code, hts.2.1, ihLeft hts.1 scope _, ihRight hts.2.2 scope _]
  | assign _ _ he ihPlace ih =>
    simp only [tokensOn_append, tokensOn_cons] at hts
    intro scope start
    simp [Expr.code, hts.2.2.lastLine he.ne_nil, ihPlace hts.1 scope _, ih hts.2.2 scope _]
  | @update place _ _ _ _ t us _ _ _ he ihPlace ih =>
    simp only [tokensOn_append, tokensOn_cons] at hts
    have hdup : Code.On P (if place.operands = 0 then []
        else [⟨.dup, .count place.operands, t.span.line⟩]) := by
      split <;> simp [hts.2.1]
    intro scope start
    simp [Expr.code, hdup, hts.2.1, hts.2.2.lastLine he.ne_nil, ihPlace hts.1 scope _,
      ih hts.2.2 scope _]
  | «variable» => simp [Phrase.On, Place.code]
  | element _ _ _ _ ihTarget ihIndex =>
    simp only [tokensOn_append, tokensOn_cons] at hts
    intro scope start
    simp [Place.code, ihTarget hts.1.1 scope _, ihIndex hts.1.2.2 scope _]
  | field _ _ _ ih =>
    simp only [tokensOn_append] at hts
    exact ih hts.1
  | staticField => simp [Phrase.On, Place.code]
  | one _ ih =>
    intro scope start
    simpa [codeAll] using ih hts scope start
  | more _ _ _ ih ihRest =>
    simp only [tokensOn_append, tokensOn_cons] at hts
    intro scope start
    simp [codeAll, ih hts.1 scope _, ihRest hts.2.2 scope _]
  | none =>
    simp only [tokensOn_cons] at hts
    exact ⟨hts.1, hts.2.1, fun _ _ ↦ on_nil⟩
  | some _ _ _ ih =>
    simp only [tokensOn_append, tokensOn_cons] at hts
    exact ⟨hts.1.1, hts.2.1, ih hts.1.2⟩

/-! ### Statements -/

/-- The lines of the code of a clause are as told, and so is the one that the clause itself keeps. -/
def Clause.On (P : Nat → Prop) (folding : Bool) : Clause → Prop
  | .statement s | .conditional s | .alternative s =>
    ∀ loop scope start, Code.On P (s.code folding loop scope start)
  | .braced body closeLine =>
    P closeLine ∧ ∀ loop scope start, Code.On P (blockCode folding loop scope start body closeLine)
  | .sequence body => ∀ loop scope start, Code.On P (bodyCode folding loop scope start body)

theorem Declares.on {name : String} {value : Expr} {ts : List Token} (h : Declares name value ts)
    (hts : TokensOn P ts) (folding : Bool) : ∀ scope start, Code.On P (value.code folding scope start) := by
  cases h with
  | bare =>
    simp only [tokensOn_cons] at hts
    exact fun _ _ ↦ Code.on_push hts.2.1 _
  | valued _ _ _ h =>
    simp only [tokensOn_append, tokensOn_cons] at hts
    exact h.on hts.1.2.2.2 folding

open Code in
/-- The code of a clause takes its lines from the tokens. -/
theorem Clause.Derives.on {c : Clause} {ts : List Token} (h : c.Derives ts) (hts : TokensOn P ts)
    (folding : Bool) : c.On P folding := by
  induction h with
  | declare h =>
    intro loop scope start
    rw [Stmt.code]
    exact h.on hts folding scope start
  | giveBackNull =>
    simp only [tokensOn_cons] at hts
    intro loop scope start
    simp [Stmt.code, Expr.code, push, hts.1, hts.2.1]
  | giveBack _ h =>
    simp only [tokensOn_append, tokensOn_cons] at hts
    have hvalue := h.on hts.1.2 folding
    intro loop scope start
    simp [Stmt.code, hts.2.1, hvalue scope start]
  | whileLoop _ h _ ih =>
    simp only [tokensOn_append, tokensOn_cons] at hts
    have htest := h.on hts.1.2 folding
    obtain ⟨hclose, hbody⟩ := ih hts.2
    intro loop scope start
    simp [Stmt.code, hts.1.2.lastLine h.ne_nil, hclose, htest scope start, on_resolve (hbody _ scope _)]
  | forIn _ _ _ h _ ih =>
    simp only [tokensOn_append, tokensOn_cons] at hts
    have hitems := h.on hts.1.2.2.2 folding
    obtain ⟨hclose, hbody⟩ := ih hts.2
    intro loop scope start
    simp [Stmt.code, hts.1.2.2.2.lastLine h.ne_nil, hclose, hitems scope start, on_resolve (hbody _ _ _)]
  | breakLoop =>
    simp only [tokensOn_cons] at hts
    intro loop scope start
    cases loop <;> simp [Stmt.code, hts.2.1, on_discard]
  | continueLoop =>
    simp only [tokensOn_cons] at hts
    intro loop scope start
    cases loop <;> simp [Stmt.code, hts.2.1, on_discard]
  | block _ ih =>
    intro loop scope start
    rw [Stmt.code]
    exact (ih hts).2 loop scope start
  | expression h =>
    simp only [tokensOn_append, tokensOn_cons] at hts
    have hvalue := h.on hts.1 folding
    intro loop scope start
    simp [Stmt.code, hts.2.1, hvalue scope start]
  | branch _ ih => exact ih hts
  | ifThen _ h _ ih =>
    simp only [tokensOn_append, tokensOn_cons] at hts
    have htest := h.on hts.1.2 folding
    intro loop scope start
    simp [Stmt.code, hts.1.2.lastLine h.ne_nil, htest scope start, (ih hts.2).2 loop scope _]
  | ifElse _ h _ _ _ ih ihOther =>
    simp only [tokensOn_append, tokensOn_cons] at hts
    have htest := h.on hts.1.1.2 folding
    intro loop scope start
    simp [Stmt.code, hts.1.1.2.lastLine h.ne_nil, hts.2.1, htest scope start,
      (ih hts.1.2).2 loop scope _, ihOther hts.2.2 loop scope _]
  | elseIf _ ih => exact ih hts
  | elseBlock _ ih =>
    intro loop scope start
    rw [Stmt.code]
    exact (ih hts).2 loop scope start
  | braced _ _ _ ih =>
    simp only [tokensOn_append, tokensOn_cons] at hts
    refine ⟨hts.2.1, fun loop scope start ↦ ?_⟩
    rw [blockCode, on_append]
    exact ⟨ih hts.1.2 loop scope start, on_discard hts.2.1 _⟩
  | nil =>
    intro loop scope start
    rw [bodyCode]
    exact on_nil
  | cons _ _ ih ihRest =>
    simp only [tokensOn_append] at hts
    intro loop scope start
    simp [bodyCode, ih hts.1 loop scope start, ihRest hts.2 loop _ _]

/-! ### Scripts -/

theorem GlobalDecl.Derives.line {g : GlobalDecl} {ts : List Token} (h : g.Derives ts)
    (hts : TokensOn P ts) : P g.line := by
  obtain ⟨hdeclares, hline⟩ := h
  rw [hline]
  exact hts.lastLine hdeclares.ne_nil

theorem FunctionDecl.Derives.ne_nil {f : FunctionDecl} {ts : List Token} (h : f.Derives ts) : ts ≠ [] := by
  cases h
  simp

theorem FunctionDecl.Derives.on {f : FunctionDecl} {ts : List Token} (h : f.Derives ts)
    (hts : TokensOn P ts) (folding : Bool) (start : Nat) : Code.On P (f.code folding start) := by
  cases h with
  | intro _ _ _ _ _ h =>
    simp only [tokensOn_append, tokensOn_cons] at hts
    obtain ⟨hclose, hbody⟩ := h.on hts.2.2 folding
    simp [FunctionDecl.code, epilogue, Code.push, hclose, hbody none _ start]

/-- The lines of globals come from their tokens, and so do those of their code. -/
theorem on_globalsCode {globals : List GlobalDecl} {ts : List Token}
    (h : InOrder GlobalDecl.Derives globals ts) (hts : TokensOn P ts) (folding : Bool) :
    (∀ g ∈ globals, P g.line) ∧ ∀ start, Code.On P (globalsCode folding start globals) := by
  induction h with
  | nil => exact ⟨by simp, fun _ ↦ Code.on_nil⟩
  | cons first _ ih =>
    simp only [tokensOn_append] at hts
    obtain ⟨hlines, hrest⟩ := ih hts.2
    refine ⟨List.forall_mem_cons.mpr ⟨first.line hts.1, hlines⟩, fun start ↦ ?_⟩
    simp [globalsCode, first.line hts.1, first.1.on hts.1 folding _ start, hrest]

theorem on_functionsCode {functions : List FunctionDecl} {ts : List Token}
    (h : InOrder FunctionDecl.Derives functions ts) (hts : TokensOn P ts) (folding : Bool)
    (start : Nat) :
    Code.On P (functionsCode folding start functions).2 := by
  induction h generalizing start with
  | nil => exact Code.on_nil
  | cons first _ ih =>
    simp only [tokensOn_append] at hts
    simp [functionsCode, first.on hts.1 folding start, ih hts.2]

/-- The code of a program takes its lines from the tokens of the script, but for the end of input. Where there
are no globals, the initialiser ends on the first line, which is there if any other is. -/
theorem Script.Derives.on_program {s : Script} {ts : List Token} (h : s.Derives ts)
    (hts : TokensOn P ts.dropLast) (hfirst : ∀ line, P line → P 1) (folding : Bool) :
    Code.On P (s.program folding).code.toList := by
  cases h with
  | @intro globals functions _ _ _ declared defined nonempty =>
    simp only [List.dropLast_concat, tokensOn_append] at hts
    obtain ⟨hlines, hglobals⟩ := on_globalsCode declared hts.1 folding
    have hone : P 1 := by
      cases defined with
      | nil => exact (nonempty rfl).elim
      | cons first _ =>
        obtain ⟨t, ht⟩ := List.exists_mem_of_ne_nil _ first.ne_nil
        exact hfirst _ (hts.2 t (List.mem_append_left _ ht))
    have hline : P (Script.initializerLine ⟨globals, functions⟩) := by
      rw [initializerLine]
      split
      · rename_i g hg
        exact hlines g (List.mem_of_getLast? hg)
      · exact hone
    simp [Script.program, epilogue, Code.push, hline, hglobals, on_functionsCode defined hts.2 folding]

end StackScript
