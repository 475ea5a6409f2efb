import StackScript.Compilation
import StackScript.Proofs.Passage.Script

/-!
# The progress of a reader

Reading ends on every text, and it takes every token of the text once (`script_passes`). What makes it
end is that no loop of the reader stands still: a turn leaves the loop, or it goes on with fewer tokens
before it. Nothing smaller than a turn has this property, as the parts of a turn may decline to read a
token that closes a statement or block.

A turn is written with what the loop does further on left open, so that it shows that this is done once
at most, and with which reader. The readers that the loops begin with are ready ones, as every function
of the reader leaves it ready.
-/

namespace StackScript

namespace Reading

variable {α β σ : Type} {source : String}

/-! ### Turns -/

/-- What a turn comes to, where `turn` has left open what the loop does further on. Either way the
reader is ready. -/
inductive Turn (source : String) (turn : (again : σ → Reading α) → Reading α) (n : Nat) (r : Reader) :
    Prop where
  /-- The loop is left. -/
  | leaves (a : α) (r' : Reader) (ready : r'.Ready source)
      (run : ∀ again, (turn again).run r = (a, r'))
  /-- The loop goes on with fewer tokens before the reader than `n`. -/
  | goesOn (s : σ) (finish : α → α) (r' : Reader) (ready : r'.Ready source)
      (length : r'.standing.length < n)
      (run : ∀ again, (turn again).run r = (finish <$> again s).run r')

namespace Turn

variable {r : Reader} {n m : Nat} {f : β → (σ → Reading α) → Reading α}

theorem again (hr : r.Ready source) (hn : r.standing.length < n) (s : σ) :
    Turn (α := α) source (fun again ↦ again s) n r :=
  .goesOn s id r hr hn fun _ ↦ by rw [id_map]

theorem againThen (hr : r.Ready source) (hn : r.standing.length < n) (s : σ) (finish : α → α) :
    Turn source (fun again ↦ do return finish (← again s)) n r :=
  .goesOn s finish r hr hn fun _ ↦ by rw [bind_pure_comp]

theorem of_run {x : Reading β} {b : β} {r' : Reader} (hx : x.run r = (b, r'))
    (h : Turn source (f b) n r') : Turn source (fun again ↦ x >>= fun b ↦ f b again) n r := by
  have hrun (again : σ → Reading α) : (x >>= fun b ↦ f b again).run r = (f b again).run r' := by
    rw [StateT.run_bind, hx]
    rfl
  cases h with
  | leaves a r'' hr hleave => exact .leaves a r'' hr fun again ↦ (hrun again).trans (hleave again)
  | goesOn s finish r'' hr hn hgo =>
    exact .goesOn s finish r'' hr hn fun again ↦ (hrun again).trans (hgo again)

theorem bind {x : Reading β} {Q : β → Reader → Prop} (hx : Ends source x r m Q)
    (h : ∀ b r', r'.Ready source → r'.standing.length ≤ m → Turn source (f b) n r') :
    Turn source (fun again ↦ x >>= fun b ↦ f b again) n r :=
  of_run rfl (h _ _ hx.ready hx.length)

theorem current {f : TokenKind → (σ → Reading α) → Reading α}
    (h : Turn source (f r.current.kind) n r) :
    Turn source (fun again ↦ Reading.current >>= fun kind ↦ f kind again) n r :=
  of_run rfl h

theorem advance {f : (σ → Reading α) → Reading α} (hr : r.Ready source)
    (hc : r.current.kind ≠ .endOfInput) (h : ∀ r', Advanced source r r' → Turn source f n r') :
    Turn source (fun again ↦ Reading.advance >>= fun _ ↦ f again) n r :=
  of_run rfl (h _ (advanced_advance hr hc))

theorem accept {kind : TokenKind} {f : Bool → (σ → Reading α) → Reading α} (hr : r.Ready source)
    (hk : kind ≠ .endOfInput)
    (hyes : ∀ r', Advanced source r r' → Turn source (f true) n r')
    (hno : Turn source (f false) n r) :
    Turn source (fun again ↦ Reading.accept kind >>= fun found ↦ f found again) n r := by
  by_cases hc : r.current.kind = kind
  · exact of_run (run_accept_of_eq hc) (hyes _ (advanced_advance hr (hc ▸ hk)))
  · exact of_run (run_accept_of_ne hc) hno

end Turn

/-! ### Loops -/

/-- A loop of the reader. It goes around with a state, and comes to a result. -/
structure Loop (σ α : Type) where
  /-- The loop, with fuel for its turns and for what is read in them. -/
  run : (fuel : Nat) → σ → Reading α
  /-- One turn, with what the loop does further on left open. -/
  turn : (fuel : Nat) → (again : σ → Reading α) → σ → Reading α
  /-- The fuel that so many tokens take. -/
  demand : Nat → Nat

/-- A loop in which every turn makes progress, from every reader that is ready for it. -/
structure Loop.Proceeds (L : Loop σ α) (source : String) : Prop where
  /-- The loop is its turns. -/
  run_succ : ∀ fuel s, L.run (fuel + 1) s = L.turn fuel (L.run fuel) s
  /-- A token pays for a turn, so that there is fuel for the next turn if this one reads a token. -/
  demand : ∀ m n, m < n → L.demand m < L.demand n
  turn : ∀ fuel s r, r.Ready source → L.demand r.standing.length ≤ fuel + 1 →
    Turn source (L.turn fuel · s) r.standing.length r

namespace Loop

/-- Declarations up to the end of input. -/
def declarations : Loop Unit (List GlobalDecl × List FunctionDecl) where
  run fuel _ := Reading.declarations fuel
  turn _ again _ := do
    match ← current with
    | .endOfInput => return ([], [])
    | .keyword .varKw =>
      let globals ← globalDecl
      recoverAt atDeclaration
      let (moreGlobals, functions) ← again ()
      return (globals ++ moreGlobals, functions)
    | .keyword .funcKw =>
      closeGlobals
      let functions ← functionDecl
      recoverAt atDeclaration
      let (globals, moreFunctions) ← again ()
      return (globals, functions ++ moreFunctions)
    | _ =>
      failHere .statementOutsideFunction
      advance
      recoverAt atDeclaration
      again ()
  demand n := n

/-- Parameters up to the closing parenthesis. -/
def parameters : Loop Unit (List String) where
  run fuel _ := Reading.parameters fuel
  turn _ again _ := do
    let span ← currentSpan
    match ← name? "parameter name" with
    | none => return []
    | some name =>
      declare name span
      if ← accept (.symbol .comma) then
        return name :: (← again ())
      return [name]
  demand n := n

/-- Statements up to the end of a block. -/
def statements : Loop Unit (List Stmt) where
  run fuel _ := Reading.statements fuel
  turn fuel again _ := do
    match ← current with
    | .symbol .rightBrace | .endOfInput | .keyword .funcKw => return []
    | _ =>
      let first ← statement fuel
      recoverAt atStatement
      return first :: (← again ())
  demand n := 8 * n + 3

/-- Tokens that are skipped after a fault. -/
def skipping (stops : Reading Bool) : Loop Unit Unit where
  run fuel _ := skipUntil stops fuel
  turn _ again _ := do
    unless ← stops do
      advance
      again ()
  demand n := n

/-- Continuations of an expression. -/
def continuations (least : Precedence) : Loop Expr Expr where
  run fuel left := continueFrom fuel least (least = .assignment) left
  turn fuel again left := do
    match (← current).continuation? with
    | none => return left
    | some continuation =>
      if continuation.precedence.level < least.level then return left
      advance
      let left ← continueWith fuel continuation (least = .assignment) left
      again left
  demand n := 8 * n + 1

/-- Expressions between commas: the arguments of a call, or the elements of a list. -/
def items : Loop Unit (List Expr) where
  run fuel _ := Reading.items fuel
  turn fuel again _ := do
    let first ← expressionFrom fuel .assignment
    if ← accept (.symbol .comma) then
      return first :: (← again ())
    return [first]
  demand n := 8 * n + 2

/-! ### Every turn -/

theorem proceeds_skipping {stops : Reading Bool} (h : Boundary stops) :
    (skipping stops).Proceeds source where
  run_succ _ _ := rfl
  demand _ _ := id
  turn fuel _ r hr _ := by
    obtain ⟨stop, hrun, hend⟩ : ∃ stop, stops.run r = (stop, r) ∧
        (r.current.kind = .endOfInput → stop = true) :=
      ⟨_, Prod.ext rfl (h.run r), h.atEnd r⟩
    refine .of_run hrun ?_
    cases stop with
    | true => exact .leaves _ r hr fun _ ↦ rfl
    | false =>
      refine .advance hr (fun hc ↦ nomatch hend hc) fun r₁ hr₁ ↦ .again hr₁.ready ?_ ()
      have := hr₁.length
      omega

theorem proceeds_statements : statements.Proceeds source where
  run_succ _ _ := rfl
  demand m n h := by
    show 8 * m + 3 < 8 * n + 3
    omega
  turn fuel _ r hr hf := by
    have hpos := Reader.Ready.standing_pos r
    have hf : 8 * r.standing.length + 3 ≤ fuel + 1 := hf
    refine .current ?_
    by_cases hbrace : r.current.kind = .symbol .rightBrace
    · simp only [hbrace]
      exact .leaves _ r hr fun _ ↦ rfl
    by_cases hend : r.current.kind = .endOfInput
    · simp only [hend]
      exact .leaves _ r hr fun _ ↦ rfl
    by_cases hfunc : r.current.kind = .keyword .funcKw
    · simp only [hfunc]
      exact .leaves _ r hr fun _ ↦ rfl
    simp only
    -- A malformed statement takes a token too, as what may close the block has been ruled out.
    refine .bind (ends_statement fuel r hr (by omega) hbrace hend) fun first r₁ hr₁ hn₁ ↦
      .bind (ends_recoverAt boundary_atStatement hr₁) fun _ r₂ hr₂ hn₂ ↦ ?_
    exact .againThen hr₂ (by omega) () (first :: ·)

theorem proceeds_continuations (least : Precedence) :
    (continuations least).Proceeds source where
  run_succ _ _ := rfl
  demand m n h := by
    show 8 * m + 1 < 8 * n + 1
    omega
  turn fuel left r hr hf := by
    have hf : 8 * r.standing.length + 1 ≤ fuel + 1 := hf
    have hleft : Turn (σ := Expr) source (fun _ ↦ pure left) r.standing.length r :=
      .leaves left r hr fun _ ↦ rfl
    refine .current ?_
    cases hcontinuation : r.current.kind.continuation? with
    | none => exact hleft
    | some continuation =>
      by_cases hlevel : continuation.precedence.level < least.level
      · simp only [hlevel, if_true]
        exact hleft
      simp only [hlevel, if_false]
      have hc : r.current.kind ≠ .endOfInput := fun hend ↦ by
        simp [hend, TokenKind.continuation?] at hcontinuation
      refine .advance hr hc fun r₁ hr₁ ↦ ?_
      have hn₁ := hr₁.length
      refine .bind (ends_continueWith fuel continuation _ left least r.current r₁ hr₁.ready
        (by omega) of_decide_eq_true (TokenKind.continuation?_eq_some.mp hcontinuation)
        (Continuation.rank_le_of_level_le (Nat.le_of_not_lt hlevel))
        (by simp [hr₁.view, View.line_read])) fun next r₂ hr₂ hn₂ ↦ ?_
      exact .again hr₂ (by omega) next

theorem proceeds_items : items.Proceeds source where
  run_succ _ _ := rfl
  demand m n h := by
    show 8 * m + 2 < 8 * n + 2
    omega
  turn fuel _ r hr hf := by
    have hf : 8 * r.standing.length + 2 ≤ fuel + 1 := hf
    refine .bind ((ends_expressionFrom fuel .assignment r hr (by omega) (by decide)).le
      (Nat.sub_le _ _)) fun first r₁ hr₁ hn₁ ↦ ?_
    refine .accept hr₁ (by simp) (fun r₂ hr₂ ↦ ?_) (.leaves [first] r₁ hr₁ fun _ ↦ rfl)
    have hn₂ := hr₂.length
    exact .againThen hr₂.ready (by omega) () (first :: ·)

theorem proceeds_parameters : parameters.Proceeds source where
  run_succ _ _ := rfl
  demand _ _ := id
  turn fuel _ r hr _ := by
    refine .of_run rfl (.bind (ends_name? hr _) fun name? r₁ hr₁ hn₁ ↦ ?_)
    cases name? with
    | none => exact .leaves [] r₁ hr₁ fun _ ↦ rfl
    | some name =>
      refine .bind (ends_declare hr₁ name _) fun _ r₂ hr₂ hn₂ ↦ ?_
      refine .accept hr₂ (by simp) (fun r₃ hr₃ ↦ ?_) (.leaves [name] r₂ hr₂ fun _ ↦ rfl)
      have hn₃ := hr₃.length
      exact .againThen hr₃.ready (by omega) () (name :: ·)

theorem proceeds_declarations : declarations.Proceeds source where
  run_succ _ _ := rfl
  demand _ _ := id
  turn fuel _ r hr _ := by
    have hpos := Reader.Ready.standing_pos r
    refine .current ?_
    by_cases hend : r.current.kind = .endOfInput
    · simp only [hend]
      exact .leaves _ r hr fun _ ↦ rfl
    by_cases hvar : r.current.kind = .keyword .varKw
    · simp only [hvar]
      refine .bind (ends_globalDecl hr hvar) fun globals r₁ hr₁ hn₁ ↦
        .bind (ends_recoverAt boundary_atDeclaration hr₁) fun _ r₂ hr₂ hn₂ ↦ ?_
      exact .againThen hr₂ (by omega) () fun rest ↦ (globals ++ rest.1, rest.2)
    by_cases hfunc : r.current.kind = .keyword .funcKw
    · simp only [hfunc]
      obtain ⟨r₁, hrun, hr₁, hs₁⟩ : ∃ r₁, closeGlobals.run r = ((), r₁) ∧ r₁.Ready source ∧
          r₁.standing = r.standing := by
        obtain ⟨trail, hrun⟩ := exists_run_closeGlobals r
        exact ⟨_, hrun, hr.beside _ _ _ _ _ _ _, rfl⟩
      have hc₁ : r₁.current.kind = .keyword .funcKw := by rw [(List.cons.inj hs₁).1, hfunc]
      refine .of_run hrun (.bind (ends_functionDecl hr₁ hc₁) fun functions r₂ hr₂ hn₂ ↦
        .bind (ends_recoverAt boundary_atDeclaration hr₂) fun _ r₃ hr₃ hn₃ ↦ ?_)
      rw [hs₁] at hn₂
      exact .againThen hr₃ (by omega) () fun rest ↦ (rest.1, functions ++ rest.2)
    simp only
    have hstage : Fault.statementOutsideFunction.stage ≠ .running := by simp [Fault.stage]
    obtain ⟨r₁, r₂, hfail, hadvance, hr₂, hn₂, -⟩ := exists_run_skip hr hstage hend
    refine .of_run hfail (.of_run hadvance ?_)
    refine .bind (ends_recoverAt boundary_atDeclaration hr₂) fun _ r₃ hr₃ hn₃ ↦ ?_
    exact .again hr₃ (by omega) ()

end Loop

end Reading

/-! ### Whole texts -/

/-- A reader that has come to the end of a text, with some tokens before it. -/
structure Reader.Done (source : String) (before : List Token) (r : Reader) : Prop where
  starved : r.starved = false
  /-- The last token of the text stands to be read. -/
  text : Scanned.tokens (Scanned.scan source) = before ++ [r.current]
  current : r.current.kind = .endOfInput
  noEnd : ∀ t ∈ before, t.kind ≠ .endOfInput
  /-- The tokens before it were read in order, each of them once, behind what stood in for the first
  one. -/
  taken : r.taken.reverse = (Reader.ofSource true source).current :: before

/-- A ready reader with one token before it has come to the end. -/
theorem Reader.Ready.exists_done {source : String} {r : Reader} (h : r.Ready source)
    (hn : r.standing.length ≤ 1) : ∃ before, r.Done source before := by
  obtain ⟨hend, -, hstanding⟩ := h.at_end hn
  obtain ⟨before, last, htokens, -, hbefore⟩ := (Scanned.ended_scan source).exists_tokens_eq
  -- Before the last token the text has no end of input, so what was taken has none.
  have htext := h.text
  rw [hstanding, htokens, ← List.cons_append] at htext
  obtain ⟨htaken, hlast⟩ := List.append_inj' htext rfl
  obtain rfl := List.singleton_inj.mp hlast
  exact ⟨before, h.starved, htokens, hend, hbefore, htaken⟩

/-- Reading ends on every text. Where it has begun no token is read at the end of input, and there it
stops, so that as many tokens are read as the text has. No turn of a loop stands still. -/
theorem script_passes (source : String) :
    (∃ s r before, Reading.script.run (.ofSource true source) = (s, r) ∧
      compile source = Reading.Result.compile true ⟨s, r.diagnostics.finish, r.remarks.reverse⟩ ∧
      r.Done source before ∧
      r.taken.length = (Scanned.tokens (Scanned.scan source)).length) ∧
    Reading.Loop.declarations.Proceeds source ∧
    Reading.Loop.parameters.Proceeds source ∧
    Reading.Loop.statements.Proceeds source ∧
    (∀ least, (Reading.Loop.continuations least).Proceeds source) ∧
    Reading.Loop.items.Proceeds source ∧
    (Reading.Loop.skipping Reading.atStatement).Proceeds source ∧
    (Reading.Loop.skipping Reading.atDeclaration).Proceeds source := by
  refine ⟨?_, Reading.Loop.proceeds_declarations, Reading.Loop.proceeds_parameters,
    Reading.Loop.proceeds_statements, Reading.Loop.proceeds_continuations,
    Reading.Loop.proceeds_items, Reading.Loop.proceeds_skipping Reading.boundary_atStatement,
    Reading.Loop.proceeds_skipping Reading.boundary_atDeclaration⟩
  obtain ⟨s, r, hrun, hready, hn, -⟩ := Reading.ends_script source
  obtain ⟨before, hdone⟩ := hready.exists_done hn
  refine ⟨s, r, before, hrun, ?_, hdone, ?_⟩
  · rw [compile, compileWith, readWith, hrun]
  · rw [← List.length_reverse, hdone.taken, hdone.text]
    simp

end StackScript
