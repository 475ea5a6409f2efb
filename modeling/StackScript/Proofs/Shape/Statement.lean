import StackScript.Proofs.Shape.Expression
import StackScript.Proofs.Syntax.Written

/-!
# The shape of the code of statements

A statement begins and ends with nothing but the locals in scope on the stack. That all jumps lead to
where the stack has the shape expected there is shown construct by construct: the jumps of a construct
lead into its own code, but for those that leave the loop around it or go on with its next turn, which
are exits of the construct.
-/

namespace StackScript

mutual

/-- Where the statements in a statement begin, itself included, and the scopes there. -/
def Stmt.sites (folding : Bool) (loop : Option LoopFrame) (scope : List String) (start : Nat) :
    Stmt → List (Nat × List String)
  | .ifThen condition _ body _ =>
    let test := condition.code folding scope start
    (start, scope) :: bodySites folding loop scope (start + test.length + 1) body
  | .ifElse condition _ body closeLine _ alternative =>
    let test := condition.code folding scope start
    let first := blockCode folding loop scope (start + test.length + 1) body closeLine
    (start, scope) :: (bodySites folding loop scope (start + test.length + 1) body ++
      alternative.sites folding loop scope (start + test.length + 1 + first.length + 1))
  | .whileLoop condition _ body _ =>
    let test := condition.code folding scope start
    (start, scope) ::
      bodySites folding (some ⟨start, scope.length⟩) scope (start + test.length + 1) body
  | .forIn name items _ body _ =>
    let top := start + (items.code folding scope start).length + 2
    (start, scope) :: bodySites folding (some ⟨top, scope.length + 1⟩)
      (name :: enumeratorName :: scope) (top + 6) body
  | .block body _ => (start, scope) :: bodySites folding loop scope start body
  | .declare _ _ | .giveBack _ _ | .breakLoop _ | .continueLoop _ | .expression _ _ =>
    [(start, scope)]

/-- Where the statements of a row begin, with the statements in them, and the scopes there. -/
def bodySites (folding : Bool) (loop : Option LoopFrame) (scope : List String) (start : Nat) :
    List Stmt → List (Nat × List String)
  | [] => []
  | s :: rest =>
    s.sites folding loop scope start ++ bodySites folding loop (s.scopeAfter scope)
      (start + (s.code folding loop scope start).length) rest

end

/-- The place of a site: nothing but the locals in scope is on the stack. -/
def sitePlace (site : Nat × List String) : Nat × Shape := (site.1, .locals site.2.length)

/-- A branch declares nothing. -/
theorem Stmt.IsBranch.scopeAfter {s : Stmt} (h : s.IsBranch) (scope : List String) :
    s.scopeAfter scope = scope := by
  cases s with
  | declare name value => exact h.elim
  | _ => rfl

theorem Shaped.discard {exits : Nat × Shape → Prop} {outside count : Nat} (h : outside ≤ count)
    (start line : Nat) : Shaped exits start (.locals count) (Code.discard (count - outside) line)
      (.locals outside) [] := by
  unfold Code.discard
  split
  · rename_i hzero
    obtain rfl : count = outside := by omega
    exact .nil
  · obtain ⟨k, rfl⟩ := Nat.exists_eq_add_of_le h
    rw [Nat.add_sub_cancel_left]
    exact .perform (.pop rfl) trivial

/-- A statement in a loop may leave the loop, and a statement outside of loops has no exits. -/
def LoopExits (loop : Option LoopFrame) (count exit : Nat) (exits : Nat × Shape → Prop) : Prop :=
  ∀ frame, loop = some frame → frame.outside ≤ count ∧
    exits (exit, .locals frame.outside) ∧ exits (frame.top, .locals frame.outside)

theorem LoopExits.mono {loop : Option LoopFrame} {count count' exit : Nat}
    {exits : Nat × Shape → Prop} (h : LoopExits loop count exit exits) (hc : count ≤ count') :
    LoopExits loop count' exit exits :=
  fun frame hf ↦ ⟨Nat.le_trans (h frame hf).1 hc, (h frame hf).2⟩

/-- The exits of the innermost loop. -/
theorem LoopExits.inner (top exit outside count : Nat) (h : outside ≤ count) :
    LoopExits (some ⟨top, outside⟩) count exit
      fun p ↦ p = (top, .locals outside) ∨ p = (exit, .locals outside) := by
  rintro frame ⟨⟩
  exact ⟨h, .inr rfl, .inl rfl⟩

section Constructs

variable {exits : Nat × Shape → Prop} {start h line : Nat} {test body : List Instruction}
  {sites : List (Nat × Shape)}

/-- A conditional jumps to its end. -/
theorem Shaped.ifThen {exit : Nat} (hexit : exit = start + test.length + 1 + body.length)
    (ht : Shaped noExit start (.locals h) test (.locals (h + 1)) [])
    (hb : Shaped exits (start + test.length + 1) (.locals h) body (.locals h) sites) :
    Shaped exits start (.locals h) (test ++ jumpTo .jumpIfFalse exit line :: body)
      (.locals h) sites :=
  .skip (.inl rfl) hexit ht hb

/-- A conditional with an alternative jumps to the alternative, and from before it to its end. -/
theorem Shaped.ifElse {elseLine turn exit : Nat} {alternative : List Instruction}
    {sites' : List (Nat × Shape)} (hturn : turn = start + test.length + 1 + body.length + 1)
    (hexit : exit = turn + alternative.length)
    (ht : Shaped noExit start (.locals h) test (.locals (h + 1)) [])
    (hb : Shaped exits (start + test.length + 1) (.locals h) body (.locals h) sites)
    (ha : Shaped exits turn (.locals h) alternative (.locals h) sites') :
    Shaped exits start (.locals h) (test ++ jumpTo .jumpIfFalse turn line ::
      (body ++ jumpTo .jump exit elseLine :: alternative)) (.locals h) (sites ++ sites') := by
  have hend : start + (test ++ jumpTo .jumpIfFalse turn line ::
      (body ++ jumpTo .jump exit elseLine :: alternative)).length = exit := by
    simp [hexit, hturn]
    omega
  subst hexit hturn
  unfold Shaped
  rw [hend]
  exact Laid.alternative ht (.branch (.inl rfl) (.inr rfl) (.inl rfl)) hb
    (.jump rfl (.inr rfl)) ha

/-- A loop jumps back to its beginning, and from its condition to its end. -/
theorem Shaped.whileLoop {closeLine exit : Nat}
    (hexit : exit = start + test.length + 1 + body.length + 1)
    (ht : Shaped noExit start (.locals h) test (.locals (h + 1)) [])
    (hb : Shaped (fun p ↦ p = (start, .locals h) ∨ p = (exit, .locals h))
      (start + test.length + 1) (.locals h) body (.locals h) sites) :
    Shaped exits start (.locals h)
      (test ++ jumpTo .jumpIfFalse exit line :: (body ++ [jumpTo .jump start closeLine]))
      (.locals h) sites := by
  have hend : start + (test ++ jumpTo .jumpIfFalse exit line ::
      (body ++ [jumpTo .jump start closeLine])).length = exit := by
    simp [hexit]
    omega
  subst hexit
  unfold Shaped
  rw [hend]
  exact Laid.loop ht (.branch (.inl rfl) (.inr rfl) (.inl rfl)) hb (.jump rfl (.inr rfl))

/-- The turns of a loop over elements begin and end with the enumerator on the stack, which is one more
local to its body, below the variable. -/
theorem Shaped.turns {closeLine top exit : Nat} (hexit : exit = top + 6 + body.length + 2)
    (hb : Shaped (fun p ↦ p = (top, .locals (h + 1)) ∨ p = (exit, .locals (h + 1)))
      (top + 6) (.locals (h + 2)) body (.locals (h + 2)) sites) :
    Shaped exits top (.locals (h + 1)) (Code.turns line closeLine top exit body) (.locals (h + 1))
      sites := by
  have htest : Shaped noExit top (.locals (h + 1)) [⟨.dup, .count 1, line⟩,
      ⟨.openWindow, .none, line⟩, ⟨.callMethod, .name "MoveNext", line⟩] (.locals (h + 2)) [] :=
    .cons (.perform (.dup rfl) trivial) (.cons (.perform (.openWindow rfl) trivial)
      (.perform (.window (n := 1) (k := 0) rfl) trivial))
  have hfetch (E : Nat × Shape → Prop) : Shaped E (top + 4) (.locals (h + 1))
      [⟨.dup, .count 1, line⟩, ⟨.pushField, .name "Current", line⟩] (.locals (h + 2)) [] :=
    .cons (.perform (.dup rfl) trivial) (.perform (.operands (n := 1) rfl) trivial)
  have hpop (E : Nat × Shape → Prop) (a : Nat) : Shaped E a (.locals (h + 2))
      [⟨.pop, .count 1, closeLine⟩] (.locals (h + 1)) [] :=
    .perform (.pop (h := h + 1) rfl) trivial
  refine .whileLoop (by simp [hexit]; omega) htest ?_
  exact ((hfetch _).append hb).snoc (hpop _ _)

/-- A loop over elements is a loop that keeps the enumerator on the stack. -/
theorem Shaped.forIn {source : List Instruction} {closeLine top exit : Nat}
    (htop : top = start + source.length + 2) (hexit : exit = top + 6 + body.length + 2)
    (hs : Shaped noExit start (.locals h) source (.locals (h + 1)) [])
    (hb : Shaped (fun p ↦ p = (top, .locals (h + 1)) ∨ p = (exit, .locals (h + 1)))
      (top + 6) (.locals (h + 2)) body (.locals (h + 2)) sites) :
    Shaped exits start (.locals h) (Code.enumerate line source ++
      Code.turns line closeLine top exit body ++ [⟨.pop, .count 1, closeLine⟩])
      (.locals h) sites := by
  have hsource : Shaped exits start (.locals h) (Code.enumerate line source) (.locals (h + 1)) [] :=
    (hs.mono fun _ ↦ False.elim).snoc (.cons (.perform (.openWindow rfl) trivial)
      (.perform (.window (n := 1) (k := 0) rfl) trivial))
  have hturns : Shaped exits (start + (Code.enumerate line source).length) (.locals (h + 1))
      (Code.turns line closeLine top exit body) (.locals (h + 1)) sites := by
    rw [Code.enumerate, List.length_append, ← Nat.add_assoc]
    subst htop
    exact .turns hexit hb
  exact (hsource.append hturns).snoc (.perform (.pop (h := h) rfl) trivial)

end Constructs

/-- The end of a block discards its locals. -/
theorem Shaped.block {folding : Bool} {loop : Option LoopFrame} {scope : List String}
    {start exit : Nat} {exits : Nat × Shape → Prop} {body : List Stmt} {sites : List (Nat × Shape)}
    (hb : Shaped exits start (.locals scope.length)
      (Code.resolve exit (bodyCode folding loop scope start body))
      (.locals (scopeAfterAll scope body).length) sites) (closeLine : Nat) :
    Shaped exits start (.locals scope.length)
      (Code.resolve exit (blockCode folding loop scope start body closeLine))
      (.locals scope.length) sites := by
  rw [blockCode, Code.resolve_append, Code.resolve_of_settled (Code.settled_discard _ _)]
  exact hb.snoc (.discard (length_le_scopeAfterAll scope body) _ closeLine)

mutual

/-- A statement begins and ends with nothing but the locals in scope on the stack. -/
theorem Stmt.shaped (folding : Bool) {loop : Option LoopFrame} {scope : List String} {exit : Nat}
    {exits : Nat × Shape → Prop} (he : LoopExits loop scope.length exit exits) (start : Nat) :
    (s : Stmt) → s.Written → Shaped exits start (.locals scope.length)
      (Code.resolve exit (s.code folding loop scope start))
      (.locals (s.scopeAfter scope).length) ((s.sites folding loop scope start).map sitePlace)
  | .declare name value, _ => by
    rw [Stmt.code, Code.resolve_of_settled (value.settled _ _ _)]
    exact ((value.shaped folding (Nat.le_refl _) start []).mono fun _ ↦ False.elim).site
  | .giveBack value line, _ => by
    rw [Stmt.code, Code.resolve_of_settled (by simp [value.settled])]
    exact (((value.shaped folding (Nat.le_refl _) start []).mono fun _ ↦ False.elim).append
      (.giveBack rfl)).site
  | .ifThen condition line body closeLine, hw => by
    rw [Stmt.code, Code.resolve_append, Code.resolve_of_settled (condition.settled _ _ _),
      Code.resolve_cons (by simp)]
    exact (Shaped.ifThen (by simp) (condition.shaped folding (Nat.le_refl _) start [])
      ((bodyShaped folding he _ body hw.2).block closeLine)).site
  | .ifElse condition line body closeLine elseLine alternative, hw => by
    obtain ⟨_, hbody, hbranch, halternative⟩ := hw
    have ha := alternative.shaped folding he (start + (condition.code folding scope start).length +
      1 + (blockCode folding loop scope (start + (condition.code folding scope start).length + 1)
        body closeLine).length + 1) halternative
    rw [hbranch.scopeAfter] at ha
    rw [Stmt.code, Code.resolve_append, Code.resolve_of_settled (condition.settled _ _ _),
      Code.resolve_cons (by simp), Code.resolve_append, Code.resolve_cons (by simp), Stmt.sites,
      List.map_cons, List.map_append]
    exact (Shaped.ifElse (by simp) (by simp) (condition.shaped folding (Nat.le_refl _) start [])
      ((bodyShaped folding he _ body hbody).block closeLine) ha).site
  | .whileLoop condition line body closeLine, hw => by
    rw [Code.resolve_of_settled Stmt.settled_whileLoop, Stmt.code]
    exact (Shaped.whileLoop (by simp) (condition.shaped folding (Nat.le_refl _) start [])
      ((bodyShaped folding (.inner start _ _ _ (Nat.le_refl _)) _ body hw.2).block closeLine)).site
  | .forIn name items line body closeLine, hw => by
    rw [Code.resolve_of_settled Stmt.settled_forIn, Stmt.code_forIn _ _ _ _ _ _ _ _ _ _ _ rfl rfl,
      Stmt.sites]
    exact (Shaped.forIn rfl (by simp) (items.shaped folding (Nat.le_refl _) start [])
      ((bodyShaped folding (.inner _ _ _ _ (Nat.le_succ _)) _ body hw.2.2).block closeLine)).site
  | .breakLoop line, _ => by
    cases loop with
    | none =>
      rw [Stmt.code, Stmt.sites]
      exact Shaped.nil.site
    | some frame =>
      obtain ⟨houtside, hexit, _⟩ := he frame rfl
      rw [Stmt.code, Code.resolve_append, Code.resolve_of_settled (Code.settled_discard _ _)]
      exact ((Shaped.discard houtside start line).append (.jump rfl hexit)).site
  | .continueLoop line, _ => by
    cases loop with
    | none =>
      rw [Stmt.code, Stmt.sites]
      exact Shaped.nil.site
    | some frame =>
      obtain ⟨houtside, _, htop⟩ := he frame rfl
      rw [Stmt.code, Code.resolve_append, Code.resolve_of_settled (Code.settled_discard _ _)]
      exact ((Shaped.discard houtside start line).append (.jump rfl htop)).site
  | .block body closeLine, hw => by
    rw [Stmt.code]
    exact ((bodyShaped folding he start body hw).block closeLine).site
  | .expression value line, _ => by
    rw [Stmt.code, Code.resolve_of_settled (by simp [value.settled])]
    refine (((value.shaped folding (Nat.le_refl _) start []).mono fun _ ↦ False.elim).append ?_).site
    exact .perform (.pop rfl) trivial

/-- The statements of a row leave their locals on the stack. -/
theorem bodyShaped (folding : Bool) {loop : Option LoopFrame} {scope : List String} {exit : Nat}
    {exits : Nat × Shape → Prop} (he : LoopExits loop scope.length exit exits) (start : Nat) :
    (body : List Stmt) → writtenBody body → Shaped exits start (.locals scope.length)
      (Code.resolve exit (bodyCode folding loop scope start body))
      (.locals (scopeAfterAll scope body).length)
      ((bodySites folding loop scope start body).map sitePlace)
  | [], _ => by
    rw [bodyCode, bodySites]
    exact .nil
  | s :: rest, hw => by
    have hrest := bodyShaped folding (he.mono (s.length_le_scopeAfter scope))
      (start + (s.code folding loop scope start).length) rest hw.2
    rw [bodyCode, Code.resolve_append, bodySites, List.map_append]
    refine (s.shaped folding he start hw.1).append ?_
    rw [Code.length_resolve]
    exact hrest

end

end StackScript
