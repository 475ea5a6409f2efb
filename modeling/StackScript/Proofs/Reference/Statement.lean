import StackScript.Proofs.Reference.Expression
import StackScript.Proofs.Reference.Signal

/-!
# Running statements

The code of a statement is followed from the locals in scope before it, with nothing above them on the
stack, to where it ends. That each loop holds the jumps out of its body together is said by the site of
the loop: the body is laid out with the jumps that leave the loop filled in.
-/

namespace StackScript

open Engine Evaluation

variable {σ : Type} {e : Engine σ} {call : Caller σ} {k : Floor} {loop : Option LoopSite}
  {slots : List Slot} {a : Nat}

/-! ### Slots behind statements -/

/-- The slots behind a statement. -/
def Stmt.slotsAfter (slots : List Slot) : Stmt → List Slot
  | .declare name _ => .named name :: slots
  | _ => slots

/-- The slots behind a row of statements. -/
def slotsAfterAll (slots : List Slot) (body : List Stmt) : List Slot :=
  body.foldl Stmt.slotsAfter slots

theorem Stmt.scopeOf_slotsAfter (s : Stmt) (slots : List Slot) :
    scopeOf (s.slotsAfter slots) = s.scopeAfter (scopeOf slots) := by
  cases s <;> rfl

theorem scopeOf_slotsAfterAll (slots : List Slot) (body : List Stmt) :
    scopeOf (slotsAfterAll slots body) = scopeAfterAll (scopeOf slots) body := by
  induction body generalizing slots with
  | nil => rfl
  | cons s rest ih =>
    show scopeOf (slotsAfterAll (s.slotsAfter slots) rest) = scopeAfterAll (s.scopeAfter _) rest
    rw [ih, s.scopeOf_slotsAfter]

theorem Stmt.suffix_slotsAfter (s : Stmt) (slots : List Slot) : slots <:+ s.slotsAfter slots := by
  cases s with
  | declare name value => exact List.suffix_cons _ _
  | _ => exact List.suffix_refl _

theorem suffix_slotsAfterAll (slots : List Slot) (body : List Stmt) :
    slots <:+ slotsAfterAll slots body := by
  induction body generalizing slots with
  | nil => exact List.suffix_refl _
  | cons s rest ih => exact (s.suffix_slotsAfter slots).trans (ih _)

/-- The loop around statements keeps only slots that are there. -/
def Around (loop : Option LoopSite) (slots : List Slot) : Prop :=
  ∀ l, loop = some l → l.outer <:+ slots

theorem Around.mono {slots' : List Slot} (h : Around loop slots) (hs : slots <:+ slots') :
    Around loop slots' :=
  fun l hl ↦ (h l hl).trans hs

theorem Around.refl (top exit : Nat) (slots : List Slot) : Around (some ⟨top, exit, slots⟩) slots := by
  rintro l ⟨⟩
  exact List.suffix_refl _

/-! ### Constructs -/

/-- The code of a block. -/
theorem realizes_block {x : Evaluation σ Signal} {body : List Stmt} (hloop : Around loop slots)
    (hbody : e.Realizes a
      (Code.within loop (bodyCode false (loop.map LoopSite.frame) (scopeOf slots) a body))
      (k.At slots [] []) x (k.Ended e loop (slotsAfterAll slots body))) (closeLine : Nat) :
    e.Realizes a
      (Code.within loop (blockCode false (loop.map LoopSite.frame) (scopeOf slots) a body closeLine))
      (k.At slots [] []) (enclosed x) fun signal b s q ↦
        s.locals.length ≤ localCount slots ∧ k.Ended e loop slots signal b s q := by
  rw [blockCode, Code.within_append, Code.within_of_settled _ (Code.settled_discard _ _),
    ← scopeOf_slotsAfterAll]
  exact realizes_enclosed hloop (suffix_slotsAfterAll slots body) hbody closeLine

/-- A value with nothing above the locals decides over a jump. -/
theorem follows_test {x : Evaluation σ Value} {target line b : Nat} {pre : Assertion σ}
    (hi : e.program.code[b]? = some (jumpTo .jumpIfFalse target line))
    (hx : e.Follows pre x fun v ↦ k.At slots [v] [] b) :
    e.Follows pre (condition x) fun given ↦
      if given then k.At slots [] [] (b + 1) else k.At slots [] [] target := by
  have h : e.Follows pre (condition x) fun given ↦ k.At slots [] []
      (if given = wanted .jumpIfFalse then target else b + 1) := follows_condition hi (.inl rfl) hx
  refine h.mono fun given s q hat ↦ ?_
  cases given with
  | false => exact hat
  | true => exact hat

section Constructs

variable {test body rest : List Instruction} {x : Evaluation σ Value} {y z : Evaluation σ Signal}
  {line elseLine closeLine turn exit : Nat}

/-- A jump over a body. -/
theorem realizes_branch (ht : e.Realizes a test (k.At slots [] []) x fun v ↦ k.At slots [v] [])
    (hb : e.Realizes (a + test.length + 1) body (k.At slots [] []) y (k.Ended e loop slots))
    (hexit : exit = a + test.length + 1 + body.length) :
    e.Realizes a (test ++ jumpTo .jumpIfFalse exit line :: body) (k.At slots [] [])
      (do if ← condition x then y else return .next) (k.Ended e loop slots) := by
  intro hcode
  have hend : a + (test ++ jumpTo .jumpIfFalse exit line :: body).length = exit := by
    rw [hexit, List.length_append, List.length_cons]
    omega
  rw [hend]
  refine (follows_test hcode.right.head (ht hcode.left)).bind fun given ↦ ?_
  cases given with
  | false => exact .pure fun _ _ h ↦ h
  | true =>
    rw [hexit]
    exact hb hcode.right.tail

/-- A jump over a body to another one, and a jump from the end of the first over the second. -/
theorem realizes_alternative (ht : e.Realizes a test (k.At slots [] []) x fun v ↦ k.At slots [v] [])
    (hb : e.Realizes (a + test.length + 1) body (k.At slots [] []) y (k.Ended e loop slots))
    (hr : e.Realizes turn rest (k.At slots [] []) z (k.Ended e loop slots))
    (hturn : turn = a + test.length + 1 + body.length + 1) (hexit : exit = turn + rest.length) :
    e.Realizes a (test ++ jumpTo .jumpIfFalse turn line :: (body ++ jumpTo .jump exit elseLine :: rest))
      (k.At slots [] []) (do if ← condition x then y else z) (k.Ended e loop slots) := by
  intro hcode
  have hend : a + (test ++ jumpTo .jumpIfFalse turn line ::
      (body ++ jumpTo .jump exit elseLine :: rest)).length = exit := by
    rw [hexit, hturn]
    simp only [List.length_append, List.length_cons]
    omega
  have hbehind := hcode.right.tail.right
  rw [hend]
  refine (follows_test hcode.right.head (ht hcode.left)).bind fun given ↦ ?_
  cases given with
  | false =>
    have hrest := hbehind.tail
    rw [← hturn] at hrest
    rw [hexit]
    exact hr hrest
  | true =>
    refine (hb hcode.right.tail.left).after fun signal ↦ ?_
    cases signal with
    | next => exact leads_jump hbehind.head rfl rfl
    | broke | continued | gaveBack v => exact fun s q h ↦ ⟨q, h, .refl q⟩

/-- A body between a test and a jump back to it. -/
theorem realizes_loop {top : Nat} {x : Evaluation σ Value} {y : Evaluation σ Signal} {fuel : Nat}
    (ht : e.Realizes top test (k.At slots [] []) x fun v ↦ k.At slots [v] [])
    (hb : e.Realizes (top + test.length + 1) body (k.At slots [] []) y fun signal b s q ↦
      s.locals.length ≤ localCount slots ∧ k.Ended e (some ⟨top, exit, slots⟩) slots signal b s q)
    (hexit : exit = top + test.length + 1 + body.length + 1) :
    e.Realizes top
      (test ++ jumpTo .jumpIfFalse exit line :: (body ++ [jumpTo .jump top closeLine]))
      (k.At slots [] []) (repeatWhile fuel (condition x) y) (k.Ended e none slots) := by
  intro hcode
  have hend : top + (test ++ jumpTo .jumpIfFalse exit line ::
      (body ++ [jumpTo .jump top closeLine])).length = exit := by
    rw [hexit]
    simp only [List.length_append, List.length_cons, List.length_nil]
    omega
  rw [hend]
  refine .repeatWhile (follows_test hcode.right.head (ht hcode.left)) ?_ fuel
  refine (hb hcode.right.tail.left).after fun signal ↦ ?_
  cases signal with
  | next =>
    rintro s q ⟨-, hat⟩
    exact leads_jump hcode.right.tail.right.head rfl rfl s q hat
  | broke | continued =>
    -- All locals of the body are gone, so those that are left are all.
    rintro s q ⟨hle, l, hl, hleft⟩
    cases hl
    exact ⟨q, hleft.at hle, .refl q⟩
  | gaveBack v =>
    rintro s q ⟨-, hreturns⟩
    exact ⟨q, hreturns, .refl q⟩

end Constructs

/-- The value of a declaration becomes a local where it is. -/
theorem follows_declare {name : String} {v : Value} :
    e.Follows (k.At slots [v] [] a) (declare name v) fun _ ↦ k.At (.named name :: slots) [] [] a := by
  intro s q hat r s' hrun
  obtain ⟨rfl, rfl⟩ := Prod.mk.inj (Option.some.inj hrun)
  exact ⟨q, hat.declare, .refl q⟩

theorem Floor.At.returns {v : Value} {i : Instruction} {s : Scene σ} {q : Nat × Machine σ}
    (h : k.At slots [v] [] a s q) (hi : e.program.code[a]? = some i) (hop : i.op = .giveBack) :
    k.Returns e v s q := by
  obtain ⟨values, -, rfl⟩ := h
  have habove : k.above values [v] = (k.stack ++ values.reverse.toArray).push v := by
    simp [Floor.above]
  refine ⟨i, values.reverse.toArray, hi, hop, ?_⟩
  rw [Floor.machine, habove, List.nil_append]

/-- The expression of a statement leaves nothing. -/
theorem leads_pop_one {v : Value} {line : Nat}
    (hi : e.program.code[a]? = some ⟨.pop, .count 1, line⟩) :
    e.Leads (k.At slots [v] [] a) (k.At slots [] [] (a + 1)) :=
  (leads_pop hi rfl rfl : e.Leads (k.At slots ([] ++ [v]) [] a) _)

/-- A statement that leaves the turn of a loop discards the locals of the loop, and jumps. -/
theorem realizes_leave {l : LoopSite} {signal : Signal} {line target : Nat} (hl : l.outer <:+ slots)
    (hs : ∀ b s q, k.Left l.outer target s q → k.Ended e (some l) slots signal b s q) :
    e.Realizes a (Code.discard ((scopeOf slots).length - (scopeOf l.outer).length) line ++
      [jumpTo .jump target line]) (k.At slots [] []) (pure signal) (k.Ended e (some l) slots) :=
  .before (prepares_discard hl line) fun hcode ↦
    .before (leads_jump_left hcode.head rfl rfl) (.pure (hs _))

/-- Outside of loops statements end as they do in any loop. -/
theorem Floor.Ended.of_none {signal : Signal} {b : Nat} {s : Scene σ} {q : Nat × Machine σ}
    (h : k.Ended e none slots signal b s q) : k.Ended e loop slots signal b s q := by
  cases signal with
  | next => exact h
  | broke | continued => exact nomatch h.choose_spec.1
  | gaveBack v => exact h

/-! ### Loops over elements -/

section Turns

variable {v : Value} {name method : String} {line closeLine top exit : Nat}

/-- A value is asked by a method without arguments. -/
theorem realizes_ask (temps : List Value) :
    e.Realizes a [⟨.openWindow, .none, line⟩, ⟨.callMethod, .name method, line⟩]
      (k.At slots (temps ++ [v]) []) (onMemory (e.callMethod v method []))
      fun u ↦ k.At slots (temps ++ [u]) [] := by
  refine .before_cons (fun hi ↦ leads_openWindow hi rfl) fun hcode ↦ ?_
  have h : e.Follows (k.At slots (temps ++ [v] ++ []) [k.height slots (temps ++ [v])] (a + 1))
      (onMemory (e.callMethod v method [])) fun u ↦ k.At slots (temps ++ [u]) [] (a + 2) :=
    follows_callMethod hcode.head
  rwa [List.append_nil] at h

/-- The enumerator of a loop is copied, and then worked with. -/
theorem leads_enumerator (hi : e.program.code[a]? = some ⟨.dup, .count 1, line⟩) :
    e.Leads (k.At (.enumerator v :: slots) [] [] a) (k.At slots ([v] ++ [v]) [] (a + 1)) := by
  intro s q h
  exact (leads_dup hi rfl rfl : e.Leads (k.At slots ([] ++ [v]) [] a) _) s q (Floor.at_enumerator_iff.mp h)

/-- The enumerator is asked whether there is another element. -/
theorem realizes_moveNext :
    e.Realizes a [⟨.dup, .count 1, line⟩, ⟨.openWindow, .none, line⟩, ⟨.callMethod, .name "MoveNext", line⟩]
      (k.At (.enumerator v :: slots) [] []) (onMemory (e.callMethod v "MoveNext" []))
      fun u ↦ k.At (.enumerator v :: slots) [u] [] :=
  (Realizes.before_cons leads_enumerator (realizes_ask [v])).mono fun _ _ _ _ h ↦
    Floor.at_enumerator_iff.mpr h

/-- The enumerator is asked for its element, and that is the variable of the loop. -/
theorem realizes_current {body : List Instruction} {z : Evaluation σ Signal}
    {post : Signal → Nat → Assertion σ} (line : Nat)
    (hb : e.Realizes (a + 2) body (k.At (.named name :: .enumerator v :: slots) [] []) z post) :
    e.Realizes a ([⟨.dup, .count 1, line⟩, ⟨.pushField, .name "Current", line⟩] ++ body)
      (k.At (.enumerator v :: slots) [] [])
      (do
        let u ← onMemory (e.getField v "Current")
        declare name u
        z) post := by
  have hread (b : Nat) (hi : e.program.code[b]? = some ⟨.pushField, .name "Current", line⟩) :
      e.Follows (k.At slots ([v] ++ [v]) [] b) (onMemory (e.getField v "Current"))
        fun u ↦ k.At slots ([v] ++ [u]) [] (b + 1) := follows_value hi trivial rfl rfl
  have hcurrent : e.Realizes a [⟨.dup, .count 1, line⟩, ⟨.pushField, .name "Current", line⟩]
      (k.At (.enumerator v :: slots) [] []) (onMemory (e.getField v "Current"))
      fun u ↦ k.At (.enumerator v :: slots) [u] [] :=
    (Realizes.before_cons leads_enumerator fun hcode ↦ hread _ hcode.head).mono
      fun _ _ _ _ h ↦ Floor.at_enumerator_iff.mpr h
  exact hcurrent.bind fun u hcode ↦ follows_declare.bind fun _ ↦ hb hcode

/-- The turns of a loop over elements. -/
theorem realizes_turns {body : List Instruction} {z : Evaluation σ Signal} {fuel : Nat}
    (hb : e.Realizes (top + 6) body (k.At (.named name :: .enumerator v :: slots) [] []) z
      (k.Ended e (some ⟨top, exit, .enumerator v :: slots⟩) (.named name :: .enumerator v :: slots)))
    (hexit : exit = top + 6 + body.length + 2) :
    e.Realizes top (Code.turns line closeLine top exit body) (k.At (.enumerator v :: slots) [] [])
      (repeatWhile fuel (condition (onMemory (e.callMethod v "MoveNext" [])))
        (enclosed do
          let u ← onMemory (e.getField v "Current")
          declare name u
          z))
      (k.Ended e none (.enumerator v :: slots)) := by
  have hsite : Around (some ⟨top, exit, .enumerator v :: slots⟩) (.enumerator v :: slots) :=
    .refl top exit _
  have hturn := realizes_enclosed hsite (List.suffix_cons (.named name) _) (realizes_current line hb)
    closeLine
  have hone : (scopeOf (.named name :: .enumerator v :: slots)).length -
      (scopeOf (.enumerator v :: slots)).length = 1 := by
    simp
  rw [hone] at hturn
  refine realizes_loop realizes_moveNext hturn ?_
  rw [hexit]
  simp only [List.length_append, List.length_cons, List.length_nil]
  omega

/-- A loop over elements: its enumerator is made before the turns and discarded after them. -/
theorem realizes_forIn {source body : List Instruction} {x : Evaluation σ Value}
    {z : Evaluation σ Signal} {fuel : Nat}
    (hs : e.Realizes a source (k.At slots [] []) x fun v ↦ k.At slots [v] [])
    (hb : ∀ v, e.Realizes (top + 6) body (k.At (.named name :: .enumerator v :: slots) [] []) z
      (k.Ended e (some ⟨top, exit, .enumerator v :: slots⟩) (.named name :: .enumerator v :: slots)))
    (htop : top = a + source.length + 2) (hexit : exit = top + 6 + body.length + 2) :
    e.Realizes a (Code.enumerate line source ++ Code.turns line closeLine top exit body ++
        [⟨.pop, .count 1, closeLine⟩])
      (k.At slots [] [])
      (do
        let collection ← x
        let enumerator ← onMemory (e.callMethod collection "GetEnumerator" [])
        repeatWhile fuel (condition (onMemory (e.callMethod enumerator "MoveNext" [])))
          (enclosed do
            let u ← onMemory (e.getField enumerator "Current")
            declare name u
            z))
      (k.Ended e loop slots) := by
  subst htop
  rw [Code.enumerate, List.append_assoc, List.append_assoc]
  refine hs.bind fun collection ↦ (realizes_ask []).bind fun v ↦
    .weaken (fun b s q h ↦ Floor.at_enumerator_iff.mpr h) ?_
  refine (realizes_turns (hb v) hexit).after fun signal hcode ↦ ?_
  cases signal with
  | next =>
    intro s q h
    exact leads_pop_one hcode.head s q (Floor.at_enumerator_iff.mp h)
  | broke | continued | gaveBack v => exact fun s q h ↦ ⟨q, Floor.Ended.of_none h, .refl q⟩

end Turns

/-! ### Statements -/

theorem Stmt.IsBranch.slotsAfter {s : Stmt} (h : s.IsBranch) (slots : List Slot) :
    s.slotsAfter slots = slots := by
  cases s with
  | declare name value => exact h.elim
  | _ => rfl

mutual

/-- The code of a statement does what the statement says. -/
theorem Stmt.realizes (hcall : e.Answers call) (k : Floor) (fuel : Nat) (loop : Option LoopSite)
    (slots : List Slot) (hloop : Around loop slots) (a : Nat) : (s : Stmt) → s.Written →
    (∀ m ∈ s.staticMembers, Text.IsSimple m) →
    e.Realizes a (Code.within loop (s.code false (loop.map LoopSite.frame) (scopeOf slots) a))
      (k.At slots [] []) (s.eval e.bridge call fuel loop.isSome) (k.Ended e loop (s.slotsAfter slots))
  | .declare name value => fun hw hm ↦ by
    rw [Stmt.code, Code.within_of_settled _ (value.settled _ _ _), Stmt.eval]
    exact fun hcode ↦ (value.realizes hcall k slots [] [] a hw.2 hm hcode).bind fun v ↦
      follows_declare.bind fun _ ↦ .pure fun _ _ h ↦ h
  | .giveBack value line => fun hw hm ↦ by
    rw [Stmt.code, Code.within_of_settled _ (by simp [value.settled]), Stmt.eval]
    exact (value.realizes hcall k slots [] [] a hw hm).bind fun v hcode ↦
      .pure fun s q h ↦ h.returns hcode.head rfl
  | .ifThen test line body closeLine => fun hw hm ↦ by
    obtain ⟨htest, hbody⟩ := List.forall_mem_append.mp hm
    rw [Stmt.code, Code.within_append, Code.within_of_settled _ (test.settled _ _ _),
      Code.within_cons _ (by simp), Stmt.eval]
    refine realizes_branch (test.realizes hcall k slots [] [] a hw.1 htest) ?_ (by simp)
    exact (realizes_block hloop (realizesBody hcall k fuel loop slots hloop _ body hw.2 hbody)
      closeLine).mono fun signal b s q h ↦ h.2
  | .ifElse test line body closeLine elseLine alternative => fun hw hm ↦ by
    obtain ⟨htest, halternative⟩ := List.forall_mem_append.mp hm
    obtain ⟨htest, hbody⟩ := List.forall_mem_append.mp htest
    have hrest (b : Nat) := alternative.realizes hcall k fuel loop slots hloop b hw.2.2.2 halternative
    simp only [hw.2.2.1.slotsAfter] at hrest
    rw [Stmt.code, Code.within_append, Code.within_of_settled _ (test.settled _ _ _),
      Code.within_cons _ (by simp), Code.within_append, Code.within_cons _ (by simp), Stmt.eval]
    refine realizes_alternative (test.realizes hcall k slots [] [] a hw.1 htest) ?_ (hrest _) (by simp)
      (by simp)
    exact (realizes_block hloop (realizesBody hcall k fuel loop slots hloop _ body hw.2.1 hbody)
      closeLine).mono fun signal b s q h ↦ h.2
  | .whileLoop test line body closeLine => fun hw hm ↦ by
    obtain ⟨htest, hbody⟩ := List.forall_mem_append.mp hm
    rw [Code.within_of_settled _ Stmt.settled_whileLoop, Stmt.code, Stmt.eval]
    -- The end of the loop is where its body leaves it to.
    generalize hexit : a + (test.code false (scopeOf slots) a).length + 1 +
      (blockCode false (some ⟨a, (scopeOf slots).length⟩) (scopeOf slots) _ body closeLine).length + 1 = exit
    have hsite : Around (some ⟨a, exit, slots⟩) slots := .refl a exit slots
    have hblock (b : Nat) := realizes_block hsite
      (realizesBody hcall k fuel _ slots hsite b body hw.2 hbody) closeLine
    refine (realizes_loop (test.realizes hcall k slots [] [] a hw.1 htest) (hblock _) ?_).mono
      fun signal b s q h ↦ h.of_none
    rw [← hexit, Code.length_within]
    rfl
  | .forIn name items line body closeLine => fun hw hm ↦ by
    obtain ⟨hitems, hbody⟩ := List.forall_mem_append.mp hm
    generalize htop : a + (items.code false (scopeOf slots) a).length + 2 = top
    generalize hexit : top + 6 + (blockCode false (some ⟨top, (scopeOf slots).length + 1⟩)
      (name :: enumeratorName :: scopeOf slots) (top + 6) body closeLine).length + 2 = exit
    have hsite (v : Value) : Around (some ⟨top, exit, .enumerator v :: slots⟩)
        (.named name :: .enumerator v :: slots) :=
      (Around.refl top exit _).mono (List.suffix_cons _ _)
    have hblock (v : Value) := (realizes_block (hsite v)
      (realizesBody hcall k fuel _ _ (hsite v) (top + 6) body hw.2.2 hbody) closeLine).mono
        fun signal b s q h ↦ h.2
    rw [Code.within_of_settled _ Stmt.settled_forIn,
      Stmt.code_forIn false _ _ _ line closeLine top exit name items body htop.symm hexit.symm, Stmt.eval]
    refine realizes_forIn (items.realizes hcall k slots [] [] a hw.2.1 hitems) hblock htop.symm ?_
    rw [Code.length_resolve]
    exact hexit.symm
  | .breakLoop line => fun _ _ ↦ by
    cases loop with
    | none =>
      rw [Option.map_none, Stmt.code, Stmt.eval]
      exact .nil fun _ _ h ↦ h
    | some l =>
      rw [Option.map_some, Stmt.code, Stmt.eval]
      show e.Realizes a (Code.resolve l.exit (_ ++ [_])) _ _ _
      rw [Code.resolve_append, Code.resolve_of_settled (Code.settled_discard _ _)]
      exact realizes_leave (hloop l rfl) fun b s q h ↦ ⟨l, rfl, h⟩
  | .continueLoop line => fun _ _ ↦ by
    cases loop with
    | none =>
      rw [Option.map_none, Stmt.code, Stmt.eval]
      exact .nil fun _ _ h ↦ h
    | some l =>
      rw [Option.map_some, Stmt.code, Stmt.eval]
      show e.Realizes a (Code.resolve l.exit (_ ++ [_])) _ _ _
      rw [Code.resolve_append, Code.resolve_of_settled (Code.settled_discard _ _)]
      exact realizes_leave (hloop l rfl) fun b s q h ↦ ⟨l, rfl, h⟩
  | .block body closeLine => fun hw hm ↦ by
    rw [Stmt.code, Stmt.eval]
    exact (realizes_block hloop (realizesBody hcall k fuel loop slots hloop _ body hw hm)
      closeLine).mono fun signal b s q h ↦ h.2
  | .expression value line => fun hw hm ↦ by
    rw [Stmt.code, Code.within_of_settled _ (by simp [value.settled]), Stmt.eval]
    exact (value.realizes hcall k slots [] [] a hw hm).bind fun v hcode ↦
      .before (leads_pop_one hcode.head) (.pure fun _ _ h ↦ h)

/-- The code of statements one after the other does what they say. -/
theorem realizesBody (hcall : e.Answers call) (k : Floor) (fuel : Nat) (loop : Option LoopSite)
    (slots : List Slot) (hloop : Around loop slots) (a : Nat) : (body : List Stmt) → writtenBody body →
    (∀ m ∈ bodyStaticMembers body, Text.IsSimple m) →
    e.Realizes a (Code.within loop (bodyCode false (loop.map LoopSite.frame) (scopeOf slots) a body))
      (k.At slots [] []) (evalBody e.bridge call fuel loop.isSome body)
      (k.Ended e loop (slotsAfterAll slots body))
  | [] => fun _ _ ↦ by
    rw [bodyCode, Code.within_of_settled _ Code.settled_nil, evalBody]
    exact .nil fun _ _ h ↦ h
  | s :: rest => fun hw hm hcode ↦ by
    obtain ⟨hs, hrest⟩ := List.forall_mem_append.mp hm
    rw [bodyCode, Code.within_append] at hcode ⊢
    have hbehind := hcode.right
    rw [Code.length_within] at hbehind
    rw [List.length_append, ← Nat.add_assoc, Code.length_within, evalBody]
    refine (s.realizes hcall k fuel loop slots hloop a hw.1 hs hcode.left).bind fun signal ↦ ?_
    cases signal with
    | next =>
      have hnext := realizesBody hcall k fuel loop (s.slotsAfter slots)
        (hloop.mono (s.suffix_slotsAfter slots))
        (a + (s.code false (loop.map LoopSite.frame) (scopeOf slots) a).length) rest hw.2 hrest
      rw [s.scopeOf_slotsAfter] at hnext
      rw [Code.length_within]
      exact hnext hbehind
    | broke | continued | gaveBack v => exact .pure fun _ _ h ↦ h

end

end StackScript
