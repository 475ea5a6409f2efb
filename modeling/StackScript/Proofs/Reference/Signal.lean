import StackScript.Proofs.Reference.Simulation

/-!
# The ends of statements

Where a run is when a statement has ended depends on how it has ended (`Floor.Ended`). A statement that
leaves a loop, or goes on with its next turn, has dropped all locals declared in the loop, and jumps. The
evaluator drops them later, block by block, so on the way the locals that the run still has are the
outermost ones of the scene (`Floor.Left`).

Blocks and loops have a rule each, `realizes_enclosed` and `Follows.repeatWhile`.
-/

namespace StackScript

variable {σ : Type}

/-- A loop around statements: where its next turn begins, where it is left to, and the slots outside
it. -/
structure LoopSite where
  top : Nat
  exit : Nat
  outer : List Slot

/-- What code generation knows of the loop. -/
def LoopSite.frame (l : LoopSite) : LoopFrame := ⟨l.top, (scopeOf l.outer).length⟩

namespace Code

/-- Code in a loop, if it is in one, after the end of the loop has become known. -/
def within (loop : Option LoopSite) (code : List Instruction) : List Instruction :=
  match loop with
  | none => code
  | some l => resolve l.exit code

variable (loop : Option LoopSite) {code code' : List Instruction}

theorem within_append : within loop (code ++ code') = within loop code ++ within loop code' := by
  cases loop with
  | none => rfl
  | some l => exact resolve_append _ _ _

theorem within_cons {i : Instruction} (h : i.operand ≠ .target .unresolved) :
    within loop (i :: code) = i :: within loop code := by
  cases loop with
  | none => rfl
  | some l => exact resolve_cons h

theorem within_of_settled (h : Settled code) : within loop code = code := by
  cases loop with
  | none => rfl
  | some l => exact resolve_of_settled h

@[simp]
theorem length_within : (within loop code).length = code.length := by
  cases loop with
  | none => rfl
  | some l => exact length_resolve _ _

end Code

namespace Floor

variable {k : Floor} {e : Engine σ} {loop : Option LoopSite} {slots outer : List Slot} {a : Nat}
  {s : Scene σ} {q : Nat × Machine σ} {temps : List Value} {inner : List Nat} {v : Value} {name : String}

/-! ### Slots and temporary values -/

/-- The lowest temporary value becomes a local. -/
theorem At.declare (h : k.At slots (v :: temps) inner a s q) :
    k.At (.named name :: slots) temps inner a { s with locals := (name, v) :: s.locals } q := by
  obtain ⟨values, hfills, rfl⟩ := h
  refine ⟨v :: values, .named name v hfills, ?_⟩
  simp [machine, above]

/-- The lowest temporary value is kept as an enumerator. -/
theorem at_enumerator_iff :
    k.At (.enumerator v :: slots) temps inner a s q ↔ k.At slots (v :: temps) inner a s q := by
  have habove (values : List Value) : k.above (v :: values) temps = k.above values (v :: temps) := by
    simp [above]
  constructor
  · rintro ⟨_, hfills, rfl⟩
    cases hfills with
    | enumerator _ hrest => exact ⟨_, hrest, by rw [machine, habove, machine]⟩
  · rintro ⟨values, hfills, rfl⟩
    exact ⟨v :: values, .enumerator v hfills, by rw [machine, machine, habove]⟩

/-! ### Leaving a loop -/

/-- Of the locals only the outermost are left, those in the given slots. -/
def Left (k : Floor) (outer : List Slot) (a : Nat) : Assertion σ :=
  fun s q ↦ ∃ locals, locals <:+ s.locals ∧ k.At outer [] [] a { s with locals := locals } q

/-- A function is about to return with a value. -/
def Returns (k : Floor) (e : Engine σ) (v : Value) : Assertion σ :=
  fun s q ↦ ∃ i rest, e.program.code[q.1]? = some i ∧ i.op = .giveBack ∧
    q.2 = ⟨(k.stack ++ rest).push v, k.stack.size, k.windows, k.frames, s.memory.resolved, s.memory.store⟩

/-- Where the run is when a statement has ended. -/
def Ended (k : Floor) (e : Engine σ) (loop : Option LoopSite) (slots : List Slot) :
    Signal → Nat → Assertion σ
  | .next, a => k.At slots [] [] a
  | .broke, _ => fun s q ↦ ∃ l, loop = some l ∧ k.Left l.outer l.exit s q
  | .continued, _ => fun s q ↦ ∃ l, loop = some l ∧ k.Left l.outer l.top s q
  | .gaveBack v, _ => k.Returns e v

/-- The locals that are left are all the locals if these are no more than there are slots. -/
theorem Left.at (h : k.Left outer a s q) (hs : s.locals.length ≤ localCount outer) :
    k.At outer [] [] a s q := by
  obtain ⟨locals, hsuffix, values, hfills, rfl⟩ := h
  have hlength : s.locals.length ≤ locals.length := by
    rw [hfills.length_locals]
    exact hs
  obtain rfl := hsuffix.eq_of_length_le hlength
  exact ⟨values, hfills, rfl⟩

/-- Dropping locals that are not left, and maybe some more, does no harm. -/
theorem Left.drop (h : k.Left outer a s q) {count : Nat} (hc : localCount outer ≤ count) :
    k.Left outer a { s with locals := s.locals.drop (s.locals.length - count) } q := by
  obtain ⟨locals, hsuffix, values, hfills, rfl⟩ := h
  have hlength : locals.length ≤ (s.locals.drop (s.locals.length - count)).length := by
    have hle := hsuffix.length_le
    have heq := hfills.length_locals
    rw [List.length_drop]
    simp only at heq
    omega
  exact ⟨locals, List.suffix_of_suffix_length_le hsuffix (List.drop_suffix _ _) hlength, values, hfills, rfl⟩

theorem localCount_le (hs : outer <:+ slots) (h : k.At slots temps inner a s q) :
    localCount outer ≤ s.locals.length := by
  obtain ⟨newer, rfl⟩ := hs
  obtain ⟨values, hfills, rfl⟩ := h
  obtain ⟨locals, hsuffix, _, back, -, -, houter⟩ := hfills.exists_suffix
  rw [← houter.length_locals]
  exact hsuffix.length_le

end Floor

namespace Engine

open Evaluation

variable {e : Engine σ} {k : Floor} {loop : Option LoopSite} {slots outer inside : List Slot}
  {a b : Nat} {code : List Instruction} {i : Instruction}

/-- Locals are discarded as code generation counts them. -/
theorem prepares_discard (hslots : outer <:+ slots) (line : Nat) :
    e.Prepares a (Code.discard ((scopeOf slots).length - (scopeOf outer).length) line)
      (k.At slots [] []) (k.Left outer) := by
  rintro hcode s q ⟨values, hfills, rfl⟩
  obtain ⟨newer, rfl⟩ := hslots
  have hcount : (scopeOf (newer ++ outer)).length - (scopeOf outer).length = newer.length := by
    rw [List.length_map, List.length_map, List.length_append, Nat.add_sub_cancel]
  rw [hcount] at hcode ⊢
  obtain ⟨locals, hsuffix, front, back, rfl, hlength, houter⟩ := hfills.exists_suffix
  have habove : k.above (front ++ back) [] = k.above back [] ++ front.reverse.toArray := by
    simp [Floor.above]
  refine ⟨_, ⟨locals, hsuffix, back, houter, rfl⟩, ?_⟩
  unfold Code.discard at hcode ⊢
  split
  · rename_i hzero
    obtain rfl : front = [] := List.length_eq_zero_iff.mp (hlength.trans hzero)
    exact .refl _
  · rename_i hne
    rw [if_neg hne] at hcode
    have hpopped : newer.length = front.reverse.length := by
      rw [List.length_reverse, hlength]
    exact reaches_pop hcode.head rfl hpopped habove

theorem leads_jump_left (hi : e.program.code[a]? = some i) (hop : i.op = .jump) (hc : i.count = b) :
    e.Leads (k.Left outer a) (k.Left outer b) := by
  rintro s q ⟨locals, hsuffix, hat⟩
  obtain ⟨q', hat', hreaches⟩ := leads_jump hi hop hc _ q hat
  exact ⟨q', ⟨locals, hsuffix, hat'⟩, hreaches⟩

/-! ### Blocks -/

theorem run_enclosed (x : Evaluation σ Signal) (s : Scene σ) :
    (enclosed x).run.run s = match x.run.run s with
      | some (.ok signal, s') =>
        some (.ok signal, { s' with locals := s'.locals.drop (s'.locals.length - s.locals.length) })
      | some (.error fault, s') => some (.error fault, s')
      | none => none := by
  rw [enclosed, run_get_bind, run_bind]
  rcases x.run.run s with _ | ⟨fault | signal, s'⟩ <;> rfl

/-- At the end of a block its locals are discarded, and the evaluator drops them. -/
theorem realizes_enclosed {x : Evaluation σ Signal} (hloop : ∀ l, loop = some l → l.outer <:+ slots)
    (hslots : slots <:+ inside)
    (hx : e.Realizes a code (k.At slots [] []) x (k.Ended e loop inside)) (line : Nat) :
    e.Realizes a (code ++ Code.discard ((scopeOf inside).length - (scopeOf slots).length) line)
      (k.At slots [] []) (enclosed x) fun signal b s q ↦
        s.locals.length ≤ localCount slots ∧ k.Ended e loop slots signal b s q := by
  intro hcode s q hpre r s' hrun
  have hbody := hx hcode.left s q hpre
  obtain ⟨values, hfills, -⟩ := id hpre
  have hlength := hfills.length_locals
  rw [run_enclosed] at hrun
  rcases hr : x.run.run s with _ | ⟨fault | signal, s₁⟩ <;> rw [hr] at hrun <;> cases hrun
  · exact hbody _ _ hr
  · obtain ⟨q₁, hended, hreaches⟩ := hbody _ _ hr
    have hle : (s₁.locals.drop (s₁.locals.length - s.locals.length)).length ≤ localCount slots := by
      rw [List.length_drop]
      omega
    rw [List.length_append, ← Nat.add_assoc]
    cases signal with
    | next =>
      obtain ⟨q₂, hleft, hreaches'⟩ := prepares_discard hslots line hcode.right s₁ q₁ hended
      have hdrop := hleft.drop hlength.ge
      exact ⟨q₂, ⟨hle, hdrop.at hle⟩, hreaches.trans hreaches'⟩
    | broke | continued =>
      obtain ⟨l, hl, hleft⟩ := hended
      exact ⟨q₁, ⟨hle, l, hl, hleft.drop (Floor.localCount_le (hloop l hl) hpre)⟩, hreaches⟩
    | gaveBack v => exact ⟨q₁, ⟨hle, hended⟩, hreaches⟩

/-! ### Loops -/

/-- Each turn of a loop begins where the one before it has led. -/
theorem Follows.repeatWhile {test : Evaluation σ Bool} {body : Evaluation σ Signal}
    {top inside : Assertion σ} {after : Signal → Assertion σ}
    (ht : e.Follows top test fun given ↦ if given then inside else after .next)
    (hb : e.Follows inside body fun signal ↦ match signal with
      | .next | .continued => top
      | .broke => after .next
      | .gaveBack v => after (.gaveBack v)) (fuel : Nat) :
    e.Follows top (repeatWhile fuel test body) after := by
  induction fuel with
  | zero => exact .outOfFuel
  | succ fuel ih =>
    rw [Evaluation.repeatWhile]
    refine ht.bind fun given ↦ ?_
    cases given with
    | false => exact .pure fun _ _ h ↦ h
    | true =>
      refine hb.bind fun signal ↦ ?_
      cases signal with
      | next | continued => exact ih
      | broke | gaveBack v => exact .pure fun _ _ h ↦ h

end Engine

end StackScript
