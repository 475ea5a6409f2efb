import StackScript.Proofs.Layout.Code
import StackScript.Proofs.Layout.Route

/-!
# Folded code beside plain code

The folded code of a script has one instruction for each instruction of the plain code, but for rows of
instructions that compute a literal out of literals: for such a row there is a push of the literal.
Jumps lead to corresponding addresses, and none into such a row.

An item of the layout is a row of the plain code with the folded instruction for it, and a place is a
pair of addresses, one in the plain code and one in the folded code.
-/

namespace StackScript

/-- Code that computes a literal out of literals. -/
inductive Computes : List Instruction → Literal → Prop
  | push (l : Literal) (line : Nat) : Computes [Code.push l line] l
  | binary {left right : List Instruction} {a b r : Literal} {op : BinaryOp} {line : Nat}
    (hl : Computes left a) (hr : Computes right b)
    (h : op.apply (.literal a) (.literal b) = .ok r) :
    Computes (left ++ right ++ [⟨.binary op, .none, line⟩]) r
  | invert {operand : List Instruction} {a r : Literal} {line : Nat} (ho : Computes operand a)
    (h : Value.invert (.literal a) = .ok r) : Computes (operand ++ [⟨.invert, .none, line⟩]) r

theorem Computes.length_pos {block : List Instruction} {l : Literal} (h : Computes block l) :
    0 < block.length := by
  cases h with
  | push l line => exact Nat.one_pos
  | binary _ _ _ | invert _ _ =>
    rw [List.length_append]
    exact Nat.succ_pos _

/-- A folded instruction may stand for a row of plain ones if the places are known that the run can go
to from there. -/
inductive StandsFor (known : Nat × Nat → Prop) :
    List Instruction × Instruction → Nat × Nat → Nat × Nat → Prop
  | computed {block : List Instruction} {l : Literal} {line a b : Nat} (h : Computes block l)
    (hn : known (a + block.length, b + 1)) :
    StandsFor known (block, Code.push l line) (a, b) (a + block.length, b + 1)
  | same {i : Instruction} {a b : Nat} (hi : i.op.isJump = false)
    (hn : i.op = .giveBack ∨ known (a + 1, b + 1)) :
    StandsFor known ([i], i) (a, b) (a + 1, b + 1)
  | jump {op : Operation} {t t' line a b : Nat} (hop : op.isJump = true) (ht : known (t, t'))
    (hn : known (a + 1, b + 1)) :
    StandsFor known ([jumpTo op t line], jumpTo op t' line) (a, b) (a + 1, b + 1)

theorem StandsFor.mono {known known' : Nat × Nat → Prop} {x : List Instruction × Instruction}
    {q q' : Nat × Nat} (h : StandsFor known x q q') (hk : ∀ p, known p → known' p) :
    StandsFor known' x q q' := by
  cases h with
  | computed h hn => exact .computed h (hk _ hn)
  | same hi hn => exact .same hi (hn.imp_right (hk _))
  | jump hop ht hn => exact .jump hop (hk _ ht) (hk _ hn)

/-- The rule by which folded instructions stand beside plain code. -/
def foldRule : Rule (List Instruction × Instruction) (Nat × Nat) where
  Fits x q q' known := StandsFor known x q q'
  mono h hk := h.mono hk

/-- The plain code of a row of items. -/
def plainCode (items : List (List Instruction × Instruction)) : List Instruction :=
  items.flatMap (·.1)

/-- The folded code of a row of items. -/
def foldedCode (items : List (List Instruction × Instruction)) : List Instruction :=
  items.map (·.2)

/-- Plain code from one address on, and folded code from another, that correspond to each other. -/
def Aligned (exits : Nat × Nat → Prop) (a b : Nat) (plain folded : List Instruction) : Prop :=
  ∃ items, plainCode items = plain ∧ foldedCode items = folded ∧
    Laid foldRule exits (a, b) items (a + plain.length, b + folded.length) []

namespace Aligned

variable {exits exits' : Nat × Nat → Prop} {a b : Nat}
  {plain plain' rest rest' folded folded' : List Instruction}

theorem nil : Aligned exits a b [] [] :=
  ⟨[], rfl, rfl, .nil _⟩

theorem append (h : Aligned exits a b plain folded)
    (h' : Aligned exits (a + plain.length) (b + folded.length) plain' folded') :
    Aligned exits a b (plain ++ plain') (folded ++ folded') := by
  obtain ⟨items, rfl, rfl, hl⟩ := h
  obtain ⟨items', rfl, rfl, hl'⟩ := h'
  refine ⟨items ++ items', List.flatMap_append, List.map_append, ?_⟩
  rw [List.length_append, List.length_append, ← Nat.add_assoc, ← Nat.add_assoc]
  exact hl.append hl'

theorem mono (h : Aligned exits a b plain folded) (he : ∀ p, exits p → exits' p) :
    Aligned exits' a b plain folded := by
  obtain ⟨items, hp, hf, hl⟩ := h
  exact ⟨items, hp, hf, hl.mono he⟩

theorem of_noExit (h : Aligned noExit a b plain folded) : Aligned exits a b plain folded :=
  h.mono fun _ ↦ False.elim

theorem single {x : List Instruction × Instruction}
    (h : StandsFor (fun p ↦ p = (a, b) ∨ p = (a + x.1.length, b + 1) ∨ exits p) x (a, b)
      (a + x.1.length, b + 1)) : Aligned exits a b x.1 [x.2] :=
  ⟨[x], List.append_nil _, rfl, .single h⟩

/-- Code that was computed ahead of the run. -/
theorem computed {block : List Instruction} {l : Literal} (h : Computes block l) (line : Nat) :
    Aligned exits a b block [Code.push l line] :=
  .single (x := (block, Code.push l line)) (.computed h (.inr (.inl rfl)))

/-- An instruction that does not jump is aligned with itself. -/
theorem one {i : Instruction} (h : i.op.isJump = false) : Aligned exits a b [i] [i] :=
  .single (x := ([i], i)) (.same h (.inr (.inr (.inl rfl))))

/-- So is all code without jumps. -/
theorem same {code : List Instruction} (h : ∀ i ∈ code, i.op.isJump = false) :
    Aligned exits a b code code := by
  induction code generalizing a b with
  | nil => exact .nil
  | cons i rest ih => exact (one (h i (.head _))).append (ih fun j hj ↦ h j (.tail _ hj))

/-- A jump that leads to the end of the code. -/
theorem jump {op : Operation} {t t' line : Nat} (hop : op.isJump = true) (ht : exits (t, t')) :
    Aligned exits a b [jumpTo op t line] [jumpTo op t' line] :=
  .single (x := ([jumpTo op t line], jumpTo op t' line)) (.jump hop (.inr (.inr ht)) (.inr (.inl rfl)))

/-- Folded code that is a push stands for code that computes the literal. -/
theorem computes {l : Literal} {line : Nat} (h : Aligned exits a b plain [Code.push l line]) :
    Computes plain l := by
  obtain ⟨items, rfl, hf, places, hroute, _⟩ := h
  obtain ⟨⟨block, i⟩, rfl, rfl⟩ := List.map_eq_singleton_iff.mp hf
  rw [plainCode, List.flatMap_singleton]
  cases hroute with
  | cons fits _ =>
    cases fits with
    | computed h _ => exact h
    | same _ _ => exact .push l line

section Constructs

variable {op op' : Operation} {t t' u u' line line' : Nat}
  {more more' : List Instruction}

/-- A jump over code leads behind it. -/
theorem skip (hop : op.isJump = true) (ht : t = a + plain.length + 1 + rest.length)
    (ht' : t' = b + folded.length + 1 + rest'.length) (h : Aligned noExit a b plain folded)
    (hr : Aligned exits (a + plain.length + 1) (b + folded.length + 1) rest rest') :
    Aligned exits a b (plain ++ jumpTo op t line :: rest) (folded ++ jumpTo op t' line :: rest') := by
  obtain ⟨items, rfl, rfl, hl⟩ := h
  obtain ⟨items', rfl, rfl, hl'⟩ := hr
  rw [← ht, ← ht'] at hl'
  refine ⟨items ++ ([jumpTo op t line], jumpTo op t' line) :: items', by simp [plainCode],
    by simp [foldedCode], ?_⟩
  have hend : (a + (plainCode items ++ jumpTo op t line :: plainCode items').length,
      b + (foldedCode items ++ jumpTo op t' line :: foldedCode items').length) = (t, t') := by
    simp [ht, ht']
    omega
  rw [hend]
  exact Laid.branch hl (.jump hop (.inr rfl) (.inl rfl)) hl'

/-- A jump over code to other code, and a jump from the end of the first over the second. -/
theorem alternative (hop : op.isJump = true) (hop' : op'.isJump = true)
    (ht : t = a + plain.length + 1 + rest.length + 1)
    (ht' : t' = b + folded.length + 1 + rest'.length + 1) (hu : u = t + more.length)
    (hu' : u' = t' + more'.length) (h : Aligned noExit a b plain folded)
    (hr : Aligned exits (a + plain.length + 1) (b + folded.length + 1) rest rest')
    (hm : Aligned exits t t' more more') :
    Aligned exits a b (plain ++ jumpTo op t line :: (rest ++ jumpTo op' u line' :: more))
      (folded ++ jumpTo op t' line :: (rest' ++ jumpTo op' u' line' :: more')) := by
  obtain ⟨items, rfl, rfl, hl⟩ := h
  obtain ⟨items', rfl, rfl, hl'⟩ := hr
  obtain ⟨items'', rfl, rfl, hl''⟩ := hm
  refine ⟨items ++ ([jumpTo op t line], jumpTo op t' line) ::
    (items' ++ ([jumpTo op' u line'], jumpTo op' u' line') :: items''), by simp [plainCode],
    by simp [foldedCode], ?_⟩
  have hend : (a + (plainCode items ++ jumpTo op t line ::
      (plainCode items' ++ jumpTo op' u line' :: plainCode items'')).length,
      b + (foldedCode items ++ jumpTo op t' line ::
      (foldedCode items' ++ jumpTo op' u' line' :: foldedCode items'')).length) = (u, u') := by
    simp [ht, ht', hu, hu']
    omega
  rw [hend]
  rw [← hu, ← hu'] at hl''
  have hback : StandsFor (fun p ↦ p = (t, t') ∨ p = (u, u'))
      ([jumpTo op' u line'], jumpTo op' u' line') (a + (plainCode items).length + 1 +
        (plainCode items').length, b + (foldedCode items).length + 1 +
        (foldedCode items').length) (t, t') := by
    subst ht ht'
    exact .jump hop' (.inr rfl) (.inl rfl)
  exact Laid.alternative hl (.jump hop (.inr rfl) (.inl rfl)) hl' hback hl''

/-- A jump over code that ends in a jump back to the beginning. -/
theorem loop (hop : op.isJump = true) (hop' : op'.isJump = true)
    (ht : t = a + plain.length + 1 + rest.length + 1)
    (ht' : t' = b + folded.length + 1 + rest'.length + 1) (h : Aligned noExit a b plain folded)
    (hr : Aligned (fun p ↦ p = (a, b) ∨ p = (t, t')) (a + plain.length + 1)
      (b + folded.length + 1) rest rest') :
    Aligned exits a b (plain ++ jumpTo op t line :: (rest ++ [jumpTo op' a line']))
      (folded ++ jumpTo op t' line :: (rest' ++ [jumpTo op' b line'])) := by
  obtain ⟨items, rfl, rfl, hl⟩ := h
  obtain ⟨items', rfl, rfl, hl'⟩ := hr
  refine ⟨items ++ ([jumpTo op t line], jumpTo op t' line) ::
    (items' ++ [([jumpTo op' a line'], jumpTo op' b line')]), by simp [plainCode],
    by simp [foldedCode], ?_⟩
  have hend : (a + (plainCode items ++ jumpTo op t line ::
      (plainCode items' ++ [jumpTo op' a line'])).length,
      b + (foldedCode items ++ jumpTo op t' line ::
      (foldedCode items' ++ [jumpTo op' b line'])).length) = (t, t') := by
    simp [ht, ht']
    omega
  rw [hend]
  have hback : StandsFor (fun p ↦ p = (t, t') ∨ p = (a, b))
      ([jumpTo op' a line'], jumpTo op' b line') (a + (plainCode items).length + 1 +
        (plainCode items').length, b + (foldedCode items).length + 1 +
        (foldedCode items').length) (t, t') := by
    subst ht ht'
    exact .jump hop' (.inr rfl) (.inl rfl)
  exact Laid.loop hl (.jump hop (.inr rfl) (.inl rfl)) hl' hback

end Constructs

end Aligned

end StackScript
