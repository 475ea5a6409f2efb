import StackScript.Proofs.Layout.Route
import StackScript.Proofs.Machine.Operator

/-!
# Shapes of the stack

What the code of a function may rely on at an address is the *shape* of the stack there: how many
values stand above the base of the frame, and where the windows begin that the frame has opened.

`Instruction.Effect` tells how an instruction changes the shape, provided that the values, slots and
windows are there that it needs. `Instruction.Stands` says that an instruction may stand between two
places, which are addresses with shapes: wherever the run goes from it, the place is known.

`Shaped` is a row of instructions laid out by this rule from a given address on.
-/

namespace StackScript

/-- The shape of the stack above the base of a frame. -/
structure Shape where
  height : Nat
  /-- The starts of the open windows, counted from the base, innermost first. -/
  marks : List Nat
  deriving DecidableEq

/-- The shape of a frame that holds nothing but locals. -/
def Shape.locals (count : Nat) : Shape := ⟨count, []⟩

namespace Instruction

/-- How an instruction that goes on at the next one changes the shape of the stack. -/
inductive Effect (i : Instruction) : Shape → Shape → Prop
  | operands {h n : Nat} {marks : List Nat} (hi : i.op.operands? = some n) :
    Effect i ⟨h + n, marks⟩ ⟨h + 1, marks⟩
  | window {h n k : Nat} {marks : List Nat} (hi : i.op.receivers? = some n) :
    Effect i ⟨h + n + k, (h + n) :: marks⟩ ⟨h + 1, marks⟩
  | pop {h : Nat} {marks : List Nat} (hi : i.op = .pop) : Effect i ⟨h + i.count, marks⟩ ⟨h, marks⟩
  | dup {h : Nat} {marks : List Nat} (hi : i.op = .dup) :
    Effect i ⟨h + i.count, marks⟩ ⟨h + i.count + i.count, marks⟩
  | pushLocal {h : Nat} {marks : List Nat} (hi : i.op = .pushLocal) (hs : i.count < h) :
    Effect i ⟨h, marks⟩ ⟨h + 1, marks⟩
  | setLocal {h : Nat} {marks : List Nat} (hi : i.op = .setLocal) (hs : i.count < h + 1) :
    Effect i ⟨h + 1, marks⟩ ⟨h + 1, marks⟩
  | keep {h : Nat} {marks : List Nat} (hi : i.op = .setGlobal ∨ i.op = .setStaticField) :
    Effect i ⟨h + 1, marks⟩ ⟨h + 1, marks⟩
  | openWindow {h : Nat} {marks : List Nat} (hi : i.op = .openWindow) :
    Effect i ⟨h, marks⟩ ⟨h, h :: marks⟩

/-- An instruction may stand between two places if all places are known that the run can go to. -/
inductive Stands (i : Instruction) (known : Nat × Shape → Prop) : Nat × Shape → Nat × Shape → Prop
  | perform {a : Nat} {sh sh' : Shape} (he : i.Effect sh sh') (hp : i.Proper)
    (hn : known (a + 1, sh')) : Stands i known (a, sh) (a + 1, sh')
  | jump {a : Nat} {sh sh' : Shape} (hi : i.op = .jump) (ht : known (i.count, sh)) :
    Stands i known (a, sh) (a + 1, sh')
  | branch {a h : Nat} {marks : List Nat} (hi : i.op = .jumpIfFalse ∨ i.op = .jumpIfTrue)
    (ht : known (i.count, ⟨h, marks⟩)) (hn : known (a + 1, ⟨h, marks⟩)) :
    Stands i known (a, ⟨h + 1, marks⟩) (a + 1, ⟨h, marks⟩)
  | call {a h k : Nat} {marks : List Nat} (hi : i.op = .call)
    (hn : known (a + 1, ⟨h + 1, marks⟩)) :
    Stands i known (a, ⟨h + k, h :: marks⟩) (a + 1, ⟨h + 1, marks⟩)
  | giveBack {a h : Nat} {sh' : Shape} (hi : i.op = .giveBack) :
    Stands i known (a, .locals (h + 1)) (a + 1, sh')

theorem Stands.mono {i : Instruction} {known known' : Nat × Shape → Prop} {q q' : Nat × Shape}
    (h : i.Stands known q q') (hk : ∀ p, known p → known' p) : i.Stands known' q q' := by
  cases h with
  | perform he hp hn => exact .perform he hp (hk _ hn)
  | jump hi ht => exact .jump hi (hk _ ht)
  | branch hi ht hn => exact .branch hi (hk _ ht) (hk _ hn)
  | call hi hn => exact .call hi (hk _ hn)
  | giveBack hi => exact .giveBack hi

theorem Stands.address_eq {i : Instruction} {known : Nat × Shape → Prop} {q q' : Nat × Shape}
    (h : i.Stands known q q') : q'.1 = q.1 + 1 := by
  cases h <;> rfl

/-- Slots are below the height of the stack. -/
theorem Stands.slot_lt {i : Instruction} {known : Nat × Shape → Prop} {q q' : Nat × Shape}
    (h : i.Stands known q q') (hi : i.op = .pushLocal ∨ i.op = .setLocal) :
    i.count < q.2.height := by
  cases h with
  | perform he _ _ =>
    cases he with
    | pushLocal _ hs => exact hs
    | setLocal _ hs => exact hs
    | operands h | window h | pop h | dup h | keep h | openWindow h =>
      rcases hi with hi | hi <;> rw [hi] at h <;> revert h <;> simp [Operation.operands?,
        Operation.receivers?]
  | jump h _ | branch h _ _ | call h _ | giveBack h =>
    rcases hi with hi | hi <;> rw [hi] at h <;> simp at h

end Instruction

/-- The rule by which instructions stand between places. -/
def shapeRule : Rule Instruction (Nat × Shape) where
  Fits i q q' known := i.Stands known q q'
  mono h hk := h.mono hk

/-- Instructions laid out from an address on, with the shapes of the stack before and after them. -/
def Shaped (exits : Nat × Shape → Prop) (start : Nat) (sh : Shape) (code : List Instruction)
    (sh' : Shape) (sites : List (Nat × Shape)) : Prop :=
  Laid shapeRule exits (start, sh) code (start + code.length, sh') sites

namespace Shaped

variable {exits exits' : Nat × Shape → Prop} {start : Nat} {sh sh' sh'' : Shape}
  {code code' : List Instruction} {sites sites' : List (Nat × Shape)} {i : Instruction}

theorem nil : Shaped exits start sh [] sh [] :=
  Laid.nil _

theorem append (h : Shaped exits start sh code sh' sites)
    (h' : Shaped exits (start + code.length) sh' code' sh'' sites') :
    Shaped exits start sh (code ++ code') sh'' (sites ++ sites') := by
  unfold Shaped
  rw [List.length_append, ← Nat.add_assoc]
  exact Laid.append h h'

theorem cons (h : Shaped exits start sh [i] sh' [])
    (h' : Shaped exits (start + 1) sh' code sh'' sites) :
    Shaped exits start sh (i :: code) sh'' sites :=
  append h h'

theorem snoc (h : Shaped exits start sh code sh' sites)
    (h' : Shaped exits (start + code.length) sh' code' sh'' []) :
    Shaped exits start sh (code ++ code') sh'' sites := by
  have := append h h'
  rwa [List.append_nil] at this

theorem mono (h : Shaped exits start sh code sh' sites) (he : ∀ p, exits p → exits' p) :
    Shaped exits' start sh code sh' sites :=
  Laid.mono h he

theorem site (h : Shaped exits start sh code sh' sites) :
    Shaped exits start sh code sh' ((start, sh) :: sites) :=
  Laid.site h

theorem perform (he : i.Effect sh sh') (hp : i.Proper) : Shaped exits start sh [i] sh' [] :=
  Laid.single (.perform he hp (.inr (.inl rfl)))

theorem jump (hi : i.op = .jump) (ht : exits (i.count, sh)) : Shaped exits start sh [i] sh' [] :=
  Laid.single (.jump hi (.inr (.inr ht)))

/-- A conditional jump over code leads behind it. -/
theorem skip {h : Nat} {marks : List Nat} (hi : i.op = .jumpIfFalse ∨ i.op = .jumpIfTrue)
    (hc : i.count = start + code.length + 1 + code'.length)
    (ht : Shaped noExit start sh code ⟨h + 1, marks⟩ [])
    (hb : Shaped exits (start + code.length + 1) ⟨h, marks⟩ code' ⟨h, marks⟩ sites) :
    Shaped exits start sh (code ++ i :: code') ⟨h, marks⟩ sites := by
  have hend : start + (code ++ i :: code').length = start + code.length + 1 + code'.length := by
    simp
    omega
  unfold Shaped
  rw [hend]
  refine Laid.branch ht (.branch hi (.inr ?_) (.inl rfl)) hb
  rw [hc]

theorem call {h k : Nat} {marks : List Nat} (hi : i.op = .call) :
    Shaped exits start ⟨h + k, h :: marks⟩ [i] ⟨h + 1, marks⟩ [] :=
  Laid.single (.call hi (.inr (.inl rfl)))

theorem giveBack {h : Nat} (hi : i.op = .giveBack) :
    Shaped exits start (.locals (h + 1)) [i] sh' [] :=
  Laid.single (.giveBack hi)

end Shaped

end StackScript
