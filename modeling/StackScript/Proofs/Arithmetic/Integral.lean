import Mathlib.Data.List.Induction
import StackScript.Proofs.Grammar.Expression
import StackScript.Proofs.Layout.Code

/-!
# Integer expressions

Sums, differences, products and signs over integer literals and parameters. Such an expression has an exact
value (`Expr.exact`), which need not fit into 32 bits. No operator in it can fail, so it is sound; and its
code, whichever of its operators have been computed ahead of the run, pushes literals, pushes parameters and
computes, and *reckons* the exact value modulo `2 ^ 32` (`Expr.Integral.reckons`).
-/

namespace StackScript

/-! ### Exact values -/

/-- What an operator makes of two integers, without rounding or wrapping. Other operators than the three of
integer expressions have no such result. -/
def Infix.exact : Infix → ℤ → ℤ → ℤ
  | .add => (· + ·)
  | .sub => (· - ·)
  | .mul => (· * ·)
  | _ => fun _ _ ↦ 0

/-- The expressions made of sums, differences, products and signs over integer literals and parameters. -/
inductive Expr.Integral (params : List String) : Expr → Prop
  | literal (n : Int32) (line : Nat) : Integral params (.literal (.int n) line)
  | parameter {name : String} (h : name ∈ params) (line : Nat) :
    Integral params (.read (.variable name) line)
  | negate {operand : Expr} (h : Integral params operand) (signLine line : Nat) :
    Integral params (.negate operand signLine line)
  | binary {op : Infix} {left right : Expr} (hop : op = .add ∨ op = .sub ∨ op = .mul)
    (hl : Integral params left) (hr : Integral params right) (line : Nat) :
    Integral params (.binary op left right line)

/-- The exact value of an integer expression, from those of the parameters. -/
def Expr.exact (given : String → ℤ) : Expr → ℤ
  | .literal (.int n) _ => n.toInt
  | .read (.variable name) _ => given name
  | .negate operand _ _ => -operand.exact given
  | .binary op left right _ => op.exact (left.exact given) (right.exact given)
  | _ => 0

/-- The value that a parameter is given: the argument in its place. -/
def givenTo (params : List String) (args : List Int32) (name : String) : ℤ :=
  (args[params.idxOf name]?.getD 0).toInt

/-- Operators on integers compute modulo `2 ^ 32`. -/
theorem Infix.apply_ofInt {op : Infix} (hop : op = .add ∨ op = .sub ∨ op = .mul) (a b : ℤ) :
    op.base.apply (.int (.ofInt a)) (.int (.ofInt b)) = .ok (.int (.ofInt (op.exact a b))) := by
  rcases hop with rfl | rfl | rfl
  · exact congrArg (fun n ↦ Except.ok (Literal.int n)) (Int32.ofInt_add a b).symm
  · exact congrArg (fun n ↦ Except.ok (Literal.int n)) (Int32.ofInt_sub a b).symm
  · exact congrArg (fun n ↦ Except.ok (Literal.int n)) (Int32.ofInt_mul a b).symm

/-- A sign is a difference from zero. -/
theorem apply_sub_zero (a : ℤ) :
    BinaryOp.sub.apply (.int 0) (.int (.ofInt a)) = .ok (.int (.ofInt (-a))) := by
  have hsub := Infix.apply_ofInt (.inr (.inl rfl) : Infix.sub = .add ∨ _ ∨ _) 0 a
  rw [show Infix.exact .sub 0 a = -a from Int.zero_sub a] at hsub
  exact hsub

namespace Expr.Integral

variable {params : List String} {e : Expr}

/-! ### Soundness -/

/-- A constant integer expression evaluates to an integer. -/
theorem constant?_eq (h : e.Integral params) {r : Except Fault Literal} (hr : e.constant? = some r) :
    ∃ n, r = .ok (.int n) := by
  induction h generalizing r with
  | literal n => exact ⟨n, (Option.some.inj hr).symm⟩
  | parameter => cases hr
  | negate _ _ _ ih =>
    obtain ⟨x, hx, rfl⟩ := Option.map_eq_some_iff.mp hr
    obtain ⟨n, rfl⟩ := ih hx
    exact ⟨_, rfl⟩
  | @binary op left right hop _ _ _ ihl ihr =>
    rw [constant?] at hr
    split at hr
    · rename_i x y hx hy
      obtain ⟨m, rfl⟩ := ihl hx
      obtain ⟨n, rfl⟩ := ihr hy
      obtain rfl := Option.some.inj hr
      rcases hop with rfl | rfl | rfl <;> exact ⟨_, rfl⟩
    · cases hr

theorem not_fails (h : e.Integral params) : ¬ e.Fails := by
  rintro ⟨fault, hfault⟩
  obtain ⟨n, hn⟩ := h.constant?_eq hfault
  cases hn

theorem sound (h : e.Integral params) : e.Sound := by
  induction h with
  | literal | parameter => trivial
  | negate h signLine line ih => exact ⟨ih, (negate h signLine line).not_fails⟩
  | binary hop hl hr line ihl ihr => exact ⟨ihl, ihr, (binary hop hl hr line).not_fails⟩

end Expr.Integral

/-! ### Code -/

/-- Code that pushes integer literals and locals and computes with them. It comes to an integer, with the given
locals. -/
inductive Code.Reckons (locals : List Int32) : List Instruction → Int32 → Prop
  | push (n : Int32) (line : Nat) : Reckons locals [Code.push (.int n) line] n
  | pushLocal {slot : Nat} {n : Int32} (h : locals[slot]? = some n) (line : Nat) :
    Reckons locals [⟨.pushLocal, .slot slot, line⟩] n
  | operate {left right : List Instruction} {m n r : Int32} {op : BinaryOp} (hl : Reckons locals left m)
    (hr : Reckons locals right n) (h : op.apply (.int m) (.int n) = .ok (.int r)) (line : Nat) :
    Reckons locals (left ++ right ++ [⟨.binary op, .none, line⟩]) r

namespace Code.Reckons

variable {locals : List Int32} {code left right : List Instruction} {m n r : Int32} {op : BinaryOp}

theorem length_pos (h : Reckons locals code n) : 0 < code.length := by
  cases h with
  | push | pushLocal => exact Nat.one_pos
  | operate =>
    rw [List.length_append]
    exact Nat.succ_pos _

/-- If the code does nothing but push a literal, it is the integer that the code comes to. -/
theorem literal?_eq (h : Reckons locals code n) {l : Literal} (hl : Code.literal? code = some l) :
    l = .int n := by
  cases h with
  | push => exact (Option.some.inj hl).symm
  | pushLocal => cases hl
  | @operate left right _ _ _ _ hleft hright =>
    -- such code has three instructions or more
    obtain ⟨i, is, rfl⟩ := List.exists_cons_of_length_pos hleft.length_pos
    obtain ⟨j, js, rfl⟩ := List.exists_cons_of_length_pos hright.length_pos
    unfold Code.literal? at hl
    split at hl
    · rename_i heq
      simp at heq
    · cases hl

/-- An operator behind the code of its operands comes to its result, be it computed ahead of the run or not. -/
theorem binary (hl : Reckons locals left m) (hr : Reckons locals right n)
    (h : op.apply (.int m) (.int n) = .ok (.int r)) (folding : Bool) (line : Nat) :
    Reckons locals (Code.binary folding op line left right) r := by
  have hplain := operate hl hr h line
  unfold Code.binary
  dsimp only
  split
  · split
    · rename_i x y hx hy
      rw [hl.literal?_eq hx, hr.literal?_eq hy]
      have happly : op.apply (.literal (.int m)) (.literal (.int n)) = .ok (.int r) := h
      rw [happly]
      exact .push r line
    · exact hplain
  · exact hplain

end Code.Reckons

/-- The slot of a parameter is its place. -/
theorem slot?_reverse {params : List String} (hnodup : params.Nodup) {name : String} (h : name ∈ params) :
    slot? name params.reverse = some (params.idxOf name) := by
  induction params using List.reverseRecOn with
  | nil => cases h
  | append_singleton params own ih =>
    obtain ⟨hparams, -, hdisjoint⟩ := List.nodup_append.mp hnodup
    rw [List.reverse_append, List.reverse_singleton, List.singleton_append, slot?]
    by_cases heq : own = name
    · have hnot : name ∉ params := fun hmem ↦ hdisjoint _ hmem _ (List.mem_singleton_self own) heq.symm
      rw [if_pos heq, List.idxOf_append, if_neg hnot, heq]
      simp
    · have hmem : name ∈ params := by
        rcases List.mem_append.mp h with hmem | hmem
        · exact hmem
        · exact absurd (List.mem_singleton.mp hmem).symm heq
      rw [if_neg heq, List.idxOf_append, if_pos hmem]
      exact ih hparams hmem

/-- The code of an integer expression comes to the exact value modulo `2 ^ 32`. -/
theorem Expr.Integral.reckons {params : List String} {e : Expr} (h : e.Integral params)
    (hnodup : params.Nodup) {args : List Int32} (hlength : args.length = params.length) (folding : Bool)
    (start : Nat) :
    Code.Reckons args (e.code folding params.reverse start) (.ofInt (e.exact (givenTo params args))) := by
  induction h generalizing start with
  | literal n line =>
    rw [Expr.code, Expr.exact, Int32.ofInt_toInt]
    exact .push n line
  | @parameter name hmem line =>
    have hslot := slot?_reverse hnodup hmem
    have hlt : params.idxOf name < args.length := hlength ▸ List.idxOf_lt_length_of_mem hmem
    rw [Expr.code, Place.access_local hslot, Expr.exact, givenTo, List.getElem?_eq_getElem hlt,
      Option.getD_some, Int32.ofInt_toInt]
    exact .pushLocal (List.getElem?_eq_getElem hlt) line
  | negate _ signLine line ih =>
    exact .binary (.push 0 signLine) (ih (start + 1)) (apply_sub_zero _) folding line
  | @binary op left right hop _ _ line ihl ihr =>
    have hcode := Code.Reckons.binary (ihl start)
      (ihr (start + (left.code folding params.reverse start).length)) (op.apply_ofInt hop _ _) folding line
    rw [Expr.code]
    rcases hop with rfl | rfl | rfl <;> exact hcode

end StackScript
