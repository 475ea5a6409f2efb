import StackScript.Proofs.Layout.Code

/-!
# The layout of programs

A program is the code of the initialisers, with the end of a function behind it, and then the code of
one function after the other. Every function has its entry where its code begins. No jump in a program
waits for its target (`Script.unresolved?_program`), as functions stand outside of loops.
-/

namespace StackScript

open Code

/-! ### Settled programs -/

@[simp]
theorem settled_epilogue (line : Nat) : Settled (epilogue line) := by
  simp [epilogue, push]

theorem settled_globalsCode (folding : Bool) (start : Nat) (globals : List GlobalDecl) :
    Settled (globalsCode folding start globals) := by
  induction globals generalizing start with
  | nil => exact settled_nil
  | cons g rest ih => simp [globalsCode, g.value.settled, ih]

theorem FunctionDecl.settled (folding : Bool) (start : Nat) (f : FunctionDecl) :
    Settled (f.code folding start) :=
  settled_append.mpr ⟨settled_block (settled_body _ _ _ _), settled_epilogue _⟩

theorem settled_functionsCode (folding : Bool) (start : Nat) (functions : List FunctionDecl) :
    Settled (functionsCode folding start functions).2 := by
  induction functions generalizing start with
  | nil => exact settled_nil
  | cons f rest ih => exact settled_append.mpr ⟨f.settled _ _, ih _⟩

/-- No jump in a program waits for its target. -/
theorem Script.settled_program (folding : Bool) (s : Script) :
    Settled (s.program folding).code.toList := by
  simp [Script.program, settled_globalsCode, settled_functionsCode]

theorem Script.unresolved?_program (folding : Bool) (s : Script) :
    (s.program folding).unresolved? = none := by
  rw [Program.unresolved?, List.findIdx?_eq_none_iff]
  intro i hi
  simp [s.settled_program folding i hi]

end StackScript
