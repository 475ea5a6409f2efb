import StackScript.Proofs.Acceptance.Script
import StackScript.Proofs.Reading.Script

/-!
# The language

The texts that compile are those that have no lexical fault and are written as a lawful script
(`exists_compile_iff`). There is only one such script, and its program is what the text compiles to
(`program_of_derives`), so the grammar leaves no choice (`Script.Derives.unique`).
-/

namespace StackScript

open Reading

variable {source : String}

/-- A text that compiles has no lexical fault and is written as a lawful script. -/
theorem exists_derives_of_compile {c : Compiled} (h : compile source = .ok c) :
    (∀ p ∈ Scanned.scan source, p.faults = []) ∧
      ∃ s : Script, s.Derives (Scanned.tokens (Scanned.scan source)) ∧ s.Lawful := by
  obtain ⟨s, r, hrun, hready, hstanding, hclean⟩ := ends_script source
  have hfailed : r.diagnostics.failed = false := by
    have hfailed := (program_of_compile h).1
    rwa [(readWith_eq true source).2, hrun, Diagnostics.failed_finish] at hfailed
  -- Every piece of the text has been passed, and was without fault.
  obtain ⟨-, hupcoming, -⟩ := hready.at_end hstanding
  refine ⟨fun p hp ↦ ?_, s, hclean hfailed⟩
  rcases hready.noted hfailed p hp with hfaults | hmem
  · exact hfaults
  · rw [hupcoming] at hmem
    cases hmem

/-- A text without lexical faults that is written as a lawful script compiles. -/
theorem exists_compile_of_derives {s : Script}
    (hfaultless : ∀ p ∈ Scanned.scan source, p.faults = [])
    (hd : s.Derives (Scanned.tokens (Scanned.scan source))) (hl : s.Lawful) :
    ∃ c, compile source = .ok c := by
  obtain ⟨r, hrun, hfailed⟩ := exists_script hfaultless hd hl
  refine exists_compile rfl ?_
  rw [read, (readWith_eq true source).2, hrun, Diagnostics.failed_finish]
  exact hfailed

/-- A text compiles if and only if it has no lexical fault, its tokens are those of a script, and the
script is lawful. -/
theorem exists_compile_iff (source : String) : (∃ c, compile source = .ok c) ↔
    (∀ p ∈ Scanned.scan source, p.faults = []) ∧
      ∃ s : Script, s.Derives (Scanned.tokens (Scanned.scan source)) ∧ s.Lawful :=
  ⟨fun ⟨_, h⟩ ↦ exists_derives_of_compile h,
    fun ⟨hfaultless, _, hd, hl⟩ ↦ exists_compile_of_derives hfaultless hd hl⟩

/-- A text that compiles is compiled to the program of any lawful script that it is written as. -/
theorem program_of_derives {c : Compiled} {s : Script} (h : compile source = .ok c)
    (hd : s.Derives (Scanned.tokens (Scanned.scan source))) (hl : s.Lawful) :
    c.program = s.program true := by
  obtain ⟨r, hrun, -⟩ := exists_script (exists_derives_of_compile h).1 hd hl
  rw [(program_of_compile h).2, (readWith_eq true source).1, hrun]

/-- No text without lexical faults is written as two lawful scripts. -/
theorem Script.Derives.unique {s s' : Script} (hfaultless : ∀ p ∈ Scanned.scan source, p.faults = [])
    (hd : s.Derives (Scanned.tokens (Scanned.scan source))) (hl : s.Lawful)
    (hd' : s'.Derives (Scanned.tokens (Scanned.scan source))) (hl' : s'.Lawful) : s = s' := by
  obtain ⟨r, hrun, -⟩ := exists_script hfaultless hd hl
  obtain ⟨r', hrun', -⟩ := exists_script hfaultless hd' hl'
  exact congrArg Prod.fst (hrun.symm.trans hrun')

end StackScript
