import StackScript.Proofs.Passage.Script
import StackScript.Proofs.Reading.Script
import StackScript.Session

/-!
# What compilation comes to

A text compiles and nothing is reported, or it does not and every fault of it is (`compile_outcome`).
Nothing else comes of it: no jump is left without a target that would make for a fault of its own, and
there is a first report whenever there is a failure.
-/

namespace StackScript

namespace Diagnostics

variable {d : Diagnostics}

/-- No fault was found. -/
structure Clean (d : Diagnostics) : Prop where
  failed : d.failed = false
  emitted : d.emitted = []
  pending : d.pending = []

/-- Faults of a text were found, and all of them have been given out. -/
structure Reported (d : Diagnostics) : Prop where
  failed : d.failed = true
  emitted : d.emitted ≠ []
  pending : d.pending = []
  stages : ∀ r ∈ d.emitted, r.fault.stage = .lexical ∨ r.fault.stage = .syntactic ∨
    r.fault.stage = .constantFolding

namespace Kept

/-- The end of the source releases every report. -/
theorem pending_finish (h : d.Kept) : d.finish.pending = [] :=
  h.finish.finished d.finished_finish

theorem clean_finish (h : d.Kept) (hf : d.finish.failed = false) : d.finish.Clean := by
  have hnone : d.finish.emitted ++ d.finish.pending = [] :=
    not_not.mp fun hne ↦ Bool.false_ne_true (hf.symm.trans (h.finish.failed_iff.mpr hne))
  exact ⟨hf, (List.append_eq_nil_iff.mp hnone).1, h.pending_finish⟩

theorem reported_finish (h : d.Kept) (hf : d.finish.failed = true) : d.finish.Reported := by
  have hemitted := h.finish.failed_iff.mp hf
  rw [h.pending_finish, List.append_nil] at hemitted
  refine ⟨hf, hemitted, h.pending_finish, fun r hr ↦ ?_⟩
  have hstage := h.finish.stage_ne r (List.mem_append_left _ hr)
  revert hstage
  cases r.fault.stage <;> simp

end Kept

end Diagnostics

/-- The diagnostics of a text are kept until its end. -/
theorem exists_kept_read (source : String) :
    ∃ d : Diagnostics, d.Kept ∧ (read source).diagnostics = d.finish := by
  obtain ⟨s, r, hrun, hready, -⟩ := Reading.ends_script source
  refine ⟨r.diagnostics, hready.kept, ?_⟩
  rw [read, (readWith_eq true source).2, hrun]

/-- Nothing was found in a text that compiles. -/
theorem clean_of_compile {source : String} {c : Compiled} (h : compile source = .ok c) :
    c.diagnostics.Clean := by
  obtain ⟨d, hkept, hread⟩ := exists_kept_read source
  rw [compile, compileWith, Reading.Result.compile_eq, ← read, hread] at h
  split at h
  · cases h
  · rename_i hfailed
    rw [← Except.ok.inj h]
    exact hkept.clean_finish (Bool.eq_false_iff.mpr hfailed)

/-- A text compiles to the program of its script and nothing is reported, or it does not compile, every
fault that was found in reading it is reported, and the first of them is what running it comes to. -/
theorem compile_outcome (source : String) :
    (∃ c, compile source = .ok c ∧ c.diagnostics.Clean ∧
      c.program = (read source).script.program true ∧ c.program.unresolved? = none) ∨
    ∃ d, compile source = .error d ∧ d.Reported ∧ d = (read source).diagnostics ∧
      ∃ report, d.emitted.head? = some report ∧ ∀ fuel name args world,
        run fuel source name args world = some (.error report, world) := by
  obtain ⟨d, hkept, hread⟩ := exists_kept_read source
  have hcompile : compile source = if (read source).diagnostics.failed
      then .error (read source).diagnostics
      else .ok ⟨(read source).script.program true, (read source).diagnostics⟩ := by
    rw [compile, compileWith, Reading.Result.compile_eq, read]
  rcases hfailed : (read source).diagnostics.failed
  · rw [hfailed] at hcompile
    have hclean := hkept.clean_finish (hread ▸ hfailed)
    exact .inl ⟨_, hcompile, hread ▸ hclean, rfl, Script.unresolved?_program _ _⟩
  · rw [hfailed] at hcompile
    have hreported := hkept.reported_finish (hread ▸ hfailed)
    rw [← hread] at hreported
    obtain ⟨report, rest, hemitted⟩ := List.exists_cons_of_ne_nil hreported.emitted
    have hcompile : compile source = .error (read source).diagnostics := hcompile
    refine .inr ⟨_, hcompile, hreported, rfl, report, by rw [hemitted]; rfl,
      fun fuel name args world ↦ ?_⟩
    unfold run
    rw [hcompile]
    dsimp only
    rw [hemitted]
    rfl

end StackScript
