import StackScript.Proofs.Passage.Script
import StackScript.Proofs.Reading.Invariant
import StackScript.Proofs.Reading.Script
import StackScript.Proofs.Source.Lines
import StackScript.Proofs.Source.Placement

/-!
# Diagnostics follow the reader

The diagnostics are fed what the reader has read of a text, and every fault is raised at a position in
the text, be it by the scanner or by the reader (`Reader.Follows`). As a reader comes to the end of every
text, its diagnostics have then been fed all of it (`follows_read`), and so have those that compilation
gives out (`follows_compile`).
-/

namespace StackScript

namespace Diagnostics

variable {source read : List Char} {ended : Bool} {d : Diagnostics}

/-- Diagnostics that have been fed a part of a source, and to which faults were raised at positions in the
source only. They know whether the source has ended. -/
def Follows (source read : List Char) (ended : Bool) (d : Diagnostics) : Prop :=
  ∃ acts, d = after acts ∧ (.finish ∈ acts ↔ ended = true) ∧
    Diagnostics.source acts = Text.withoutReturns read ∧
    ∀ r ∈ raised acts, ∃ span, r.span = some span ∧ span.IsIn source

theorem follows_empty (source : List Char) : empty.Follows source [] false :=
  ⟨[], rfl, by simp, rfl, fun _ h ↦ nomatch h⟩

namespace Follows

theorem feed (h : d.Follows source read false) (c : Char) :
    (d.feed c).Follows source (read ++ [c]) false := by
  obtain ⟨acts, rfl, hended, hread, hraised⟩ := h
  have hopen : .finish ∉ acts := fun hmem ↦ Bool.false_ne_true (hended.mp hmem)
  refine ⟨_, (after_append acts (.feed c)).symm, ?_, ?_, ?_⟩
  · exact finish_mem_append.trans ((or_iff_left fun h ↦ nomatch h).trans hended)
  · rw [source_append_of_not_mem hopen, hread, Text.withoutReturns_append]
    by_cases hc : c = '\r' <;> simp [Act.fed?, Text.withoutReturns, hc]
  · rw [raised_append]
    exact (List.append_nil (Diagnostics.raised acts)).symm ▸ hraised

theorem feedAll (h : d.Follows source read false) (text : List Char) :
    (d.feedAll text).Follows source (read ++ text) false := by
  induction text generalizing d read with
  | nil => rwa [List.append_nil]
  | cons c text ih =>
    rw [← List.singleton_append, ← List.append_assoc]
    exact ih (h.feed c)

theorem raise (h : d.Follows source read ended) (fault : Fault) {span : Span}
    (hspan : span.IsIn source) : (d.raise fault span).Follows source read ended := by
  obtain ⟨acts, rfl, hended, hread, hraised⟩ := h
  have hline := hspan.one_le_line
  refine ⟨_, (after_append acts (.raise fault span hline)).symm, ?_, ?_, ?_⟩
  · exact finish_mem_append.trans ((or_iff_left fun h ↦ nomatch h).trans hended)
  · exact (source_append_of_none rfl).trans hread
  · rw [raised_append]
    intro r hr
    rcases List.mem_append.mp hr with hr | hr
    · exact hraised r hr
    · exact List.mem_singleton.mp hr ▸ ⟨span, rfl, hspan⟩

theorem raiseAll (h : d.Follows source read ended) {faults : List (Fault × Span)}
    (hfaults : ∀ f ∈ faults, f.2.IsIn source) : (d.raiseAll faults).Follows source read ended := by
  induction faults generalizing d with
  | nil => exact h
  | cons f rest ih =>
    obtain ⟨hf, hrest⟩ := List.forall_mem_cons.mp hfaults
    exact ih (h.raise f.1 hf) hrest

theorem finish (h : d.Follows source read ended) : d.finish.Follows source read true := by
  obtain ⟨acts, rfl, -, hread, hraised⟩ := h
  refine ⟨_, (after_append acts .finish).symm, ?_, ?_, ?_⟩
  · exact iff_of_true (finish_mem_append.mpr (.inr rfl)) rfl
  · exact (source_append_of_none rfl).trans hread
  · rw [raised_append]
    exact (List.append_nil (Diagnostics.raised acts)).symm ▸ hraised

/-- A scanned piece is read, its faults are raised, and the end of input ends the source. -/
theorem absorb (h : d.Follows source read false) {s : Scanned} (hs : s.IsIn source) :
    (d.absorb s).Follows source (read ++ (s.gap ++ s.token.lexeme.toList))
      (s.token.kind = .endOfInput) := by
  have htold : (d.told s).Follows source (read ++ (s.gap ++ s.token.lexeme.toList)) false := by
    rw [← List.append_assoc]
    exact ((h.feedAll s.gap).feedAll s.token.lexeme.toList).raiseAll hs.faults
  rw [absorb_eq]
  by_cases hend : s.token.kind = .endOfInput
  · rw [if_pos hend, decide_eq_true hend]
    exact htold.finish
  · rw [if_neg hend, decide_eq_false hend]
    exact htold

end Follows

end Diagnostics

namespace Scanned

/-- What is left of pieces that end is nothing, or it ends. -/
def Left (source : String) (done upcoming : List Scanned) : Prop :=
  scan source = done ++ upcoming ∧ (upcoming = [] ∨ Ended upcoming)

theorem Left.next {source : String} {done rest : List Scanned} {s : Scanned}
    (h : Left source done (s :: rest)) :
    Left source (done ++ [s]) rest ∧ (rest.isEmpty = decide (s.token.kind = .endOfInput)) := by
  obtain ⟨hscan, hended⟩ := h
  replace hended := hended.resolve_left (List.cons_ne_nil _ _)
  have hscan : scan source = (done ++ [s]) ++ rest := by rw [hscan, List.append_assoc]; rfl
  by_cases hend : s.token.kind = .endOfInput
  · obtain rfl := hended.eq_nil hend
    exact ⟨⟨hscan, .inl rfl⟩, (decide_eq_true hend).symm⟩
  · refine ⟨⟨hscan, .inr (hended.cons hend)⟩, ?_⟩
    cases rest with
    | nil => exact (hended.cons hend).elim
    | cons => exact (decide_eq_false hend).symm

end Scanned

/-- The diagnostics have been fed what the reader has read, the source ends with the last piece, and all
positions at hand are in the text. -/
structure Reader.Follows (source : String) (r : Reader) : Prop where
  current : r.current.span.IsIn source.toList
  previous : r.previous.span.IsIn source.toList
  diagnostics : ∃ done, Scanned.Left source done r.upcoming ∧
    r.diagnostics.Follows source.toList (Scanned.text done) r.upcoming.isEmpty

namespace Reading

/-- Skimming feeds the diagnostics what it passes over. -/
theorem follows_skim {source : String} {d : Diagnostics} {done upcoming : List Scanned}
    (hleft : Scanned.Left source done upcoming)
    (h : d.Follows source.toList (Scanned.text done) upcoming.isEmpty) :
    (∀ t, (skim d upcoming).1 = some t → t.span.IsIn source.toList) ∧
      ∃ done', Scanned.Left source done' (skim d upcoming).2.1 ∧ (skim d upcoming).2.2.Follows
        source.toList (Scanned.text done') (skim d upcoming).2.1.isEmpty := by
  induction upcoming generalizing d done with
  | nil => exact ⟨fun _ ht ↦ (nomatch ht), done, hleft, h⟩
  | cons s rest ih =>
    have hs := Scanned.isIn_scan source s (hleft.1 ▸ List.mem_append_right _ (.head _))
    obtain ⟨hnext, hempty⟩ := hleft.next
    have habsorb := h.absorb hs
    have htext : Scanned.text done ++ (s.gap ++ s.token.lexeme.toList) = Scanned.text (done ++ [s]) := by
      rw [Scanned.text, Scanned.text, List.flatMap_append, List.flatMap_singleton]
    rw [htext, ← hempty] at habsorb
    rw [skim]
    split
    · exact ih hnext habsorb
    · exact ⟨fun t ht ↦ Option.some.inj ht ▸ hs.token, _, hnext, habsorb⟩

end Reading

namespace Reader

variable {source : String}

/-- A reader goes on to be followed, whatever it reads and whatever faults it raises. -/
theorem invariant_follows (source : String) :
    Invariant (Follows source) (Span.IsIn · source.toList) where
  advance r h := by
    obtain ⟨done, hleft, hd⟩ := h.diagnostics
    obtain ⟨htoken, hrest⟩ := Reading.follows_skim hleft hd
    rw [Reading.run_advance]
    refine ⟨?_, h.current, hrest⟩
    rcases hskim : (Reading.skim r.diagnostics r.upcoming).1 with _ | t
    · exact h.current
    · exact htoken t hskim
  raise r fault span h hspan := by
    obtain ⟨done, hleft, hd⟩ := h.diagnostics
    exact ⟨h.current, h.previous, done, hleft, hd.raise fault hspan⟩
  aside r _ _ _ _ _ _ _ _ _ h := ⟨h.current, h.previous, h.diagnostics⟩
  current r h := h.current
  previous r h := h.previous

theorem follows_ofSource (folding : Bool) (source : String) :
    (Reader.ofSource folding source).Follows source := by
  have hended := Scanned.ended_scan source
  have hempty : (Scanned.scan source).isEmpty = false :=
    List.isEmpty_eq_false_iff.mpr fun hnil ↦ by rw [hnil] at hended; exact hended
  have hstart : Span.start.IsIn source.toList := ⟨[], List.nil_prefix, rfl⟩
  refine ⟨hstart, hstart, [], ⟨rfl, .inr hended⟩, ?_⟩
  show Diagnostics.empty.Follows source.toList [] (Scanned.scan source).isEmpty
  rw [hempty]
  exact Diagnostics.follows_empty _

end Reader

/-- When a text has been read, its diagnostics have been fed all of it. -/
theorem follows_read (source : String) :
    (read source).diagnostics.Follows source.toList source.toList true := by
  obtain ⟨s, r, hrun, hready, hn, -⟩ := Reading.ends_script source
  have hfollows : r.Follows source := by
    have h := (Reader.invariant_follows source).keeps_script _ (Reader.follows_ofSource true source)
    rwa [hrun] at h
  -- The reader has no pieces before it, so all pieces of the text have been fed.
  obtain ⟨done, ⟨hscan, -⟩, hd⟩ := hfollows.diagnostics
  obtain ⟨-, hupcoming, -⟩ := hready.at_end hn
  rw [hupcoming, List.append_nil] at hscan
  rw [← hscan, Scanned.text_scan] at hd
  rw [read, (readWith_eq true source).2, hrun]
  exact hd.finish

/-- Whether or not a text compiles, the diagnostics that are given out are those of its reading. -/
theorem follows_compile {source : String} {d : Diagnostics}
    (h : compile source = .error d ∨ ∃ c, compile source = .ok c ∧ c.diagnostics = d) :
    d.Follows source.toList source.toList true := by
  have hread : (read source).diagnostics = d := by
    rw [compile, compileWith, Reading.Result.compile_eq, ← read] at h
    split at h
    · rcases h with h | ⟨c, h, -⟩
      · exact Except.error.inj h
      · cases h
    · rcases h with h | ⟨c, h, rfl⟩
      · cases h
      · rw [← Except.ok.inj h]
  exact hread ▸ follows_read source

end StackScript
