import StackScript.Proofs.Machine.Outcome
import StackScript.Proofs.Machine.Stage
import StackScript.Proofs.Reading.Following
import StackScript.Proofs.Session.History

/-!
# One failure, reported on two ways

A function of a text is run at once, or called in a session over the text. Either way the same value comes
of it, or the same fault on the same line (`run_matches_call`). The line itself is shown as each of the two
knows it: a run takes it from the text, a session from its diagnostics, which have dropped the carriage
returns. So the reports are the same unless there is a carriage return in the line of the text, other than
the one that belongs to its newline.
-/

namespace StackScript

variable {σ : Type}

/-! ### Reports of a run -/

namespace Engine

variable {e : Engine σ}

/-- A report says where a call has failed, but does not show the line. -/
theorem excerpt_of_call {fuel : Nat} {m m' : Machine σ} {name : String} {args : List Value} {r : Report}
    (h : e.call fuel m name args = some (.error r, m')) : r.excerpt = none :=
  (failure_of_call h).excerpt_eq

/-- More fuel does not change how a call ends. -/
theorem call_of_le {fuel fuel' : Nat} (h : fuel ≤ fuel') {m : Machine σ} {name : String}
    {args : List Value} {o : Outcome σ} (ho : e.call fuel m name args = some o) :
    e.call fuel' m name args = some o := by
  rcases hp : e.start m name args with r | p
  · rwa [call_eq_of_error fuel' hp, ← call_eq_of_error fuel hp]
  · rw [call_eq fuel hp] at ho
    obtain ⟨o', hfinish, rfl⟩ := Option.map_eq_some_iff.mp ho
    rw [call_eq fuel' hp, e.finish_of_le h hfinish]
    rfl

end Engine

/-! ### The lines of diagnostics -/

/-- Diagnostics that have been fed a whole source have its lines without carriage returns. -/
theorem Diagnostics.Follows.lineText? {source : List Char} {d : Diagnostics}
    (h : d.Follows source source true) {line : Nat} (hline : line ≠ 0) :
    d.lineText? line = (Text.lines (String.ofList (Text.withoutReturns source)))[line - 1]? := by
  obtain ⟨acts, rfl, hended, hread, -⟩ := h
  have hlines := (reading_after acts).lines (hended.mpr rfl)
  rw [hread] at hlines
  rw [Diagnostics.lineText?, if_neg hline, hlines, Array.getElem?_toList]

/-- Two reports of one failure, the first of which has dropped the carriage returns of the line that it
shows. -/
structure Report.Matches (r r' : Report) : Prop where
  fault : r.fault = r'.fault
  span : r.span = r'.span
  excerpt : (r.excerpt.getD "").toList = Text.withoutReturns (r'.excerpt.getD "").toList
  /-- They are the same report if there was nothing to drop. -/
  eq_iff : r = r' ↔ ∀ line, r'.excerpt = some line → '\r' ∉ line.toList

namespace Report

/-- A report that shows no line matches itself. -/
theorem Matches.refl {r : Report} (h : r.excerpt = none) : r.Matches r :=
  ⟨rfl, rfl, by rw [h]; rfl, iff_of_true rfl fun _ hline ↦ nomatch h.symm.trans hline⟩

/-- Reports of one failure match if one shows a line of a text and the other the line without carriage
returns. -/
theorem Matches.of_lines (r : Report) (source : List Char) (k : Nat) :
    (r.withExcerpt (Text.lines (String.ofList (Text.withoutReturns source)))[k]?).Matches
      (r.withExcerpt (Text.lines (String.ofList source))[k]?) := by
  have hsame {shown text : Option String} :
      r.withExcerpt shown = r.withExcerpt text ↔ shown = text :=
    ⟨congrArg Report.excerpt, congrArg _⟩
  rcases Text.getElem?_lines_withoutReturns source k with heq | ⟨hnone, line, hline, hreturn, hblank⟩
  · rw [heq]
    rcases (Text.lines (String.ofList source))[k]? with _ | line
    · exact .refl rfl
    · refine ⟨rfl, rfl, String.toList_ofList, ?_⟩
      refine hsame.trans ⟨fun h line' hline' hmem ↦ ?_, fun h ↦ ?_⟩
      · obtain rfl := Option.some.inj hline'
        rw [← Option.some.inj h, String.toList_ofList] at hmem
        exact Text.return_not_mem_withoutReturns _ hmem
      · rw [Option.map_some, Text.withoutReturns_eq_self (h line rfl), String.ofList_toList]
  · -- The last line has nothing but carriage returns, so that the diagnostics have no such line.
    rw [hnone, hline]
    refine ⟨rfl, rfl, hblank.symm, hsame.trans ⟨fun h ↦ (nomatch h), fun h ↦ ?_⟩⟩
    exact absurd hreturn (h line rfl)

/-- What a session makes of a report matches what a run makes of it. -/
theorem matches_withSource {source : String} {d : Diagnostics}
    (hd : d.Follows source.toList source.toList true) {r : Report} (hr : r.excerpt = none) :
    (d.raiseFailure r).1.Matches (r.withSource source) := by
  have hplain (h : r.withSource source = r) (h' : (d.raiseFailure r).1 = r) :
      (d.raiseFailure r).1.Matches (r.withSource source) := by
    rw [h, h']
    exact .refl hr
  obtain ⟨fault, span, excerpt⟩ := r
  obtain rfl : excerpt = none := hr
  rcases span with _ | ⟨line, column⟩
  · exact hplain rfl rfl
  by_cases hline : line = 0
  · subst hline
    exact hplain rfl rfl
  · have hsource : (Report.mk fault (some ⟨line, column⟩) none).withSource source =
        (Report.mk fault (some ⟨line, column⟩) none).withExcerpt (Text.lines source)[line - 1]? := by
      rw [withSource]
      dsimp only
      rw [if_neg hline]
      split <;> rename_i htext <;> rw [htext] <;> rfl
    have hsession : (d.raiseFailure ⟨fault, some ⟨line, column⟩, none⟩).1 =
        (Report.mk fault (some ⟨line, column⟩) none).withExcerpt (d.lineText? line) := rfl
    have hmatches := Matches.of_lines ⟨fault, some ⟨line, column⟩, none⟩ source.toList (line - 1)
    rw [String.ofList_toList] at hmatches
    rwa [hsource, hsession, hd.lineText? hline]

end Report

/-! ### Runs and sessions -/

/-- Where a session can be started, a run is a call of it, with the report taken from the text. -/
theorem run_eq_call {source : String} {world : World} {fuel : Nat} {s : Session Unit}
    (h : Session.start fuel source .standard .none world () = some (.ok s)) {n : Nat} (hn : fuel ≤ n)
    (name : String) (args : List Value) :
    run n source name args world = (s.engine.call n s.machine name args).map fun (result, m) ↦
      (result.mapError (·.withSource source), m.store.world) := by
  obtain ⟨c, value, hc, hengine, -, hcall⟩ := Session.exists_run_of_start h
  have hprepare : s.engine.prepare n (.fresh ⟨.declared c.program.globals, world, ()⟩) =
      some (.ok .null, s.machine) := by
    rw [Engine.prepare, hengine]
    dsimp only
    rw [function?_initializer_of_compile hc, ← hengine, Engine.call_of_le hn hcall]
    rfl
  rw [hengine] at hprepare ⊢
  unfold run
  rw [hc]
  dsimp only
  rw [hprepare, Option.map_eq_bind]
  rfl

/-- Where a session can be started without a host, a run of a function comes to a value exactly if the call
of it in the session comes to that value, and to a fault exactly if the call comes to that fault, at the
same place. The two reports are the same unless there is a carriage return in the line that is shown, and
then it is the session that shows the line without. -/
theorem run_matches_call {source : String} {world : World} {fuel : Nat} {s : Session Unit}
    (h : Session.start fuel source .standard .none world () = some (.ok s)) {n : Nat} (hn : fuel ≤ n)
    (name : String) (args : List Value) :
    (∀ value world', run n source name args world = some (.ok value, world') ↔
      ∃ s', s.call n name args = some (.ok value, s') ∧ s'.world = world') ∧
    (∀ r s', s.call n name args = some (.error r, s') →
      ∃ r', run n source name args world = some (.error r', s'.world) ∧ r.Matches r') ∧
    (∀ r' world', run n source name args world = some (.error r', world') →
      ∃ r s', s.call n name args = some (.error r, s') ∧ s'.world = world' ∧ r.Matches r') := by
  obtain ⟨c, value, hc, -, hdiagnostics, -⟩ := Session.exists_run_of_start h
  have hd : s.diagnostics.Follows source.toList source.toList true :=
    follows_compile (.inr ⟨c, hc, hdiagnostics.symm⟩)
  have hcall : s.call n name args =
      (s.engine.call n s.machine name args).map (Session.record s.engine s.diagnostics) := rfl
  rw [run_eq_call h hn, hcall]
  rcases hrun : s.engine.call n s.machine name args with _ | ⟨report | result, m⟩
  · simp
  · have hmatches := Report.matches_withSource hd (Engine.excerpt_of_call hrun)
    refine ⟨fun value world' ↦ ?_, fun r s' hs ↦ ?_, fun r' world' hw ↦ ?_⟩
    · exact iff_of_false (fun h ↦ nomatch h) fun ⟨s', hs, _⟩ ↦ nomatch hs
    · cases hs
      exact ⟨_, rfl, hmatches⟩
    · cases hw
      exact ⟨_, _, rfl, rfl, hmatches⟩
  · refine ⟨fun value world' ↦ ?_, fun r s' hs ↦ (nomatch hs), fun r' world' hw ↦ nomatch hw⟩
    constructor
    · intro hw
      cases hw
      exact ⟨_, rfl, rfl⟩
    · rintro ⟨s', hs, rfl⟩
      cases hs
      rfl

/-- A text with a function that may divide by zero, on a line with a carriage return in it. -/
def dividingText : String := "func main(x) \x7b \r return 1 / x; \x7d"

/-- A session over that text shows the line of a division by zero without the carriage return. -/
theorem call_dividingText : ∃ (s : Session Unit) (r : Report) (s' : Session Unit),
    Session.start 9 dividingText .standard .none .empty () = some (.ok s) ∧
      s.call 9 "main" [.int 0] = some (.error r, s') ∧
      r.excerpt = some "func main(x) \x7b  return 1 / x; \x7d" := by
  refine ⟨_, _, _, by cbv, by cbv, by cbv⟩

/-- A run and a session over that text come to the same fault, and their reports match. -/
theorem run_matches_call_dividingText : ∃ s : Session Unit,
    Session.start 9 dividingText .standard .none .empty () = some (.ok s) ∧
      ∃ r s' r', s.call 9 "main" [.int 0] = some (.error r, s') ∧
        run 9 dividingText "main" [.int 0] .empty = some (.error r', s'.world) ∧ r.Matches r' := by
  obtain ⟨s, r, s', hstart, hcall, -⟩ := call_dividingText
  obtain ⟨-, herror, -⟩ := run_matches_call hstart (Nat.le_refl 9) "main" [.int 0]
  obtain ⟨r', hrun, hmatches⟩ := herror r s' hcall
  exact ⟨s, hstart, r, s', r', hcall, hrun, hmatches⟩

/-- The reports are not the same, as the run shows the carriage return. -/
theorem reports_differ : ∃ (s : Session Unit) (r : Report) (s' : Session Unit) (r' : Report)
    (world : World), Session.start 9 dividingText .standard .none .empty () = some (.ok s) ∧
      s.call 9 "main" [.int 0] = some (.error r, s') ∧
      run 9 dividingText "main" [.int 0] .empty = some (.error r', world) ∧
      r.excerpt ≠ r'.excerpt := by
  obtain ⟨s, r, s', hstart, hcall, hexcerpt⟩ := call_dividingText
  obtain ⟨r', world, hrun, hexcerpt'⟩ : ∃ r' world,
      run 9 dividingText "main" [.int 0] .empty = some (.error r', world) ∧
      r'.excerpt = some dividingText :=
    ⟨_, _, by cbv, by cbv⟩
  refine ⟨s, r, s', r', world, hstart, hcall, hrun, ?_⟩
  rw [hexcerpt, hexcerpt']
  decide

end StackScript
