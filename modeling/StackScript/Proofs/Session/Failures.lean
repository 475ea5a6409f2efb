import StackScript.Proofs.Layout.Lines
import StackScript.Proofs.Passage.Outcome
import StackScript.Proofs.Session.Reports
import StackScript.Proofs.Source.Occupied

/-!
# The failures of a session

A session keeps the latest failure of its calls in its diagnostics, in place of the one before. As a text
that compiles leaves nothing else in them, and as all failures of calls are failures of running, what the
diagnostics hold after any history is told by the failures in it (`Diagnostics.Tracks`). Every failure on a
line of the code shows a line of the text, since the lines of the code are lines of tokens
(`failures_tracked`).
-/

namespace StackScript

variable {σ : Type}

/-! ### Diagnostics after failures -/

/-- A report that shows the line that it is on, as a text has it but for carriage returns. -/
def Report.Shows (source : String) (r : Report) : Prop :=
  ∀ line, r.line? = some line → line ≠ 0 ∧ ∃ text, (Text.lines source)[line - 1]? = some text ∧
    r.excerpt = some (String.ofList (Text.withoutReturns text.toList))

namespace Diagnostics

/-- The diagnostics of a text in which no fault was found, after some failures of running. -/
structure Tracks (source : String) (failures : List Report) (d : Diagnostics) : Prop where
  lineText? : ∀ line, line ≠ 0 →
    d.lineText? line = (Text.lines (String.ofList (Text.withoutReturns source.toList)))[line - 1]?
  failed : d.failed = true ↔ failures ≠ []
  /-- The latest failure is all there is. -/
  emitted : d.emitted = failures.getLast?.toList
  pending : d.pending = []
  stages : ∀ r ∈ failures, r.fault.stage = .running

variable {source : String} {failures : List Report} {d : Diagnostics}

/-- The failure that is given back is the one that is recorded, and what was recorded of failures before is
dropped. -/
theorem emitted_raiseFailure (d : Diagnostics) (r : Report) :
    (d.raiseFailure r).2.emitted =
      d.emitted.filter (·.fault.stage != .running) ++ [(d.raiseFailure r).1] := by
  obtain ⟨fault, _ | ⟨line, column⟩, excerpt⟩ := r
  · rfl
  · -- A line that is not known when the report is made is not known when it is given out either.
    rcases hline : d.lineText? line with _ | text
    · simp only [raiseFailure, emit, annotate, Report.line?, Report.withExcerpt, Option.map_some, hline]
      rw [show lineText? { d with failed := true, emitted := _ } line = _ from hline]
    · simp only [raiseFailure, emit, annotate, Report.line?, Report.withExcerpt, Option.map_some, hline]

namespace Tracks

/-- At most one failure is recorded. -/
theorem errorCount (h : d.Tracks source failures) :
    d.errorCount = if failures = [] then 0 else 1 := by
  rw [Diagnostics.errorCount, h.emitted, h.pending]
  rcases failures.eq_nil_or_concat with rfl | ⟨before, last, rfl⟩ <;> simp

/-- The failure that is recorded is the latest one. -/
theorem lastFailure? (h : d.Tracks source failures) : d.lastFailure? = failures.getLast? := by
  rw [Diagnostics.lastFailure?, h.emitted]
  rcases hlast : failures.getLast? with _ | last
  · rfl
  · simp [h.stages last (List.mem_of_getLast? hlast)]

/-- A failure takes the place of the one before. -/
theorem raiseFailure (h : d.Tracks source failures) {r : Report} (hr : r.fault.stage = .running) :
    (d.raiseFailure r).2.Tracks source (failures ++ [(d.raiseFailure r).1]) where
  lineText? := h.lineText?
  failed := iff_of_true rfl (List.concat_ne_nil _ _)
  emitted := by
    have hdropped : d.emitted.filter (·.fault.stage != .running) = [] := by
      rw [h.emitted, List.filter_eq_nil_iff]
      intro r' hr'
      have hmem := List.mem_of_getLast? (Option.mem_toList.mp hr')
      simp [h.stages r' hmem]
    rw [emitted_raiseFailure, hdropped, List.getLast?_concat]
    rfl
  pending := h.pending
  stages := by
    refine List.forall_mem_append.mpr ⟨h.stages, List.forall_mem_singleton.mpr ?_⟩
    rw [(d.raiseFailure_report r).1, hr]

/-- A failure on a line of the text shows it. -/
theorem shows_raiseFailure (h : d.Tracks source failures) {r : Report}
    (hr : ∀ line, r.line? = some line → Text.HasLine source.toList line) :
    (d.raiseFailure r).1.Shows source := by
  intro line hline
  have hplace : r.line? = some line := by
    rw [← hline, Report.line?, Report.line?, (d.raiseFailure_report r).2]
  have hline := hr line hplace
  obtain ⟨text, htext, hwithout⟩ := hline.exists_eq
  rw [String.ofList_toList] at htext
  refine ⟨hline.1, text, htext, ?_⟩
  rw [← hwithout, ← h.lineText? line hline.1, Diagnostics.raiseFailure, hplace]
  rfl

end Tracks

end Diagnostics

/-- Compilation leaves diagnostics that have recorded nothing. -/
theorem tracks_compile {source : String} {c : Compiled} (h : compile source = .ok c) :
    c.diagnostics.Tracks source [] := by
  have hfollows := follows_compile (.inr ⟨c, h, rfl⟩)
  have hclean := clean_of_compile h
  exact ⟨fun line ↦ hfollows.lineText?, by simp [hclean.failed], hclean.emitted, hclean.pending,
    fun _ hr ↦ nomatch hr⟩

/-- Every instruction that a text compiles to is on a line of the text. -/
theorem hasLine_of_compile {source : String} {c : Compiled} (h : compile source = .ok c) :
    ∀ i ∈ c.program.code, Text.HasLine source.toList i.line := by
  obtain ⟨script, hderives, -, -, hprogram⟩ := exists_script_of_compile h
  obtain ⟨before, last, htokens, -, hbefore⟩ := (Scanned.ended_scan source).exists_tokens_eq
  rw [htokens] at hderives
  have htokensOn : TokensOn (Text.HasLine source.toList) (before ++ [last]).dropLast := by
    rw [List.dropLast_concat]
    exact fun t ht ↦ Scanned.hasLine_of_mem_tokens (htokens ▸ List.mem_append_left _ ht) (hbefore t ht)
  have hcode := hderives.on_program htokensOn (fun _ ↦ Text.HasLine.first) true
  rw [hprogram]
  exact fun i hi ↦ hcode i (Array.mem_toList_iff.mpr hi)

/-! ### Histories -/

namespace Session

/-- What has been done with a session, with the results of the calls in it. -/
inductive Calls (s : Session σ) : List (Except Report Value) → Session σ → Prop
  | refl : Calls s [] s
  | call {results s' s'' fuel name args result} (h : Calls s results s')
    (hcall : s'.call fuel name args = some (result, s'')) : Calls s (results ++ [result]) s''
  /-- If the function is missing, there is no result. -/
  | callIfPresent {results s' s'' fuel name args answer} (h : Calls s results s')
    (hcall : s'.callIfPresent fuel name args = some (answer, s'')) :
    Calls s (results ++ answer.toList) s''
  | setGlobal {results s'} (h : Calls s results s') (name : String) (value : Value) :
    Calls s results (s'.setGlobal name value)
  | withWorld {results s'} (h : Calls s results s') (world : World) :
    Calls s results (s'.withWorld world)

/-- The failures among the results of calls. -/
def failures (results : List (Except Report Value)) : List Report :=
  results.filterMap fun
    | .ok _ => none
    | .error r => some r

variable {s s' : Session σ} {fuel : Nat} {name : String} {args : List Value} {source : String}
  {results : List (Except Report Value)} {result : Except Report Value}

@[simp]
theorem failures_append (results more : List (Except Report Value)) :
    failures (results ++ more) = failures results ++ failures more :=
  List.filterMap_append

/-- A history leads to a later session. -/
theorem Calls.later (h : s.Calls results s') : s.Later s' := by
  induction h with
  | refl => exact .refl
  | call _ hcall ih => exact ih.tail (.call hcall)
  | callIfPresent _ hcall ih => exact ih.tail (.callIfPresent hcall)
  | setGlobal _ name value ih => exact ih.tail (.setGlobal _ name value)
  | withWorld _ world ih => exact ih.tail (.withWorld _ world)

/-- A call that comes to a value leaves the diagnostics alone. -/
theorem diagnostics_of_call {value : Value} (h : s.call fuel name args = some (.ok value, s')) :
    s'.diagnostics = s.diagnostics := by
  obtain ⟨⟨_ | _, m⟩, -, heq⟩ := exists_call h <;> cases heq
  rfl

/-- The diagnostics of a session tell the failures of its calls, and all of those show their lines. -/
structure Tracks (source : String) (failures : List Report) (s : Session σ) : Prop where
  diagnostics : s.diagnostics.Tracks source failures
  shows : ∀ r ∈ failures, r.Shows source

/-- The diagnostics go on to do so after another call. -/
theorem Tracks.call (h : s.Tracks source (failures results))
    (hcode : ∀ i ∈ s.engine.program.code, Text.HasLine source.toList i.line)
    (hcall : s.call fuel name args = some (result, s')) :
    s'.Tracks source (failures (results ++ [result])) := by
  rcases result with r | value
  · obtain ⟨⟨result, m⟩, hrun, heq⟩ := exists_call hcall
    rcases result with report | _ <;> cases heq
    have hfailure := Engine.failure_of_call hrun
    have hshows := h.diagnostics.shows_raiseFailure fun line hline ↦ by
      obtain ⟨i, hi, rfl⟩ := hfailure.exists_line hline
      exact hcode i hi
    rw [failures_append]
    exact ⟨h.diagnostics.raiseFailure hfailure.stage_eq,
      List.forall_mem_append.mpr ⟨h.shows, List.forall_mem_singleton.mpr hshows⟩⟩
  · rw [failures_append, show failures [.ok value] = [] from rfl, List.append_nil]
    exact ⟨diagnostics_of_call hcall ▸ h.diagnostics, h.shows⟩

/-- The diagnostics tell the failures of a whole history. -/
theorem Calls.tracks (hs : s.Tracks source [])
    (hcode : ∀ i ∈ s.engine.program.code, Text.HasLine source.toList i.line)
    (h : s.Calls results s') : s'.Tracks source (failures results) := by
  induction h with
  | refl => exact hs
  | call h hcall ih => exact ih.call (h.later.engine_eq ▸ hcode) hcall
  | callIfPresent h hcall ih =>
    obtain ⟨rfl, rfl⟩ | ⟨result, rfl, hcalled⟩ := callIfPresent_eq hcall
    · rwa [Option.toList_none, List.append_nil]
    · exact ih.call (h.later.engine_eq ▸ hcode) hcalled
  | setGlobal _ _ _ ih | withWorld _ _ ih => exact ⟨ih.diagnostics, ih.shows⟩

end Session

/-- What the diagnostics of a session hold after any history: they count no fault before the first failure of
a call and one from then on, have failed if a call has, and keep the report that the latest failing call has
given back. Each of these reports that has a line shows it, without carriage returns. A call that does not
fail leaves the diagnostics as they are, and so does one that is not made for want of its function. -/
theorem failures_tracked {source : String} {startFuel : Nat} {limits : Limits} {bridge : Bridge σ}
    {world : World} {host : σ} {s s' : Session σ} {results : List (Except Report Value)}
    (h : Session.start startFuel source limits bridge world host = some (.ok s))
    (hs : s.Calls results s') :
    s'.diagnostics.errorCount = (if Session.failures results = [] then 0 else 1) ∧
    s'.diagnostics.lastFailure? = (Session.failures results).getLast? ∧
    (s'.diagnostics.failed = true ↔ Session.failures results ≠ []) ∧
    (∀ r ∈ Session.failures results, r.Shows source) ∧
    (∀ fuel name args value s'', s'.call fuel name args = some (.ok value, s'') →
      s''.diagnostics = s'.diagnostics) ∧
    ∀ fuel name args answer s'', s'.callIfPresent fuel name args = some (answer, s'') →
      (∀ r, answer ≠ some (.error r)) → s''.diagnostics = s'.diagnostics := by
  obtain ⟨c, value, hc, hengine, hdiagnostics, -⟩ := Session.exists_run_of_start h
  have hstart : s.Tracks source [] := ⟨hdiagnostics ▸ tracks_compile hc, fun _ hr ↦ nomatch hr⟩
  have hcode : ∀ i ∈ s.engine.program.code, Text.HasLine source.toList i.line := by
    rw [hengine]
    exact hasLine_of_compile hc
  have htracks := hs.tracks hstart hcode
  refine ⟨htracks.diagnostics.errorCount, htracks.diagnostics.lastFailure?, htracks.diagnostics.failed,
    htracks.shows, fun fuel name args value s'' ↦ Session.diagnostics_of_call,
    fun fuel name args answer s'' hcall hanswer ↦ ?_⟩
  obtain ⟨-, rfl⟩ | ⟨_ | value, rfl, hcalled⟩ := Session.callIfPresent_eq hcall
  · rfl
  · exact (hanswer _ rfl).elim
  · exact Session.diagnostics_of_call hcalled

/-- A text with a function that may divide by zero, on its second line. -/
def sharingText : String := "var n = 6;\r\nfunc share(x) \x7b \r return n / x; \x7d"

/-- A session over that text in which a share fails, then a function that is missing is not called, and then
a share succeeds: the failure is kept, with its line. -/
theorem failures_tracked_sharingText : ∃ (s s' : Session Unit) (r : Report),
    Session.start 9 sharingText .standard .none .empty () = some (.ok s) ∧
      s.Calls [.error r, .ok (.int 3)] s' ∧ s'.diagnostics.errorCount = 1 ∧
      s'.diagnostics.lastFailure? = some r ∧ r.line? = some 2 ∧ r.Shows sharingText := by
  obtain ⟨s, r, s₁, s₂, s₃, hstart, hfirst, hsecond, hthird, hplace⟩ :
      ∃ (s : Session Unit) (r : Report) (s₁ s₂ s₃ : Session Unit),
        Session.start 9 sharingText .standard .none .empty () = some (.ok s) ∧
        s.call 9 "share" [.int 0] = some (.error r, s₁) ∧
        s₁.callIfPresent 9 "spare" [] = some (.none, s₂) ∧
        s₂.call 9 "share" [.int 2] = some (.ok (.int 3), s₃) ∧ r.line? = some 2 :=
    ⟨_, _, _, _, _, by cbv, by cbv, by cbv, by cbv, by cbv⟩
  have hcalls : s.Calls [.error r, .ok (.int 3)] s₃ :=
    .call (.callIfPresent (.call .refl hfirst) hsecond) hthird
  obtain ⟨hcount, hlast, -, hshows, -⟩ := failures_tracked hstart hcalls
  exact ⟨s, s₃, r, hstart, hcalls, hcount, hlast, hplace, hshows r (.head _)⟩

end StackScript
