import StackScript.Proofs.Passage.Constant
import StackScript.Proofs.Reading.Steady
import StackScript.Proofs.Source.Reports
import StackScript.Proofs.Source.Scanning

/-!
# The passage of a reader through a text

A reader that has read its first token is `Ready` for the rest of its text. The tokens that it has
taken and those that it has before it are the tokens of the text, each of them once; it has taken note
of every fault on the way; and its fuel has not run out. Every function of the reader keeps it ready,
whatever the text is.

What a function does is stated with `Ends`: it leaves the reader ready, with so many tokens before it
at most, and unless a fault was found something holds of the result and of the new reader. The rules
for `Ends` follow the code of the functions. Of what was found in the parts, a rule passes on what
holds if there was no fault, so that the end of a function is reached with all of it at hand.
-/

namespace StackScript

variable {α β : Type} {source : String}

/-! ### Readers on their way -/

/-- What reading goes by, beside the tokens that are still to be read. -/
structure View where
  taken : List Token
  functions : List String
  globals : List String
  globalsClosed : Bool
  scopes : List (List String)
  loops : List Nat

namespace View

/-- The view after tokens were read. -/
def read (v : View) (ts : List Token) : View := { v with taken := ts.reverse ++ v.taken }

@[simp]
theorem read_read (v : View) (ts us : List Token) : (v.read ts).read us = v.read (ts ++ us) := by
  simp [read]

theorem read_cons (v : View) (t : Token) (ts : List Token) :
    v.read (t :: ts) = (v.read [t]).read ts := by
  simp

/-- The line of the token read last. -/
def line (v : View) : Nat := (v.taken.head?.map (·.span.line)).getD 0

end View

theorem View.line_read (v : View) {ts : List Token} (h : ts ≠ []) :
    (v.read ts).line = lastLine ts := by
  rw [line, lastLine, read, List.head?_append, List.head?_reverse, List.getLast?_eq_some_getLast h]
  rfl

theorem View.line_read_singleton (v : View) (t : Token) : (v.read [t]).line = t.span.line := rfl

namespace Reader

/-- The tokens from the one that stands to be read on. -/
def standing (r : Reader) : List Token := r.current :: Scanned.tokens r.upcoming

theorem length_standing_le (r : Reader) : r.standing.length ≤ r.upcoming.length + 1 := by
  have hfiltered : (Scanned.tokens r.upcoming).length ≤ (r.upcoming.map (·.token)).length :=
    List.filter_sublist.length_le
  rw [List.length_map] at hfiltered
  exact Nat.succ_le_succ hfiltered

/-- What a reader goes by. -/
def view (r : Reader) : View where
  taken := r.taken
  functions := r.functions
  globals := r.globals
  globalsClosed := r.globalsClosed
  scopes := r.scopes
  loops := r.loops

/-- A reader of a text that has read the first token. -/
structure Ready (source : String) (r : Reader) : Prop where
  /-- The tokens are read in order, each of them once, behind what stood in for the first one. -/
  text : r.taken.reverse ++ r.standing = (ofSource true source).current ::
    Scanned.tokens (Scanned.scan source)
  previous : r.taken.head? = some r.previous
  upcoming : r.upcoming <:+ Scanned.scan source
  ended : if r.current.kind = .endOfInput then r.upcoming = [] else Scanned.Ended r.upcoming
  folding : r.folding = true
  starved : r.starved = false
  kept : r.diagnostics.Kept
  recovering : r.recovering = true → r.diagnostics.failed = true
  /-- While there is no failure, the pieces passed had no fault. -/
  noted : r.diagnostics.failed = false →
    ∀ s ∈ Scanned.scan source, s.faults = [] ∨ s ∈ r.upcoming

namespace Ready

variable {r : Reader}

/-- Nothing but bookkeeping is changed. -/
theorem beside (h : r.Ready source) (functions globals : List String) (closed : Bool)
    (scopes : List (List String)) (loops : List Nat) (trail : Trail)
    (remarks : List (Nat × Remark)) :
    Ready source { r with
      functions := functions, globals := globals, globalsClosed := closed, scopes := scopes,
      loops := loops, trail := trail, remarks := remarks } :=
  ⟨h.text, h.previous, h.upcoming, h.ended, h.folding, h.starved, h.kept, h.recovering, h.noted⟩

theorem trailing (h : r.Ready source) (trail : Trail) : Ready source { r with trail := trail } :=
  h.beside _ _ _ _ _ _ _

theorem line_eq (h : r.Ready source) : r.previous.span.line = r.view.line := by
  rw [View.line, view, h.previous]
  rfl

theorem recovered (h : r.Ready source) : Ready source { r with recovering := false } :=
  ⟨h.text, h.previous, h.upcoming, h.ended, h.folding, h.starved, h.kept, (nomatch ·), h.noted⟩

/-- A fault that is not one of a run is taken note of. -/
theorem failing (h : r.Ready source) {fault : Fault} (hs : fault.stage ≠ .running) (span : Span) :
    Ready source { r with
      recovering := true, diagnostics := r.diagnostics.raise fault span } :=
  have hfailed := r.diagnostics.failed_raise fault span
  ⟨h.text, h.previous, h.upcoming, h.ended, h.folding, h.starved, h.kept.raise hs span,
    fun _ ↦ hfailed, fun hnot ↦ absurd (hfailed.symm.trans hnot) (fun h ↦ nomatch h)⟩

/-- A reader with one token before it stands at the end of its text. -/
theorem at_end (h : r.Ready source) (hn : r.standing.length ≤ 1) :
    r.current.kind = .endOfInput ∧ r.upcoming = [] ∧ r.standing = [r.current] := by
  have htokens : Scanned.tokens r.upcoming = [] := by
    rw [standing, List.length_cons] at hn
    exact List.eq_nil_of_length_eq_zero (by omega)
  have hended := h.ended
  split at hended
  · rename_i hc
    exact ⟨hc, hended, by rw [standing, htokens]⟩
  · exact absurd htokens hended.tokens_ne_nil

theorem standing_pos (r : Reader) : 0 < r.standing.length := Nat.succ_pos _

end Ready

end Reader

namespace Reading

/-! ### One token -/

/-- There is a token before the end of a text, and all that stands before it is noted. -/
theorem skim_ended {d : Diagnostics} {upcoming : List Scanned} (h : Scanned.Ended upcoming)
    (hlex : ∀ s ∈ upcoming, ∀ f ∈ s.faults, f.1.stage = .lexical) (hd : d.Kept) :
    ∃ t rest d', skim d upcoming = (some t, rest, d') ∧
      Scanned.tokens upcoming = t :: Scanned.tokens rest ∧ rest <:+ upcoming ∧
      (if t.kind = .endOfInput then rest = [] else Scanned.Ended rest) ∧ d'.Kept ∧
      (d'.failed = false → d.failed = false ∧ ∀ s ∈ upcoming, s.faults = [] ∨ s ∈ rest) := by
  induction upcoming generalizing d with
  | nil => exact h.elim
  | cons s rest ih =>
    have hkept := hd.absorb (hlex s (.head _))
    rw [skim]
    split
    · rename_i hstray
      -- A stray character is passed over, and its fault is noted.
      have hnot : s.token.kind ≠ .endOfInput := by simp [hstray]
      obtain ⟨t, rest', d', hskim, htokens, hsuffix, hended, hd', hnoted⟩ :=
        ih (h.cons hnot) (fun s hs ↦ hlex s (.tail _ hs)) hkept
      refine ⟨t, rest', d', hskim, ?_, hsuffix.trans (List.suffix_cons _ _), hended, hd',
        fun hfailed ↦ ?_⟩
      · rw [← htokens]
        simp [Scanned.tokens, hstray]
      · obtain ⟨habsorb, hrest⟩ := hnoted hfailed
        obtain ⟨hread, hfaults⟩ := Diagnostics.faults_eq_nil_of_absorb habsorb
        exact ⟨hread, List.forall_mem_cons.mpr ⟨.inl hfaults, hrest⟩⟩
    · rename_i hstray
      refine ⟨s.token, rest, _, rfl, ?_, List.suffix_cons _ _, ?_, hkept, fun hfailed ↦ ?_⟩
      · simp [Scanned.tokens, hstray]
      · split
        · rename_i hend
          exact h.eq_nil hend
        · rename_i hend
          exact h.cons hend
      · obtain ⟨hread, hfaults⟩ := Diagnostics.faults_eq_nil_of_absorb hfailed
        exact ⟨hread, List.forall_mem_cons.mpr ⟨.inl hfaults, fun s hs ↦ .inr hs⟩⟩

/-- Where no piece has a fault, none is found. -/
theorem failed_skim (d : Diagnostics) {upcoming : List Scanned} (h : ∀ s ∈ upcoming, s.faults = []) :
    (skim d upcoming).2.2.failed = d.failed := by
  induction upcoming generalizing d with
  | nil => rfl
  | cons s rest ih =>
    rw [skim]
    split
    · rw [ih _ fun s hs ↦ h s (.tail _ hs), d.failed_absorb_of_nil (h s (.head _))]
    · exact d.failed_absorb_of_nil (h s (.head _))

theorem run_advance (r : Reader) : advance.run r = ((), { r with
    upcoming := (skim r.diagnostics r.upcoming).2.1
    previous := r.current
    current := (skim r.diagnostics r.upcoming).1.getD r.current
    taken := r.current :: r.taken
    diagnostics := (skim r.diagnostics r.upcoming).2.2 }) := rfl

theorem run_current (f : TokenKind → Reading α) (r : Reader) :
    (current >>= f).run r = (f r.current.kind).run r := rfl

/-- A reader after one more token. -/
structure Advanced (source : String) (r r' : Reader) : Prop where
  ready : r'.Ready source
  standing : r.standing = r.current :: r'.standing
  view : r'.view = r.view.read [r.current]
  literals : r'.trail.literals = r.trail.literals
  failed : r'.diagnostics.failed = false → r.diagnostics.failed = false

/-- The reader of a text after its first token. -/
theorem ready_start (source : String) : ∃ r, advance.run (.ofSource true source) = ((), r) ∧
    r.Ready source ∧ r.view = (Reader.ofSource true source).view.read
      [(Reader.ofSource true source).current] := by
  obtain ⟨t, rest, d', hskim, htokens, hsuffix, hended, hkept, hnoted⟩ :=
    skim_ended (Scanned.ended_scan source) (fun s hs ↦ (Scanned.noted_scan hs).1)
      Diagnostics.kept_empty
  refine ⟨{ Reader.ofSource true source with
    upcoming := rest, previous := (Reader.ofSource true source).current, current := t,
    taken := [(Reader.ofSource true source).current], diagnostics := d' }, ?_, ?_, rfl⟩
  · have hskim : skim (Reader.ofSource true source).diagnostics
        (Reader.ofSource true source).upcoming = (some t, rest, d') := hskim
    rw [run_advance, hskim]
    rfl
  · refine ⟨?_, rfl, hsuffix, hended, rfl, rfl, hkept, (nomatch ·),
      fun hfailed ↦ (hnoted hfailed).2⟩
    rw [htokens]
    rfl

/-- Reading a token that is not the end of input. -/
theorem advanced_advance {r : Reader} (h : r.Ready source) (hc : r.current.kind ≠ .endOfInput) :
    Advanced source r (advance.run r).2 := by
  have hended := h.ended
  rw [if_neg hc] at hended
  obtain ⟨t, rest, d', hskim, htokens, hsuffix, hended', hkept, hnoted⟩ := skim_ended hended
    (fun s hs ↦ (Scanned.noted_scan (h.upcoming.mem hs)).1) h.kept
  have hrun : (advance.run r).2 = { r with
      upcoming := rest, previous := r.current, current := t, taken := r.current :: r.taken,
      diagnostics := d' } := by
    rw [run_advance, hskim]
    rfl
  have hstanding : r.standing = r.current :: t :: Scanned.tokens rest := by
    rw [Reader.standing, htokens]
  rw [hrun]
  refine ⟨⟨?_, rfl, hsuffix.trans h.upcoming, hended', h.folding, h.starved, hkept,
    fun hrecovering ↦ ?_, fun hfailed s hs ↦ ?_⟩, hstanding, rfl, rfl,
    fun hfailed ↦ (hnoted hfailed).1⟩
  · rw [← h.text, hstanding]
    simp [Reader.standing]
  · have hbefore := h.recovering hrecovering
    refine eq_true_of_ne_false fun hfailed ↦ ?_
    rw [(hnoted hfailed).1] at hbefore
    cases hbefore
  · rcases h.noted (hnoted hfailed).1 s hs with hs | hs
    · exact .inl hs
    · exact (hnoted hfailed).2 s hs

theorem run_accept_of_eq {kind : TokenKind} {r : Reader} (h : r.current.kind = kind) :
    (accept kind).run r = (true, (advance.run r).2) := by
  show (if decide (r.current.kind = kind) = true then _ else _ : Reading Bool).run r = _
  rw [if_pos (decide_eq_true h)]
  rfl

theorem run_accept_of_ne {kind : TokenKind} {r : Reader} (h : r.current.kind ≠ kind) :
    (accept kind).run r = (false, r) := by
  show (if decide (r.current.kind = kind) = true then _ else _ : Reading Bool).run r = _
  rw [if_neg (fun hd ↦ h (of_decide_eq_true hd))]
  rfl

theorem run_expect_of_eq {sign : Symbol} {r : Reader} (h : r.current.kind = .symbol sign)
    (expected : String) : (expect sign expected).run r = (true, (advance.run r).2) := by
  rw [expect, StateT.run_bind, run_accept_of_eq h]
  rfl

theorem run_close_of_eq {sign : Symbol} {r : Reader} (h : r.current.kind = .symbol sign)
    (expected : String) : (close sign expected).run r = ((), (advance.run r).2) := by
  rw [close, StateT.run_bind, run_expect_of_eq h]
  rfl

theorem run_name?_of_eq {name : String} {r : Reader} (h : r.current.kind = .identifier name)
    (expected : String) : (name? expected).run r = (some name, (advance.run r).2) := by
  rw [name?, run_current, h]
  rfl

theorem run_memberName?_of_eq {name : String} {r : Reader} (h : r.current.kind.member? = some name) :
    memberName?.run r = (some name, (advance.run r).2) := by
  have hkind : r.current.kind = .identifier name ∨ r.current.kind = .className name := by
    unfold TokenKind.member? at h
    split at h <;> simp_all
  rw [memberName?, run_current]
  rcases hkind with hkind | hkind <;> rw [hkind] <;> rfl

/-! ### What functions of the reader do -/

/-- The reader is left ready, with so many tokens before it at most, and unless a fault was found
something holds of the result and of the new reader. -/
structure Ends (source : String) (x : Reading α) (r : Reader) (bound : Nat)
    (Q : α → Reader → Prop) : Prop where
  ready : (x.run r).2.Ready source
  failed : (x.run r).2.diagnostics.failed = false → r.diagnostics.failed = false
  length : (x.run r).2.standing.length ≤ bound
  clean : (x.run r).2.diagnostics.failed = false → Q (x.run r).1 (x.run r).2

namespace Ends

variable {r : Reader} {n m : Nat} {Q : α → Reader → Prop} {R : β → Reader → Prop}

theorem mono {Q' : α → Reader → Prop} {x : Reading α} (h : Ends source x r n Q) (hn : n ≤ m)
    (hq : ∀ a r', Q a r' → Q' a r') : Ends source x r m Q' :=
  ⟨h.ready, h.failed, Nat.le_trans h.length hn, fun hf ↦ hq _ _ (h.clean hf)⟩

theorem le {x : Reading α} (h : Ends source x r n Q) (hn : n ≤ m) : Ends source x r m Q :=
  h.mono hn fun _ _ ↦ id

theorem pure {a : α} (hr : r.Ready source) (hn : r.standing.length ≤ n) (hq : Q a r) :
    Ends source (pure a : Reading α) r n Q :=
  ⟨hr, id, hn, fun _ ↦ hq⟩

/-- What is found in the first part may be used in the end. -/
theorem bind {x : Reading α} {f : α → Reading β} (hx : Ends source x r n Q)
    (hf : ∀ a r', r'.Ready source → r'.standing.length ≤ n →
      Ends source (f a) r' m fun b r'' ↦ Q a r' → R b r'') :
    Ends source (x >>= f) r m R := by
  have hrest := hf (x.run r).1 (x.run r).2 hx.ready hx.length
  exact ⟨hrest.ready, fun h ↦ hx.failed (hrest.failed h), hrest.length,
    fun h ↦ hrest.clean h (hx.clean (hrest.failed h))⟩

/-- What the first part does is known. -/
theorem of_run {x : Reading α} {f : α → Reading β} {a : α} {r' : Reader} (hx : x.run r = (a, r'))
    (hd : r'.diagnostics.failed = false → r.diagnostics.failed = false)
    (h : Ends source (f a) r' n R) : Ends source (x >>= f) r n R := by
  have hrun : (x >>= f).run r = (f a).run r' := by
    rw [StateT.run_bind, hx]
    rfl
  exact ⟨hrun ▸ h.ready, fun hf ↦ hd (h.failed (hrun ▸ hf)), hrun ▸ h.length,
    fun hf ↦ hrun ▸ h.clean (hrun ▸ hf)⟩

/-! ### The parts of functions -/

theorem get {f : Reader → Reading β} (h : Ends source (f r) r n R) :
    Ends source (get >>= f) r n R :=
  of_run rfl id h

theorem current {f : TokenKind → Reading β} (h : Ends source (f r.current.kind) r n R) :
    Ends source (current >>= f) r n R :=
  of_run rfl id h

theorem currentSpan {f : Span → Reading β} (h : Ends source (f r.current.span) r n R) :
    Ends source (currentSpan >>= f) r n R :=
  of_run rfl id h

theorem line {f : Nat → Reading β} (hr : r.Ready source) (h : Ends source (f r.view.line) r n R) :
    Ends source (line >>= f) r n R :=
  of_run (congrArg (·, r) hr.line_eq) id h

theorem remaining {f : Nat → Reading β} (h : Ends source (f (r.upcoming.length + 1)) r n R) :
    Ends source (remaining >>= f) r n R :=
  of_run rfl id h

theorem check {kind : TokenKind} {f : Bool → Reading β}
    (h : Ends source (f (r.current.kind = kind)) r n R) :
    Ends source (check kind >>= f) r n R :=
  of_run rfl id h

/-- Changing nothing that has to do with tokens or faults. -/
theorem change {g : Reader → Reader} {f : PUnit → Reading β}
    (hd : (g r).diagnostics = r.diagnostics) (h : Ends source (f ⟨⟩) (g r) n R) :
    Ends source (modify g >>= f) r n R :=
  of_run rfl (fun hf ↦ hd ▸ hf) h

/-- Writing code. -/
theorem trail {g : Reader → Trail} {f : PUnit → Reading β} (hr : r.Ready source)
    (h : ∀ r', r'.Ready source → r'.standing = r.standing → r'.view = r.view →
      Ends source (f ⟨⟩) r' n R) :
    Ends source (modify (fun r ↦ { r with trail := g r }) >>= f) r n R :=
  change rfl (h _ (hr.trailing _) rfl rfl)

/-- Opening or closing scopes. -/
theorem scopes {g : Reader → List (List String)} {f : PUnit → Reading β} (hr : r.Ready source)
    (h : ∀ r', r'.Ready source → r'.standing = r.standing →
      r'.view = { r.view with scopes := g r } → Ends source (f ⟨⟩) r' n R) :
    Ends source (modify (fun r ↦ { r with scopes := g r }) >>= f) r n R :=
  change rfl (h _ (hr.beside _ _ _ _ _ _ _) rfl rfl)

/-- Entering or leaving loops. -/
theorem loops {g : Reader → List Nat} {f : PUnit → Reading β} (hr : r.Ready source)
    (h : ∀ r', r'.Ready source → r'.standing = r.standing →
      r'.view = { r.view with loops := g r } → Ends source (f ⟨⟩) r' n R) :
    Ends source (modify (fun r ↦ { r with loops := g r }) >>= f) r n R :=
  change rfl (h _ (hr.beside _ _ _ _ _ _ _) rfl rfl)

theorem advance {f : Unit → Reading β} (hr : r.Ready source) (hc : r.current.kind ≠ .endOfInput)
    (h : ∀ r', Advanced source r r' → Ends source (f ()) r' n R) :
    Ends source (advance >>= f) r n R :=
  have hadvanced := advanced_advance hr hc
  of_run rfl hadvanced.failed (h _ hadvanced)

/-- Reading a given token if it is there. -/
theorem accept {kind : TokenKind} {f : Bool → Reading β} (hr : r.Ready source)
    (hk : kind ≠ .endOfInput)
    (hyes : r.current.kind = kind → ∀ r', Advanced source r r' → Ends source (f true) r' n R)
    (hno : r.current.kind ≠ kind → Ends source (f false) r n R) :
    Ends source (Reading.accept kind >>= f) r n R := by
  by_cases hc : r.current.kind = kind
  · have hadvanced := advanced_advance hr (hc ▸ hk)
    refine of_run (run_accept_of_eq hc) hadvanced.failed (hyes hc _ hadvanced)
  · exact of_run (run_accept_of_ne hc) id (hno hc)

end Ends

/-! ### Faults -/

/-- A reader after a fault at some place. -/
structure Failed (source : String) (r r' : Reader) : Prop where
  ready : r'.Ready source
  standing : r'.standing = r.standing
  failed : r'.diagnostics.failed = true

theorem failed_fail_run {r : Reader} (hr : r.Ready source) {fault : Fault}
    (hs : fault.stage ≠ .running) (span : Span) : Failed source r ((fail fault span).run r).2 := by
  show Failed source r (if r.recovering then r
    else { r with recovering := true, diagnostics := r.diagnostics.raise fault span })
  split
  · rename_i h
    exact ⟨hr, rfl, hr.recovering h⟩
  · exact ⟨hr.failing hs span, rfl, r.diagnostics.failed_raise fault span⟩

variable {r : Reader} {n : Nat} {R : β → Reader → Prop}

theorem Failed.ne_false {r' : Reader} (h : Failed source r r') :
    ¬r'.diagnostics.failed = false := by
  simp [h.failed]

theorem Failed.ends {r' : Reader} (h : Failed source r r') {x : Reading α} {a : α}
    (hx : x.run r = (a, r')) : Ends source x r r.standing.length fun _ _ ↦ False := by
  have hrun : (x.run r).2 = r' := by rw [hx]
  have hnot : ¬(x.run r).2.diagnostics.failed = false := hrun ▸ h.ne_false
  exact ⟨hrun ▸ h.ready, fun hf ↦ absurd hf hnot,
    Nat.le_of_eq (hrun ▸ congrArg List.length h.standing), hnot⟩

theorem ends_fail (hr : r.Ready source) {fault : Fault} (hs : fault.stage ≠ .running)
    (span : Span) : Ends source (fail fault span) r r.standing.length fun _ _ ↦ False :=
  (failed_fail_run hr hs span).ends rfl

theorem ends_failHere (hr : r.Ready source) {fault : Fault} (hs : fault.stage ≠ .running) :
    Ends source (failHere fault) r r.standing.length fun _ _ ↦ False :=
  .currentSpan (ends_fail hr hs _)

theorem ends_failExpecting (hr : r.Ready source) (expected : String) :
    Ends source (failExpecting expected) r r.standing.length fun _ _ ↦ False :=
  .current (ends_failHere hr (fun h ↦ nomatch h))

/-- Where there is a failure already, no more has to be shown. -/
theorem Ends.of_failed {x : Reading α} {Q : α → Reader → Prop} (hr : r.diagnostics.failed = true)
    (h : Ends source x r n fun _ _ ↦ True) : Ends source x r n Q :=
  have hnot {p : Prop} (hf : (x.run r).2.diagnostics.failed = false) : p := by
    rw [h.failed hf] at hr
    cases hr
  ⟨h.ready, h.failed, h.length, hnot⟩

/-- A token out of place is reported and skipped. -/
theorem exists_run_skip {fault : Fault} (hr : r.Ready source) (hs : fault.stage ≠ .running)
    (hc : r.current.kind ≠ .endOfInput) : ∃ r₁ r₂, (failHere fault).run r = ((), r₁) ∧
      advance.run r₁ = ((), r₂) ∧ r₂.Ready source ∧
      r₂.standing.length + 1 = r.standing.length ∧ r₂.diagnostics.failed = true := by
  obtain ⟨r₁, hfail⟩ : ∃ r₁, (failHere fault).run r = ((), r₁) := ⟨_, rfl⟩
  have hfailed : Failed source r ((failHere fault).run r).2 := failed_fail_run hr hs _
  rw [hfail] at hfailed
  have hcurrent : r₁.current = r.current := (List.cons.inj hfailed.standing).1
  obtain ⟨r₂, hadvance⟩ : ∃ r₂, advance.run r₁ = ((), r₂) := ⟨_, rfl⟩
  have hadvanced := advanced_advance hfailed.ready (hcurrent ▸ hc)
  rw [hadvance] at hadvanced
  refine ⟨r₁, r₂, hfail, hadvance, hadvanced.ready, ?_, ?_⟩
  · rw [← hfailed.standing, hadvanced.standing, List.length_cons]
  · exact eq_true_of_ne_false fun hf ↦ hfailed.ne_false (hadvanced.failed hf)

theorem Ends.skip {fault : Fault} {f : Unit → Reading β} (hr : r.Ready source)
    (hs : fault.stage ≠ .running) (hc : r.current.kind ≠ .endOfInput)
    (h : ∀ r', r'.Ready source → r'.standing.length + 1 = r.standing.length →
      r'.diagnostics.failed = true → Ends source (f ()) r' n R) :
    Ends source (failHere fault >>= fun _ ↦ Reading.advance >>= f) r n R := by
  obtain ⟨r₁, r₂, hfail, hadvance, hr₂, hn, hfailed⟩ := exists_run_skip hr hs hc
  have hnot {p : Prop} (hf : r₂.diagnostics.failed = false) : p := by
    rw [hfailed] at hf
    cases hf
  have hrun : (failHere fault >>= fun _ ↦ Reading.advance).run r = ((), r₂) := by
    rw [StateT.run_bind, hfail]
    exact hadvance
  rw [← bind_assoc]
  exact .of_run hrun hnot (h r₂ hr₂ hn hfailed)

/-! ### Names and symbols -/

theorem Advanced.length {r' : Reader} (h : Advanced source r r') :
    r'.standing.length + 1 = r.standing.length := by
  rw [h.standing, List.length_cons]

/-- A symbol is there, or its lack is reported. -/
theorem ends_expect (hr : r.Ready source) (sign : Symbol) (expected : String) :
    Ends source (expect sign expected) r r.standing.length fun found r' ↦
      found = true ∧ r.current.kind = .symbol sign ∧ Advanced source r r' := by
  refine .accept hr (by simp) (fun hc r' hr' ↦ ?_) fun _ ↦ ?_
  · exact .pure hr'.ready (by have := hr'.length; omega) ⟨rfl, hc, hr'⟩
  · exact (ends_failExpecting hr expected).bind fun _ r' hr' hn ↦ .pure hr' hn (nomatch ·)

theorem ends_close (hr : r.Ready source) (sign : Symbol) (expected : String) :
    Ends source (close sign expected) r r.standing.length fun _ r' ↦
      r.current.kind = .symbol sign ∧ Advanced source r r' :=
  (ends_expect hr sign expected).bind fun _ _ hr' hn ↦ .pure hr' hn And.right

/-- A name is there, or its lack is reported. -/
theorem ends_name? (hr : r.Ready source) (expected : String) :
    Ends source (name? expected) r r.standing.length fun name? r' ↦
      ∃ name, name? = some name ∧ r.current.kind = .identifier name ∧ Advanced source r r' := by
  refine .current ?_
  split
  · rename_i name hc
    refine .advance hr (by simp [hc]) fun r' hr' ↦ .pure hr'.ready ?_ ⟨name, rfl, hc, hr'⟩
    have := hr'.length
    omega
  · exact (ends_failExpecting hr expected).bind fun _ r' hr' hn ↦ .pure hr' hn (nomatch ·)

theorem ends_memberName? (hr : r.Ready source) :
    Ends source memberName? r r.standing.length fun name? r' ↦
      ∃ name, name? = some name ∧ r.current.kind.member? = some name ∧ Advanced source r r' := by
  have hread {name : String} (hc : r.current.kind ≠ .endOfInput)
      (hname : r.current.kind.member? = some name) :
      Ends source (do advance; return some name) r r.standing.length fun name? r' ↦
        ∃ name, name? = some name ∧ r.current.kind.member? = some name ∧ Advanced source r r' := by
    refine .advance hr hc fun r' hr' ↦ .pure hr'.ready ?_ ⟨name, rfl, hname, hr'⟩
    have := hr'.length
    omega
  refine .current ?_
  split
  · rename_i name hc
    exact hread (by simp [hc]) (by rw [hc]; rfl)
  · rename_i name hc
    exact hread (by simp [hc]) (by rw [hc]; rfl)
  · exact (ends_failExpecting hr _).bind fun _ r' hr' hn ↦ .pure hr' hn (nomatch ·)

/-! ### Computed constants -/

theorem ends_operate (hr : r.Ready source) (op : BinaryOp) :
    Ends source (operate op) r r.standing.length fun _ r' ↦
      r'.current = r.current ∧ r'.view = r.view ∧
        computed op r.trail.literals = some r'.trail.literals := by
  have hplain (h : computed op r.trail.literals = some []) :
      Ends source (emit 1) r r.standing.length fun _ r' ↦
        r'.current = r.current ∧ r'.view = r.view ∧
          computed op r.trail.literals = some r'.trail.literals :=
    ⟨hr.beside _ _ _ _ _ _ _, id, Nat.le_refl _, fun _ ↦ ⟨rfl, rfl, h⟩⟩
  refine .get ?_
  split
  · rename_i right left rest _ hliterals
    refine .change rfl ?_
    split
    · rename_i result hresult
      refine ⟨hr.beside _ _ _ _ _ _ _, id, Nat.le_refl _, fun _ ↦ ⟨rfl, rfl, ?_⟩⟩
      rw [hliterals, computed, hresult]
      rfl
    · exact (ends_fail (hr.beside _ _ _ _ _ _ _) (by simp [Fault.stage]) _).bind fun _ r' hr' hn ↦
        ⟨hr'.beside _ _ _ _ _ _ _, id, hn, fun _ ↦ False.elim⟩
  · rename_i hnot
    refine hplain ?_
    unfold computed
    split
    · rename_i hliterals
      exact absurd hliterals (hnot _ _ _ hr.folding)
    · rfl

theorem ends_operateNot (hr : r.Ready source) :
    Ends source operateNot r r.standing.length fun _ r' ↦
      r'.current = r.current ∧ r'.view = r.view ∧
        inverted r.trail.literals = some r'.trail.literals := by
  refine .get ?_
  split
  · rename_i operand rest _ hliterals
    split
    · rename_i result hresult
      refine ⟨hr.beside _ _ _ _ _ _ _, id, Nat.le_refl _, fun _ ↦ ⟨rfl, rfl, ?_⟩⟩
      rw [hliterals, inverted, hresult]
      rfl
    · exact (ends_fail hr (by simp [Fault.stage]) _).bind fun _ r' hr' hn ↦
        ⟨hr'.beside _ _ _ _ _ _ _, id, hn, fun _ ↦ False.elim⟩
  · rename_i hnot
    refine ⟨hr.beside _ _ _ _ _ _ _, id, Nat.le_refl _, fun _ ↦ ⟨rfl, rfl, ?_⟩⟩
    unfold inverted
    split
    · rename_i hliterals
      exact absurd hliterals (hnot _ _ hr.folding)
    · rfl

end Reading

end StackScript
