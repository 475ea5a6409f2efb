import StackScript.Proofs.Passage.Statement

/-!
# The passage through scripts

The reader takes every text to its end. It finds a fault, or the tokens are those of a lawful script
(`ends_script`).
-/

namespace StackScript.Reading

variable {β : Type} {source : String} {r : Reader} {n : Nat} {R : β → Reader → Prop}

/-! ### Globals -/

theorem nodup_concat {names : List String} {name : String} (h : names.Nodup) (hn : name ∉ names) :
    (names ++ [name]).Nodup :=
  List.nodup_append.mpr ⟨h, by simp, fun a ha b hb hab ↦
    hn (List.mem_singleton.mp hb ▸ hab ▸ ha)⟩

theorem ends_declareGlobal (hr : r.Ready source) (name : String) (span : Span) :
    Ends source (declareGlobal name span) r r.standing.length fun _ r' ↦
      r.view.globalsClosed = false ∧ name ∉ r.view.globals ∧
        r'.view = { r.view with globals := r.view.globals ++ [name] } := by
  refine .get ?_
  split
  · exact (ends_fail hr (by simp [Fault.stage]) _).mono (Nat.le_refl _) fun _ _ ↦ False.elim
  · rename_i hclosed
    split
    · exact (ends_fail hr (by simp [Fault.stage]) _).mono (Nat.le_refl _) fun _ _ ↦ False.elim
    · rename_i hname
      exact ⟨hr.beside _ _ _ _ _ _ _, id, Nat.le_refl _,
        fun _ ↦ ⟨Bool.eq_false_iff.mpr hclosed, hname, rfl⟩⟩

theorem ends_globalDecl (hr : r.Ready source) (hc : r.current.kind = .keyword .varKw) :
    Ends source globalDecl r (r.standing.length - 1) fun globals r' ↦ ∃ g ts,
      globals = [g] ∧ GlobalDecl.Derives g ts ∧ g.value.Sound ∧ r.view.globalsClosed = false ∧
      g.name ∉ r.view.globals ∧
      r'.view = { r.view.read ts with globals := r.view.globals ++ [g.name] } := by
  refine .advance hr (by simp [hc]) fun r₁ hr₁ ↦ .currentSpan ?_
  have hn₁ := hr₁.length
  refine .bind (ends_name? hr₁.ready _) fun name? r₂ hr₂ hn₂ ↦
    .bind (ends_initialValue hr₂) fun value r₃ hr₃ hn₃ ↦
    .bind (ends_close hr₃ _ _) fun _ r₄ hr₄ hn₄ ↦ ?_
  cases name? with
  | none =>
    refine .pure hr₄ (by omega) ?_
    rintro - - ⟨_, ⟨⟩, -⟩
  | some name =>
    refine .bind (ends_declareGlobal hr₄ _ _) fun _ r₅ hr₅ hn₅ ↦
      .trail hr₅ fun r₆ hr₆ hs₆ hview₆ ↦ .line hr₆ (.pure hr₆ (by rw [hs₆]; omega) ?_)
    rintro ⟨hclosed, hnew, hview₅⟩ ⟨hsemicolon, hr₄⟩ ⟨us, hview₃, hsound, hdeclares⟩
      ⟨_, ⟨⟩, hname, hr₂⟩
    have hview₄ : r₄.view = r.view.read (r.current :: r₁.current :: us ++ [r₃.current]) := by
      simp [hr₄.view, hview₃, hr₂.view, hr₁.view]
    refine ⟨_, r.current :: r₁.current :: us ++ [r₃.current], rfl, ⟨?_, ?_⟩, hsound, ?_, ?_, ?_⟩
    · exact hdeclares _ _ _ _ hc hname (by simp [hr₂.view, View.line_read]) hsemicolon
    · show r₆.view.line = _
      rw [hview₆, hview₅, ← View.line_read r.view (by simp), ← hview₄]
      rfl
    · rwa [hview₄] at hclosed
    · rwa [hview₄] at hnew
    · rw [hview₆, hview₅, hview₄]
      rfl

/-- Closing the globals writes code at most. -/
theorem exists_run_closeGlobals (r : Reader) : ∃ trail,
    closeGlobals.run r = ((), { r with trail := trail, globalsClosed := true }) := by
  by_cases hclosed : r.globalsClosed = true
  · refine ⟨r.trail, ?_⟩
    show ((if r.globalsClosed then _ else _ : Reading Unit).run r) = _
    rw [if_pos hclosed, ← hclosed]
    rfl
  · refine ⟨(r.trail.push .null).emit 1, ?_⟩
    show ((if r.globalsClosed then _ else _ : Reading Unit).run r) = _
    rw [if_neg hclosed]
    rfl

theorem Ends.closeGlobals {f : Unit → Reading β} (hr : r.Ready source)
    (h : ∀ r', r'.Ready source → r'.standing = r.standing →
      r'.view = { r.view with globalsClosed := true } → Ends source (f ()) r' n R) :
    Ends source (Reading.closeGlobals >>= f) r n R := by
  obtain ⟨trail, hrun⟩ := exists_run_closeGlobals r
  exact .of_run hrun id (h _ (hr.beside _ _ _ _ _ _ _) rfl rfl)

/-! ### Functions -/

theorem ends_declareFunction (hr : r.Ready source) (name : String) (span : Span) :
    Ends source (declareFunction name span) r r.standing.length fun _ r' ↦
      name ∉ r.view.functions ∧
        r'.view = { r.view with functions := r.view.functions ++ [name] } := by
  refine .get ?_
  split
  · exact (ends_fail hr (by simp [Fault.stage]) _).mono (Nat.le_refl _) fun _ _ ↦ False.elim
  · rename_i hname
    exact ⟨hr.beside _ _ _ _ _ _ _, id, Nat.le_refl _, fun _ ↦ ⟨hname, rfl⟩⟩

theorem ends_parameters {fuel : Nat} (hr : r.Ready source) (hf : r.standing.length ≤ fuel) :
    Ends source (parameters fuel) r r.standing.length fun params r' ↦
      ∀ names outer, r.view.scopes = names :: outer → ∃ ts,
        params ≠ [] ∧ Parameters params ts ∧ params.Nodup ∧ (∀ name ∈ params, name ∉ names) ∧
        r'.view = { r.view.read ts with scopes := (params.reverse ++ names) :: outer } := by
  induction fuel generalizing r with
  | zero => exact absurd hf (Nat.not_le_of_lt (Reader.Ready.standing_pos r))
  | succ fuel ih =>
    refine .currentSpan (.bind (ends_name? hr _) fun name? r₁ hr₁ hn₁ ↦ ?_)
    cases name? with
    | none =>
      refine .pure hr₁ hn₁ ?_
      rintro ⟨_, ⟨⟩, -⟩
    | some name =>
      refine .bind (ends_declare hr₁ _ _) fun _ r₂ hr₂ hn₂ ↦ ?_
      refine .accept hr₂ (by simp) (fun hcomma r₃ hr₃ ↦ ?_) fun _ ↦ ?_
      · have hn₃ := hr₃.length
        refine .bind (ih hr₃.ready (by omega)) fun params r₄ hr₄ hn₄ ↦ .pure hr₄ (by omega) ?_
        rintro hparams hdeclare ⟨_, ⟨⟩, hname, hr₁⟩ names outer hscopes
        obtain ⟨hnew, hview₂⟩ := hdeclare names outer (by rw [hr₁.view]; exact hscopes)
        obtain ⟨ts, hne, hderives, hnodup, hnew', hview₄⟩ :=
          hparams (name :: names) outer (by rw [hr₃.view, hview₂]; rfl)
        refine ⟨r.current :: r₂.current :: ts, List.cons_ne_nil _ _, ?_, ?_, ?_, ?_⟩
        · obtain ⟨other, rest, rfl⟩ := List.exists_cons_of_ne_nil hne
          exact .more hname hcomma hderives
        · exact List.nodup_cons.mpr ⟨fun h ↦ hnew' name h (.head _), hnodup⟩
        · refine List.forall_mem_cons.mpr ⟨hnew, fun other h hmem ↦ ?_⟩
          exact hnew' other h (.tail _ hmem)
        · rw [hview₄, hr₃.view, hview₂, hr₁.view]
          simp [View.read]
      · refine .pure hr₂ (by omega) ?_
        rintro hdeclare ⟨_, ⟨⟩, hname, hr₁⟩ names outer hscopes
        obtain ⟨hnew, hview₂⟩ := hdeclare names outer (by rw [hr₁.view]; exact hscopes)
        refine ⟨[r.current], List.cons_ne_nil _ _, .one hname, by simp,
          fun other h ↦ List.mem_singleton.mp h ▸ hnew, ?_⟩
        rw [hview₂, hr₁.view]
        rfl

theorem ends_parameterList (hr : r.Ready source) :
    Ends source parameterList r r.standing.length fun params r' ↦
      ∀ outer, r.view.scopes = [] :: outer → ∃ ts, Parameters params ts ∧ params.Nodup ∧
        r'.view = { r.view.read ts with scopes := params.reverse :: outer } := by
  refine .check ?_
  split
  · refine .pure hr (Nat.le_refl _) fun outer hscopes ↦ ⟨[], .none, List.nodup_nil, ?_⟩
    show r.view = { r.view with scopes := [] :: outer }
    rw [← hscopes]
  · refine .remaining ((ends_parameters hr r.length_standing_le).mono (Nat.le_refl _) ?_)
    rintro params r' h outer hscopes
    obtain ⟨ts, -, hderives, hnodup, -, hview⟩ := h [] outer hscopes
    exact ⟨ts, hderives, hnodup, by rw [hview, List.append_nil]⟩

/-- The end of a function leaves all scopes and loops. -/
theorem ends_functionDecl (hr : r.Ready source) (hc : r.current.kind = .keyword .funcKw) :
    Ends source functionDecl r (r.standing.length - 1) fun functions r' ↦
      r.view.scopes = [] → r.view.loops = [] → ∃ f ts,
        functions = [f] ∧ FunctionDecl.Derives f ts ∧ f.Lawful ∧ f.name ∉ r.view.functions ∧
        r'.view = { r.view.read ts with functions := r.view.functions ++ [f.name] } := by
  refine .advance hr (by simp [hc]) fun r₁ hr₁ ↦ .currentSpan ?_
  have hn₁ := hr₁.length
  refine .bind (ends_name? hr₁.ready _) fun name? r₂ hr₂ hn₂ ↦ ?_
  cases name? with
  | none =>
    refine .pure hr₂ (by omega) ?_
    rintro ⟨_, ⟨⟩, -⟩
  | some name =>
    refine .trail hr₂ fun r₃ hr₃ hs₃ hview₃ ↦ .get (.scopes hr₃ fun r₄ hr₄ hs₄ hview₄ ↦ ?_)
    rw [← hs₃, ← hs₄] at hn₂
    refine .bind (ends_close hr₄ _ _) fun _ r₅ hr₅ hn₅ ↦
      .bind (ends_parameterList hr₅) fun params r₆ hr₆ hn₆ ↦
      .bind (ends_close hr₆ _ _) fun _ r₇ hr₇ hn₇ ↦
      .bind (ends_declareFunction hr₇ _ _) fun _ r₈ hr₈ hn₈ ↦ ?_
    have hfuel := r₈.length_standing_le
    refine .of_run rfl id (.bind (ends_bracedBlock (16 * (r₈.upcoming.length + 1) + 16) _ r₈ hr₈
      (by omega)) ?_)
    rintro ⟨body, closeLine⟩ r₉ hr₉ hn₉
    refine .trail hr₉ fun r₁₀ hr₁₀ hs₁₀ hview₁₀ ↦ .trail hr₁₀ fun r₁₁ hr₁₁ hs₁₁ hview₁₁ ↦ ?_
    have hr₁₂ := hr₁₁.beside r₁₁.functions r₁₁.globals r₁₁.globalsClosed [] [] r₁₁.trail r₁₁.remarks
    refine .change rfl (.change rfl (.pure (hr₁₂.beside _ _ _ _ _ _ _) ?_ ?_))
    · show r₁₁.standing.length ≤ _
      rw [hs₁₁, hs₁₀]
      omega
    · rintro ⟨us, hbody, hnodup, hlawful, hview₉⟩ ⟨hnew, hview₈⟩ ⟨hclosing, hr₇⟩ hparams
        ⟨hopening, hr₅⟩ ⟨_, ⟨⟩, hname, hr₂⟩ hscopes hloops
      have hview₄ : r₄.view = { r₃.view with scopes := [] :: r₃.view.scopes } := hview₄
      obtain ⟨ts, hparameters, hdistinct, hview₆⟩ := hparams r.view.scopes (by
        rw [hr₅.view, hview₄, hview₃, hr₂.view, hr₁.view]
        rfl)
      have hinLoop : r₈.view.inLoop = false := by
        rw [hview₈, hr₇.view, hview₆, hr₅.view, hview₄, hview₃, hr₂.view, hr₁.view]
        simp [View.inLoop, View.read, hloops]
      rw [hinLoop] at hlawful
      refine ⟨_, _, rfl, .intro hc hname hopening hparameters hclosing hbody,
        ⟨hdistinct, hnodup, hlawful⟩, ?_, ?_⟩
      · rwa [hr₇.view, hview₆, hr₅.view, hview₄, hview₃, hr₂.view, hr₁.view] at hnew
      · show { r₁₁.view with scopes := [], loops := [] } = _
        rw [hview₁₁, hview₁₀, hview₉, hview₈, hr₇.view, hview₆, hr₅.view, hview₄, hview₃, hr₂.view,
          hr₁.view]
        simp [View.read, hscopes, hloops]

/-! ### Scripts -/

/-- Reading the declarations of a text ends at the end of input. -/
theorem ends_declarations {fuel : Nat} (hr : r.Ready source) (hf : r.standing.length ≤ fuel) :
    Ends source (declarations fuel) r 1 fun s r' ↦
      r.view.scopes = [] → r.view.loops = [] → ∃ ts us,
        InOrder GlobalDecl.Derives s.1 ts ∧ InOrder FunctionDecl.Derives s.2 us ∧
        (r.view.globalsClosed = true → s.1 = []) ∧
        (∀ g ∈ s.1, g.value.Sound) ∧ (∀ f ∈ s.2, f.Lawful) ∧
        (r.view.globals.Nodup → (r.view.globals ++ s.1.map (·.name)).Nodup) ∧
        (r.view.functions.Nodup → (r.view.functions ++ s.2.map (·.name)).Nodup) ∧
        r'.view.taken = (r.view.read (ts ++ us)).taken ∧
        r'.view.functions = r.view.functions ++ s.2.map (·.name) := by
  induction fuel generalizing r with
  | zero => exact absurd hf (Nat.not_le_of_lt (Reader.Ready.standing_pos r))
  | succ fuel ih =>
    have hpos := Reader.Ready.standing_pos r
    refine .current ?_
    split
    · rename_i hc
      refine .pure hr ?_ fun _ _ ↦ ⟨[], [], .nil, .nil, fun _ ↦ rfl, by simp, by simp, by simp,
        by simp, rfl, by simp⟩
      have hended := hr.ended
      rw [if_pos hc] at hended
      simp [Reader.standing, hended, Scanned.tokens]
    · rename_i hc
      refine .bind (ends_globalDecl hr hc) fun globals r₁ hr₁ hn₁ ↦
        .bind (ends_recoverAt boundary_atDeclaration hr₁) fun _ r₂ hr₂ hn₂ ↦
        .bind (ih hr₂ (by omega)) ?_
      rintro ⟨more, functions⟩ r₃ hr₃ hn₃
      refine .pure hr₃ hn₃ ?_
      rintro hrest rfl ⟨g, ts, rfl, hderives, hsound, hopen, hnew, hview⟩ hscopes hloops
      obtain ⟨us, vs, hglobals, hfunctions, -, hvalues, hbodies, hdistinct, hdistinct', htaken,
        hnames⟩ := hrest (by rw [hview]; exact hscopes) (by rw [hview]; exact hloops)
      refine ⟨ts ++ us, vs, .cons hderives hglobals, hfunctions, fun h ↦ ?_, ?_, hbodies,
        fun h ↦ ?_, ?_, ?_, ?_⟩
      · rw [hopen] at h
        cases h
      · exact List.forall_mem_cons.mpr ⟨hsound, hvalues⟩
      · rw [hview] at hdistinct
        have := hdistinct (nodup_concat h hnew)
        simpa using this
      · rwa [hview] at hdistinct'
      · rw [htaken, hview]
        simp [View.read]
      · rw [hnames, hview]
        rfl
    · rename_i hc
      refine .closeGlobals hr fun r₁ hr₁ hs₁ hview₁ ↦ ?_
      have hc₁ : r₁.current.kind = .keyword .funcKw := by rw [(List.cons.inj hs₁).1, hc]
      refine .bind (ends_functionDecl hr₁ hc₁) fun functions r₂ hr₂ hn₂ ↦
        .bind (ends_recoverAt boundary_atDeclaration hr₂) fun _ r₃ hr₃ hn₃ ↦ ?_
      rw [hs₁] at hn₂
      refine .bind (ih hr₃ (by omega)) ?_
      rintro ⟨globals, more⟩ r₄ hr₄ hn₄
      refine .pure hr₄ hn₄ ?_
      rintro hrest rfl hfunction hscopes hloops
      obtain ⟨f, ts, rfl, hderives, hlawful, hnew, hview⟩ :=
        hfunction (by rw [hview₁]; exact hscopes) (by rw [hview₁]; exact hloops)
      obtain ⟨us, vs, hglobals, hfunctions, hclosed, hvalues, hbodies, hdistinct, hdistinct',
        htaken, hnames⟩ := hrest (by rw [hview, hview₁]; exact hscopes)
          (by rw [hview, hview₁]; exact hloops)
      -- No global may follow a function.
      obtain rfl : globals = [] := hclosed (by rw [hview, hview₁]; rfl)
      obtain rfl : us = [] := by cases hglobals; rfl
      refine ⟨[], ts ++ vs, .nil, .cons hderives hfunctions, fun _ ↦ rfl, hvalues, ?_, by simp,
        fun h ↦ ?_, ?_, ?_⟩
      · exact List.forall_mem_cons.mpr ⟨hlawful, hbodies⟩
      · rw [hview, hview₁] at hdistinct'
        rw [hview₁] at hnew
        have := hdistinct' (nodup_concat h hnew)
        simpa using this
      · rw [htaken, hview, hview₁]
        simp [View.read]
      · rw [hnames, hview, hview₁]
        simp
    · rename_i hend _ _
      refine .skip hr (by simp [Fault.stage]) hend fun r₁ hr₁ hn₁ hfailed ↦ .of_failed hfailed ?_
      exact .bind (ends_recoverAt boundary_atDeclaration hr₁) fun _ r₂ hr₂ hn₂ ↦
        (ih hr₂ (by omega)).mono (Nat.le_refl _) fun _ _ _ _ ↦ trivial

/-- Reading a script takes all tokens of the text, and finds a fault unless they are those of a lawful
script. -/
theorem ends_script (source : String) :
    ∃ s r, script.run (.ofSource true source) = (s, r) ∧ r.Ready source ∧ r.standing.length ≤ 1 ∧
      (r.diagnostics.failed = false →
        s.Derives (Scanned.tokens (Scanned.scan source)) ∧ s.Lawful) := by
  obtain ⟨r, hrun, hr, hview⟩ := ready_start source
  have hends : Ends source (do
      let declared ← declarations (← remaining)
      Reading.closeGlobals
      if (← get).functions.length = 1 then failHere .noFunctions
      return (⟨declared.1, declared.2⟩ : Script)) r 1 fun s r' ↦
        r'.standing.length ≤ 1 → r'.Ready source →
          s.Derives (Scanned.tokens (Scanned.scan source)) ∧ s.Lawful := by
    refine .remaining (.bind (ends_declarations hr r.length_standing_le)
      fun declared r₁ hr₁ hn₁ ↦ .closeGlobals hr₁ fun r₂ hr₂ hs₂ hview₂ ↦ .get ?_)
    rw [← hs₂] at hn₁
    split
    · exact .bind (ends_failHere hr₂ (by simp [Fault.stage])) fun _ r₃ hr₃ hn₃ ↦
        .pure hr₃ (by omega) False.elim
    · rename_i hfunctions
      refine .pure hr₂ hn₁ fun h hn hready ↦ ?_
      obtain ⟨ts, us, hglobals, hdefined, -, hvalues, hbodies, hdistinct, hdistinct', htaken,
        hnames⟩ := h (by rw [hview]; rfl) (by rw [hview]; rfl)
      -- One token is left, the end of input, and all others have been taken.
      obtain ⟨hend, -, hstanding⟩ := hready.at_end hn
      have htaken : r₂.taken = (ts ++ us).reverse ++ [(Reader.ofSource true source).current] := by
        show r₂.view.taken = _
        rw [hview₂, htaken, hview]
        rfl
      have htext : Scanned.tokens (Scanned.scan source) = ts ++ us ++ [r₂.current] := by
        have htext := hready.text
        rw [htaken, hstanding] at htext
        simpa using htext.symm
      have hfunctions : ¬r₂.view.functions.length = 1 := hfunctions
      rw [hview₂, hnames, hview] at hfunctions
      refine ⟨htext ▸ .intro hglobals hdefined ?_ hend, ?_, ?_, hvalues, hbodies⟩
      · intro hnone
        rw [hnone] at hfunctions
        exact hfunctions rfl
      · rw [hview] at hdistinct
        exact hdistinct List.nodup_nil
      · rw [hview] at hdistinct'
        exact hdistinct' (by simp [View.read, Reader.view, Reader.ofSource])
  refine ⟨_, _, ?_, hends.ready, hends.length, fun h ↦ hends.clean h hends.length hends.ready⟩
  rw [script, StateT.run_bind, hrun]
  rfl

end StackScript.Reading
