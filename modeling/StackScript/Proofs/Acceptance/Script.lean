import StackScript.Proofs.Acceptance.Statement
import StackScript.Proofs.Passage.Script

/-!
# Reading scripts that are written well

Every lawful script is read from its tokens, and no fault is found (`exists_script`).
-/

namespace StackScript

variable {β : Type} {source : String} {r : Reader} {u : Token} {ts us : List Token} {v : View}
  {literals : List Literal} {P : β → Reader → Prop}

namespace Reading.Leads

/-! ### Names -/

/-- A new global is declared before all functions. -/
theorem declareGlobal {name : String} {span : Span} {f : Unit → Reading β}
    (h : r.At source ts v literals) (hopen : v.globalsClosed = false) (hnew : name ∉ v.globals)
    (hf : ∀ r' : Reader, r'.At source ts { v with globals := v.globals ++ [name] } literals →
      Leads (f ()) r' P) : Leads (Reading.declareGlobal name span >>= f) r P := by
  have hclosed : ¬r.globalsClosed = true := by
    rw [show r.globalsClosed = v.globalsClosed from congrArg View.globalsClosed h.view, hopen]
    exact Bool.false_ne_true
  have hglobals : r.globals = v.globals := congrArg View.globals h.view
  have hrun : (Reading.declareGlobal name span).run r =
      ((), { r with globals := v.globals ++ [name] }) := by
    rw [Reading.declareGlobal, StateT.run_bind, StateT.run_get, pure_bind]
    dsimp only
    rw [if_neg hclosed, if_neg (hglobals ▸ hnew), hglobals]
    rfl
  refine of_run hrun (hf _ ⟨h.faultless, h.ready.beside _ _ _ _ _ _ _, h.failed, h.standing, ?_,
    h.literals⟩)
  rw [← h.view]
  rfl

theorem closeGlobals {f : Unit → Reading β} (h : r.At source ts v literals)
    (hf : ∀ (r' : Reader) literals', r'.At source ts { v with globalsClosed := true } literals' →
      Leads (f ()) r' P) : Leads (Reading.closeGlobals >>= f) r P := by
  obtain ⟨trail, hrun⟩ := exists_run_closeGlobals r
  refine of_run hrun (hf _ trail.literals ⟨h.faultless, h.ready.beside _ _ _ _ _ _ _, h.failed,
    h.standing, ?_, rfl⟩)
  rw [← h.view]
  rfl

/-- A new function is declared. -/
theorem declareFunction {name : String} {span : Span} {f : Unit → Reading β}
    (h : r.At source ts v literals) (hnew : name ∉ v.functions)
    (hf : ∀ r' : Reader, r'.At source ts { v with functions := v.functions ++ [name] } literals →
      Leads (f ()) r' P) : Leads (Reading.declareFunction name span >>= f) r P := by
  have hfunctions : r.functions = v.functions := congrArg View.functions h.view
  have hrun : (Reading.declareFunction name span).run r =
      ((), { r with functions := v.functions ++ [name] }) := by
    rw [Reading.declareFunction, StateT.run_bind, StateT.run_get, pure_bind]
    dsimp only
    rw [if_neg (hfunctions ▸ hnew), hfunctions]
    rfl
  refine of_run hrun (hf _ ⟨h.faultless, h.ready.beside _ _ _ _ _ _ _, h.failed, h.standing, ?_,
    h.literals⟩)
  rw [← h.view]
  rfl

end Reading.Leads

namespace Reading

/-! ### Declarations -/

theorem leads_globalDecl {g : GlobalDecl} (hg : g.Derives ts) (hs : g.value.Sound)
    (h : r.At source (ts ++ u :: us) v literals) (hopen : v.globalsClosed = false)
    (hnew : g.name ∉ v.globals) : Leads globalDecl r fun gs r' ↦ gs = [g] ∧
      ∃ literals', r'.At source (u :: us)
        { v.read ts with globals := v.globals ++ [g.name] } literals' := by
  obtain ⟨name, value, line⟩ := g
  obtain ⟨hdeclares, rfl⟩ := hg
  obtain ⟨t, n, mid, s, rfl, ht, hn, hsemicolon, hvalue⟩ := leads_initialValue hdeclares hs
  have h : r.At source (t :: n :: (mid ++ s :: u :: us)) v literals := by simpa using h
  refine .advance h (by simp) fun r₁ h₁ ↦ .currentSpan (.name? h₁ hn fun r₂ h₂ ↦
    .bind (hvalue h₂ (by simp)) ?_)
  rintro _ r₃ ⟨rfl, literals', h₃⟩
  refine .close h₃ hsemicolon fun r₄ h₄ ↦ .declareGlobal h₄ hopen hnew fun r₅ h₅ ↦
    .emit h₅ fun r₆ h₆ ↦ .line h₆ (.pure ⟨?_, [], ?_⟩)
  · rw [show lastLine (t :: n :: mid ++ [s]) = s.span.line from lastLine_concat _ _]
    rfl
  · simpa [View.read] using h₆

theorem leads_parameters {params names : List String} {outer : List (List String)} {fuel : Nat}
    (hp : Parameters params ts) (hne : params ≠ []) (h : r.At source (ts ++ u :: us) v literals)
    (hscopes : v.scopes = names :: outer) (hnodup : params.Nodup)
    (hnew : ∀ name ∈ params, name ∉ names) (hf : (ts ++ u :: us).length ≤ fuel)
    (hu : u.kind ≠ .symbol .comma) : Leads (parameters fuel) r fun params' r' ↦
      params' = params ∧ ∃ literals', r'.At source (u :: us)
        { v.read ts with scopes := (params.reverse ++ names) :: outer } literals' := by
  induction hp generalizing r v literals names fuel with
  | none => exact absurd rfl hne
  | @one name n hn =>
    obtain ⟨fuel, rfl⟩ := Nat.exists_eq_add_of_le' (show 1 ≤ fuel by grind)
    rw [parameters]
    refine .currentSpan (.name? h hn fun r₁ h₁ ↦
      .declare h₁ hscopes (hnew name (by simp)) fun r₂ h₂ ↦ .pass h₂ hu (.pure ⟨rfl, literals, ?_⟩))
    simpa using h₂
  | @more name other rest n c ts hn hc hp ih =>
    obtain ⟨fuel, rfl⟩ := Nat.exists_eq_add_of_le' (show 1 ≤ fuel by grind)
    obtain ⟨hname, hrest⟩ := List.nodup_cons.mp hnodup
    have h : r.At source (n :: c :: (ts ++ u :: us)) v literals := h
    rw [parameters]
    refine .currentSpan (.name? h hn fun r₁ h₁ ↦
      .declare h₁ hscopes (hnew name (by simp)) fun r₂ h₂ ↦ .accept h₂ hc (by simp) fun r₃ h₃ ↦
      .bind (ih (by simp) h₃ rfl hrest (fun later hlater hmem ↦ ?_) (by grind)) ?_)
    · rcases List.mem_cons.mp hmem with rfl | hmem
      · exact hname hlater
      · exact hnew later (.tail _ hlater) hmem
    · rintro _ r₄ ⟨rfl, literals', h₄⟩
      refine .pure ⟨rfl, literals', ?_⟩
      simpa [View.read] using h₄

theorem leads_parameterList {params : List String} {outer : List (List String)}
    (hp : Parameters params ts) (h : r.At source (ts ++ u :: us) v literals)
    (hscopes : v.scopes = [] :: outer) (hnodup : params.Nodup) (hu : u.kind = .symbol .rightParen) :
    Leads parameterList r fun params' r' ↦ params' = params ∧ ∃ literals', r'.At source (u :: us)
      { v.read ts with scopes := params.reverse :: outer } literals' := by
  have hmany (hne : params ≠ [])
      (hfirst : ∃ n rest, ts = n :: rest ∧ ∃ name, n.kind = .identifier name) :
      Leads parameterList r fun params' r' ↦ params' = params ∧ ∃ literals', r'.At source (u :: us)
        { v.read ts with scopes := params.reverse :: outer } literals' := by
    obtain ⟨n, rest, rfl, name, hn⟩ := hfirst
    refine .check h ?_
    rw [if_neg (by simp [hn])]
    refine .remaining h fun fuel hf ↦ ?_
    simpa using leads_parameters hp hne h hscopes hnodup (by simp) hf (by simp [hu])
  cases hp with
  | none =>
    have h : r.At source (u :: us) v literals := h
    refine .check h ?_
    rw [if_pos (decide_eq_true hu)]
    refine .pure ⟨rfl, literals, ?_⟩
    rw [List.reverse_nil, ← hscopes]
    exact h
  | one hn => exact hmany (by simp) ⟨_, _, rfl, _, hn⟩
  | more hn => exact hmany (by simp) ⟨_, _, rfl, _, hn⟩

/-- The end of a function leaves all scopes and loops. -/
theorem leads_functionDecl {f : FunctionDecl} (hd : f.Derives ts) (hl : f.Lawful)
    (h : r.At source (ts ++ u :: us) v literals) (hscopes : v.scopes = []) (hloops : v.loops = [])
    (hnew : f.name ∉ v.functions) : Leads functionDecl r fun fs r' ↦ fs = [f] ∧
      ∃ literals', r'.At source (u :: us)
        { v.read ts with functions := v.functions ++ [f.name] } literals' := by
  obtain @⟨name, params, body, closeLine, t, n, o, ps, c, ts, ht, hn, ho, hparams, hc, hbody⟩ := hd
  obtain ⟨hdistinct, hnodup, hlawful⟩ := hl
  have h : r.At source (t :: n :: o :: (ps ++ c :: (ts ++ u :: us))) v literals := by simpa using h
  refine .advance h (by simp) fun r₁ h₁ ↦ .currentSpan (.name? h₁ hn fun r₂ h₂ ↦
    .join h₂ fun r₃ h₃ ↦ .of_run rfl (.openScope h₃ fun r₄ h₄ ↦ .close h₄ ho fun r₅ h₅ ↦
    .bind (leads_parameterList hparams h₅ rfl hdistinct hc) ?_))
  rintro _ r₆ ⟨rfl, literals₆, h₆⟩
  refine .close h₆ hc fun r₇ h₇ ↦ .declareFunction h₇ hnew fun r₈ h₈ ↦ ?_
  have hlength := h₈.standing ▸ r₈.length_standing_le
  refine .of_run rfl (.bind (leads_bracedBlock (reads_clause hbody) h₈ hnodup ?_ ?_ _) ?_)
  · show lawfulAll v.inLoop body
    rw [View.inLoop, hloops]
    exact hlawful
  · omega
  rintro _ r₉ ⟨rfl, literals₉, h₉⟩
  refine .push h₉ fun r₁₀ h₁₀ ↦ .emit h₁₀ fun r₁₁ h₁₁ ↦ .leave h₁₁ fun r₁₂ h₁₂ ↦
    .remark h₁₂ fun r₁₃ h₁₃ ↦ .pure ⟨rfl, [], ?_⟩
  simpa [View.read, hscopes, hloops] using h₁₃

/-! ### Scripts -/

theorem notMem_of_nodup_append_cons {names rest : List String} {name : String}
    (h : (names ++ name :: rest).Nodup) : name ∉ names :=
  fun hmem ↦ (List.nodup_append.mp h).2.2 _ hmem _ List.mem_cons_self rfl

/-- Only functions are left to be read. -/
theorem leads_declarations_functions {fs : List FunctionDecl} {fuel : Nat}
    (hd : InOrder FunctionDecl.Derives fs ts) (hl : ∀ f ∈ fs, f.Lawful)
    (h : r.At source (ts ++ [u]) v literals) (hu : u.kind = .endOfInput) (hscopes : v.scopes = [])
    (hloops : v.loops = []) (hnodup : (v.functions ++ fs.map (·.name)).Nodup)
    (hf : (ts ++ [u]).length ≤ fuel) : Leads (declarations fuel) r fun s r' ↦ s = ([], fs) ∧
      ∃ v' literals', r'.At source [u] v' literals' ∧
        v'.functions = v.functions ++ fs.map (·.name) := by
  induction hd generalizing r v literals fuel with
  | nil =>
    obtain ⟨fuel, rfl⟩ := Nat.exists_eq_add_of_le' (show 1 ≤ fuel by simpa using hf)
    have h : r.At source [u] v literals := h
    rw [declarations]
    refine .current h ?_
    rw [hu]
    exact .pure ⟨rfl, v, literals, h, by simp⟩
  | @cons f rest ts us hfirst hrest ih =>
    obtain ⟨fuel, rfl⟩ := Nat.exists_eq_add_of_le' (show 1 ≤ fuel by grind)
    obtain ⟨hlawful, hl⟩ := List.forall_mem_cons.mp hl
    -- Behind the function there is another one, or the end of input.
    obtain ⟨w, ws, hw⟩ := List.exists_cons_of_ne_nil (show us ++ [u] ≠ [] by simp)
    obtain ⟨t, tail, rfl, ht⟩ : ∃ t tail, ts = t :: tail ∧ t.kind = .keyword .funcKw := by
      obtain ⟨ht⟩ := hfirst
      exact ⟨_, _, rfl, ht⟩
    have hlength := congrArg List.length hw
    rw [List.append_assoc, hw] at h hf
    rw [declarations]
    refine .current h ?_
    rw [ht]
    refine .closeGlobals h fun r₁ literals₁ h₁ ↦ .bind
      (leads_functionDecl hfirst hlawful h₁ hscopes hloops
        (notMem_of_nodup_append_cons hnodup)) ?_
    rintro _ r₂ ⟨rfl, literals₂, h₂⟩
    rw [← hw] at h₂
    refine .recoverAt h₂ (.bind (ih hl h₂ hscopes hloops (by simpa using hnodup) (by grind)) ?_)
    rintro _ r₃ ⟨rfl, v₃, literals₃, h₃, hv₃⟩
    exact .pure ⟨rfl, v₃, literals₃, h₃, by simpa using hv₃⟩

/-- The declarations of a script are left to be read. -/
theorem leads_declarations {gs : List GlobalDecl} {fs : List FunctionDecl} {fuel : Nat}
    (hd : InOrder GlobalDecl.Derives gs ts) (hd' : InOrder FunctionDecl.Derives fs us)
    (hs : ∀ g ∈ gs, g.value.Sound) (hl : ∀ f ∈ fs, f.Lawful)
    (h : r.At source (ts ++ (us ++ [u])) v literals) (hu : u.kind = .endOfInput)
    (hscopes : v.scopes = []) (hloops : v.loops = []) (hopen : v.globalsClosed = false)
    (hglobals : (v.globals ++ gs.map (·.name)).Nodup)
    (hnodup : (v.functions ++ fs.map (·.name)).Nodup) (hf : (ts ++ (us ++ [u])).length ≤ fuel) :
    Leads (declarations fuel) r fun s r' ↦ s = (gs, fs) ∧
      ∃ v' literals', r'.At source [u] v' literals' ∧
        v'.functions = v.functions ++ fs.map (·.name) := by
  induction hd generalizing r v literals fuel with
  | nil => exact leads_declarations_functions hd' hl h hu hscopes hloops hnodup hf
  | @cons g rest ts ts' hfirst hrest ih =>
    obtain ⟨fuel, rfl⟩ := Nat.exists_eq_add_of_le' (show 1 ≤ fuel by grind)
    obtain ⟨hsound, hs⟩ := List.forall_mem_cons.mp hs
    obtain ⟨w, ws, hw⟩ := List.exists_cons_of_ne_nil (show ts' ++ (us ++ [u]) ≠ [] by simp)
    obtain ⟨t, tail, rfl, ht⟩ : ∃ t tail, ts = t :: tail ∧ t.kind = .keyword .varKw := by
      obtain ⟨_, _, _, _, rfl, ht, -⟩ := leads_initialValue hfirst.1 hsound
      exact ⟨_, _, rfl, ht⟩
    have hlength := congrArg List.length hw
    rw [List.append_assoc, hw] at h hf
    rw [declarations]
    refine .current h ?_
    rw [ht]
    refine .bind (leads_globalDecl hfirst hsound h hopen (notMem_of_nodup_append_cons hglobals)) ?_
    rintro _ r₁ ⟨rfl, literals₁, h₁⟩
    rw [← hw] at h₁
    refine .recoverAt h₁ (.bind (ih hs h₁ hscopes hloops hopen (by simpa using hglobals) hnodup
      (by grind)) ?_)
    rintro _ r₂ ⟨rfl, v₂, literals₂, h₂, hv₂⟩
    exact .pure ⟨rfl, v₂, literals₂, h₂, hv₂⟩

/-- The reader of a text without lexical faults stands at its first token. -/
theorem exists_at_start (hfaultless : ∀ s ∈ Scanned.scan source, s.faults = []) :
    ∃ r literals, advance.run (.ofSource true source) = ((), r) ∧
      r.At source (Scanned.tokens (Scanned.scan source)) ((Reader.ofSource true source).view.read
        [(Reader.ofSource true source).current]) literals := by
  obtain ⟨r, hrun, hready, hview⟩ := ready_start source
  refine ⟨r, r.trail.literals, hrun, hfaultless, hready, ?_, ?_, hview, rfl⟩
  · rw [show r = (advance.run (.ofSource true source)).2 by rw [hrun]]
    exact failed_skim .empty hfaultless
  · have htext := hready.text
    rw [show r.taken = [(Reader.ofSource true source).current] from congrArg View.taken hview]
      at htext
    exact (List.cons.inj htext).2

/-- A lawful script is read from its tokens, and no fault is found. -/
theorem exists_script {s : Script} (hfaultless : ∀ s ∈ Scanned.scan source, s.faults = [])
    (hd : s.Derives (Scanned.tokens (Scanned.scan source))) (hl : s.Lawful) :
    ∃ r, script.run (.ofSource true source) = (s, r) ∧ r.diagnostics.failed = false := by
  obtain ⟨r, literals, hrun, h⟩ := exists_at_start hfaultless
  have hrest : Leads (do
      let declared ← declarations (← remaining)
      Reading.closeGlobals
      if (← get).functions.length = 1 then failHere .noFunctions
      return (⟨declared.1, declared.2⟩ : Script)) r fun s' r' ↦
        s' = s ∧ r'.diagnostics.failed = false := by
    generalize Scanned.tokens (Scanned.scan source) = ts at hd h
    obtain @⟨globals, functions, gs, fs, e, hglobals, hfunctions, hne, he⟩ := hd
    rw [List.append_assoc] at h
    refine .remaining h fun fuel hf ↦ .bind (leads_declarations hglobals hfunctions hl.values
      hl.bodies h he rfl rfl rfl hl.globals hl.functions hf) ?_
    rintro _ r₁ ⟨rfl, v₁, literals₁, h₁, hv₁⟩
    refine .closeGlobals h₁ fun r₂ literals₂ h₂ ↦ .of_run rfl ?_
    -- The name of the initialisers is one of them, so there is a function if there are two.
    have hnames : r₂.functions = initializerName :: functions.map (·.name) :=
      (congrArg View.functions h₂.view).trans hv₁
    rw [if_neg (by simpa [hnames] using hne)]
    exact ⟨rfl, h₂.failed⟩
  refine ⟨(script.run (.ofSource true source)).2, Prod.ext ?_ rfl, ?_⟩
  · rw [script, StateT.run_bind, hrun]
    exact hrest.1
  · rw [script, StateT.run_bind, hrun]
    exact hrest.2

end Reading

end StackScript
