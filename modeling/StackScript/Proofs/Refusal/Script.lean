import StackScript.Proofs.Acceptance.Script
import StackScript.Proofs.Passage.Outcome
import StackScript.Proofs.Refusal.Statement

/-!
# Scripts with constants that fail

A script that would be lawful but for an expression that is not sound does not compile, and a constant
subexpression that fails is among what is reported (`Script.Holed.refused`).
-/

namespace StackScript

variable {source : String} {r : Reader} {ts us : List Token} {v : View} {literals : List Literal}

namespace Reading

open Reader (invariant_spoiled)

/-! ### Declarations -/

/-- A function whose body stumbles. -/
theorem stumbles_functionDecl {f : FunctionDecl} {t n o c : Token} {ps : List Token}
    (hn : n.kind = .identifier f.name)
    (ho : o.kind = .symbol .leftParen) (hparams : Parameters f.params ps)
    (hc : c.kind = .symbol .rightParen) (hbody : StumblesBraced f.body ts) (hl : f.Lawful)
    (h : r.At source (t :: n :: o :: ps ++ c :: ts ++ us) v literals) (hus : us ≠ [])
    (hloops : v.loops = []) (hnew : f.name ∉ v.functions) : Stumbles functionDecl r := by
  obtain ⟨hdistinct, hnodup, hlawful⟩ := hl
  obtain ⟨u, us, rfl⟩ := List.exists_cons_of_ne_nil hus
  have h : r.At source (t :: n :: o :: (ps ++ c :: (ts ++ u :: us))) v literals := by simpa using h
  refine Leads.advance h (by simp) fun r₁ h₁ ↦ Leads.currentSpan (Leads.name? h₁ hn fun r₂ h₂ ↦
    Leads.join h₂ fun r₃ h₃ ↦ Leads.of_run rfl (Leads.openScope h₃ fun r₄ h₄ ↦
    Leads.close h₄ ho fun r₅ h₅ ↦ Leads.bind (leads_parameterList hparams h₅ rfl hdistinct hc) ?_))
  rintro _ r₆ ⟨rfl, literals₆, h₆⟩
  refine Leads.close h₆ hc fun r₇ h₇ ↦ Leads.declareFunction h₇ hnew fun r₈ h₈ ↦ ?_
  have hlength := h₈.standing ▸ r₈.length_standing_le
  refine Leads.of_run rfl ((stumbles_bracedBlock hbody h₈ hnodup ?_ ?_ _).bind fun _ ↦
    (invariant_spoiled.keeps_push _).bind fun _ ↦ (invariant_spoiled.keeps_emit _).bind fun _ ↦
    Keeps.bind (.modify fun r hr ↦ invariant_spoiled.aside r _ _ _ _ _ _ _ _ _ hr) fun _ ↦
    (invariant_spoiled.keeps_remark _).bind fun _ ↦ .pure _)
  · show lawfulAll v.inLoop f.body
    rw [View.inLoop, hloops]
    exact hlawful
  · omega

/-- Functions that are read, and one whose body stumbles. -/
theorem stumbles_declarations_functions {fs : List FunctionDecl} {name : String} {row : List Token}
    {fuel : Nat} (hd : InOrder FunctionDecl.Derives fs ts) (hl : ∀ f ∈ fs, f.Lawful)
    (hbegins : ∃ t rest, row = t :: rest ∧ t.kind = .keyword .funcKw)
    (hrow : ∀ (r : Reader) v literals, r.At source (row ++ us) v literals → v.loops = [] →
      name ∉ v.functions → Stumbles functionDecl r)
    (h : r.At source (ts ++ (row ++ us)) v literals) (hscopes : v.scopes = []) (hloops : v.loops = [])
    (hnodup : (v.functions ++ (fs.map (·.name) ++ [name])).Nodup)
    (hf : (ts ++ (row ++ us)).length ≤ fuel) : Stumbles (declarations fuel) r := by
  induction hd generalizing r v literals fuel with
  | nil =>
    obtain ⟨t, rest, rfl, ht⟩ := hbegins
    obtain ⟨fuel, rfl⟩ := Nat.exists_eq_add_of_le' (show 1 ≤ fuel by grind)
    have h : r.At source (t :: (rest ++ us)) v literals := h
    rw [declarations]
    refine Leads.current h ?_
    rw [ht]
    exact Leads.closeGlobals h fun r₁ literals₁ h₁ ↦
      (hrow r₁ _ literals₁ h₁ hloops (notMem_of_nodup_append_cons hnodup)).bind fun _ ↦
      (invariant_spoiled.keeps_recoverAt Reader.Invariant.keeps_atDeclaration).bind fun _ ↦
      (invariant_spoiled.keeps_declarations fuel).bind fun _ ↦ .pure _
  | @cons f rest ts us' hfirst hrest ih =>
    obtain ⟨fuel, rfl⟩ := Nat.exists_eq_add_of_le' (show 1 ≤ fuel by grind)
    obtain ⟨hlawful, hl⟩ := List.forall_mem_cons.mp hl
    obtain ⟨w, ws, hw⟩ := List.exists_cons_of_ne_nil (show us' ++ (row ++ us) ≠ [] by
      obtain ⟨t, rest, rfl, -⟩ := hbegins
      simp)
    obtain ⟨t, tail, rfl, ht⟩ : ∃ t tail, ts = t :: tail ∧ t.kind = .keyword .funcKw := by
      obtain ⟨ht⟩ := hfirst
      exact ⟨_, _, rfl, ht⟩
    rw [List.append_assoc, hw] at h
    rw [declarations]
    refine Leads.current h ?_
    rw [ht]
    refine Leads.closeGlobals h fun r₁ literals₁ h₁ ↦ Leads.bind
      (leads_functionDecl hfirst hlawful h₁ hscopes hloops
        (notMem_of_nodup_append_cons hnodup)) ?_
    rintro _ r₂ ⟨rfl, literals₂, h₂⟩
    rw [← hw] at h₂
    exact Leads.recoverAt h₂ (Stumbles.bind (ih hl h₂ hscopes hloops (by simpa using hnodup)
      (by grind)) fun _ ↦ .pure _)

/-- Globals and functions that are read, and a function whose body stumbles. -/
theorem stumbles_declarations {gs : List GlobalDecl} {fs : List FunctionDecl} {name : String}
    {row ts' : List Token} {fuel : Nat} (hd : InOrder GlobalDecl.Derives gs ts)
    (hd' : InOrder FunctionDecl.Derives fs ts') (hs : ∀ g ∈ gs, g.value.Sound)
    (hl : ∀ f ∈ fs, f.Lawful) (hbegins : ∃ t rest, row = t :: rest ∧ t.kind = .keyword .funcKw)
    (hrow : ∀ (r : Reader) v literals, r.At source (row ++ us) v literals → v.loops = [] →
      name ∉ v.functions → Stumbles functionDecl r)
    (h : r.At source (ts ++ (ts' ++ (row ++ us))) v literals) (hscopes : v.scopes = [])
    (hloops : v.loops = []) (hopen : v.globalsClosed = false)
    (hglobals : (v.globals ++ gs.map (·.name)).Nodup)
    (hnodup : (v.functions ++ (fs.map (·.name) ++ [name])).Nodup)
    (hf : (ts ++ (ts' ++ (row ++ us))).length ≤ fuel) : Stumbles (declarations fuel) r := by
  induction hd generalizing r v literals fuel with
  | nil => exact stumbles_declarations_functions hd' hl hbegins hrow h hscopes hloops hnodup hf
  | @cons g rest ts us' hfirst hrest ih =>
    obtain ⟨fuel, rfl⟩ := Nat.exists_eq_add_of_le' (show 1 ≤ fuel by grind)
    obtain ⟨hsound, hs⟩ := List.forall_mem_cons.mp hs
    obtain ⟨w, ws, hw⟩ := List.exists_cons_of_ne_nil (show us' ++ (ts' ++ (row ++ us)) ≠ [] by
      obtain ⟨t, rest, rfl, -⟩ := hbegins
      simp)
    obtain ⟨t, tail, rfl, ht⟩ : ∃ t tail, ts = t :: tail ∧ t.kind = .keyword .varKw := by
      obtain ⟨_, _, _, _, rfl, ht, -⟩ := leads_initialValue hfirst.1 hsound
      exact ⟨_, _, rfl, ht⟩
    rw [List.append_assoc, hw] at h
    rw [declarations]
    refine Leads.current h ?_
    rw [ht]
    refine Leads.bind (leads_globalDecl hfirst hsound h hopen (notMem_of_nodup_append_cons hglobals)) ?_
    rintro _ r₁ ⟨rfl, literals₁, h₁⟩
    rw [← hw] at h₁
    exact Leads.recoverAt h₁ (Stumbles.bind (ih hs h₁ hscopes hloops hopen (by simpa using hglobals)
      hnodup (by grind)) fun _ ↦ .pure _)

/-! ### Scripts -/

/-- A script that would be lawful with another expression stumbles over one that is not sound. -/
theorem stumbles_script {fill : Expr → Script} {line : Nat} {before behind : List Token} {e e₀ : Expr}
    (hfaultless : ∀ s ∈ Scanned.scan source, s.faults = []) (hholed : Script.Holed line fill before behind)
    (hl : (fill e₀).Lawful) (he : Phrase.Derives (.expression .assignment e) ts)
    (hline : lastLine ts = line) (hs : ¬ e.Sound)
    (htokens : Scanned.tokens (Scanned.scan source) = before ++ ts ++ behind) :
    Stumbles script (.ofSource true source) := by
  obtain ⟨r, literals, hrun, h⟩ := exists_at_start hfaultless
  rw [htokens] at h
  obtain @⟨globals, gs, earlier, fs, name, params, body, closeLine, f, n, o, ps, c, before, behind, later,
    ls, u, hglobals, hearlier, hf, hn, ho, hps, hc, hhole, hlater, hu⟩ := hholed
  have hbody : StumblesBraced (body e₀) (before ++ ts ++ behind) := hhole.stumbles he hline hs e₀
  have hlawful : FunctionDecl.Lawful ⟨name, params, body e₀, closeLine⟩ :=
    hl.bodies _ (List.mem_append_right _ List.mem_cons_self)
  have hnames : (([initializerName] : List String) ++ (earlier.map (·.name) ++ [name])).Nodup := by
    have hall := hl.functions
    simp only [List.map_append, List.map_cons, ← List.cons_append] at hall
    exact hall.sublist (by simp)
  have h : r.At source (gs ++ (fs ++ ((f :: n :: o :: ps ++ c :: (before ++ ts ++ behind)) ++
      (ls ++ [u])))) ((Reader.ofSource true source).view.read
        [(Reader.ofSource true source).current]) literals := by simpa using h
  refine Leads.of_run hrun (Leads.remaining h fun fuel hfuel ↦ Stumbles.bind (stumbles_declarations
    hglobals hearlier hl.values (fun g hg ↦ hl.bodies g (List.mem_append_left _ hg)) ⟨f, _, rfl, hf⟩
    (fun r v literals h hloops hnew ↦ stumbles_functionDecl hn ho hps hc hbody hlawful h (by simp) hloops
      hnew) h rfl rfl rfl hl.globals hnames hfuel) fun _ ↦ ?_)
  refine invariant_spoiled.keeps_closeGlobals.bind fun _ ↦ .get_bind fun r _ ↦ ?_
  dsimp only
  split
  · exact (invariant_spoiled.keeps_failHere _).bind fun _ ↦ .pure _
  · exact .pure _

end Reading

/-- A script that would be lawful with another expression does not compile with one that is not sound, and it
is reported that a constant fails. -/
theorem Script.Holed.refused {fill : Expr → Script} {line : Nat} {before behind : List Token}
    {e e₀ : Expr} (hholed : Script.Holed line fill before behind)
    (hfaultless : ∀ s ∈ Scanned.scan source, s.faults = []) (hl : (fill e₀).Lawful)
    (he : Phrase.Derives (.expression .assignment e) ts) (hline : lastLine ts = line) (hs : ¬ e.Sound)
    (htokens : Scanned.tokens (Scanned.scan source) = before ++ ts ++ behind) :
    ∃ d, compile source = .error d ∧ ∃ report ∈ d.emitted, report.fault.stage = .constantFolding := by
  have hspoiled : Reader.Spoiled (Reading.script.run (.ofSource true source)).2 :=
    Reading.stumbles_script hfaultless hholed hl he hline hs htokens
  obtain ⟨report, hreport, hstage⟩ : (read source).diagnostics.Recorded (·.stage = .constantFolding) := by
    rw [read, (readWith_eq true source).2]
    exact hspoiled.finish
  rcases compile_outcome source with ⟨c, hc, -⟩ | ⟨d, hd, hreported, heq, -⟩
  · -- A text that compiles has nothing to report.
    obtain ⟨d, hkept, hread⟩ := exists_kept_read source
    have hfailed := (program_of_compile hc).1
    rw [← read, hread] at hfailed
    have hclean := hkept.clean_finish hfailed
    rw [hread, hclean.emitted, hclean.pending] at hreport
    cases hreport
  · rw [← heq, hreported.pending, List.append_nil] at hreport
    exact ⟨d, hd, report, hreport, hstage⟩

end StackScript
