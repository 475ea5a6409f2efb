import StackScript.Proofs.Shape.Statement

/-!
# The shape of programs

The code of a function is never left but by giving back a value, so whatever stands behind it may
begin with any shape. That lays out whole programs, and gives every address of a program one shape
(`Script.exists_shape`).
-/

namespace StackScript

/-- Where the initialisers of globals begin. No local is in scope there. -/
def globalSites (folding : Bool) (start : Nat) : List GlobalDecl → List (Nat × List String)
  | [] => []
  | g :: rest =>
    (start, []) :: globalSites folding (start + (g.value.code folding [] start).length + 2) rest

/-- Where the statements of functions begin. -/
def functionSites (folding : Bool) (start : Nat) : List FunctionDecl → List (Nat × List String)
  | [] => []
  | f :: rest => bodySites folding none f.params.reverse start f.body ++
    functionSites folding (start + (f.code folding start).length) rest

/-- Where the statements of a script begin, the initialisers of globals included, with the names in
scope there. -/
def Script.sites (folding : Bool) (s : Script) : List (Nat × List String) :=
  globalSites folding 0 s.globals ++ functionSites folding
    ((globalsCode folding 0 s.globals).length + 2) s.functions

/-- The place of an entry: the arguments are on the stack. -/
def entryPlace (f : FunctionEntry) : Nat × Shape := (f.address, .locals f.arity)

/-- Behind the end of a function anything may follow. -/
theorem sealed_epilogue (start h line : Nat) (sh' : Shape) :
    Sealed shapeRule (start, .locals h) (epilogue line) (start + 2, sh') [] :=
  ⟨[(start, .locals h), (start + 1, .locals (h + 1))],
    .cons (.perform (.operands (n := 0) rfl) rfl (.tail _ (.head _)))
      (.cons (.giveBack rfl) (.nil _)), fun _ h ↦ nomatch h⟩

theorem globalsShaped (folding : Bool) (start : Nat) : (globals : List GlobalDecl) →
    Shaped noExit start (.locals 0) (globalsCode folding start globals) (.locals 0)
      ((globalSites folding start globals).map sitePlace)
  | [] => .nil
  | g :: rest => by
    have hstore (a : Nat) : Shaped noExit a (.locals 1)
        [⟨.setGlobal, .name g.name, g.line⟩, ⟨.pop, .count 1, g.line⟩] (.locals 0) [] :=
      .cons (.perform (.keep (.inl rfl)) trivial) (.perform (.pop rfl) trivial)
    have hvalue : Shaped noExit start (.locals 0) (g.value.code folding [] start) (.locals 1) [] :=
      g.value.shaped folding (Nat.le_refl _) start []
    have hfirst := (hvalue.append (hstore _)).site
    have hrest := globalsShaped folding
      (start + (g.value.code folding [] start).length + 2) rest
    rw [globalsCode, globalSites, List.map_cons]
    refine hfirst.append ?_
    rw [List.length_append, ← Nat.add_assoc]
    exact hrest

theorem FunctionDecl.shaped (folding : Bool) (f : FunctionDecl) (hw : f.Written) (start : Nat)
    (sh' : Shape) : Sealed shapeRule (start, .locals f.params.length) (f.code folding start)
      (start + (f.code folding start).length, sh') ((start, .locals f.params.length) ::
        (bodySites folding none f.params.reverse start f.body).map sitePlace) := by
  have hexits : LoopExits none f.params.reverse.length 0 noExit := fun _ h ↦ nomatch h
  have hbody := ((bodyShaped folding hexits start f.body hw.2).block f.closeLine).site
  rw [Code.resolve_of_settled (Code.settled_block (settled_body _ _ _ _)),
    List.length_reverse] at hbody
  have hcode := Laid.sealed hbody (sealed_epilogue _ _ f.closeLine sh')
  rw [List.append_nil] at hcode
  rw [FunctionDecl.code, List.length_append, ← Nat.add_assoc]
  exact hcode

theorem functionsShaped (folding : Bool) (start : Nat) : (functions : List FunctionDecl) →
    (∀ f ∈ functions, f.Written) → ∃ sh sh', Sealed shapeRule (start, sh)
      (functionsCode folding start functions).2
      (start + (functionsCode folding start functions).2.length, sh')
      ((functionsCode folding start functions).1.map entryPlace ++
        (functionSites folding start functions).map sitePlace)
  | [], _ => ⟨.locals 0, .locals 0, .nil _⟩
  | f :: rest, hw => by
    obtain ⟨sh, sh', hrest⟩ := functionsShaped folding (start + (f.code folding start).length) rest
      fun g hg ↦ hw g (.tail _ hg)
    have hcode := (f.shaped folding (hw f (.head _)) start sh).append hrest
    refine ⟨.locals f.params.length, sh', ?_⟩
    rw [functionsCode, functionSites]
    dsimp only
    rw [List.length_append, ← Nat.add_assoc, List.map_cons, List.map_append]
    refine hcode.of_sites fun p hp ↦ ?_
    simp only [List.mem_cons, List.mem_append, entryPlace] at hp ⊢
    rcases hp with (hp | hp) | hp | hp
    · exact .inl (.inl hp)
    · exact .inr (.inl hp)
    · exact .inl (.inr hp)
    · exact .inr (.inr hp)

/-- The code of a program is laid out so that it is never left, and begins at its entries and sites
as it should. -/
theorem Script.sealed (folding : Bool) {s : Script} (hw : s.Written) :
    ∃ sh, Sealed shapeRule (0, .locals 0) (s.program folding).code.toList
      ((s.program folding).code.size, sh)
      ((s.program folding).functions.map entryPlace ++ (s.sites folding).map sitePlace) := by
  obtain ⟨sh, sh', hfunctions⟩ := functionsShaped folding
    ((globalsCode folding 0 s.globals).length + 2) s.functions hw.2
  have hinitializer := Laid.sealed (globalsShaped folding 0 s.globals).site
    (sealed_epilogue _ _ s.initializerLine sh)
  rw [Nat.zero_add] at hinitializer
  have hcode := hinitializer.append hfunctions
  refine ⟨sh', ?_⟩
  have hlength : (s.program folding).code.size = (globalsCode folding 0 s.globals).length + 2 +
      (functionsCode folding ((globalsCode folding 0 s.globals).length + 2) s.functions).2.length := by
    simp [Script.program, epilogue, Nat.add_assoc, Nat.add_comm 2]
  rw [hlength]
  have heq : (s.program folding).code.toList = globalsCode folding 0 s.globals ++
      epilogue s.initializerLine ++
      (functionsCode folding ((globalsCode folding 0 s.globals).length + 2) s.functions).2 := by
    simp [Script.program, epilogue]
  rw [heq]
  refine hcode.of_sites fun p hp ↦ ?_
  simp only [Script.program, Script.sites, List.map_cons, List.map_append, List.mem_cons,
    List.mem_append] at hp ⊢
  rcases hp with (hp | hp) | hp | hp
  · exact .inl (.inl (.inl hp))
  · exact .inr (.inl (by simpa [epilogue] using hp))
  · exact .inl (.inl (.inr hp))
  · exact .inr (.inr hp)

/-- Every address of a program has one shape: at the entry of a function it is that of the arguments,
and wherever an instruction leads the stack has the shape that is expected there. -/
structure Program.ShapedBy (p : Program) (shape : Nat → Shape) : Prop where
  entry : ∀ f ∈ p.functions, f.address < p.code.size ∧ shape f.address = .locals f.arity
  stands : ∀ (a : Nat) (i : Instruction), p.code[a]? = some i →
    ∃ q', i.Stands (fun q ↦ q.1 < p.code.size ∧ shape q.1 = q.2) (a, shape a) q'

/-- The places of code that is laid out from an address on are at the addresses from there on. -/
theorem Route.address_eq {known : Nat × Shape → Prop} {q q' p : Nat × Shape}
    {code : List Instruction} {places : List (Nat × Shape)}
    (h : Route shapeRule known q code q' places) {k : Nat} (hp : places[k]? = some p) :
    p.1 = q.1 + k := by
  induction h generalizing k with
  | nil q => cases hp
  | cons fits _ ih =>
    cases k with
    | zero =>
      cases hp
      rfl
    | succ k =>
      have hnext := fits.address_eq
      have := ih hp
      omega

/-- The program of a script gives each of its addresses a shape. Where a statement begins, that is the
shape of the locals in scope. -/
theorem Script.exists_shape (folding : Bool) {s : Script} (hw : s.Written) :
    ∃ shape, (s.program folding).ShapedBy shape ∧ ∀ site ∈ s.sites folding,
      site.1 < (s.program folding).code.size ∧ shape site.1 = .locals site.2.length := by
  obtain ⟨sh, places, hroute, hsites⟩ := s.sealed folding hw
  let shape (a : Nat) : Shape := ((places[a]?).map (·.2)).getD sh
  have hlength : places.length = (s.program folding).code.size := by
    rw [hroute.length_eq, Array.length_toList]
  -- A place of the row is the place of its address.
  have hplace (p : Nat × Shape) (hp : p ∈ places) :
      p.1 < (s.program folding).code.size ∧ shape p.1 = p.2 := by
    obtain ⟨k, hk⟩ := List.mem_iff_getElem?.mp hp
    have haddress := hroute.address_eq hk
    rw [Nat.zero_add] at haddress
    obtain ⟨hlt, _⟩ := List.getElem?_eq_some_iff.mp hk
    refine ⟨by omega, ?_⟩
    simp only [shape, haddress, hk]
    rfl
  refine ⟨shape, ⟨fun f hf ↦ ?_, fun a i hi ↦ ?_⟩, fun site hs ↦ ?_⟩
  · exact hplace _ (hsites _ (List.mem_append_left _ (List.mem_map_of_mem hf)))
  · obtain ⟨hlt, _⟩ := Array.getElem?_eq_some_iff.mp hi
    obtain ⟨p, hp⟩ : ∃ p, places[a]? = some p := ⟨_, List.getElem?_eq_getElem (by omega)⟩
    obtain ⟨i', q', hi', hfits⟩ := hroute.exists_fits hp
    have haddress := hroute.address_eq hp
    rw [Nat.zero_add] at haddress
    rw [Array.getElem?_toList, hi] at hi'
    obtain rfl := Option.some.inj hi'
    have hshape : p = (a, shape a) := by
      rw [← haddress, (hplace p (List.mem_of_getElem? hp)).2]
    rw [← hshape]
    exact ⟨q', hfits.mono hplace⟩
  · exact hplace _ (hsites _ (List.mem_append_right _ (List.mem_map_of_mem hs)))

end StackScript
