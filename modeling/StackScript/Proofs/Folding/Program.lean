import Mathlib.Data.List.Forall2
import StackScript.Proofs.Folding.Syntax

/-!
# The two programs of a script

The functions of both programs are the same but for their addresses, and the plain code of each is
aligned with its folded code. From an address in the plain code and the corresponding one in the folded
code, each run finds what the other does (`Program.Beside`).
-/

namespace StackScript

/-- One function in two programs. -/
structure FunctionEntry.Beside (known : Nat × Nat → Prop) (f f' : FunctionEntry) : Prop where
  name : f.name = f'.name
  arity : f.arity = f'.arity
  address : known (f.address, f'.address)

/-- Two programs in which corresponding addresses are known. -/
structure Program.Beside (plain folded : Program) (known : Nat × Nat → Prop) : Prop where
  functions : List.Forall₂ (FunctionEntry.Beside known) plain.functions folded.functions
  stands : ∀ a b, known (a, b) → ∃ block i q', StandsFor known (block, i) (a, b) q' ∧
    plain.Has a block ∧ folded.code[b]? = some i

/-- Plain and folded code that is never left. -/
def SealedPair (a b : Nat) (plain folded : List Instruction) (sites : List (Nat × Nat)) : Prop :=
  ∃ items, plainCode items = plain ∧ foldedCode items = folded ∧
    Sealed foldRule (a, b) items (a + plain.length, b + folded.length) sites

namespace SealedPair

variable {a b : Nat} {plain plain' folded folded' : List Instruction} {sites sites' : List (Nat × Nat)}

theorem append (h : SealedPair a b plain folded sites)
    (h' : SealedPair (a + plain.length) (b + folded.length) plain' folded' sites') :
    SealedPair a b (plain ++ plain') (folded ++ folded') (sites ++ sites') := by
  obtain ⟨items, rfl, rfl, hs⟩ := h
  obtain ⟨items', rfl, rfl, hs'⟩ := h'
  refine ⟨items ++ items', List.flatMap_append, List.map_append, ?_⟩
  rw [List.length_append, List.length_append, ← Nat.add_assoc, ← Nat.add_assoc]
  exact hs.append hs'

/-- Code is sealed by an epilogue, and begins at corresponding addresses. -/
theorem of_aligned (h : Aligned noExit a b plain folded) (line : Nat) :
    SealedPair a b (plain ++ epilogue line) (folded ++ epilogue line) [(a, b)] := by
  obtain ⟨items, rfl, rfl, hl⟩ := h
  have hepilogue (a b : Nat) : Sealed foldRule (a, b)
      [([Code.push .null line], Code.push .null line), ([⟨.giveBack, .none, line⟩], ⟨.giveBack, .none, line⟩)]
      (a + 2, b + 2) [] :=
    ⟨[(a, b), (a + 1, b + 1)], .cons (.same rfl (.inr (.tail _ (.head _))))
      (.cons (.same rfl (.inl rfl)) (.nil _)), fun _ h ↦ nomatch h⟩
  have hcode := hl.site.sealed (hepilogue _ _)
  refine ⟨items ++ [([Code.push .null line], Code.push .null line),
    ([⟨.giveBack, .none, line⟩], ⟨.giveBack, .none, line⟩)], by simp [plainCode, epilogue],
    by simp [foldedCode, epilogue], ?_⟩
  rw [List.length_append, List.length_append, ← Nat.add_assoc, ← Nat.add_assoc]
  exact hcode

end SealedPair

theorem alignedGlobals (a b : Nat) : (globals : List GlobalDecl) →
    Aligned noExit a b (globalsCode false a globals) (globalsCode true b globals)
  | [] => .nil
  | g :: rest => by
    have hstore (a b : Nat) : Aligned noExit a b
        [⟨.setGlobal, .name g.name, g.line⟩, ⟨.pop, .count 1, g.line⟩] _ :=
      .same (by simp [Operation.isJump])
    exact ((g.value.aligned [] a b).append (hstore _ _)).append (alignedGlobals _ _ rest)

theorem FunctionDecl.sealedPair (f : FunctionDecl) (a b : Nat) :
    SealedPair a b (f.code false a) (f.code true b) [(a, b)] := by
  have hloop : LoopPair noExit (0, 0) none none := trivial
  have hbody := (alignedBody hloop f.params.reverse a b f.body).block f.closeLine
  rw [Code.resolve_of_settled (Code.settled_block (settled_body _ _ _ _)),
    Code.resolve_of_settled (Code.settled_block (settled_body _ _ _ _))] at hbody
  exact .of_aligned hbody f.closeLine

theorem sealedPair_functions (a b : Nat) : (functions : List FunctionDecl) → ∃ sites,
    SealedPair a b (functionsCode false a functions).2 (functionsCode true b functions).2 sites ∧
    List.Forall₂ (FunctionEntry.Beside (· ∈ sites)) (functionsCode false a functions).1
      (functionsCode true b functions).1
  | [] => ⟨[], ⟨[], rfl, rfl, .nil _⟩, .nil⟩
  | f :: rest => by
    obtain ⟨sites, hrest, hentries⟩ := sealedPair_functions (a + (f.code false a).length)
      (b + (f.code true b).length) rest
    refine ⟨[(a, b)] ++ sites, (f.sealedPair a b).append hrest, .cons ⟨rfl, rfl, .head _⟩ ?_⟩
    exact hentries.imp fun g g' h ↦ ⟨h.name, h.arity, .tail _ h.address⟩

/-- A place of a row is where its item begins, in both codes. -/
theorem Route.exists_split {known : Nat × Nat → Prop} {q q' p : Nat × Nat}
    {items : List (List Instruction × Instruction)} {places : List (Nat × Nat)}
    (h : Route foldRule known q items q' places) (hp : p ∈ places) :
    ∃ before x after p', items = before ++ x :: after ∧ StandsFor known x p p' ∧
      p = (q.1 + (plainCode before).length, q.2 + before.length) := by
  induction h with
  | nil q => cases hp
  | @cons x items q q₁ q₂ places fits _ ih =>
    cases hp with
    | head => exact ⟨[], x, items, q₁, rfl, fits, rfl⟩
    | tail _ hp =>
      obtain ⟨before, y, after, p', rfl, hfits, rfl⟩ := ih hp
      refine ⟨x :: before, y, after, p', rfl, hfits, ?_⟩
      have hnext : q₁ = (q.1 + x.1.length, q.2 + 1) := by cases fits <;> rfl
      rw [hnext]
      simp [plainCode, Nat.add_assoc, Nat.add_comm 1]

/-- The plain program of a script beside its folded program. -/
theorem Script.exists_beside (s : Script) :
    ∃ known, (s.program false).Beside (s.program true) known := by
  have hinitializer : SealedPair 0 0 _ _ _ :=
    .of_aligned (alignedGlobals 0 0 s.globals) s.initializerLine
  obtain ⟨sites, hfunctions, hentries⟩ := sealedPair_functions
    (0 + (globalsCode false 0 s.globals ++ epilogue s.initializerLine).length)
    (0 + (globalsCode true 0 s.globals ++ epilogue s.initializerLine).length) s.functions
  obtain ⟨items, hplain, hfolded, places, hroute, hsites⟩ := hinitializer.append hfunctions
  have hcode : (s.program false).code.toList = plainCode items := by
    simp only [hplain, Nat.zero_add]
    rfl
  have hcode' : (s.program true).code.toList = foldedCode items := by
    simp only [hfolded, Nat.zero_add]
    rfl
  rw [Nat.zero_add, Nat.zero_add] at hentries
  refine ⟨(· ∈ places), ⟨.cons ⟨rfl, rfl, hsites _ (.head _)⟩ ?_, fun a b hp ↦ ?_⟩⟩
  · exact hentries.imp fun f f' h ↦ ⟨h.name, h.arity, hsites _ (.tail _ h.address)⟩
  · obtain ⟨before, ⟨block, i⟩, after, p', rfl, hfits, hplace⟩ := hroute.exists_split hp
    obtain ⟨rfl, rfl⟩ := Prod.mk.inj hplace
    have hsplit : (s.program false).code.toList = plainCode before ++ block ++ plainCode after := by
      simp [hcode, plainCode]
    refine ⟨block, i, p', hfits, .of_eq hsplit (Nat.zero_add _).symm, ?_⟩
    rw [← Array.getElem?_toList, hcode']
    simp [foldedCode]

end StackScript
