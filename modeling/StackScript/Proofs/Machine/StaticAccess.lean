import Mathlib
import StackScript.Host.Registry
import StackScript.Proofs.Acceptance.Language
import StackScript.Proofs.Layout.StaticAccess
import StackScript.Proofs.Machine.Flow
import StackScript.Proofs.Syntax.StaticMember

/-!
# What the machine asks for in a static access

The name in the instruction of a static access is taken apart again at its last point. Names in scripts may
have points in them, so this is not always where it was joined: the machine asks its host for the access
as it is written exactly if the name of the member is simple (`StaticAccess.asked_eq_self_iff`). Of any other
name all but the last part goes to the type (`StaticAccess.asked_qualified`), so that another member of another
type is asked for (`dotted_member_mistaken`).

This is what comes of every static access in every script that compiles, be it a call, a read, a store or both
in a compound assignment (`statics_carried_out`).
-/

namespace StackScript

namespace StaticAccess

/-- What the machine makes of that name. -/
def asked (a : StaticAccess) : StaticAccess :=
  match Text.unqualified? a.operand with
  | some (type, member) => ⟨a.use, type, member⟩
  | none => a

/-- The machine asks for an access as it is written exactly if the name of the member is simple. -/
theorem asked_eq_self_iff (a : StaticAccess) : a.asked = a ↔ Text.IsSimple a.member := by
  obtain ⟨use, type, member⟩ := a
  have hsplit : Text.unqualified? (Text.qualified type member) = some (type, member) ↔
      Text.IsSimple member := Text.unqualified?_qualified_iff
  rw [← hsplit]
  obtain ⟨parts, hparts⟩ := Option.isSome_iff_exists.mp (Text.isSome_unqualified? type member)
  rw [asked, operand, hparts]
  simp [Prod.ext_iff]

/-- Of a member with a qualified name it asks the wrong type. -/
theorem asked_qualified (use : StaticUse) (type qualifier name : String) (hname : Text.IsSimple name) :
    asked ⟨use, type, Text.qualified qualifier name⟩ = ⟨use, Text.qualified type qualifier, name⟩ := by
  have hjoined : operand ⟨use, type, Text.qualified qualifier name⟩ =
      Text.qualified (Text.qualified type qualifier) name := by
    simp [operand, Text.qualified, String.append_assoc]
  rw [asked, hjoined, Text.unqualified?_qualified_iff.mpr hname]

end StaticAccess

/-! ### Carrying out an access -/

/-- Asks the host for a member of a type. -/
def Engine.access {σ : Type} (e : Engine σ) (a : StaticAccess) : Step σ Unit :=
  match a.use with
  | .call => do
    let args ← Step.takeWindow
    let handle ← e.resolve a.type
    e.push (← Step.onHost (e.bridge.invoke (.type handle) a.member args.toList))
  | .read => do
    let handle ← e.resolve a.type
    e.push (← Step.onHost (e.bridge.getField (.type handle) a.member))
  | .store => do
    let value ← Step.peek
    let handle ← e.resolve a.type
    Step.onHost (e.bridge.setField (.type handle) a.member value)

/-- The operation that makes an access. -/
def StaticUse.operation : StaticUse → Operation
  | call => .callStatic
  | read => .pushStaticField
  | store => .setStaticField

theorem Instruction.op_of_static? {i : Instruction} {use : StaticUse} {name : String}
    (h : i.static? = some (use, name)) : i.op = use.operation ∧ i.name = name := by
  unfold Instruction.static? at h
  split at h
  case h_1 hop | h_2 hop | h_3 hop =>
    obtain ⟨rfl, rfl⟩ := Prod.mk.inj (Option.some.inj h)
    exact ⟨hop, rfl⟩
  case h_4 => cases h

namespace StaticAccess

/-- An instruction that does nothing but ask for what the machine makes of an access. -/
structure CarriedOutBy (a : StaticAccess) (i : Instruction) : Prop where
  op_eq : i.op = a.use.operation
  step_eq : ∀ {σ : Type} (e : Engine σ) (address : Nat),
    e.step i address = do
      e.access a.asked
      return .next

theorem carriedOutBy {a : StaticAccess} {i : Instruction} (h : i.static? = some a.encoded) :
    a.CarriedOutBy i := by
  obtain ⟨⟨type, member⟩, hparts⟩ :=
    Option.isSome_iff_exists.mp (Text.isSome_unqualified? a.type a.member)
  have hasked : a.asked = ⟨a.use, type, member⟩ := by
    rw [asked, operand, hparts]
  have hsplit : Step.splitMember a.operand = .ok (type, member) := by
    rw [Step.splitMember, operand, hparts]
  obtain ⟨hop, hname⟩ := Instruction.op_of_static? h
  have hplain : i.IsPlain := by
    rw [Instruction.IsPlain, hop]
    cases a.use <;> trivial
  refine ⟨hop, fun e address ↦ ?_⟩
  rw [e.step_of_isPlain hplain, hasked]
  refine congrArg (· >>= _) ?_
  obtain ⟨use, own, ownMember⟩ := a
  cases use with
  | call | read | store =>
    simp only [Engine.perform, hop, hname, StaticUse.operation, hsplit]
    rfl

/-- Code that has given accesses in it carries them out, each by an instruction of its own. -/
theorem forall₂_carriedOutBy {accesses : List StaticAccess} {code : List Instruction}
    (h : Code.statics code = accesses.map encoded) :
    List.Forall₂ CarriedOutBy accesses (code.filter (·.static?.isSome)) := by
  -- an instruction carries out the first of the accesses that are left, or none of them
  induction code generalizing accesses with
  | nil =>
    obtain rfl : accesses = [] := List.map_eq_nil_iff.mp h.symm
    exact .nil
  | cons i code ih =>
    rw [Code.statics_cons] at h
    rcases hi : i.static? with _ | known
    · rw [List.filter_cons_of_neg (by simp [hi])]
      rw [hi] at h
      exact ih h
    · rw [List.filter_cons_of_pos (by simp [hi])]
      rw [hi, Option.toList_some, List.singleton_append] at h
      obtain ⟨a, rest, rfl, ha, hrest⟩ := List.map_eq_cons_iff.mp h.symm
      exact .cons (carriedOutBy (hi.trans (congrArg some ha.symm))) (ih hrest.symm)

end StaticAccess

/-- Each static access in a script that compiles, in the order of these, is one instruction of its program,
and the program has no others. What the machine asks its host for is the access as it is written exactly if
the name of the member is simple; else the type is given all but the last part of that name. -/
theorem statics_carried_out {source : String} {c : Compiled} (h : compile source = .ok c) :
    ∃ s : Script, s.Derives (Scanned.tokens (Scanned.scan source)) ∧
      List.Forall₂ StaticAccess.CarriedOutBy s.accesses
        (c.program.code.toList.filter (·.static?.isSome)) ∧
      ∀ a ∈ s.accesses, (a.asked = a ↔ Text.IsSimple a.member) ∧
        ∀ qualifier name, Text.IsSimple name → a.member = Text.qualified qualifier name →
          a.asked = ⟨a.use, Text.qualified a.type qualifier, name⟩ := by
  obtain ⟨-, s, hd, hl⟩ := exists_derives_of_compile h
  refine ⟨s, hd, ?_, fun a _ ↦ ⟨a.asked_eq_self_iff, ?_⟩⟩
  · rw [program_of_derives h hd hl]
    exact StaticAccess.forall₂_carriedOutBy (s.statics_program true)
  · intro qualifier name hname hmember
    obtain ⟨use, type, member⟩ := a
    obtain rfl : member = Text.qualified qualifier name := hmember
    exact StaticAccess.asked_qualified use type qualifier name hname

/-- A script with each kind of access. -/
theorem statics_carried_out_assigning : ∃ c,
    compile "func main() \x7b C:m = 1; C:m += C:f(2); return C:m; \x7d" = .ok c ∧ ∃ s : Script,
      s.Derives (Scanned.tokens (Scanned.scan
        "func main() \x7b C:m = 1; C:m += C:f(2); return C:m; \x7d")) ∧
      List.Forall₂ StaticAccess.CarriedOutBy s.accesses
        (c.program.code.toList.filter (·.static?.isSome)) ∧
      (∀ a ∈ s.accesses, a.asked = a ↔ Text.IsSimple a.member) ∧
      s.accesses.map (·.use.operation) =
        [.setStaticField, .pushStaticField, .callStatic, .setStaticField, .pushStaticField] := by
  obtain ⟨c, hc, hops⟩ : ∃ c,
      compile "func main() \x7b C:m = 1; C:m += C:f(2); return C:m; \x7d" = .ok c ∧
      (c.program.code.toList.filter (·.static?.isSome)).map (·.op) =
        [.setStaticField, .pushStaticField, .callStatic, .setStaticField, .pushStaticField] :=
    ⟨_, by cbv, by cbv⟩
  obtain ⟨s, hd, hcarried, hasked⟩ := statics_carried_out hc
  have hsame : List.Forall₂ (· = ·) (s.accesses.map (·.use.operation))
      ((c.program.code.toList.filter (·.static?.isSome)).map (·.op)) := by
    rw [List.forall₂_map_left_iff, List.forall₂_map_right_iff]
    exact hcarried.imp fun _ _ h ↦ h.op_eq.symm
  rw [List.forall₂_eq_eq_eq] at hsame
  exact ⟨c, hc, s, hd, hcarried, fun a ha ↦ (hasked a ha).1, hsame.trans hops⟩

/-- Of a member with a point in its name the machine reads another one, of another type. -/
theorem dotted_member_mistaken :
    let r : Registry := ⟨[(TypeDef.named "C").addStaticField "a.b" (.int 7),
      (TypeDef.named "C.a").addStaticField "b" (.int 8)]⟩
    ∃ c, compile "func main() \x7b return C:a.b; \x7d" = .ok c ∧
      (read "func main() \x7b return C:a.b; \x7d").script.accesses = [⟨.read, "C", "a.b"⟩] ∧
      ((Registry.bridge.resolve "C").run (World.empty, r)).1 = some ⟨0⟩ ∧
      ((Registry.bridge.getField (.type ⟨0⟩) "a.b").run.run (World.empty, r)).1 = .ok (.int 7) ∧
      (Engine.call ⟨c.program, Registry.bridge, .standard⟩ 4 (.fresh ⟨.declared [], .empty, r⟩) "main"
        []).map (·.1.mapError Report.fault) = some (.ok (.int 8)) := by
  intro r
  obtain ⟨c, hc, hcall⟩ : ∃ c, compile "func main() \x7b return C:a.b; \x7d" = .ok c ∧
      (Engine.call ⟨c.program, Registry.bridge, .standard⟩ 4 (.fresh ⟨.declared [], .empty, r⟩) "main"
        []).map (·.1.mapError Report.fault) = some (.ok (.int 8)) :=
    ⟨_, by cbv, by cbv⟩
  exact ⟨c, hc, by cbv, by cbv, by cbv, hcall⟩

end StackScript
