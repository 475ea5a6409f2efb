import StackScript.Proofs.Acceptance.Language
import StackScript.Proofs.Arithmetic.Integral
import StackScript.Proofs.Reference.Correctness
import StackScript.Proofs.Writing.Parentheses

/-!
# Integer expressions compute modulo `2 ^ 32`

A function that gives back an integer expression over its parameters compiles, as no operator in the expression
can fail. A call of it with integers runs straight through the code of the expression
(`Engine.advances_reckoned`), and ends with the exact value of the expression modulo `2 ^ 32`
(`compile_modular`). It needs no more room on the stack, and no more instructions, than there are parameters and
instructions, and it suspends no caller.
-/

namespace StackScript

variable {σ : Type}

namespace Engine

variable {e : Engine σ} {p : Progress σ}

/-! ### Straight code -/

theorem Room.mono {size size' done done' : Nat} (h : e.Room size done) (hsize : size' ≤ size)
    (hdone : done' ≤ done) : e.Room size' done' :=
  ⟨Nat.le_trans hsize h.stack, fun n hn ↦ Nat.le_trans hdone (h.steps n hn)⟩

/-- A plain instruction that pushes a value goes on if there is room. -/
theorem advances_pushing {i : Instruction} {S : Array Value} {v : Value}
    (hi : e.program.code[p.address]? = some i) (hplain : i.IsPlain)
    (hperform : (e.perform i).on p.machine = (e.push v).on { p.machine with stack := S })
    (hroom : e.Room (S.size + 1) (p.done + 1)) : e.advances 1 p = .inr (p.after 1 (S.push v)) := by
  rw [advances_one, e.advance_eq hi, on_attempt hroom.steps, e.on_step_of_isPlain hplain, hperform, e.on_push,
    if_neg (Nat.not_lt.mpr hroom.stack)]
  rfl

/-- An operator takes two integers from the stack and pushes what it makes of them. -/
theorem advances_operator {op : BinaryOp} {line : Nat} {S : Array Value} {m n r : Int32}
    (hi : e.program.code[p.address]? = some ⟨.binary op, .none, line⟩)
    (hstack : p.machine.stack = (S.push (.int m)).push (.int n))
    (happly : op.apply (.int m) (.int n) = .ok (.int r)) (hroom : e.Room (S.size + 1) (p.done + 1)) :
    e.advances 1 p = .inr (p.after 1 (S.push (.int r))) := by
  have hargs : p.machine.stack = S ++ [Value.int m, Value.int n].toArray := by
    rw [hstack, List.toArray_cons, ← Array.append_assoc]
    rfl
  refine advances_pushing hi trivial ?_ hroom
  rw [e.on_perform_operands rfl hargs]
  refine Step.on_bind_ok ?_
  simp [apply, happly]

/-- Code that reckons an integer pushes it. -/
theorem advances_reckoned {locals : List Int32} {code : List Instruction} {n : Int32}
    (h : Code.Reckons locals code n) {S : Array Value} {vs : List Value}
    (hcode : e.program.Has p.address code) (hbase : p.machine.base = S.size)
    (hstack : p.machine.stack = S ++ (locals.map Value.int ++ vs).toArray)
    (hroom : e.Room (p.machine.stack.size + code.length) (p.done + code.length)) :
    e.advances code.length p = .inr (p.after code.length (p.machine.stack.push (.int n))) := by
  induction h generalizing p vs with
  | push n line =>
    have hargs : p.machine.stack = p.machine.stack ++ ([] : List Value).toArray := by simp
    exact advances_pushing hcode.head trivial (e.on_perform_operands rfl hargs) hroom
  | @pushLocal slot n h line =>
    refine advances_pushing hcode.head trivial ?_ hroom
    have hlt : slot < (locals.map Value.int).length := by
      obtain ⟨hlt, -⟩ := List.getElem?_eq_some_iff.mp h
      rwa [List.length_map]
    have hlocal : (locals.map Value.int ++ vs)[slot]? = some (.int n) := by
      rw [List.getElem?_append_left hlt, List.getElem?_map, h, Option.map_some]
    exact e.on_perform_pushLocal rfl hbase hstack hlocal
  | @operate left right m n r op hl hr happly line ihl ihr =>
    have hpos := hl.length_pos
    have hlength : (left ++ right ++ [(⟨.binary op, .none, line⟩ : Instruction)]).length =
        left.length + right.length + 1 := by simp [Nat.add_assoc]
    rw [hlength] at hroom ⊢
    -- the operands are pushed one after the other
    have hleft := ihl hcode.left.left hbase hstack (hroom.mono (by omega) (by omega))
    have hpushed : p.machine.stack.push (.int m) =
        S ++ (locals.map Value.int ++ (vs ++ [Value.int m])).toArray := by simp [hstack]
    have hright := ihr (p := p.after left.length (p.machine.stack.push (.int m))) hcode.left.right hbase
      hpushed (hroom.mono (by simp only [Progress.after, Array.size_push]; omega)
        (by simp only [Progress.after]; omega))
    have hboth := (advances_add hleft).trans hright
    -- and taken by the operator
    rw [Progress.after_after] at hboth
    refine (advances_add hboth).trans ?_
    have hoperator := hcode.right.head
    rw [List.length_append] at hoperator
    exact advances_operator hoperator rfl happly (hroom.mono (by omega) (Nat.le_refl _))

/-- A call of a function that only reckons an integer, and gives it back. -/
theorem call_reckoned {locals : List Int32} {code : List Instruction} {n : Int32}
    (h : Code.Reckons locals code n) {f : FunctionEntry} {name : String} {line fuel : Nat}
    (hf : e.program.function? name = some f) (harity : f.arity = locals.length)
    (hcode : e.program.Has f.address (code ++ [⟨.giveBack, .none, line⟩]))
    (hstack : locals.length + code.length ≤ e.limits.stack)
    (hsteps : ∀ k, e.limits.steps = some k → code.length + 1 ≤ k) (hfuel : code.length + 1 ≤ fuel)
    (m : Machine σ) :
    e.call fuel m name (locals.map Value.int) = some (.ok (.int n), m.reset) := by
  let p : Progress σ := ⟨f.address, 0, { m.reset with stack := (locals.map Value.int).toArray }⟩
  have hstart : e.start m name (locals.map Value.int) = .ok p := by
    simp only [start, hf]
    rw [if_neg (by simp [harity])]
  have hroom : e.Room (p.machine.stack.size + code.length) (p.done + code.length) :=
    ⟨by simpa [p] using hstack, fun k hk ↦ by have := hsteps k hk; simp only [p]; omega⟩
  have hrun := advances_reckoned (e := e) (p := p) (S := #[]) h hcode.left rfl
    (show (locals.map Value.int).toArray = #[] ++ (locals.map Value.int ++ []).toArray by simp) hroom
  have hend : e.advance (p.after code.length (p.machine.stack.push (.int n))) =
      .inl (.ok (.int n), p.machine) := by
    have hleave := e.on_leave_halt (m := (p.after code.length (p.machine.stack.push (.int n))).machine) rfl rfl
    rw [e.advance_eq hcode.right.head, on_attempt, e.step_giveBack rfl, hleave]
    · rfl
    · intro k hk
      have := hsteps k hk
      simp only [Progress.after, p]
      omega
  obtain ⟨fuel, rfl⟩ := Nat.exists_eq_add_of_le hfuel
  rw [e.call_eq _ hstart, Nat.add_assoc, finish_add hrun, Nat.add_comm, finish, hend]
  rfl

end Engine

/-- A function of a script is found by its name if the names are new. -/
theorem Script.function?_eq {globals : List GlobalDecl} {earlier later : List FunctionDecl} {f : FunctionDecl}
    (h : Script.Lawful ⟨globals, earlier ++ f :: later⟩) :
    Script.function? ⟨globals, earlier ++ f :: later⟩ f.name = some f := by
  refine List.find?_eq_some_iff_append.mpr ⟨beq_self_eq_true _, _ :: earlier, later, rfl, fun g hg ↦ ?_⟩
  have hnodup : ((initializerName :: earlier.map (·.name)) ++ f.name :: later.map (·.name)).Nodup := by
    simpa using h.functions
  have hne : f.name ∉ initializerName :: earlier.map (·.name) := Reading.notMem_of_nodup_append_cons hnodup
  have hmem : g.name ∈ initializerName :: earlier.map (·.name) :=
    List.mem_map_of_mem (f := (·.name)) hg
  have hother : g.name ≠ f.name := fun heq ↦ hne (heq ▸ hmem)
  simpa using hother

/-- A function that gives back an integer expression over its parameters, in a script of which everything else is
lawful, compiles. If the limits on values and instructions are large enough, a call of it with integers gives
back the exact value of the expression modulo `2 ^ 32`, in the range of 32 bits with sign. It leaves nothing
changed. -/
theorem compile_modular {source : String} {globals : List GlobalDecl} {earlier later : List FunctionDecl}
    {name : String} {params : List String} {line closeLine : Nat} {e e₀ : Expr}
    (hfaultless : ∀ s ∈ Scanned.scan source, s.faults = [])
    (hd : Script.Derives ⟨globals, earlier ++ ⟨name, params, [.giveBack e line], closeLine⟩ :: later⟩
      (Scanned.tokens (Scanned.scan source)))
    (hl : Script.Lawful ⟨globals, earlier ++ ⟨name, params, [.giveBack e₀ line], closeLine⟩ :: later⟩)
    (he : e.Integral params) :
    ∃ c bound, compile source = .ok c ∧ ∀ (bridge : Bridge σ) (l : Limits) (m : Machine σ)
      (args : List Int32) (fuel : Nat), args.length = params.length → bound ≤ l.stack →
      (∀ k, l.steps = some k → bound ≤ k) → bound ≤ fuel →
      ∃ n : Int32, Engine.call ⟨c.program, bridge, l⟩ fuel m name (args.map Value.int) =
          some (.ok (.int n), m.reset) ∧
        n.toInt = (e.exact (givenTo params args)).bmod (2 ^ 32) := by
  have hparams : params.Nodup := (hl.bodies _ (List.mem_append_right _ List.mem_cons_self)).1
  let f : FunctionDecl := ⟨name, params, [.giveBack e line], closeLine⟩
  have hlawful : Script.Lawful ⟨globals, earlier ++ f :: later⟩ :=
    hl.replace rfl ⟨hparams, .nil, he.sound, trivial⟩
  obtain ⟨c, hc⟩ := exists_compile_of_derives hfaultless hd hlawful
  have hprogram := program_of_derives hc hd hlawful
  have hentry := Script.function?_program true ⟨globals, earlier ++ f :: later⟩ f.name
  rw [Script.function?_eq hlawful] at hentry
  obtain ⟨a, hfunction, hcode⟩ := hentry
  rw [← hprogram] at hfunction hcode
  rw [FunctionDecl.code, blockCode, bodyCode, Stmt.code] at hcode
  have hbody : c.program.Has a (e.code true params.reverse a ++ [⟨.giveBack, .none, line⟩]) :=
    hcode.left.left.left
  refine ⟨c, params.length + (e.code true params.reverse a).length + 1, hc,
    fun bridge l m args fuel hlength hstack hsteps hfuel ↦ ⟨_, ?_, Int32.toInt_ofInt⟩⟩
  exact Engine.call_reckoned (he.reckons hparams hlength true a) hfunction hlength.symm hbody
    (Nat.le_trans (by omega) hstack) (fun k hk ↦ Nat.le_trans (by omega) (hsteps k hk))
    (Nat.le_trans (by omega) hfuel) m

/-- A text in which a function gives back an integer expression that exceeds 32 bits, a part of which is folded. -/
def exceedingText : String := "func f(a) \x7b return 2147483647 * 2 - -a; \x7d"

/-- What the function gives back. -/
def exceeding : Expr :=
  .binary .sub (.binary .mul (.literal (.int 2147483647) 1) (.literal (.int 2) 1) 1)
    (.negate (.read (.variable "a") 1) 1 1) 1

theorem givesBack_exceedingText : GivesBack exceeding false 39 exceedingText := by
  refine .of_scan 6 (by cbv) ?_ ?_ ?_ <;> rfl

/-- Given `5`, the function gives back `3`, which is `2 ^ 32 + 3` modulo `2 ^ 32`. -/
theorem compile_modular_exceeding : ∃ c bound, compile exceedingText = .ok c ∧
    ∀ (bridge : Bridge Unit) (m : Machine Unit),
      Engine.call ⟨c.program, bridge, ⟨bound, 0, some bound⟩⟩ bound m "f" [.int 5] =
        some (.ok (.int 3), m.reset) := by
  obtain ⟨hfaultless, ts, hts, htokens⟩ := givesBack_exceedingText
  have he := derives_whole (derives_tokens exceeding) hts
  have hd : Script.Derives ⟨[], [] ++ ⟨"f", ["a"], [.giveBack exceeding 1], 1⟩ :: []⟩
      (Scanned.tokens (Scanned.scan exceedingText)) :=
    htokens ▸ (holed_givingBack 39).derives he (hts.lastLine_eq he.ne_nil)
  have hintegral : exceeding.Integral ["a"] :=
    .binary (.inr (.inl rfl)) (.binary (.inr (.inr rfl)) (.literal _ _) (.literal _ _) _)
      (.negate (.parameter (.head _) _) _ _) _
  obtain ⟨c, bound, hc, h⟩ := compile_modular (σ := Unit) hfaultless hd givingBack_lawful hintegral
  refine ⟨c, bound, hc, fun bridge m ↦ ?_⟩
  obtain ⟨n, hcall, hn⟩ := h bridge ⟨bound, 0, some bound⟩ m [5] bound rfl (Nat.le_refl _)
    (fun k hk ↦ by cases hk; exact Nat.le_refl _) (Nat.le_refl _)
  obtain rfl : n = 3 := Int32.toInt_inj.mp (hn.trans (by decide))
  exact hcall

end StackScript
