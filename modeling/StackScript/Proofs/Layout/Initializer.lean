import StackScript.Proofs.Layout.Ranges

/-!
# The stores of the declared globals

The initialiser evaluates the value of each global in turn, stores it, and discards it. No value gives back
from the initialiser, and no jump in a value leads further than to the store behind it. So the only way to
the end of the initialiser is past the stores of all globals (`Program.Initializes`).
-/

namespace StackScript

/-! ### Expressions give nothing back -/

namespace Code

/-- No instruction of the code gives back from the function. -/
def Ongoing (code : List Instruction) : Prop := ∀ i ∈ code, i.op ≠ .giveBack

@[simp]
theorem ongoing_nil : Ongoing [] :=
  fun _ h ↦ nomatch h

@[simp]
theorem ongoing_cons {i : Instruction} {code : List Instruction} :
    Ongoing (i :: code) ↔ i.op ≠ .giveBack ∧ Ongoing code := by
  simp [Ongoing]

@[simp]
theorem ongoing_append {code code' : List Instruction} :
    Ongoing (code ++ code') ↔ Ongoing code ∧ Ongoing code' := by
  simp [Ongoing, or_imp, forall_and]

theorem ongoing_binary {folding : Bool} {op : BinaryOp} {line : Nat} {left right : List Instruction}
    (hl : Ongoing left) (hr : Ongoing right) : Ongoing (binary folding op line left right) := by
  rcases binary_cases folding op line left right with ⟨_, _, l, _, _, _, _, _, h⟩ | h <;> rw [h]
  · simp [push]
  · simp [hl, hr]

theorem ongoing_invert {folding : Bool} {line : Nat} {operand : List Instruction}
    (h : Ongoing operand) : Ongoing (invert folding line operand) := by
  rcases invert_cases folding line operand with ⟨_, l, _, _, _, hc⟩ | hc <;> rw [hc]
  · simp [push]
  · simp [h]

end Code

/-- Reading from a place and storing into it is nothing else. -/
theorem Place.access_ne_giveBack (place : Place) (scope : List String) :
    (place.access scope).1 ≠ .giveBack ∧ place.store scope ≠ .giveBack ∧
      place.storeAgain scope ≠ .giveBack := by
  cases place with
  | «variable» name => rcases h : slot? name scope with _ | slot <;> simp [access, store, storeAgain, h]
  | element | field | staticField => simp [access, store, storeAgain]

open Code in
mutual

theorem Expr.ongoing (folding : Bool) (scope : List String) (start : Nat) :
    (e : Expr) → Ongoing (e.code folding scope start)
  | .literal l line => by simp [Expr.code, push]
  | .read place line => by
    simp [Expr.code, place.ongoing, (place.access_ne_giveBack scope).1]
  | .assign place value line => by
    simp [Expr.code, place.ongoing, value.ongoing, (place.access_ne_giveBack scope).2.1]
  | .update place op value readLine storeLine => by
    have hdup : Ongoing (if place.operands = 0 then []
        else [⟨.dup, .count place.operands, readLine⟩]) := by
      split <;> simp
    simp [Expr.code, place.ongoing, value.ongoing, place.access_ne_giveBack scope, hdup]
  | .negate operand signLine line => by
    rw [Expr.code]
    exact ongoing_binary (by simp [push]) (operand.ongoing _ _ _)
  | .not operand line => by
    rw [Expr.code]
    exact ongoing_invert (operand.ongoing _ _ _)
  | .binary op left right line => by
    have h : Ongoing (binary folding op.base line _ _) := ongoing_binary
      (left.ongoing folding scope start)
      (right.ongoing folding scope (start + (left.code folding scope start).length))
    rw [Expr.code]
    split
    · exact ongoing_invert h
    · exact h
  | .connect op left right line => by
    cases op <;> simp [Expr.code, left.ongoing, right.ongoing, Connective.exit]
  | .list items openLine closeLine => by simp [Expr.code, ongoing_codeAll items]
  | .call name args openLine closeLine => by simp [Expr.code, ongoing_codeAll args]
  | .construct type args openLine closeLine => by simp [Expr.code, ongoing_codeAll args]
  | .callStatic type member args openLine closeLine => by simp [Expr.code, ongoing_codeAll args]
  | .callMethod receiver name args openLine closeLine => by
    simp [Expr.code, receiver.ongoing, ongoing_codeAll args]

theorem Place.ongoing (folding : Bool) (scope : List String) (start : Nat) :
    (place : Place) → Ongoing (place.code folding scope start)
  | .variable name => by simp [Place.code]
  | .element target index => by simp [Place.code, target.ongoing, index.ongoing]
  | .field receiver name => by simp [Place.code, receiver.ongoing]
  | .staticField type member => by simp [Place.code]

theorem ongoing_codeAll {folding : Bool} {scope : List String} {start : Nat} :
    (items : List Expr) → Ongoing (codeAll folding scope start items)
  | [] => by simp [codeAll]
  | e :: rest => by simp [codeAll, e.ongoing, ongoing_codeAll rest]

end

/-! ### Stores that are not passed over -/

/-- Jumps of code that has no exits lead into it or right behind it. -/
theorem Shaped.count_le {start : Nat} {sh sh' : Shape} {code : List Instruction}
    {sites : List (Nat × Shape)} (h : Shaped noExit start sh code sh' sites) {i : Instruction}
    (hi : i ∈ code) (hjump : i.op.isJump = true) : i.count ≤ start + code.length := by
  obtain ⟨places, hroute, -⟩ := h
  obtain ⟨k, hk⟩ := List.mem_iff_getElem?.mp hi
  obtain ⟨hlt, -⟩ := List.getElem?_eq_some_iff.mp hk
  have hlength := hroute.length_eq
  obtain ⟨j, q', hj, hfits⟩ := hroute.exists_fits (List.getElem?_eq_getElem (hlength ▸ hlt))
  obtain rfl : i = j := Option.some.inj (hk.symm.trans hj)
  obtain ⟨sh, htarget | htarget | hexit⟩ := Instruction.Stands.exists_target hfits hjump
  · obtain ⟨n, hn⟩ := List.mem_iff_getElem?.mp htarget
    obtain ⟨hlt', -⟩ := List.getElem?_eq_some_iff.mp hn
    have haddress : i.count = start + n := hroute.address_eq hn
    omega
  · exact Nat.le_of_eq (congrArg Prod.fst htarget)
  · exact hexit.elim

/-- Code from an address on that cannot be left but at its end, and cannot be run to its end without
storing globals at the given addresses. -/
structure Code.Passes (start : Nat) (code : List Instruction) (stores : List (Nat × String)) : Prop where
  ongoing : Ongoing code
  store : ∀ a name, (a, name) ∈ stores →
    ∃ k line, a = start + k ∧ code[k]? = some ⟨.setGlobal, .name name, line⟩
  jump : ∀ k i, code[k]? = some i → i.op.isJump = true → i.count ≤ start + code.length ∧
    ∀ store ∈ stores, store.1 < i.count → store.1 < start + k

namespace Code.Passes

variable {start : Nat} {code code' : List Instruction} {stores stores' : List (Nat × String)}

theorem nil (start : Nat) : Passes start [] [] :=
  ⟨ongoing_nil, nofun, fun _ _ h ↦ nomatch h⟩

theorem lt_of_mem (h : Passes start code stores) : ∀ store ∈ stores,
    start ≤ store.1 ∧ store.1 < start + code.length := by
  rintro ⟨a, name⟩ hstore
  obtain ⟨k, line, rfl, hk⟩ := h.store a name hstore
  obtain ⟨hlt, -⟩ := List.getElem?_eq_some_iff.mp hk
  exact ⟨Nat.le_add_right _ _, Nat.add_lt_add_left hlt _⟩

theorem append (h : Passes start code stores) (h' : Passes (start + code.length) code' stores') :
    Passes start (code ++ code') (stores ++ stores') := by
  refine ⟨ongoing_append.mpr ⟨h.ongoing, h'.ongoing⟩, fun a name hstore ↦ ?_, fun k i hi hjump ↦ ?_⟩
  · rcases List.mem_append.mp hstore with hstore | hstore
    · obtain ⟨k, line, ha, hk⟩ := h.store a name hstore
      obtain ⟨hlt, -⟩ := List.getElem?_eq_some_iff.mp hk
      exact ⟨k, line, ha, by rw [List.getElem?_append_left hlt, hk]⟩
    · obtain ⟨k, line, ha, hk⟩ := h'.store a name hstore
      refine ⟨code.length + k, line, by omega, ?_⟩
      rw [List.getElem?_append_right (Nat.le_add_right _ _), Nat.add_sub_cancel_left, hk]
  · rw [List.length_append]
    by_cases hlt : k < code.length
    · rw [List.getElem?_append_left hlt] at hi
      obtain ⟨hle, hbefore⟩ := h.jump k i hi hjump
      refine ⟨by omega, fun store hstore hcount ↦ ?_⟩
      rcases List.mem_append.mp hstore with hstore | hstore
      · exact hbefore store hstore hcount
      · have := (h'.lt_of_mem store hstore).1
        omega
    · rw [List.getElem?_append_right (Nat.le_of_not_lt hlt)] at hi
      obtain ⟨hle, hbefore⟩ := h'.jump _ i hi hjump
      refine ⟨by omega, fun store hstore hcount ↦ ?_⟩
      rcases List.mem_append.mp hstore with hstore | hstore
      · have := (h.lt_of_mem store hstore).2
        omega
      · have := hbefore store hstore hcount
        omega

/-- The code of a value, which stores no global for sure. -/
theorem value (h : Ongoing code)
    (hjump : ∀ i ∈ code, i.op.isJump = true → i.count ≤ start + code.length) :
    Passes start code [] :=
  ⟨h, nofun, fun _ i hi hop ↦ ⟨hjump i (List.mem_of_getElem? hi) hop, nofun⟩⟩

/-- The store of a global. -/
theorem global (start : Nat) (name : String) (line : Nat) :
    Passes start [⟨.setGlobal, .name name, line⟩, ⟨.pop, .count 1, line⟩] [(start, name)] := by
  refine ⟨by simp, fun a name' hstore ↦ ?_, fun k i hi hjump ↦ ?_⟩
  · cases List.mem_singleton.mp hstore
    exact ⟨0, line, rfl, rfl⟩
  · rcases List.mem_of_getElem? hi with _ | ⟨_, _ | ⟨_, _ | _⟩⟩ <;> cases hjump

end Code.Passes

/-- Where the declared globals are stored. -/
def globalStores (folding : Bool) (start : Nat) : List GlobalDecl → List (Nat × String)
  | [] => []
  | g :: rest =>
    let length := (g.value.code folding [] start).length
    (start + length, g.name) :: globalStores folding (start + length + 2) rest

theorem map_snd_globalStores (folding : Bool) (start : Nat) (globals : List GlobalDecl) :
    (globalStores folding start globals).map (·.2) = globals.map (·.name) := by
  induction globals generalizing start with
  | nil => rfl
  | cons g rest ih => simp [globalStores, ih]

theorem passes_globalsCode (folding : Bool) (start : Nat) (globals : List GlobalDecl) :
    Code.Passes start (globalsCode folding start globals) (globalStores folding start globals) := by
  induction globals generalizing start with
  | nil => exact .nil start
  | cons g rest ih =>
    have hvalue : Shaped noExit start (.locals 0) (g.value.code folding [] start) (.locals 1) [] :=
      g.value.shaped folding (Nat.le_refl _) start []
    have hfirst := (Code.Passes.value (g.value.ongoing folding [] start)
      fun i hi hjump ↦ hvalue.count_le hi hjump).append (.global _ g.name g.line)
    rw [globalsCode, globalStores]
    refine hfirst.append ?_
    rw [List.length_append, ← Nat.add_assoc]
    exact ih _

/-! ### The initialiser of a program -/

/-- The code from address zero on stores globals at the given addresses before it gives back, which it does
right behind the address `stop`. -/
structure Program.Initializes (p : Program) (stop : Nat) (stores : List (Nat × String)) : Prop where
  ongoing : ∀ (a : Nat) (i : Instruction), a ≤ stop → p.code[a]? = some i → i.op ≠ .giveBack
  ending : ∃ i, p.code[stop + 1]? = some i ∧ i.op = .giveBack
  store : ∀ a name, (a, name) ∈ stores →
    a < stop ∧ ∃ line, p.code[a]? = some ⟨.setGlobal, .name name, line⟩
  jump : ∀ (a : Nat) (i : Instruction), a ≤ stop → p.code[a]? = some i → i.op.isJump = true →
    i.count ≤ stop ∧ ∀ store ∈ stores, store.1 < i.count → store.1 < a

/-- The initialiser of a script stores all its globals. -/
theorem Script.initializes_program (folding : Bool) (s : Script) :
    (s.program folding).Initializes (globalsCode folding 0 s.globals).length
      (globalStores folding 0 s.globals) := by
  have hpasses := passes_globalsCode folding 0 s.globals
  let values := globalsCode folding 0 s.globals
  obtain ⟨rest, hcode⟩ : ∃ rest, (s.program folding).code.toList =
      values ++ (Code.push .null s.initializerLine :: ⟨.giveBack, .none, s.initializerLine⟩ :: rest) :=
    ⟨(functionsCode folding (values.length + 2) s.functions).2, by simp [program, epilogue, values]⟩
  have hleft {a : Nat} (ha : a < values.length) : (s.program folding).code[a]? = values[a]? := by
    rw [← Array.getElem?_toList, hcode, List.getElem?_append_left ha]
  have hstop : (s.program folding).code[values.length]? = some (Code.push .null s.initializerLine) := by
    rw [← Array.getElem?_toList, hcode, List.getElem?_append_right (Nat.le_refl _), Nat.sub_self]
    rfl
  have hback : (s.program folding).code[values.length + 1]? =
      some ⟨.giveBack, .none, s.initializerLine⟩ := by
    rw [← Array.getElem?_toList, hcode, List.getElem?_append_right (Nat.le_add_right _ _),
      Nat.add_sub_cancel_left]
    rfl
  refine ⟨fun a i ha hi ↦ ?_, ⟨_, hback, rfl⟩, fun a name hstore ↦ ?_, fun a i ha hi hjump ↦ ?_⟩
  · rcases Nat.lt_or_eq_of_le ha with ha | rfl
    · rw [hleft ha] at hi
      exact hpasses.ongoing i (List.mem_of_getElem? hi)
    · cases hi.symm.trans hstop
      rintro ⟨⟩
  · obtain ⟨k, line, rfl, hk⟩ := hpasses.store a name hstore
    obtain ⟨hlt, -⟩ := List.getElem?_eq_some_iff.mp hk
    rw [Nat.zero_add]
    exact ⟨hlt, line, (hleft hlt).trans hk⟩
  · rcases Nat.lt_or_eq_of_le ha with ha | rfl
    · rw [hleft ha] at hi
      have := hpasses.jump a i hi hjump
      simpa only [Nat.zero_add] using this
    · cases hi.symm.trans hstop
      cases hjump

end StackScript
