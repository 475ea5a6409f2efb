import StackScript.Proofs.Reference.Simulation
import StackScript.Proofs.Syntax.StaticMember

/-!
# Running expressions

The code of an expression is followed from its start, over whatever is on the stack, to its end, with
the value of the expression above that. The code of a place leaves the receiver and the index that its
location has been evaluated to.

Constants are not computed ahead of the run here.
-/

namespace StackScript

variable {σ : Type}

/-- An operator that is not computed ahead of the run. -/
@[simp]
theorem Code.binary_false (op : BinaryOp) (line : Nat) (left right : List Instruction) :
    Code.binary false op line left right = left ++ right ++ [⟨.binary op, .none, line⟩] :=
  rfl

@[simp]
theorem Code.invert_false (line : Nat) (operand : List Instruction) :
    Code.invert false line operand = operand ++ [⟨.invert, .none, line⟩] :=
  rfl

/-- The values that the instructions for a location take from the stack. -/
def Location.operands : Location → List Value
  | .variable _ => []
  | .element target index => [target, index]
  | .field receiver _ => [receiver]
  | .staticField _ _ => []

/-- A location that a place may be. -/
inductive Place.Yields : Place → Location → Prop
  | variable (name : String) : Yields (.variable name) (.variable name)
  | element (target index : Expr) (t i : Value) : Yields (.element target index) (.element t i)
  | field (receiver : Expr) (name : String) (v : Value) : Yields (.field receiver name) (.field v name)
  | staticField (type member : String) : Yields (.staticField type member) (.staticField type member)

theorem Place.Yields.length_operands {place : Place} {location : Location}
    (h : place.Yields location) : location.operands.length = place.operands := by
  cases h <;> rfl

/-- The operand of a static access is split into the type and the member. -/
theorem Step.splitMember_qualified (type : String) {member : String} (h : Text.IsSimple member) :
    Step.splitMember (Text.qualified type member) = .ok (type, member) := by
  rw [Step.splitMember, Text.unqualified?_qualified_iff.mpr h]

namespace Engine

open Evaluation

variable {e : Engine σ} {i : Instruction} {k : Floor} {a b : Nat} {slots : List Slot}
  {temps args : List Value} {inner : List Nat} {v : Value}

/-! ### Instructions in the code of expressions -/

/-- An instruction that makes a value of its operands. -/
theorem follows_value {x : Step σ Value} (hi : e.program.code[a]? = some i) (hp : i.Proper)
    (hargs : i.op.operands? = some args.length) (heq : e.apply i args = x) :
    e.Follows (k.At slots (temps ++ args) inner a) (onMemory x)
      fun v ↦ k.At slots (temps ++ [v]) inner (a + 1) := by
  have hx : x.Aside := by
    rw [← heq]
    exact e.aside_apply hp hargs
  exact follows_operands (f := id) hi hp hargs hx (by simp [heq])

/-- An instruction that makes a value of nothing. -/
theorem follows_source {x : Step σ Value} (hi : e.program.code[a]? = some i) (hp : i.Proper)
    (hargs : i.op.operands? = some 0) (heq : e.apply i [] = x) :
    e.Follows (k.At slots temps inner a) (onMemory x)
      fun v ↦ k.At slots (temps ++ [v]) inner (a + 1) := by
  have h : e.Follows (k.At slots (temps ++ []) inner a) (onMemory x)
      fun v ↦ k.At slots (temps ++ [v]) inner (a + 1) := follows_value hi hp hargs heq
  rwa [List.append_nil] at h

theorem follows_push {l : Literal} {line : Nat} (hi : e.program.code[a]? = some (Code.push l line)) :
    e.Follows (k.At slots temps inner a) (pure (.literal l))
      fun v ↦ k.At slots (temps ++ [v]) inner (a + 1) :=
  follows_source hi rfl rfl rfl

theorem leads_push {l : Literal} {line : Nat} (hi : e.program.code[a]? = some (Code.push l line)) :
    e.Leads (k.At slots temps inner a) (k.At slots (temps ++ [.literal l]) inner (a + 1)) :=
  fun s q hpre ↦ follows_push hi s q hpre (.ok (.literal l)) s rfl

/-! ### Locations -/

variable {place : Place} {location : Location} {line : Nat}

/-- The instruction that reads a place reads the location it has been evaluated to. -/
theorem follows_get (hlocation : place.Yields location) (hw : place.Written)
    (hm : ∀ m ∈ place.staticMembers, Text.IsSimple m)
    (hi : e.program.code[a]? =
      some ⟨(place.access (scopeOf slots)).1, (place.access (scopeOf slots)).2, line⟩) :
    e.Follows (k.At slots (temps ++ location.operands) inner a) (location.get e.bridge)
      fun v ↦ k.At slots (temps ++ [v]) inner (a + 1) := by
  cases hlocation with
  | «variable» name =>
    have hnil : temps ++ (Location.variable name).operands = temps := List.append_nil temps
    rw [hnil]
    rintro s q ⟨values, hfills, rfl⟩ r s' hrun
    rcases hs : slot? name (scopeOf slots) with _ | slot
    · -- The name of no local, here or there: both turn to the globals.
      rw [Place.access_global hs] at hi
      have hlookup := hfills.lookup_eq_none hw hs
      rw [Location.get, run_get_bind] at hrun
      simp only [hlookup] at hrun
      exact follows_source hi trivial rfl rfl s _ ⟨values, hfills, rfl⟩ r s' hrun
    · rw [Place.access_local hs] at hi
      obtain ⟨v, hlookup, hvalue⟩ := hfills.exists_lookup hw hs
      rw [Location.get, run_get_bind] at hrun
      simp only [hlookup] at hrun
      obtain ⟨rfl, rfl⟩ := Prod.mk.inj (Option.some.inj hrun)
      have hslot : (values.reverse ++ temps)[slot]? = some v := by
        rw [List.getElem?_append_left (hfills.slot_lt hs), hvalue]
      refine ⟨_, ⟨values, hfills, rfl⟩, ?_⟩
      simp only [Floor.machine, k.above_push]
      exact reaches_pushLocal hi rfl rfl rfl hslot
  | element target index t i =>
    exact follows_value hi trivial rfl rfl
  | field receiver name v =>
    exact follows_value hi trivial rfl rfl
  | staticField type member =>
    have hsplit := Step.splitMember_qualified type (hm member (.head _))
    refine follows_value hi (Text.isSome_unqualified? type member) rfl ?_
    show (liftM (Step.splitMember (Text.qualified type member)) >>= _) = _
    rw [hsplit]
    rfl

/-- An assignment to a local. -/
theorem follows_setLocal {name : String} {slot : Nat} (hi : e.program.code[a]? = some i)
    (hop : i.op = .setLocal) (hc : i.count = slot) (hn : name ≠ enumeratorName)
    (hs : slot? name (scopeOf slots) = some slot) :
    e.Follows (k.At slots (temps ++ [v]) inner a) ((Location.variable name).set e.bridge v)
      fun _ ↦ k.At slots (temps ++ [v]) inner (a + 1) := by
  rintro s q ⟨values, hfills, rfl⟩ r s' hrun
  obtain ⟨old, hlookup, -⟩ := hfills.exists_lookup hn hs
  have hlt := hfills.slot_lt hs
  rw [Location.set, run_get_bind, hlookup, Option.isSome_some, if_pos rfl, run_modify] at hrun
  obtain ⟨rfl, rfl⟩ := Prod.mk.inj (Option.some.inj hrun)
  refine ⟨_, ⟨_, hfills.assign hn hs v, rfl⟩, ?_⟩
  have hstack : k.above values (temps ++ [v]) = k.stack ++ ((values.reverse ++ temps) ++ [v]).toArray := by
    rw [Floor.above, List.append_assoc]
  have hset : ((values.reverse ++ temps) ++ [v]).set i.count v =
      (values.reverse.set slot v).reverse.reverse ++ (temps ++ [v]) := by
    rw [hc, List.append_assoc, List.set_append_left _ _ hlt, List.reverse_reverse]
  have hcount : i.count < ((values.reverse ++ temps) ++ [v]).length := by
    rw [hc, List.append_assoc, List.length_append]
    omega
  have h := reaches_setLocal (m := k.machine values (temps ++ [v]) inner s.memory) hi hop rfl hstack hcount
  rw [hset] at h
  exact h

/-- The instruction that stores into a place stores into the location it has been evaluated to. -/
theorem follows_set {op : Operation} (hlocation : place.Yields location) (hw : place.Written)
    (hm : ∀ m ∈ place.staticMembers, Text.IsSimple m)
    (hop : op = place.store (scopeOf slots) ∨ op = place.storeAgain (scopeOf slots))
    (hi : e.program.code[a]? = some ⟨op, (place.access (scopeOf slots)).2, line⟩) :
    e.Follows (k.At slots (temps ++ location.operands ++ [v]) inner a) (location.set e.bridge v)
      fun _ ↦ k.At slots (temps ++ [v]) inner (a + 1) := by
  cases hlocation with
  | «variable» name =>
    have hnil : temps ++ (Location.variable name).operands = temps := List.append_nil temps
    have hstore : op = (Place.variable name).store (scopeOf slots) := hop.elim id id
    rw [hnil]
    rcases hs : slot? name (scopeOf slots) with _ | slot
    · rw [Place.access_global hs, hstore, Place.store_global hs] at hi
      rintro s q ⟨values, hfills, rfl⟩ r s' hrun
      rw [Location.set, run_get_bind, hfills.lookup_eq_none hw hs] at hrun
      exact follows_keep hi trivial (.inl rfl) rfl s _ ⟨values, hfills, rfl⟩ r s' hrun
    · rw [Place.access_local hs, hstore, Place.store_local hs] at hi
      exact follows_setLocal hi rfl rfl hw hs
  | element target index t i =>
    have hargs : temps ++ (Location.element t i).operands ++ [v] = temps ++ [t, i, v] :=
      List.append_assoc temps [t, i] [v]
    rw [hargs]
    rcases hop with rfl | rfl
    · exact follows_operands (f := fun _ ↦ v) hi trivial rfl (.onHeap (Heap.clean_setElement t i v)) rfl
    · exact follows_operands (f := fun _ ↦ v) hi trivial rfl (.onHeap (Heap.clean_setElement t i v)) rfl
  | field receiver name r =>
    obtain rfl : op = .setField := hop.elim id id
    have hargs : temps ++ (Location.field r name).operands ++ [v] = temps ++ [r, v] :=
      List.append_assoc temps [r] [v]
    rw [hargs]
    exact follows_operands (f := fun _ ↦ v) hi trivial rfl (e.aside_setField r name v) rfl
  | staticField type member =>
    obtain rfl : op = .setStaticField := hop.elim id id
    have hnil : temps ++ (Location.staticField type member).operands = temps := List.append_nil temps
    have hsplit := Step.splitMember_qualified type (hm member (.head _))
    rw [hnil]
    refine follows_keep hi (Text.isSome_unqualified? type member) (.inr rfl) ?_
    show (liftM (Step.splitMember (Text.qualified type member)) >>= _) = _
    rw [hsplit]
    rfl

/-- The operands of a location are copied before it is read and stored into again. -/
theorem leads_copy (hlocation : place.Yields location) : e.Prepares a
    (if place.operands = 0 then [] else [⟨.dup, .count place.operands, line⟩])
    (k.At slots (temps ++ location.operands) inner)
    (k.At slots (temps ++ location.operands ++ location.operands) inner) := by
  intro hcode
  split at hcode
  · rename_i hzero
    have hnil : location.operands = [] :=
      List.length_eq_zero_iff.mp (hlocation.length_operands.trans hzero)
    rw [hnil, List.append_nil, List.append_nil, if_pos hzero]
    exact fun s q hpre ↦ ⟨q, hpre, .refl q⟩
  · rename_i hne
    rw [if_neg hne]
    exact leads_dup hcode.head rfl hlocation.length_operands.symm

/-- An operator on the two topmost values. -/
theorem follows_binary {op : BinaryOp} {x y : Value}
    (hi : e.program.code[a]? = some ⟨.binary op, .none, line⟩) :
    e.Follows (k.At slots (temps ++ [x] ++ [y]) inner a) (compute (op.apply x y))
      fun v ↦ k.At slots (temps ++ [v]) inner (a + 1) := by
  rw [List.append_assoc]
  exact follows_compute hi trivial rfl rfl

theorem follows_invert {x : Value} (hi : e.program.code[a]? = some ⟨.invert, .none, line⟩) :
    e.Follows (k.At slots (temps ++ [x]) inner a) (compute x.invert)
      fun v ↦ k.At slots (temps ++ [v]) inner (a + 1) :=
  follows_compute hi trivial rfl rfl

/-- An instruction that takes a whole window. -/
theorem follows_gather {x : Step σ Value} (hi : e.program.code[a]? = some i) (hp : i.Proper)
    (hr : i.op.receivers? = some 0) (heq : e.apply i args = x) :
    e.Follows (k.At slots (temps ++ args) (k.height slots temps :: inner) a) (onMemory x)
      fun v ↦ k.At slots (temps ++ [v]) inner (a + 1) := by
  have hx : x.Aside := by
    have haside : (e.apply i ([] ++ args)).Aside := e.aside_apply_window hp hr
    rw [← heq]
    exact haside
  have h : e.Follows (k.At slots (temps ++ [] ++ args) (k.height slots (temps ++ []) :: inner) a)
      (onMemory x) fun v ↦ k.At slots (temps ++ [id v]) inner (a + 1) :=
    follows_window hi hp hr hx (by simp [heq])
  rwa [List.append_nil] at h

/-- The method of a value is called with the values of a window. -/
theorem follows_callMethod {receiver : Value} {name : String}
    (hi : e.program.code[a]? = some ⟨.callMethod, .name name, line⟩) :
    e.Follows (k.At slots (temps ++ [receiver] ++ args) (k.height slots (temps ++ [receiver]) :: inner) a)
      (onMemory (e.callMethod receiver name args)) fun v ↦ k.At slots (temps ++ [v]) inner (a + 1) :=
  follows_window (f := id) hi trivial rfl (e.aside_callMethod receiver name args) (bind_pure _).symm

variable {code left right : List Instruction} {x y : Evaluation σ Value}

/-- An operator behind the code of its operands. -/
theorem realizes_binary (op : BinaryOp) (line : Nat)
    (hl : e.Realizes a left (k.At slots temps inner) x fun u ↦ k.At slots (temps ++ [u]) inner)
    (hr : ∀ u, e.Realizes (a + left.length) right (k.At slots (temps ++ [u]) inner) y
      fun v ↦ k.At slots (temps ++ [u] ++ [v]) inner) :
    e.Realizes a (left ++ right ++ [⟨.binary op, .none, line⟩]) (k.At slots temps inner)
      (do compute (op.apply (← x) (← y))) fun v ↦ k.At slots (temps ++ [v]) inner := by
  rw [List.append_assoc]
  exact hl.bind fun u ↦ (hr u).bind fun v hcode ↦ follows_binary hcode.head

/-- A window is opened, filled, and taken by an instruction. -/
theorem realizes_window {openLine : Nat} {temps' : List Value} {values : Evaluation σ (List Value)}
    {f : List Value → Evaluation σ Value}
    (hvalues : e.Realizes (a + 1) code (k.At slots temps (k.height slots temps :: inner)) values
      fun args ↦ k.At slots (temps ++ args) (k.height slots temps :: inner))
    (hf : ∀ args b, e.program.code[b]? = some i →
      e.Follows (k.At slots (temps ++ args) (k.height slots temps :: inner) b) (f args)
        fun v ↦ k.At slots (temps' ++ [v]) inner (b + 1)) :
    e.Realizes a (⟨.openWindow, .none, openLine⟩ :: (code ++ [i])) (k.At slots temps inner)
      (values >>= f) fun v ↦ k.At slots (temps' ++ [v]) inner :=
  .before_cons (fun hi ↦ leads_openWindow hi rfl)
    (hvalues.bind fun args hcode ↦ hf args _ hcode.head)

end Engine

open Engine Evaluation

/-! ### Expressions -/

variable {e : Engine σ} {call : Caller σ}

mutual

/-- The code of an expression leaves the value of the expression. -/
theorem Expr.realizes (hcall : e.Answers call) (k : Floor) (slots : List Slot) (temps : List Value)
    (inner : List Nat) (a : Nat) : (x : Expr) → x.Written →
    (∀ m ∈ x.staticMembers, Text.IsSimple m) →
    e.Realizes a (x.code false (scopeOf slots) a) (k.At slots temps inner) (x.eval e.bridge call)
      fun v ↦ k.At slots (temps ++ [v]) inner
  | .literal l line => fun _ _ hcode ↦ follows_push hcode.head
  | .read place line => fun hw hm ↦
    (place.realizes hcall k slots temps inner a hw hm).bind fun location ↦
      .assume fun hlocation hcode ↦ follows_get hlocation hw hm hcode.head
  | .assign place value line => fun hw hm ↦ by
    obtain ⟨hplace, hvalue⟩ := List.forall_mem_append.mp hm
    rw [Expr.code, List.append_assoc]
    refine (place.realizes hcall k slots temps inner a hw.1 hplace).bind fun location ↦
      .assume fun hlocation ↦ ?_
    refine (value.realizes hcall k slots (temps ++ location.operands) inner _ hw.2 hvalue).bind
      fun v hcode ↦ ?_
    exact (follows_set hlocation hw.1 hplace (.inl rfl) hcode.head).bind fun _ ↦ .pure fun _ _ h ↦ h
  | .update place op value readLine storeLine => fun hw hm ↦ by
    obtain ⟨hplace, hvalue⟩ := List.forall_mem_append.mp hm
    simp only [Expr.code, List.append_assoc, List.length_append, ← Nat.add_assoc]
    refine (place.realizes hcall k slots temps inner a hw.1 hplace).bind fun location ↦
      .assume fun hlocation ↦ .before (leads_copy hlocation) ?_
    refine .bind (fun hcode ↦ follows_get hlocation hw.1 hplace hcode.head) fun old ↦ ?_
    refine (value.realizes hcall k slots (temps ++ location.operands ++ [old]) inner _ hw.2
      hvalue).bind fun v hcode ↦ ?_
    refine (follows_binary hcode.head).bind fun new ↦ ?_
    exact (follows_set hlocation hw.1 hplace (.inr rfl) hcode.tail.head).bind
      fun _ ↦ .pure fun _ _ h ↦ h
  | .negate operand signLine line => fun hw hm ↦
    .before_cons leads_push ((operand.realizes hcall k slots (temps ++ [.int 0]) inner _ hw hm).bind
      fun v hcode ↦ follows_binary hcode.head)
  | .not operand line => fun hw hm ↦
    (operand.realizes hcall k slots temps inner a hw hm).bind fun v hcode ↦
      follows_invert hcode.head
  | .binary op left right line => fun hw hm ↦ by
    obtain ⟨hleft, hright⟩ := List.forall_mem_append.mp hm
    have hbase := realizes_binary op.base line (left.realizes hcall k slots temps inner a hw.1 hleft)
      fun u ↦ right.realizes hcall k slots (temps ++ [u]) inner _ hw.2 hright
    rw [Expr.code, Expr.eval]
    rcases op.isNegated
    · simpa using hbase
    · have hnegated : e.Realizes a (_ ++ [⟨.invert, .none, line⟩]) (k.At slots temps inner)
          (_ >>= fun result : Value ↦ compute result.invert)
          fun v ↦ k.At slots (temps ++ [v]) inner :=
        hbase.bind fun result hcode ↦ follows_invert hcode.head
      simpa using hnegated
  | .connect op left right line => fun hw hm hcode ↦ by
    obtain ⟨hleft, hright⟩ := List.forall_mem_append.mp hm
    have hop : op.exit = .jumpIfFalse ∨ op.exit = .jumpIfTrue := by
      cases op
      · exact .inl rfl
      · exact .inr rfl
    have hwanted : wanted op.exit = op.decisive := by
      cases op <;> rfl
    rw [Expr.code] at hcode ⊢
    have htest := hcode.left.right
    have hsecond := hcode.right
    rw [List.length_append, ← Nat.add_assoc] at hsecond
    rw [List.length_append, List.length_append, ← Nat.add_assoc, ← Nat.add_assoc]
    refine (left.realizes hcall k slots temps inner a hw.1 hleft hcode.left.left).bind fun v ↦ ?_
    have hcopied : e.Follows (k.At slots (temps ++ [v]) inner _) (pure v)
        fun u ↦ k.At slots (temps ++ [v] ++ [u]) inner _ :=
      .before (leads_dup htest.head rfl rfl) (.pure fun _ _ h ↦ h)
    refine (follows_condition htest.tail.head hop hcopied).bind fun given ↦ ?_
    rw [hwanted]
    by_cases hgiven : given = op.decisive
    · -- The first operand is the result. Control goes to the end of the code.
      rw [if_pos hgiven, if_pos hgiven]
      exact .pure fun _ _ h ↦ h
    · rw [if_neg hgiven, if_neg hgiven]
      exact .before (leads_pop htest.tail.tail.head rfl rfl)
        (right.realizes hcall k slots temps inner _ hw.2 hright hsecond)
  | .list items openLine closeLine => fun hw hm ↦
    realizes_window (realizesAll hcall k slots temps _ _ items hw hm)
      fun args b hi ↦ follows_gather hi trivial rfl rfl
  | .call name args openLine closeLine => fun hw hm ↦
    realizes_window (realizesAll hcall k slots temps _ _ args hw hm)
      fun values b hi ↦ follows_calling hcall hi rfl
  | .construct type args openLine closeLine => fun hw hm ↦
    realizes_window (realizesAll hcall k slots temps _ _ args hw hm)
      fun values b hi ↦ follows_gather hi trivial rfl rfl
  | .callStatic type member args openLine closeLine => fun hw hm ↦ by
    have hsplit := Step.splitMember_qualified type (hm member (.head _))
    refine realizes_window (realizesAll hcall k slots temps _ _ args hw fun m h ↦ hm m (.tail _ h))
      fun values b hi ↦ follows_gather hi (Text.isSome_unqualified? type member) rfl ?_
    show (liftM (Step.splitMember (Text.qualified type member)) >>= _) = _
    rw [hsplit]
    rfl
  | .callMethod receiver name args openLine closeLine => fun hw hm ↦ by
    obtain ⟨hreceiver, hargs⟩ := List.forall_mem_append.mp hm
    refine (receiver.realizes hcall k slots temps inner a hw.1 hreceiver).bind fun v ↦ ?_
    exact realizes_window (realizesAll hcall k slots (temps ++ [v]) _ _ args hw.2 hargs)
      fun values b hi ↦ follows_callMethod hi

/-- The code of a place leaves the receiver and the index of its location. -/
theorem Place.realizes (hcall : e.Answers call) (k : Floor) (slots : List Slot) (temps : List Value)
    (inner : List Nat) (a : Nat) : (place : Place) → place.Written →
    (∀ m ∈ place.staticMembers, Text.IsSimple m) →
    e.Realizes a (place.code false (scopeOf slots) a) (k.At slots temps inner)
      (place.eval e.bridge call) fun location b s q ↦
        place.Yields location ∧ k.At slots (temps ++ location.operands) inner b s q
  | .variable name => fun _ _ ↦ .nil fun s q hpre ↦ ⟨.variable name, by
    simpa [Location.operands] using hpre⟩
  | .element target index => fun hw hm ↦ by
    obtain ⟨htarget, hindex⟩ := List.forall_mem_append.mp hm
    refine (target.realizes hcall k slots temps inner a hw.1 htarget).bind fun t ↦ ?_
    refine (index.realizes hcall k slots (temps ++ [t]) inner _ hw.2 hindex).map fun i b s q h ↦
      ⟨.element target index t i, ?_⟩
    rwa [List.append_assoc] at h
  | .field receiver name => fun hw hm ↦
    (receiver.realizes hcall k slots temps inner a hw hm).map fun v b s q h ↦
      ⟨.field receiver name v, h⟩
  | .staticField type member => fun _ _ ↦ .nil fun s q hpre ↦ ⟨.staticField type member, by
    simpa [Location.operands] using hpre⟩

/-- The code of expressions one after the other leaves all their values. -/
theorem realizesAll (hcall : e.Answers call) (k : Floor) (slots : List Slot) (temps : List Value)
    (inner : List Nat) (a : Nat) : (items : List Expr) → writtenExprs items →
    (∀ m ∈ staticMembersAll items, Text.IsSimple m) →
    e.Realizes a (codeAll false (scopeOf slots) a items) (k.At slots temps inner)
      (evalAll e.bridge call items) fun values ↦ k.At slots (temps ++ values) inner
  | [] => fun _ _ ↦ .nil fun s q hpre ↦ by
    rw [List.append_nil]
    exact hpre
  | x :: rest => fun hw hm ↦ by
    obtain ⟨hx, hrest⟩ := List.forall_mem_append.mp hm
    refine (x.realizes hcall k slots temps inner a hw.1 hx).bind fun v ↦ ?_
    refine (realizesAll hcall k slots (temps ++ [v]) inner _ rest hw.2 hrest).map
      fun values b s q h ↦ ?_
    rwa [List.append_assoc] at h

end

end StackScript
