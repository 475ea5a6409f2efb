import Mathlib
import StackScript.Proofs.Layout.Program
import StackScript.Proofs.Passage.Script
import StackScript.Proofs.Reading.Script
import StackScript.Proofs.Shape.Program

/-!
# The ranges of functions

The code of a program is cut into ranges, one for each function: that of the initialisers, and then
those of the functions of the script in the order of its text. A range begins at the entry of its
function and reaches up to the next entry, or to the end of the code. It ends by giving back null, and
no jump in it leads out of it (`Program.LaidOut`). That goes for every program that a text compiles to
(`laidOut_of_compile`).
-/

namespace StackScript

/-! ### Closed code -/

/-- Code from an address on that ends by giving back null, and whose jumps lead into it. -/
structure Code.Closed (start : Nat) (code : List Instruction) : Prop where
  ending : ∃ body line, code = body ++ epilogue line
  jumps : ∀ i ∈ code, i.op.isJump = true → start ≤ i.count ∧ i.count < start + code.length

theorem Code.Closed.ne_nil {start : Nat} {code : List Instruction} (h : Closed start code) :
    code ≠ [] := by
  obtain ⟨body, line, rfl⟩ := h.ending
  simp [epilogue]

/-- Where a jump leads to is a known place. -/
theorem Instruction.Stands.exists_target {i : Instruction} {known : Nat × Shape → Prop}
    {q q' : Nat × Shape} (h : i.Stands known q q') (hi : i.op.isJump = true) :
    ∃ sh, known (i.count, sh) := by
  cases h with
  | perform he _ _ =>
    cases he with
    | operands hop | window hop | pop hop | dup hop | pushLocal hop | setLocal hop | keep hop
    | openWindow hop =>
      revert hi hop
      cases i.op <;> simp [Operation.isJump, Operation.operands?, Operation.receivers?]
  | jump _ ht | branch _ ht _ => exact ⟨_, ht⟩
  | call hop _ | giveBack hop =>
    rw [hop] at hi
    cases hi

/-- Code that is never left keeps its jumps. -/
theorem Sealed.closed {start : Nat} {sh : Shape} {body : List Instruction} {line : Nat}
    {q' : Nat × Shape} {sites : List (Nat × Shape)}
    (h : Sealed shapeRule (start, sh) (body ++ epilogue line) q' sites) :
    Code.Closed start (body ++ epilogue line) := by
  obtain ⟨places, hroute, -⟩ := h
  refine ⟨⟨body, line, rfl⟩, fun i hi hjump ↦ ?_⟩
  obtain ⟨k, hk⟩ := List.mem_iff_getElem?.mp hi
  obtain ⟨hlt, -⟩ := List.getElem?_eq_some_iff.mp hk
  have hlength := hroute.length_eq
  obtain ⟨j, q', hj, hfits⟩ := hroute.exists_fits (List.getElem?_eq_getElem (hlength ▸ hlt))
  obtain rfl : i = j := Option.some.inj (hk.symm.trans hj)
  -- The places of sealed code are its addresses, and its jumps lead to places of it.
  obtain ⟨sh, htarget⟩ := Instruction.Stands.exists_target hfits hjump
  obtain ⟨n, hn⟩ := List.mem_iff_getElem?.mp htarget
  obtain ⟨hlt', -⟩ := List.getElem?_eq_some_iff.mp hn
  have haddress : i.count = start + n := hroute.address_eq hn
  omega

theorem FunctionDecl.closed (folding : Bool) {f : FunctionDecl} (hw : f.Written) (start : Nat) :
    Code.Closed start (f.code folding start) :=
  Sealed.closed (f.shaped folding hw start (.locals 0))

theorem closed_initializer (folding : Bool) (s : Script) :
    Code.Closed 0 (globalsCode folding 0 s.globals ++ epilogue s.initializerLine) :=
  Sealed.closed (Laid.sealed (globalsShaped folding 0 s.globals).site
    (sealed_epilogue _ _ s.initializerLine (.locals 0)))

/-! ### Ranges one behind the other -/

/-- Functions with their code, laid out one behind the other from an address on. -/
def Tiled (start : Nat) : List (FunctionEntry × List Instruction) → Prop
  | [] => True
  | (f, code) :: rest =>
    f.address = start ∧ Code.Closed start code ∧ Tiled (start + code.length) rest

namespace Tiled

variable {start : Nat} {pieces : List (FunctionEntry × List Instruction)}

theorem le_address (h : Tiled start pieces) : ∀ piece ∈ pieces, start ≤ piece.1.address := by
  induction pieces generalizing start with
  | nil => exact fun _ h ↦ nomatch h
  | cons first rest ih =>
    obtain ⟨haddress, -, hrest⟩ := h
    refine List.forall_mem_cons.mpr ⟨Nat.le_of_eq haddress.symm, fun piece hp ↦ ?_⟩
    exact Nat.le_trans (Nat.le_add_right _ _) (ih hrest piece hp)

/-- Later functions are entered at higher addresses. -/
theorem pairwise_lt (h : Tiled start pieces) :
    pieces.Pairwise fun piece piece' ↦ piece.1.address < piece'.1.address := by
  induction pieces generalizing start with
  | nil => exact .nil
  | cons first rest ih =>
    obtain ⟨haddress, hclosed, hrest⟩ := h
    refine .cons (fun piece hp ↦ ?_) (ih hrest)
    have hpos := List.length_pos_iff.mpr hclosed.ne_nil
    have hle := hrest.le_address piece hp
    omega

/-- The code of a function is found between its entry and the next one. -/
theorem exists_split (h : Tiled start pieces) {k : Nat} {f : FunctionEntry}
    {code : List Instruction} (hk : pieces[k]? = some (f, code)) : ∃ before after,
      pieces.flatMap (·.2) = before ++ code ++ after ∧ start + before.length = f.address ∧
      Code.Closed f.address code ∧
      (pieces[k + 1]?.map (·.1.address)).getD (start + (pieces.flatMap (·.2)).length) =
        f.address + code.length := by
  induction pieces generalizing start k with
  | nil => cases hk
  | cons first rest ih =>
    obtain ⟨haddress, hclosed, hrest⟩ := h
    cases k with
    | zero =>
      obtain rfl := Option.some.inj hk
      obtain rfl : f.address = start := haddress
      refine ⟨[], rest.flatMap (·.2), rfl, rfl, hclosed, ?_⟩
      cases rest with
      | nil => simp
      | cons next rest => simpa using hrest.1
    | succ k =>
      obtain ⟨before, after, hcode, hlength, hclosed', hlimit⟩ := ih hrest hk
      refine ⟨first.2 ++ before, after, by simp [hcode], ?_, hclosed', ?_⟩
      · rw [List.length_append]
        omega
      · rw [← hlimit]
        simp [Nat.add_assoc]

end Tiled

/-! ### Programs -/

/-- The functions of a script with their code, from an address on. -/
def functionPieces (folding : Bool) (start : Nat) :
    List FunctionDecl → List (FunctionEntry × List Instruction)
  | [] => []
  | f :: rest => (⟨f.name, f.params.length, start⟩, f.code folding start) ::
    functionPieces folding (start + (f.code folding start).length) rest

theorem functionsCode_eq (folding : Bool) (start : Nat) (functions : List FunctionDecl) :
    functionsCode folding start functions = ((functionPieces folding start functions).map (·.1),
      (functionPieces folding start functions).flatMap (·.2)) := by
  induction functions generalizing start with
  | nil => rfl
  | cons f rest ih => simp [functionsCode, functionPieces, ih]

theorem tiled_functionPieces (folding : Bool) (start : Nat) {functions : List FunctionDecl}
    (hw : ∀ f ∈ functions, f.Written) : Tiled start (functionPieces folding start functions) := by
  induction functions generalizing start with
  | nil => trivial
  | cons f rest ih =>
    exact ⟨rfl, f.closed folding (hw f (.head _)) start, ih _ fun g hg ↦ hw g (.tail _ hg)⟩

theorem map_name_functionPieces (folding : Bool) (start : Nat) (functions : List FunctionDecl) :
    (functionPieces folding start functions).map (·.1.name) = functions.map (·.name) := by
  induction functions generalizing start with
  | nil => rfl
  | cons f rest ih => simp [functionPieces, ih]

theorem getElem?_functionPieces (folding : Bool) (start : Nat) {functions : List FunctionDecl}
    {k : Nat} {f : FunctionDecl} (hk : functions[k]? = some f) : ∃ address,
      (functionPieces folding start functions)[k]? =
        some (⟨f.name, f.params.length, address⟩, f.code folding address) := by
  induction functions generalizing start k with
  | nil => cases hk
  | cons first rest ih =>
    cases k with
    | zero =>
      obtain rfl := Option.some.inj hk
      exact ⟨start, rfl⟩
    | succ k => exact ih _ hk

/-- All functions of a program with their code, the initialiser first. -/
def Script.pieces (folding : Bool) (s : Script) : List (FunctionEntry × List Instruction) :=
  let initializer := globalsCode folding 0 s.globals ++ epilogue s.initializerLine
  (⟨initializerName, 0, 0⟩, initializer) :: functionPieces folding initializer.length s.functions

theorem Script.functions_program (folding : Bool) (s : Script) :
    (s.program folding).functions = (s.pieces folding).map (·.1) := by
  simp [Script.program, pieces, functionsCode_eq]

theorem Script.code_program (folding : Bool) (s : Script) :
    (s.program folding).code.toList = (s.pieces folding).flatMap (·.2) := by
  simp [Script.program, pieces, functionsCode_eq]

theorem Script.tiled_pieces (folding : Bool) {s : Script} (hw : s.Written) :
    Tiled 0 (s.pieces folding) := by
  refine ⟨rfl, closed_initializer folding s, ?_⟩
  rw [Nat.zero_add]
  exact tiled_functionPieces folding _ hw.2

namespace Program

/-- Where the code of the function in some position ends: at the next entry, or at the end of the
code. -/
def limit (p : Program) (k : Nat) : Nat :=
  (p.functions[k + 1]?.map (·.address)).getD p.code.size

/-- The code between two addresses. -/
def between (p : Program) (start limit : Nat) : List Instruction :=
  (p.code.toList.drop start).take (limit - start)

/-- A program is cut into the ranges of the functions of a script. -/
structure LaidOut (p : Program) (s : Script) : Prop where
  /-- No jump waits for its target. -/
  settled : Code.Settled p.code.toList
  /-- The functions are entered in the order of the source, behind the initialiser at zero. -/
  names : p.functions.map (·.name) = initializerName :: s.functions.map (·.name)
  entry : p.functions.head?.map (·.address) = some 0
  increasing : (p.functions.map (·.address)).Pairwise (· < ·)
  /-- Names stand for one function each. -/
  distinct : (p.functions.map (·.name)).Nodup
  userFunctions : p.userFunctions.map (·.name) = s.functions.map (·.name)
  /-- The range of a function is not empty, and it is closed. -/
  ranges : ∀ k f, p.functions[k]? = some f → f.address < p.limit k ∧ p.limit k ≤ p.code.size ∧
    Code.Closed f.address (p.between f.address (p.limit k))
  /-- What stands in the range of a function is its own code. -/
  initializer : p.between 0 (p.limit 0) =
    globalsCode true 0 s.globals ++ epilogue s.initializerLine
  code : ∀ k d, s.functions[k]? = some d → ∃ f, p.functions[k + 1]? = some f ∧
    f.name = d.name ∧ f.arity = d.params.length ∧
    p.between f.address (p.limit (k + 1)) = d.code true f.address

end Program

/-- The range of a function in the program of a script. -/
theorem Script.between_program (folding : Bool) {s : Script} (hw : s.Written) {k : Nat}
    {f : FunctionEntry} {code : List Instruction}
    (hk : (s.pieces folding)[k]? = some (f, code)) :
    (s.program folding).limit k = f.address + code.length ∧
      f.address + code.length ≤ (s.program folding).code.size ∧
      (s.program folding).between f.address (f.address + code.length) = code ∧
      Code.Closed f.address code := by
  obtain ⟨before, after, hcode, hlength, hclosed, hlimit⟩ := (s.tiled_pieces folding hw).exists_split hk
  rw [Nat.zero_add] at hlength
  rw [← s.code_program folding, Nat.zero_add, Array.length_toList] at hlimit
  refine ⟨?_, ?_, ?_, hclosed⟩
  · rw [← hlimit, Program.limit, s.functions_program, List.getElem?_map, Option.map_map]
    rfl
  · rw [← Array.length_toList, s.code_program, hcode, ← hlength]
    simp
  · rw [Program.between, s.code_program, hcode, ← hlength, Nat.add_sub_cancel_left, List.append_assoc,
      List.drop_left, List.take_left]

theorem Script.map_name_program (folding : Bool) (s : Script) :
    (s.program folding).functions.map (·.name) = initializerName :: s.functions.map (·.name) := by
  rw [functions_program, List.map_map, pieces, List.map_cons]
  exact congrArg _ (map_name_functionPieces _ _ _)

theorem Script.pairwise_lt_program (folding : Bool) {s : Script} (hw : s.Written) :
    (s.program folding).functions.Pairwise (·.address < ·.address) := by
  rw [functions_program, List.pairwise_map]
  exact (s.tiled_pieces folding hw).pairwise_lt

/-- The functions are in the order of their entries already. -/
theorem Script.map_name_userFunctions (folding : Bool) {s : Script} (hw : s.Written)
    (hnames : (initializerName :: s.functions.map (·.name)).Nodup) :
    (s.program folding).userFunctions.map (·.name) = s.functions.map (·.name) := by
  obtain ⟨entries, hentries⟩ : ∃ entries,
      (s.program folding).functions = ⟨initializerName, 0, 0⟩ :: entries :=
    ⟨_, s.functions_program folding⟩
  have hmap := s.map_name_program folding
  rw [hentries, List.map_cons, List.cons.injEq] at hmap
  have hnot (f : FunctionEntry) (hf : f ∈ entries) : (f.name != initializerName) = true := by
    rw [bne_iff_ne]
    rintro hname
    refine (List.nodup_cons.mp hnames).1 (hmap.2 ▸ hname ▸ ?_)
    exact List.mem_map_of_mem hf
  -- Entries are in order already, so that sorting leaves them where they are.
  have hsorted := s.pairwise_lt_program folding hw
  rw [hentries] at hsorted
  rw [Program.userFunctions, hentries, List.filter_cons_of_neg (by simp),
    List.filter_eq_self.mpr hnot, List.mergeSort_of_pairwise, hmap.2]
  exact hsorted.of_cons.imp fun h ↦ decide_eq_true (Nat.le_of_lt h)

/-- The program of a script is laid out as the script is. -/
theorem Script.laidOut {s : Script} (hw : s.Written)
    (hnames : (initializerName :: s.functions.map (·.name)).Nodup) : (s.program true).LaidOut s := by
  refine ⟨s.settled_program true, s.map_name_program true, rfl,
    List.pairwise_map.mpr (s.pairwise_lt_program true hw), s.map_name_program true ▸ hnames,
    s.map_name_userFunctions true hw hnames, fun k f hf ↦ ?_, ?_, fun k d hd ↦ ?_⟩
  · rw [s.functions_program, List.getElem?_map, Option.map_eq_some_iff] at hf
    obtain ⟨⟨_, code⟩, hk, rfl⟩ := hf
    obtain ⟨hlimit, hle, hbetween, hclosed⟩ := s.between_program true hw hk
    have hpos := List.length_pos_iff.mpr hclosed.ne_nil
    rw [hlimit, hbetween]
    exact ⟨Nat.lt_add_of_pos_right hpos, hle, hclosed⟩
  · obtain ⟨hlimit, -, hbetween, -⟩ := s.between_program true hw
      (show (s.pieces true)[0]? = some _ from rfl)
    exact hlimit ▸ hbetween
  · obtain ⟨address, hk⟩ := getElem?_functionPieces true
      (globalsCode true 0 s.globals ++ epilogue s.initializerLine).length hd
    have hk : (s.pieces true)[k + 1]? = _ := hk
    obtain ⟨hlimit, -, hbetween, -⟩ := s.between_program true hw hk
    refine ⟨_, ?_, rfl, rfl, hlimit ▸ hbetween⟩
    rw [s.functions_program, List.getElem?_map, hk]
    rfl

/-- What a text compiles to is the program of the lawful script that is read from the text. -/
theorem exists_script_of_compile {source : String} {c : Compiled} (h : compile source = .ok c) :
    ∃ s : Script, s.Derives (Scanned.tokens (Scanned.scan source)) ∧ s.Lawful ∧ s.Written ∧
      c.program = s.program true := by
  obtain ⟨hfailed, hprogram⟩ := program_of_compile h
  obtain ⟨s, r, hrun, -, -, hclean⟩ := Reading.ends_script source
  have hread : readWith true source = ⟨s, r.diagnostics.finish, r.remarks.reverse⟩ := by
    rw [readWith, hrun]
  have hw := written_readWith true source
  rw [hread] at hfailed hprogram hw
  obtain ⟨hderives, hlawful⟩ := hclean ((Diagnostics.failed_finish _).symm.trans hfailed)
  exact ⟨s, hderives, hlawful, hw, hprogram⟩

/-- The program that a text compiles to is laid out as the script that is read from the text. -/
theorem laidOut_of_compile {source : String} {c : Compiled} (h : compile source = .ok c) :
    ∃ s : Script, s.Derives (Scanned.tokens (Scanned.scan source)) ∧ c.program.LaidOut s := by
  obtain ⟨s, hderives, hlawful, hw, hprogram⟩ := exists_script_of_compile h
  exact ⟨s, hderives, hprogram ▸ s.laidOut hw hlawful.functions⟩

/-- The layout of a script with a global and a function with a loop that is left. -/
theorem laidOut_of_compile_loop : ∃ c,
    compile "var g; func f() \x7b while (g) \x7b break; \x7d \x7d" = .ok c ∧
      ∃ s : Script, s.Derives (Scanned.tokens (Scanned.scan
        "var g; func f() \x7b while (g) \x7b break; \x7d \x7d")) ∧ c.program.LaidOut s := by
  have h : ∃ c, compile "var g; func f() \x7b while (g) \x7b break; \x7d \x7d" = .ok c :=
    ⟨_, by cbv⟩
  obtain ⟨c, hc⟩ := h
  exact ⟨c, hc, laidOut_of_compile hc⟩

end StackScript
