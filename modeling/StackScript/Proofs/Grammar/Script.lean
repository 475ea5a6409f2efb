import StackScript.Bytecode.Program
import StackScript.Proofs.Grammar.Expression

/-!
# The grammar of scripts

Which rows of tokens are which statements, declarations and scripts: globals first, one function at
least, and the end of input. A script that is written so is lawful if its names are new where they are
declared, if it leaves loops only from inside of them, and if its expressions are sound.
-/

namespace StackScript

/-! ### Statements -/

/-- `var name;` or `var name = value;`. Without a value there is null. -/
inductive Declares : String → Expr → List Token → Prop
  | bare {name v n s} (var : v.kind = .keyword .varKw) (identifier : n.kind = .identifier name)
    (semicolon : s.kind = .symbol .semicolon) :
    Declares name (.literal .null n.span.line) [v, n, s]
  | valued {name value v n o ts s} (var : v.kind = .keyword .varKw)
    (identifier : n.kind = .identifier name) (equal : o.kind = .symbol .equal)
    (h : Phrase.Derives (.expression .assignment value) ts)
    (semicolon : s.kind = .symbol .semicolon) :
    Declares name value (v :: n :: o :: ts ++ [s])

/-- What the grammar of statements speaks of. -/
inductive Clause where
  | statement (s : Stmt)
  /-- A conditional, with or without alternative. -/
  | conditional (s : Stmt)
  /-- What may stand behind `else`. -/
  | alternative (s : Stmt)
  /-- Statements between braces, with the line of the closing one. -/
  | braced (body : List Stmt) (closeLine : Nat)
  /-- Statements one after the other. -/
  | sequence (body : List Stmt)

/-- Which rows of tokens a clause is written as. -/
inductive Clause.Derives : Clause → List Token → Prop
  | declare {name value ts} (h : Declares name value ts) :
    Derives (.statement (.declare name value)) ts
  | giveBackNull {r s} (ret : r.kind = .keyword .returnKw)
    (semicolon : s.kind = .symbol .semicolon) :
    Derives (.statement (.giveBack (.literal .null r.span.line) s.span.line)) [r, s]
  | giveBack {value r ts s} (ret : r.kind = .keyword .returnKw)
    (h : Phrase.Derives (.expression .assignment value) ts)
    (semicolon : s.kind = .symbol .semicolon) :
    Derives (.statement (.giveBack value s.span.line)) (r :: ts ++ [s])
  | whileLoop {condition body closeLine w ts us} (keyword : w.kind = .keyword .whileKw)
    (test : Phrase.Derives (.expression .assignment condition) ts)
    (h : Derives (.braced body closeLine) us) :
    Derives (.statement (.whileLoop condition (lastLine ts) body closeLine)) (w :: ts ++ us)
  | forIn {name items body closeLine f n i ts us} (keyword : f.kind = .keyword .forKw)
    (identifier : n.kind = .identifier name) (in_ : i.kind = .keyword .inKw)
    (source : Phrase.Derives (.expression .assignment items) ts)
    (h : Derives (.braced body closeLine) us) :
    Derives (.statement (.forIn name items (lastLine ts) body closeLine))
      (f :: n :: i :: ts ++ us)
  | breakLoop {b s} (keyword : b.kind = .keyword .breakKw)
    (semicolon : s.kind = .symbol .semicolon) :
    Derives (.statement (.breakLoop s.span.line)) [b, s]
  | continueLoop {c s} (keyword : c.kind = .keyword .continueKw)
    (semicolon : s.kind = .symbol .semicolon) :
    Derives (.statement (.continueLoop s.span.line)) [c, s]
  | block {body closeLine ts} (h : Derives (.braced body closeLine) ts) :
    Derives (.statement (.block body closeLine)) ts
  | expression {value ts s} (h : Phrase.Derives (.expression .assignment value) ts)
    (semicolon : s.kind = .symbol .semicolon) :
    Derives (.statement (.expression value s.span.line)) (ts ++ [s])
  | branch {s ts} (h : Derives (.conditional s) ts) : Derives (.statement s) ts
  | ifThen {condition body closeLine i ts us} (keyword : i.kind = .keyword .ifKw)
    (test : Phrase.Derives (.expression .assignment condition) ts)
    (h : Derives (.braced body closeLine) us) :
    Derives (.conditional (.ifThen condition (lastLine ts) body closeLine)) (i :: ts ++ us)
  | ifElse {condition body closeLine alternative i ts us e vs} (keyword : i.kind = .keyword .ifKw)
    (test : Phrase.Derives (.expression .assignment condition) ts)
    (h : Derives (.braced body closeLine) us) (else_ : e.kind = .keyword .elseKw)
    (other : Derives (.alternative alternative) vs) :
    Derives (.conditional
      (.ifElse condition (lastLine ts) body closeLine e.span.line alternative))
      (i :: ts ++ us ++ e :: vs)
  | elseIf {s ts} (h : Derives (.conditional s) ts) : Derives (.alternative s) ts
  | elseBlock {body closeLine ts} (h : Derives (.braced body closeLine) ts) :
    Derives (.alternative (.block body closeLine)) ts
  | braced {body o ts c} (opening : o.kind = .symbol .leftBrace)
    (h : Derives (.sequence body) ts) (closing : c.kind = .symbol .rightBrace) :
    Derives (.braced body c.span.line) (o :: ts ++ [c])
  | nil : Derives (.sequence []) []
  | cons {s rest ts us} (first : Derives (.statement s) ts) (h : Derives (.sequence rest) us) :
    Derives (.sequence (s :: rest)) (ts ++ us)

/-! ### Declarations -/

/-- The declaration of a global. -/
def GlobalDecl.Derives (g : GlobalDecl) (ts : List Token) : Prop :=
  Declares g.name g.value ts ∧ g.line = lastLine ts

/-- Names between commas, or none. -/
inductive Parameters : List String → List Token → Prop
  | none : Parameters [] []
  | one {name n} (identifier : n.kind = .identifier name) : Parameters [name] [n]
  | more {name other names n c ts} (identifier : n.kind = .identifier name)
    (comma : c.kind = .symbol .comma) (h : Parameters (other :: names) ts) :
    Parameters (name :: other :: names) (n :: c :: ts)

/-- The declaration of a function. -/
inductive FunctionDecl.Derives : FunctionDecl → List Token → Prop
  | intro {name params body closeLine f n o ps c ts} (keyword : f.kind = .keyword .funcKw)
    (identifier : n.kind = .identifier name) (opening : o.kind = .symbol .leftParen)
    (parameters : Parameters params ps) (closing : c.kind = .symbol .rightParen)
    (h : Clause.Derives (.braced body closeLine) ts) :
    Derives ⟨name, params, body, closeLine⟩ (f :: n :: o :: ps ++ c :: ts)

/-- Things written one after the other. -/
inductive InOrder {α : Type} (D : α → List Token → Prop) : List α → List Token → Prop
  | nil : InOrder D [] []
  | cons {a rest ts us} (first : D a ts) (h : InOrder D rest us) :
    InOrder D (a :: rest) (ts ++ us)

/-- A script: globals, then one function or more, then the end of input. -/
inductive Script.Derives : Script → List Token → Prop
  | intro {globals functions gs fs e} (declared : InOrder GlobalDecl.Derives globals gs)
    (defined : InOrder FunctionDecl.Derives functions fs) (nonempty : functions ≠ [])
    (end_ : e.kind = .endOfInput) :
    Derives ⟨globals, functions⟩ (gs ++ fs ++ [e])

/-! ### Lawful scripts -/

/-- The name that a statement declares in the scope that it stands in. -/
def Stmt.declared? : Stmt → Option String
  | .declare name _ => some name
  | _ => none

mutual

/-- No scope in the statement has two locals of one name, every jump to the end or the top of a loop
stands in a loop, and all expressions are sound. The statement itself stands in a loop if `inLoop`. -/
def Stmt.Lawful (inLoop : Bool) : Stmt → Prop
  | .declare _ value => value.Sound
  | .giveBack value _ => value.Sound
  | .ifThen condition _ body _ =>
    condition.Sound ∧ (body.filterMap Stmt.declared?).Nodup ∧ lawfulAll inLoop body
  | .ifElse condition _ body _ _ alternative =>
    condition.Sound ∧ (body.filterMap Stmt.declared?).Nodup ∧ lawfulAll inLoop body ∧
      alternative.Lawful inLoop
  | .whileLoop condition _ body _ =>
    condition.Sound ∧ (body.filterMap Stmt.declared?).Nodup ∧ lawfulAll true body
  | .forIn _ items _ body _ =>
    items.Sound ∧ (body.filterMap Stmt.declared?).Nodup ∧ lawfulAll true body
  | .breakLoop _ | .continueLoop _ => inLoop
  | .block body _ => (body.filterMap Stmt.declared?).Nodup ∧ lawfulAll inLoop body
  | .expression value _ => value.Sound

/-- The same for every statement of a row. -/
def lawfulAll (inLoop : Bool) : List Stmt → Prop
  | [] => True
  | s :: rest => s.Lawful inLoop ∧ lawfulAll inLoop rest

end

/-- No two parameters of a function have one name, and its body is lawful. -/
def FunctionDecl.Lawful (f : FunctionDecl) : Prop :=
  f.params.Nodup ∧ (f.body.filterMap Stmt.declared?).Nodup ∧ lawfulAll false f.body

/-- No two globals and no two functions have one name, no function has that of the initialisers, and
everything in the script is lawful. -/
structure Script.Lawful (s : Script) : Prop where
  globals : (s.globals.map (·.name)).Nodup
  functions : (initializerName :: s.functions.map (·.name)).Nodup
  values : ∀ g ∈ s.globals, g.value.Sound
  bodies : ∀ f ∈ s.functions, f.Lawful

end StackScript
