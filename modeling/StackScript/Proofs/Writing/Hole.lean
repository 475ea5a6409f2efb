import StackScript.Proofs.Grammar.Script

/-!
# Scripts with a hole

A script in which an expression is left open, in one of its functions: as the value of a statement, or as the
condition of one, in any block inside of any other. Whatever expression is written there, the whole is the script
with this expression in the hole (`Script.Holed.derives`); and if it is lawful with one expression, then it is so
with every sound one (`Script.Holed.lawful`).
-/

namespace StackScript

/-- A clause in which an expression is left open. -/
inductive Hole where
  | statement (s : Expr → Stmt)
  | conditional (s : Expr → Stmt)
  | alternative (s : Expr → Stmt)
  | braced (body : Expr → List Stmt) (closeLine : Nat)
  | sequence (body : Expr → List Stmt)

namespace Hole

/-- The clause with an expression in its hole. -/
def fill (e : Expr) : Hole → Clause
  | statement s => .statement (s e)
  | conditional s => .conditional (s e)
  | alternative s => .alternative (s e)
  | braced body closeLine => .braced (body e) closeLine
  | sequence body => .sequence (body e)

/-- Which rows of tokens a clause is written as before its hole and behind it. The last token of the expression
stands on the given line. -/
inductive Derives (line : Nat) : Hole → List Token → List Token → Prop
  | declare {name v n o s} (var : v.kind = .keyword .varKw) (identifier : n.kind = .identifier name)
    (equal : o.kind = .symbol .equal) (semicolon : s.kind = .symbol .semicolon) :
    Derives line (.statement fun e ↦ .declare name e) [v, n, o] [s]
  | giveBack {r s} (ret : r.kind = .keyword .returnKw) (semicolon : s.kind = .symbol .semicolon) :
    Derives line (.statement fun e ↦ .giveBack e s.span.line) [r] [s]
  | expression {s} (semicolon : s.kind = .symbol .semicolon) :
    Derives line (.statement fun e ↦ .expression e s.span.line) [] [s]
  | whileTest {body closeLine w us} (keyword : w.kind = .keyword .whileKw)
    (h : Clause.Derives (.braced body closeLine) us) :
    Derives line (.statement fun e ↦ .whileLoop e line body closeLine) [w] us
  | whileBody {condition body closeLine w ts before behind} (keyword : w.kind = .keyword .whileKw)
    (test : Phrase.Derives (.expression .assignment condition) ts)
    (h : Derives line (.braced body closeLine) before behind) :
    Derives line (.statement fun e ↦ .whileLoop condition (lastLine ts) (body e) closeLine)
      (w :: ts ++ before) behind
  | forSource {name body closeLine f n i us} (keyword : f.kind = .keyword .forKw)
    (identifier : n.kind = .identifier name) (in_ : i.kind = .keyword .inKw)
    (h : Clause.Derives (.braced body closeLine) us) :
    Derives line (.statement fun e ↦ .forIn name e line body closeLine) [f, n, i] us
  | forBody {name items body closeLine f n i ts before behind} (keyword : f.kind = .keyword .forKw)
    (identifier : n.kind = .identifier name) (in_ : i.kind = .keyword .inKw)
    (source : Phrase.Derives (.expression .assignment items) ts)
    (h : Derives line (.braced body closeLine) before behind) :
    Derives line (.statement fun e ↦ .forIn name items (lastLine ts) (body e) closeLine)
      (f :: n :: i :: ts ++ before) behind
  | block {body closeLine before behind} (h : Derives line (.braced body closeLine) before behind) :
    Derives line (.statement fun e ↦ .block (body e) closeLine) before behind
  | branch {s before behind} (h : Derives line (.conditional s) before behind) :
    Derives line (.statement s) before behind
  | ifTest {body closeLine i us} (keyword : i.kind = .keyword .ifKw)
    (h : Clause.Derives (.braced body closeLine) us) :
    Derives line (.conditional fun e ↦ .ifThen e line body closeLine) [i] us
  | ifBody {condition body closeLine i ts before behind} (keyword : i.kind = .keyword .ifKw)
    (test : Phrase.Derives (.expression .assignment condition) ts)
    (h : Derives line (.braced body closeLine) before behind) :
    Derives line (.conditional fun e ↦ .ifThen condition (lastLine ts) (body e) closeLine)
      (i :: ts ++ before) behind
  | elseTest {body closeLine alternative i us k vs} (keyword : i.kind = .keyword .ifKw)
    (h : Clause.Derives (.braced body closeLine) us) (else_ : k.kind = .keyword .elseKw)
    (other : Clause.Derives (.alternative alternative) vs) :
    Derives line (.conditional fun e ↦ .ifElse e line body closeLine k.span.line alternative) [i]
      (us ++ k :: vs)
  | elseBody {condition body closeLine alternative i ts before behind k vs}
    (keyword : i.kind = .keyword .ifKw)
    (test : Phrase.Derives (.expression .assignment condition) ts)
    (h : Derives line (.braced body closeLine) before behind) (else_ : k.kind = .keyword .elseKw)
    (other : Clause.Derives (.alternative alternative) vs) :
    Derives line (.conditional fun e ↦
      .ifElse condition (lastLine ts) (body e) closeLine k.span.line alternative)
      (i :: ts ++ before) (behind ++ k :: vs)
  | elseOther {condition body closeLine alternative i ts us k before behind}
    (keyword : i.kind = .keyword .ifKw)
    (test : Phrase.Derives (.expression .assignment condition) ts)
    (h : Clause.Derives (.braced body closeLine) us) (else_ : k.kind = .keyword .elseKw)
    (other : Derives line (.alternative alternative) before behind) :
    Derives line (.conditional fun e ↦
      .ifElse condition (lastLine ts) body closeLine k.span.line (alternative e))
      (i :: ts ++ us ++ k :: before) behind
  | elseIf {s before behind} (h : Derives line (.conditional s) before behind) :
    Derives line (.alternative s) before behind
  | elseBlock {body closeLine before behind} (h : Derives line (.braced body closeLine) before behind) :
    Derives line (.alternative fun e ↦ .block (body e) closeLine) before behind
  | braced {body o c before behind} (opening : o.kind = .symbol .leftBrace)
    (h : Derives line (.sequence body) before behind) (closing : c.kind = .symbol .rightBrace) :
    Derives line (.braced body c.span.line) (o :: before) (behind ++ [c])
  | first {s rest before behind us} (h : Derives line (.statement s) before behind)
    (later : Clause.Derives (.sequence rest) us) :
    Derives line (.sequence fun e ↦ s e :: rest) before (behind ++ us)
  | later {s rest ts before behind} (first : Clause.Derives (.statement s) ts)
    (h : Derives line (.sequence rest) before behind) :
    Derives line (.sequence fun e ↦ s :: rest e) (ts ++ before) behind

variable {line : Nat} {hole : Hole} {before behind ts : List Token} {e e' : Expr}

/-- Whatever expression is written in the hole, the whole is the clause with this expression. -/
theorem Derives.fill (h : hole.Derives line before behind)
    (he : Phrase.Derives (.expression .assignment e) ts) (hline : lastLine ts = line) :
    (hole.fill e).Derives (before ++ ts ++ behind) := by
  induction h with
  | declare hv hn ho hs => exact .declare (.valued hv hn ho he hs)
  | giveBack hr hs => exact .giveBack hr he hs
  | expression hs => exact .expression he hs
  | whileTest hw hbody => exact hline ▸ .whileLoop hw he hbody
  | whileBody hw htest _ ih => simpa [Hole.fill] using Clause.Derives.whileLoop hw htest ih
  | forSource hf hn hi hbody => exact hline ▸ .forIn hf hn hi he hbody
  | forBody hf hn hi hsource _ ih => simpa [Hole.fill] using Clause.Derives.forIn hf hn hi hsource ih
  | block _ ih => exact .block ih
  | branch _ ih => exact .branch ih
  | ifTest hi hbody => exact hline ▸ .ifThen hi he hbody
  | ifBody hi htest _ ih => simpa [Hole.fill] using Clause.Derives.ifThen hi htest ih
  | elseTest hi hbody hk hother => simpa [Hole.fill, hline] using Clause.Derives.ifElse hi he hbody hk hother
  | elseBody hi htest _ hk hother ih => simpa [Hole.fill] using Clause.Derives.ifElse hi htest ih hk hother
  | elseOther hi htest hbody hk _ ih => simpa [Hole.fill] using Clause.Derives.ifElse hi htest hbody hk ih
  | elseIf _ ih => exact .elseIf ih
  | elseBlock _ ih => exact .elseBlock ih
  | braced ho _ hc ih => simpa [Hole.fill] using Clause.Derives.braced ho ih hc
  | first _ hlater ih => simpa [Hole.fill] using Clause.Derives.cons ih hlater
  | later hfirst _ ih => simpa [Hole.fill] using Clause.Derives.cons hfirst ih

/-- The names that a clause declares in the scope that it stands in, and a block inside of it. -/
def names (e : Expr) : Hole → List String
  | statement s | conditional s | alternative s => [s e].filterMap Stmt.declared?
  | braced body _ | sequence body => (body e).filterMap Stmt.declared?

/-- Names do not depend on expressions. -/
theorem Derives.names_eq (h : hole.Derives line before behind) (e e' : Expr) :
    hole.names e = hole.names e' := by
  induction h with
  | @first s rest _ _ _ _ _ ih =>
    have hcons (t : Stmt) : (t :: rest).filterMap Stmt.declared? =
        [t].filterMap Stmt.declared? ++ rest.filterMap Stmt.declared? := List.filterMap_append (l := [t])
    exact (hcons _).trans ((congrArg (· ++ rest.filterMap Stmt.declared?) ih).trans (hcons _).symm)
  | @later s rest _ _ _ _ _ ih =>
    have hcons (body : List Stmt) : (s :: body).filterMap Stmt.declared? =
        [s].filterMap Stmt.declared? ++ body.filterMap Stmt.declared? := List.filterMap_append (l := [s])
    exact (hcons _).trans ((congrArg ([s].filterMap Stmt.declared? ++ ·) ih).trans (hcons _).symm)
  | branch _ ih | elseIf _ ih | braced _ _ _ ih => exact ih
  | _ => rfl

/-- A clause is lawful with an expression in its hole. It stands in a loop if `inLoop`. -/
def Lawful (inLoop : Bool) (e : Expr) : Hole → Prop
  | statement s | conditional s | alternative s => (s e).Lawful inLoop
  | braced body _ => ((body e).filterMap Stmt.declared?).Nodup ∧ lawfulAll inLoop (body e)
  | sequence body => lawfulAll inLoop (body e)

/-- A clause that is lawful with one expression is so with every sound one. -/
theorem Derives.lawful (h : hole.Derives line before behind) {inLoop : Bool}
    (hlawful : hole.Lawful inLoop e) (he' : e'.Sound) : hole.Lawful inLoop e' := by
  induction h generalizing inLoop with
  | declare | giveBack | expression => exact he'
  | whileTest | forSource | ifTest | elseTest => exact ⟨he', hlawful.2⟩
  | whileBody _ _ _ ih | forBody _ _ _ _ _ ih | ifBody _ _ _ ih => exact ⟨hlawful.1, ih hlawful.2⟩
  | block _ ih | elseBlock _ ih | branch _ ih | elseIf _ ih => exact ih hlawful
  | elseBody _ _ _ _ _ ih =>
    obtain ⟨hs, hnodup, hl, hother⟩ := hlawful
    obtain ⟨hnodup', hl'⟩ := ih ⟨hnodup, hl⟩
    exact ⟨hs, hnodup', hl', hother⟩
  | elseOther _ _ _ _ _ ih =>
    obtain ⟨hs, hnodup, hl, hother⟩ := hlawful
    exact ⟨hs, hnodup, hl, ih hother⟩
  | braced _ h _ ih =>
    exact ⟨Eq.mp (congrArg List.Nodup (h.names_eq e e')) hlawful.1, ih hlawful.2⟩
  | first _ _ ih => exact ⟨ih hlawful.1, hlawful.2⟩
  | later _ _ ih => exact ⟨hlawful.1, ih hlawful.2⟩

end Hole

/-! ### Scripts -/

/-- Which rows of tokens a script is written as before the hole in one of its functions and behind it. The last
token of the expression stands on the given line. -/
inductive Script.Holed (line : Nat) : (Expr → Script) → List Token → List Token → Prop
  | intro {globals gs earlier fs name params body closeLine f n o ps c before behind later ls e}
    (declared : InOrder GlobalDecl.Derives globals gs) (defined : InOrder FunctionDecl.Derives earlier fs)
    (keyword : f.kind = .keyword .funcKw) (identifier : n.kind = .identifier name)
    (opening : o.kind = .symbol .leftParen) (parameters : Parameters params ps)
    (closing : c.kind = .symbol .rightParen)
    (hole : Hole.Derives line (.braced body closeLine) before behind)
    (defined' : InOrder FunctionDecl.Derives later ls) (end_ : e.kind = .endOfInput) :
    Holed line (fun x ↦ ⟨globals, earlier ++ ⟨name, params, body x, closeLine⟩ :: later⟩)
      (gs ++ fs ++ (f :: n :: o :: ps ++ c :: before)) (behind ++ ls ++ [e])

/-- Things written in two rows. -/
theorem InOrder.append {α : Type} {D : α → List Token → Prop} {as bs : List α} {ts us : List Token}
    (h : InOrder D as ts) (h' : InOrder D bs us) : InOrder D (as ++ bs) (ts ++ us) := by
  induction h with
  | nil => exact h'
  | cons first _ ih =>
    rw [List.append_assoc]
    exact .cons first ih

/-- A script stays lawful if in the place of one function there is another lawful one of the same name. -/
theorem Script.Lawful.replace {globals : List GlobalDecl} {earlier later : List FunctionDecl}
    {f f' : FunctionDecl} (h : Script.Lawful ⟨globals, earlier ++ f :: later⟩) (hname : f'.name = f.name)
    (hf' : f'.Lawful) : Script.Lawful ⟨globals, earlier ++ f' :: later⟩ := by
  obtain ⟨hglobals, hfunctions, hvalues, hbodies⟩ := h
  refine ⟨hglobals, by simpa [hname] using hfunctions, hvalues, fun g hg ↦ ?_⟩
  rcases List.mem_append.mp hg with hmem | hmem
  · exact hbodies g (List.mem_append_left _ hmem)
  rcases List.mem_cons.mp hmem with rfl | hmem
  · exact hf'
  · exact hbodies g (List.mem_append_right _ (.tail _ hmem))

namespace Script.Holed

variable {fill : Expr → Script} {line : Nat} {before behind ts : List Token} {e e' : Expr}

/-- A script of one function, which gives back the value of an expression. -/
theorem giveBack {name : String} {params : List String} {f n o c b r s d u : Token} {ps : List Token}
    (keyword : f.kind = .keyword .funcKw) (identifier : n.kind = .identifier name)
    (opening : o.kind = .symbol .leftParen) (parameters : Parameters params ps)
    (closing : c.kind = .symbol .rightParen) (opening' : b.kind = .symbol .leftBrace)
    (ret : r.kind = .keyword .returnKw) (semicolon : s.kind = .symbol .semicolon)
    (closing' : d.kind = .symbol .rightBrace) (end_ : u.kind = .endOfInput) :
    Holed line (fun x ↦ ⟨[], [⟨name, params, [.giveBack x s.span.line], d.span.line⟩]⟩)
      (f :: n :: o :: ps ++ [c, b, r]) [s, d, u] :=
  .intro .nil .nil keyword identifier opening parameters closing
    (.braced opening' (.first (.giveBack ret semicolon) .nil) closing') .nil end_

/-- Whatever expression is written in the hole, the whole is the script with this expression. -/
theorem derives (h : Holed line fill before behind) (he : Phrase.Derives (.expression .assignment e) ts)
    (hline : lastLine ts = line) : (fill e).Derives (before ++ ts ++ behind) := by
  obtain ⟨declared, defined, keyword, identifier, opening, parameters, closing, hole, defined', end_⟩ := h
  have hbody := hole.fill he hline
  simpa using Script.Derives.intro declared
    (defined.append (.cons (.intro keyword identifier opening parameters closing hbody) defined'))
    (by simp) end_

/-- A script that is lawful with one expression is so with every sound one. -/
theorem lawful (h : Holed line fill before behind) (hl : (fill e).Lawful) (he' : e'.Sound) :
    (fill e').Lawful := by
  obtain ⟨-, -, -, -, -, -, -, hole, -, -⟩ := h
  obtain ⟨hparams, hbody⟩ := hl.bodies _ (List.mem_append_right _ List.mem_cons_self)
  exact hl.replace rfl ⟨hparams, hole.lawful hbody he'⟩

end Script.Holed

end StackScript
