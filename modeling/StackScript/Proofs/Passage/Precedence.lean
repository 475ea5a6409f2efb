import StackScript.Parser.Role
import StackScript.Parser.Trail
import StackScript.Proofs.Grammar.Expression

/-!
# Binding power and layers

The reader of expressions goes by what a token can open and continue, and by how tightly it binds. This
is what the grammar has its layers for: a continuation makes an expression of some layer, and what the
reader leaves for later is what belongs to looser layers.
-/

namespace StackScript

/-! ### Layers in order -/

namespace Layer

/-- The place of a layer in their order, loosest first. -/
def rank : Layer → Nat
  | assignment => 1
  | disjunction => 2
  | conjunction => 3
  | comparison => 4
  | sum => 5
  | product => 6
  | sign => 7
  | primary => 8

theorem rank_inj {l l' : Layer} (h : l.rank = l'.rank) : l = l' := by
  cases l <;> cases l' <;> first | rfl | cases h

theorem rank_tighter {l : Layer} (h : l.rank < 8) : l.tighter.rank = l.rank + 1 := by
  cases l <;> first | rfl | exact absurd h (by decide)

theorem rank_le (l : Layer) : l.rank ≤ 8 := by
  cases l <;> decide

end Layer

/-- An expression of some layer is one of every looser layer. -/
theorem Phrase.Derives.loosen {l l' : Layer} {e : Expr} {ts : List Token}
    (h : Derives (.expression l e) ts) (hl : l'.rank ≤ l.rank) : Derives (.expression l' e) ts := by
  obtain ⟨k, hk⟩ := Nat.exists_eq_add_of_le hl
  induction k generalizing l' with
  | zero => exact Layer.rank_inj hk ▸ h
  | succ k ih =>
    have := l.rank_le
    have htighter : l'.tighter.rank = l'.rank + 1 := Layer.rank_tighter (by omega)
    exact .tighter (ih (by omega) (by omega))

/-! ### What tokens open and continue -/

/-- The layer of the expressions that are read with some binding power. -/
def Precedence.layer : Precedence → Layer
  | assignment => .assignment
  | or => .disjunction
  | and => .conjunction
  | comparison => .comparison
  | term => .sum
  | factor => .product
  | unary => .sign
  | subscript | member => .primary

theorem Precedence.rank_layer_le {least : Precedence} (h : least.level ≤ 7) :
    least.layer.rank ≤ 7 := by
  cases least <;> first | decide | exact absurd h (by decide)

theorem Precedence.eq_assignment {least : Precedence} (h : least.layer.rank ≤ 1) :
    least = .assignment := by
  cases least <;> first | rfl | exact absurd h (by decide)

/-- What kind of token opens an expression in some way. -/
def Opening.Begins (k : TokenKind) : Opening → Prop
  | literal value => k.literal? = some value
  | «variable» name => k = .identifier name
  | className name => k = .className name
  | construct => k = .keyword .newKw
  | group => k = .symbol .leftParen
  | list => k = .symbol .leftBracket
  | negate => k = .symbol .minus
  | not => k = .symbol .bang

theorem TokenKind.opening?_eq_some {k : TokenKind} {o : Opening} :
    k.opening? = some o ↔ o.Begins k := by
  constructor
  · intro h
    unfold opening? at h
    split at h <;> cases h <;> rfl
  · intro h
    cases o with
    | literal value =>
      unfold Opening.Begins literal? at h
      dsimp only at h
      split at h <;> cases h <;> rfl
    | «variable» | className | construct | group | list | negate | not =>
      cases h
      rfl

theorem Opening.Begins.unique {k : TokenKind} {o o' : Opening} (h : o.Begins k)
    (h' : o'.Begins k) : o = o' :=
  Option.some.inj ((TokenKind.opening?_eq_some.mpr h).symm.trans (TokenKind.opening?_eq_some.mpr h'))

namespace Continuation

/-- The layer of the expressions that a continuation makes. -/
def layer : Continuation → Layer
  | index | member => .primary
  | operator op => op.layer
  | connect op => op.layer

/-- No continuation makes an assignment or a sign. -/
theorem rank_layer_ne (c : Continuation) : c.layer.rank ≠ 1 ∧ c.layer.rank ≠ 7 := by
  rcases c with _ | _ | op | op <;> try cases op
  all_goals decide

/-- What kind of token continues an expression in some way. -/
def Begins (k : TokenKind) : Continuation → Prop
  | index => k = .symbol .leftBracket
  | member => k = .symbol .colon
  | operator op => k = .symbol op.symbol
  | connect op => k = .symbol op.symbol

/-- A continuation binds too loosely exactly if it belongs to a looser layer. -/
theorem level_lt_iff {least : Precedence} (h : least.level ≤ 7) (c : Continuation) :
    c.precedence.level < least.level ↔ c.layer.rank < least.layer.rank := by
  rcases c with _ | _ | op | op <;> cases least <;> try cases op
  all_goals first | decide | exact absurd h (by decide)

theorem rank_le_of_level_le {least : Precedence} {c : Continuation}
    (h : least.level ≤ c.precedence.level) : least.layer.rank ≤ c.layer.rank := by
  revert h
  rcases c with _ | _ | op | op <;> cases least <;> try cases op
  all_goals decide

theorem layer_next_operator (op : Infix) :
    (operator op).precedence.next.layer = op.layer.tighter ∧
      (operator op).precedence.next.level ≤ 7 ∧
      (operator op).precedence.next ≠ .assignment := by
  cases op <;> decide

theorem layer_next_connect (op : Connective) :
    (connect op).precedence.next.layer = op.layer.tighter ∧
      (connect op).precedence.next.level ≤ 7 ∧ (connect op).precedence.next ≠ .assignment := by
  cases op <;> decide

/-- The right operand of an operator is of the layer just tighter than the operator's own. -/
theorem rank_next_operator (op : Infix) :
    (operator op).precedence.next.layer.rank = op.layer.rank + 1 := by
  cases op <;> decide

theorem rank_next_connect (op : Connective) :
    (connect op).precedence.next.layer.rank = op.layer.rank + 1 := by
  cases op <;> decide

end Continuation

theorem TokenKind.continuation?_eq_some {k : TokenKind} {c : Continuation} :
    k.continuation? = some c ↔ c.Begins k := by
  constructor
  · intro h
    unfold continuation? at h
    split at h <;> cases h <;> rfl
  · intro h
    rcases c with _ | _ | op | op <;> try cases op
    all_goals
      cases h
      rfl

theorem TokenKind.compound?_eq_some {k : TokenKind} {op : BinaryOp} :
    k.compound? = some op ↔ ∃ sign, op.assigning? = some sign ∧ k = .symbol sign := by
  constructor
  · intro h
    unfold compound? at h
    split at h <;> cases h <;> exact ⟨_, rfl, rfl⟩
  · rintro ⟨sign, hsign, rfl⟩
    cases op <;> cases hsign <;> rfl

/-- The sign of an update neither assigns nor opens a call. -/
theorem TokenKind.ne_of_compound? {k : TokenKind} {op : BinaryOp} (h : k.compound? = some op) :
    k ≠ .symbol .equal ∧ k ≠ .symbol .leftParen := by
  constructor <;> rintro rfl <;> cases h

end StackScript
