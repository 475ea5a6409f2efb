import StackScript.Proofs.Passage.Precedence
import StackScript.Text.Uppercase

/-!
# Writing expressions

An expression tree is written as a row of tokens (`Expr.tokens`). Parentheses stand where the layers ask for
them: around an operand of a looser layer than the operator takes, where the second operand of an operator has
to be of a tighter layer than the operator itself. Or every operand of an operator has parentheses.

Either way the row is the one of this tree in the grammar. If all of it stands on one line, the lines in the
tree are that one (`derives_tokens`).
-/

namespace StackScript

/-! ### Tokens -/

/-- How a literal is written. -/
def Literal.kind : Literal → TokenKind
  | null => .keyword .nullKw
  | bool true => .keyword .trueKw
  | bool false => .keyword .falseKw
  | int n => .int n
  | float x => .float x
  | string s => .string s

theorem Literal.literal?_kind (l : Literal) : l.kind.literal? = some l := by
  rcases l with _ | ⟨_ | _⟩ | _ | _ | _ <;> rfl

/-- How the name of a member is written. It may be capitalised. -/
def TokenKind.ofMember (name : String) : TokenKind :=
  match name.toList with
  | first :: _ => if Text.uppercase.contains first then .className name else .identifier name
  | [] => .identifier name

theorem TokenKind.member?_ofMember (name : String) : (ofMember name).member? = some name := by
  unfold ofMember
  split
  · split <;> rfl
  · rfl

/-- How a compound assignment is written. An operator that has none cannot be written, and a stray character
stands for it. -/
def BinaryOp.assigningKind (op : BinaryOp) : TokenKind :=
  match op.assigning? with
  | some sign => .symbol sign
  | none => .stray

theorem BinaryOp.exists_assigning {op : BinaryOp} {k : TokenKind} (h : k = op.assigningKind)
    (hk : k ≠ .stray) : ∃ sign, op.assigning? = some sign ∧ k = .symbol sign := by
  rw [assigningKind] at h
  split at h
  · rename_i sign hsign
    exact ⟨sign, hsign, h⟩
  · exact absurd h hk

/-! ### Trees -/

/-- The tightest layer that has an expression without parentheses. -/
def Expr.layer : Expr → Layer
  | .assign _ _ _ | .update _ _ _ _ _ => .assignment
  | .connect op _ _ _ => op.layer
  | .binary op _ _ _ => op.layer
  | .negate _ _ _ | .not _ _ => .sign
  | _ => .primary

/-- A row of tokens in parentheses. -/
def parenthesised (kinds : List TokenKind) : List TokenKind :=
  .symbol .leftParen :: kinds ++ [.symbol .rightParen]

/-- An expression in a place for those of some layer: in parentheses if it is of a looser one. -/
def Expr.within (layer : Layer) (e : Expr) (kinds : List TokenKind) : List TokenKind :=
  if layer.rank ≤ e.layer.rank then kinds else parenthesised kinds

/-- An operand of an operator that takes those of some layer. If `full` it has parentheses in any case. -/
def Expr.operand (full : Bool) (layer : Layer) (e : Expr) (kinds : List TokenKind) : List TokenKind :=
  if full then parenthesised kinds else e.within layer kinds

mutual

/-- How a place is written. -/
def Place.tokens (full : Bool) : Place → List TokenKind
  | .variable name => [.identifier name]
  | .element target index =>
    target.within .primary (target.tokens full) ++
      .symbol .leftBracket :: index.tokens full ++ [.symbol .rightBracket]
  | .field receiver name =>
    receiver.within .primary (receiver.tokens full) ++ [.symbol .colon, .ofMember name]
  | .staticField type member => [.className type, .symbol .colon, .ofMember member]

/-- How an expression is written. -/
def Expr.tokens (full : Bool) : Expr → List TokenKind
  | .literal value _ => [value.kind]
  | .read place _ => place.tokens full
  | .assign place value _ => place.tokens full ++ .symbol .equal :: value.tokens full
  | .update place op value _ _ => place.tokens full ++ op.assigningKind :: value.tokens full
  | .negate e _ _ => .symbol .minus :: e.operand full .sign (e.tokens full)
  | .not e _ => .symbol .bang :: e.operand full .sign (e.tokens full)
  | .binary op left right _ =>
    left.operand full op.layer (left.tokens full) ++
      .symbol op.symbol :: right.operand full op.layer.tighter (right.tokens full)
  | .connect op left right _ =>
    left.operand full op.layer (left.tokens full) ++
      .symbol op.symbol :: right.operand full op.layer.tighter (right.tokens full)
  | .list items _ _ => .symbol .leftBracket :: itemTokens full items ++ [.symbol .rightBracket]
  | .call name args _ _ => .identifier name :: parenthesised (itemTokens full args)
  | .construct type args _ _ =>
    .keyword .newKw :: .className type :: parenthesised (itemTokens full args)
  | .callStatic type member args _ _ =>
    .className type :: .symbol .colon :: .ofMember member :: parenthesised (itemTokens full args)
  | .callMethod receiver name args _ _ =>
    receiver.within .primary (receiver.tokens full) ++
      .symbol .colon :: .ofMember name :: parenthesised (itemTokens full args)

/-- How expressions are written between commas. -/
def itemTokens (full : Bool) : List Expr → List TokenKind
  | [] => []
  | [e] => e.tokens full
  | e :: other :: rest => e.tokens full ++ .symbol .comma :: itemTokens full (other :: rest)

end

mutual

/-- A place as it is on one line. -/
def Place.onLine (line : Nat) : Place → Place
  | .variable name => .variable name
  | .element target index => .element (target.onLine line) (index.onLine line)
  | .field receiver name => .field (receiver.onLine line) name
  | .staticField type member => .staticField type member

/-- An expression as it is on one line. -/
def Expr.onLine (line : Nat) : Expr → Expr
  | .literal value _ => .literal value line
  | .read place _ => .read (place.onLine line) line
  | .assign place value _ => .assign (place.onLine line) (value.onLine line) line
  | .update place op value _ _ => .update (place.onLine line) op (value.onLine line) line line
  | .negate operand _ _ => .negate (operand.onLine line) line line
  | .not operand _ => .not (operand.onLine line) line
  | .binary op left right _ => .binary op (left.onLine line) (right.onLine line) line
  | .connect op left right _ => .connect op (left.onLine line) (right.onLine line) line
  | .list items _ _ => .list (itemsOnLine line items) line line
  | .call name args _ _ => .call name (itemsOnLine line args) line line
  | .construct type args _ _ => .construct type (itemsOnLine line args) line line
  | .callStatic type member args _ _ => .callStatic type member (itemsOnLine line args) line line
  | .callMethod receiver name args _ _ =>
    .callMethod (receiver.onLine line) name (itemsOnLine line args) line line

/-- The same for the expressions of a row. -/
def itemsOnLine (line : Nat) : List Expr → List Expr
  | [] => []
  | e :: rest => e.onLine line :: itemsOnLine line rest

end

/-! ### Rows on one line -/

/-- Tokens on one line, without stray characters among them, that are of some kinds. -/
structure Spread (line : Nat) (kinds : List TokenKind) (ts : List Token) : Prop where
  kinds : ts.map (·.kind) = kinds
  line : ∀ t ∈ ts, t.span.line = line
  known : ∀ t ∈ ts, t.kind ≠ .stray

instance {line : Nat} {kinds : List TokenKind} {ts : List Token} : Decidable (Spread line kinds ts) :=
  decidable_of_iff (ts.map (·.kind) = kinds ∧ (∀ t ∈ ts, t.span.line = line) ∧ ∀ t ∈ ts, t.kind ≠ .stray)
    ⟨fun ⟨hkinds, hline, hknown⟩ ↦ ⟨hkinds, hline, hknown⟩, fun h ↦ ⟨h.kinds, h.line, h.known⟩⟩

namespace Spread

variable {line : Nat} {kinds kinds' : List TokenKind} {k : TokenKind} {ts : List Token}

theorem of_append (h : Spread line (kinds ++ kinds') ts) :
    ∃ us vs, ts = us ++ vs ∧ Spread line kinds us ∧ Spread line kinds' vs := by
  obtain ⟨us, vs, rfl, hus, hvs⟩ := List.map_eq_append_iff.mp h.kinds
  exact ⟨us, vs, rfl,
    ⟨hus, fun t ht ↦ h.line t (List.mem_append_left _ ht), fun t ht ↦ h.known t (List.mem_append_left _ ht)⟩,
    ⟨hvs, fun t ht ↦ h.line t (List.mem_append_right _ ht),
      fun t ht ↦ h.known t (List.mem_append_right _ ht)⟩⟩

theorem of_cons (h : Spread line (k :: kinds) ts) :
    ∃ t rest, ts = t :: rest ∧ t.kind = k ∧ t.span.line = line ∧ Spread line kinds rest := by
  obtain ⟨t, rest, rfl, ht, hrest⟩ := List.map_eq_cons_iff.mp h.kinds
  exact ⟨t, rest, rfl, ht, h.line t List.mem_cons_self,
    ⟨hrest, fun t ht ↦ h.line t (List.mem_cons_of_mem _ ht), fun t ht ↦ h.known t (List.mem_cons_of_mem _ ht)⟩⟩

theorem of_nil (h : Spread line [] ts) : ts = [] :=
  List.map_eq_nil_iff.mp h.kinds

theorem of_singleton (h : Spread line [k] ts) :
    ∃ t, ts = [t] ∧ t.kind = k ∧ t.span.line = line := by
  obtain ⟨t, rest, rfl, ht, hline, hrest⟩ := h.of_cons
  obtain rfl := hrest.of_nil
  exact ⟨t, rfl, ht, hline⟩

theorem lastLine_eq (h : Spread line kinds ts) (hne : ts ≠ []) : lastLine ts = line := by
  rw [lastLine, List.getLast?_eq_some_getLast hne]
  exact h.line _ (List.getLast_mem hne)

theorem of_enclosed {opening closing : TokenKind} (h : Spread line (opening :: kinds ++ [closing]) ts) :
    ∃ o us c, ts = o :: us ++ [c] ∧ o.kind = opening ∧ o.span.line = line ∧
      Spread line kinds us ∧ c.kind = closing ∧ c.span.line = line := by
  obtain ⟨o, rest, rfl, ho, holine, hrest⟩ := of_cons h
  obtain ⟨us, vs, rfl, hus, hvs⟩ := hrest.of_append
  obtain ⟨c, rfl, hc, hcline⟩ := hvs.of_singleton
  exact ⟨o, us, c, rfl, ho, holine, hus, hc, hcline⟩

end Spread

/-! ### What is written -/

section

variable {full : Bool} {line : Nat} {ts : List Token}

/-- Whatever is written as an expression does not need parentheses on its own layer. -/
def Expr.Conveyed (full : Bool) (line : Nat) (e : Expr) : Prop :=
  ∀ {ts}, Spread line (e.tokens full) ts → Phrase.Derives (.expression e.layer (e.onLine line)) ts

theorem derives_parenthesised {e : Expr} (he : e.Conveyed full line) (layer : Layer)
    (h : Spread line (parenthesised (e.tokens full)) ts) :
    Phrase.Derives (.expression layer (e.onLine line)) ts := by
  obtain ⟨o, us, c, rfl, ho, -, hus, hc, -⟩ := Spread.of_enclosed h
  have hinner : Phrase.Derives (.expression .assignment (e.onLine line)) us :=
    (he hus).loosen (by cases e.layer <;> decide)
  exact (Phrase.Derives.group ho hinner hc).loosen layer.rank_le

theorem derives_within {e : Expr} (he : e.Conveyed full line) {layer : Layer}
    (h : Spread line (e.within layer (e.tokens full)) ts) :
    Phrase.Derives (.expression layer (e.onLine line)) ts := by
  rw [Expr.within] at h
  split at h
  · rename_i hrank
    exact (he h).loosen hrank
  · exact derives_parenthesised he layer h

theorem derives_operand {e : Expr} (he : e.Conveyed full line) {layer : Layer}
    (h : Spread line (e.operand full layer (e.tokens full)) ts) :
    Phrase.Derives (.expression layer (e.onLine line)) ts := by
  rw [Expr.operand] at h
  split at h
  · exact derives_parenthesised he layer h
  · exact derives_within he h

/-- A whole expression is one of the loosest layer. -/
theorem derives_whole {e : Expr} (he : e.Conveyed full line) (h : Spread line (e.tokens full) ts) :
    Phrase.Derives (.expression .assignment (e.onLine line)) ts :=
  (he h).loosen (by cases e.layer <;> decide)

/-- Expressions with their brackets, from those between these. -/
theorem derives_enclosed {opening closing : Symbol} {es : List Expr}
    (h : Spread line (.symbol opening :: itemTokens full es ++ [.symbol closing]) ts)
    (hitems : ∀ {us}, es ≠ [] → Spread line (itemTokens full es) us →
      Phrase.Derives (.items (itemsOnLine line es)) us) :
    Phrase.Derives (.enclosed opening closing (itemsOnLine line es) line line) ts := by
  obtain ⟨o, us, c, rfl, ho, rfl, hus, hc, hcline⟩ := h.of_enclosed
  cases es with
  | nil =>
    obtain rfl := hus.of_nil
    exact hcline ▸ .none ho hc
  | cons e rest => exact hcline ▸ .some ho (hitems (List.cons_ne_nil e rest) hus) hc

end

/-- The parts of an operation, from its operands. -/
theorem exists_operands {layer layer' : Layer} {left right : Expr} {sign : Symbol} {full : Bool}
    {line : Nat} {ts : List Token} (hleft : left.Conveyed full line) (hright : right.Conveyed full line)
    (h : Spread line (left.operand full layer (left.tokens full) ++
      .symbol sign :: right.operand full layer' (right.tokens full)) ts) :
    ∃ us t vs, ts = us ++ t :: vs ∧ Phrase.Derives (.expression layer (left.onLine line)) us ∧
      t.kind = .symbol sign ∧ t.span.line = line ∧
      Phrase.Derives (.expression layer' (right.onLine line)) vs ∧ lastLine vs = line := by
  obtain ⟨us, rest, rfl, hus, hrest⟩ := h.of_append
  obtain ⟨t, vs, rfl, ht, hline, hvs⟩ := hrest.of_cons
  have hd := derives_operand hright hvs
  exact ⟨us, t, vs, rfl, derives_operand hleft hus, ht, hline, hd, hvs.lastLine_eq hd.ne_nil⟩

mutual

/-- A place is written as what it is. -/
theorem derives_placeTokens {full : Bool} {line : Nat} : (p : Place) → ∀ {ts},
    Spread line (p.tokens full) ts → Phrase.Derives (.place (p.onLine line)) ts
  | .variable name, ts, h => by
    obtain ⟨t, rfl, ht, -⟩ := h.of_singleton
    exact .variable ht
  | .element target index, ts, h => by
    obtain ⟨front, last, rfl, hfront, hlast⟩ := h.of_append
    obtain ⟨us, rest, rfl, hus, hrest⟩ := hfront.of_append
    obtain ⟨o, vs, rfl, ho, -, hvs⟩ := hrest.of_cons
    obtain ⟨c, rfl, hc, -⟩ := hlast.of_singleton
    exact .element (derives_within (derives_tokens target) hus) ho
      (derives_whole (derives_tokens index) hvs) hc
  | .field receiver name, ts, h => by
    obtain ⟨us, rest, rfl, hus, hrest⟩ := h.of_append
    obtain ⟨c, rest, rfl, hc, -, hrest⟩ := hrest.of_cons
    obtain ⟨m, rfl, hm, -⟩ := hrest.of_singleton
    exact .field (derives_within (derives_tokens receiver) hus) hc
      (hm ▸ TokenKind.member?_ofMember name)
  | .staticField type member, ts, h => by
    obtain ⟨t, rest, rfl, ht, -, hrest⟩ := h.of_cons
    obtain ⟨c, rest, rfl, hc, -, hrest⟩ := hrest.of_cons
    obtain ⟨m, rfl, hm, -⟩ := hrest.of_singleton
    exact .staticField ht hc (hm ▸ TokenKind.member?_ofMember member)

/-- An expression is written as what it is. -/
theorem derives_tokens {full : Bool} {line : Nat} : (e : Expr) → e.Conveyed full line
  | .literal value _, ts, h => by
    obtain ⟨t, rfl, ht, rfl⟩ := h.of_singleton
    exact .literal (ht ▸ value.literal?_kind)
  | .read place _, ts, h => by
    have hplace := derives_placeTokens place h
    have hread := Phrase.Derives.read hplace
    rw [h.lastLine_eq hplace.ne_nil] at hread
    exact hread
  | .assign place value _, ts, h => by
    obtain ⟨us, rest, rfl, hus, hrest⟩ := h.of_append
    obtain ⟨t, vs, rfl, ht, -, hvs⟩ := hrest.of_cons
    have hvalue := derives_whole (derives_tokens value) hvs
    have hassign := Phrase.Derives.assign (derives_placeTokens place hus) ht hvalue
    rw [hvs.lastLine_eq hvalue.ne_nil] at hassign
    exact hassign
  | .update place op value _ _, ts, h => by
    obtain ⟨us, rest, rfl, hus, hrest⟩ := h.of_append
    have hknown := hrest.known
    obtain ⟨t, vs, rfl, ht, rfl, hvs⟩ := hrest.of_cons
    obtain ⟨sign, hsign, ht⟩ := BinaryOp.exists_assigning ht (hknown t List.mem_cons_self)
    have hvalue := derives_whole (derives_tokens value) hvs
    have hupdate := Phrase.Derives.update (derives_placeTokens place hus) hsign ht hvalue
    rw [hvs.lastLine_eq hvalue.ne_nil] at hupdate
    exact hupdate
  | .negate e _ _, ts, h => by
    obtain ⟨t, us, rfl, ht, rfl, hus⟩ := h.of_cons
    have hoperand := derives_operand (derives_tokens e) hus
    have hnegate := Phrase.Derives.negate ht hoperand
    rw [hus.lastLine_eq hoperand.ne_nil] at hnegate
    exact hnegate
  | .not e _, ts, h => by
    obtain ⟨t, us, rfl, ht, -, hus⟩ := h.of_cons
    have hoperand := derives_operand (derives_tokens e) hus
    have hnot := Phrase.Derives.not ht hoperand
    rw [hus.lastLine_eq hoperand.ne_nil] at hnot
    exact hnot
  | .binary op left right _, ts, h => by
    obtain ⟨us, t, vs, rfl, hleft, ht, -, hright, hline⟩ :=
      exists_operands (derives_tokens left) (derives_tokens right) h
    have hbinary := Phrase.Derives.binary hleft ht hright
    rw [hline] at hbinary
    exact hbinary
  | .connect op left right _, ts, h => by
    obtain ⟨us, t, vs, rfl, hleft, ht, rfl, hright, -⟩ :=
      exists_operands (derives_tokens left) (derives_tokens right) h
    exact .connect hleft ht hright
  | .list items _ _, ts, h => by
    exact .list (derives_enclosed h fun hne hus ↦ derives_itemTokens items hne hus)
  | .call name args _ _, ts, h => by
    obtain ⟨t, us, rfl, ht, -, hus⟩ := h.of_cons
    exact .call ht (derives_enclosed hus fun hne hus ↦ derives_itemTokens args hne hus)
  | .construct type args _ _, ts, h => by
    obtain ⟨n, rest, rfl, hn, -, hrest⟩ := h.of_cons
    obtain ⟨t, us, rfl, ht, -, hus⟩ := hrest.of_cons
    exact .construct hn ht (derives_enclosed hus fun hne hus ↦ derives_itemTokens args hne hus)
  | .callStatic type member args _ _, ts, h => by
    obtain ⟨t, rest, rfl, ht, -, hrest⟩ := h.of_cons
    obtain ⟨c, rest, rfl, hc, -, hrest⟩ := hrest.of_cons
    obtain ⟨m, us, rfl, hm, -, hus⟩ := hrest.of_cons
    exact .callStatic ht hc (hm ▸ TokenKind.member?_ofMember member)
      (derives_enclosed hus fun hne hus ↦ derives_itemTokens args hne hus)
  | .callMethod receiver name args _ _, ts, h => by
    obtain ⟨us, rest, rfl, hus, hrest⟩ := h.of_append
    obtain ⟨c, rest, rfl, hc, -, hrest⟩ := hrest.of_cons
    obtain ⟨m, vs, rfl, hm, -, hvs⟩ := hrest.of_cons
    exact .callMethod (derives_within (derives_tokens receiver) hus) hc
      (hm ▸ TokenKind.member?_ofMember name)
      (derives_enclosed hvs fun hne hus ↦ derives_itemTokens args hne hus)

/-- Expressions between commas are written as what they are. -/
theorem derives_itemTokens {full : Bool} {line : Nat} : (es : List Expr) → ∀ {ts}, es ≠ [] →
    Spread line (itemTokens full es) ts → Phrase.Derives (.items (itemsOnLine line es)) ts
  | [], _, hne, _ => absurd rfl hne
  | [e], _, _, h => .one (derives_whole (derives_tokens e) h)
  | e :: other :: rest, _, _, h => by
    obtain ⟨us, tail, rfl, hus, htail⟩ := h.of_append
    obtain ⟨c, vs, rfl, hc, -, hvs⟩ := htail.of_cons
    exact .more (derives_whole (derives_tokens e) hus) hc
      (derives_itemTokens (other :: rest) (List.cons_ne_nil other rest) hvs)

end

end StackScript
