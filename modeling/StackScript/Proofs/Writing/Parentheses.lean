import Mathlib
import StackScript.Proofs.Acceptance.Language
import StackScript.Proofs.Refusal.Script
import StackScript.Proofs.Writing.Expression

/-!
# Parentheses do not matter

Two texts differ in nothing but how one expression on one line of a function is written: with parentheses only
where they are needed, or around every operand of an operator. Both are written as the same script, so they
compile to the same program; or the expression is not sound, and then neither compiles
(`compile_parenthesised`).
-/

namespace StackScript

section

variable {source : String} {fill : Expr → Script} {line : Nat} {before behind ts : List Token} {e e₀ : Expr}
  {full : Bool}

/-- A text with a sound expression in its hole compiles to the program of the script with this expression, however
the expression is written. -/
theorem Script.Holed.compiles (hholed : Script.Holed line fill before behind)
    (hfaultless : ∀ s ∈ Scanned.scan source, s.faults = []) (hl : (fill e₀).Lawful)
    (hts : Spread line (e.tokens full) ts) (hs : (e.onLine line).Sound)
    (htokens : Scanned.tokens (Scanned.scan source) = before ++ ts ++ behind) :
    ∃ c, compile source = .ok c ∧ c.program = (fill (e.onLine line)).program true := by
  have he := derives_whole (derives_tokens e) hts
  have hd : (fill (e.onLine line)).Derives (Scanned.tokens (Scanned.scan source)) :=
    htokens ▸ hholed.derives he (hts.lastLine_eq he.ne_nil)
  have hlawful := hholed.lawful hl hs
  obtain ⟨c, hc⟩ := exists_compile_of_derives hfaultless hd hlawful
  exact ⟨c, hc, program_of_derives hc hd hlawful⟩

/-- A text with an expression in its hole that is not sound does not compile, however the expression is
written. -/
theorem Script.Holed.refused_written (hholed : Script.Holed line fill before behind)
    (hfaultless : ∀ s ∈ Scanned.scan source, s.faults = []) (hl : (fill e₀).Lawful)
    (hts : Spread line (e.tokens full) ts) (hs : ¬ (e.onLine line).Sound)
    (htokens : Scanned.tokens (Scanned.scan source) = before ++ ts ++ behind) :
    ∃ d, compile source = .error d ∧ ∃ report ∈ d.emitted, report.fault.stage = .constantFolding :=
  have he := derives_whole (derives_tokens e) hts
  hholed.refused hfaultless hl he (hts.lastLine_eq he.ne_nil) hs htokens

end

/-- An expression is written on one line of a function in two ways: with parentheses only where they are needed,
and with parentheses around every operand of an operator. If everything around it is lawful, the two texts
compile to the same program, or both do not compile and it is reported that a constant fails. -/
theorem compile_parenthesised {source source' : String} {fill : Expr → Script} {line : Nat}
    {before behind before' behind' ts ts' : List Token} {e e₀ : Expr}
    (hfaultless : ∀ s ∈ Scanned.scan source, s.faults = [])
    (hfaultless' : ∀ s ∈ Scanned.scan source', s.faults = [])
    (hholed : Script.Holed line fill before behind) (hholed' : Script.Holed line fill before' behind')
    (hl : (fill e₀).Lawful)
    (hts : Spread line (e.tokens false) ts) (hts' : Spread line (e.tokens true) ts')
    (htokens : Scanned.tokens (Scanned.scan source) = before ++ ts ++ behind)
    (htokens' : Scanned.tokens (Scanned.scan source') = before' ++ ts' ++ behind') :
    (∃ c c', compile source = .ok c ∧ compile source' = .ok c' ∧ c.program = c'.program) ∨
      ∃ d d', compile source = .error d ∧ compile source' = .error d' ∧
        (∃ report ∈ d.emitted, report.fault.stage = .constantFolding) ∧
        ∃ report ∈ d'.emitted, report.fault.stage = .constantFolding := by
  by_cases hs : (e.onLine line).Sound
  · obtain ⟨c, hc, hprogram⟩ := hholed.compiles hfaultless hl hts hs htokens
    obtain ⟨c', hc', hprogram'⟩ := hholed'.compiles hfaultless' hl hts' hs htokens'
    exact .inl ⟨c, c', hc, hc', hprogram.trans hprogram'.symm⟩
  · obtain ⟨d, hd, hreport⟩ := hholed.refused_written hfaultless hl hts hs htokens
    obtain ⟨d', hd', hreport'⟩ := hholed'.refused_written hfaultless' hl hts' hs htokens'
    exact .inr ⟨d, d', hd, hd', hreport, hreport'⟩

/-- A text in which a function gives back a difference that needs no parentheses. -/
def sparingText : String := "func f(a) \x7b return a - 1 * 2 - 3; \x7d"

/-- The same with parentheses around every operand. -/
def lavishText : String := "func f(a) \x7b return ((a) - ((1) * (2))) - (3); \x7d"

/-- What the function gives back in both texts. -/
def difference : Expr :=
  .binary .sub (.binary .sub (.read (.variable "a") 1)
    (.binary .mul (.literal (.int 1) 1) (.literal (.int 2) 1) 1) 1) (.literal (.int 3) 1) 1

/-- The script with that function, giving back another expression. -/
def givingBack (e : Expr) : Script := ⟨[], [⟨"f", ["a"], [.giveBack e 1], 1⟩]⟩

/-- What stands before the expression in both texts. -/
def givingBackTokens : List Token :=
  [⟨.keyword .funcKw, ⟨1, 1⟩, "func"⟩, ⟨.identifier "f", ⟨1, 6⟩, "f"⟩, ⟨.symbol .leftParen, ⟨1, 7⟩, "("⟩,
    ⟨.identifier "a", ⟨1, 8⟩, "a"⟩, ⟨.symbol .rightParen, ⟨1, 9⟩, ")"⟩,
    ⟨.symbol .leftBrace, ⟨1, 11⟩, "\x7b"⟩, ⟨.keyword .returnKw, ⟨1, 13⟩, "return"⟩]

/-- What stands behind the expression, from some column on. -/
def endingTokens (column : Nat) : List Token :=
  [⟨.symbol .semicolon, ⟨1, column⟩, ";"⟩, ⟨.symbol .rightBrace, ⟨1, column + 2⟩, "\x7d"⟩,
    ⟨.endOfInput, ⟨1, column + 3⟩, ""⟩]

theorem holed_givingBack (column : Nat) :
    Script.Holed 1 givingBack givingBackTokens (endingTokens column) :=
  .giveBack (s := ⟨.symbol .semicolon, ⟨1, column⟩, ";"⟩)
    (d := ⟨.symbol .rightBrace, ⟨1, column + 2⟩, "\x7d"⟩) rfl rfl rfl (.one rfl) rfl rfl rfl rfl rfl rfl

theorem givingBack_lawful : (givingBack (.literal .null 1)).Lawful :=
  ⟨.nil, by decide, fun _ h ↦ (nomatch h), fun f hf ↦ by
    obtain rfl := List.mem_singleton.mp hf
    exact ⟨by simp, .nil, trivial, trivial⟩⟩

/-- A text is scanned without faults, and has an expression in place of what the function gives back. -/
structure GivesBack (e : Expr) (full : Bool) (column : Nat) (source : String) : Prop where
  faultless : ∀ s ∈ Scanned.scan source, s.faults = []
  exists_spread : ∃ ts, Spread 1 (e.tokens full) ts ∧
    Scanned.tokens (Scanned.scan source) = givingBackTokens ++ ts ++ endingTokens column

/-- What a text has there is seen from the pieces it is scanned into, with the number of tokens of the
expression. -/
theorem GivesBack.of_scan {source : String} {pieces : List Scanned} {e : Expr} {full : Bool} {column : Nat}
    (count : Nat) (hscan : Scanned.scan source = pieces) (hfaultless : pieces.all (·.faults.isEmpty) = true)
    (hts : decide (Spread 1 (e.tokens full) (((Scanned.tokens pieces).drop 7).take count)) = true)
    (htokens : Scanned.tokens pieces =
      givingBackTokens ++ ((Scanned.tokens pieces).drop 7).take count ++ endingTokens column) :
    GivesBack e full column source := by
  subst hscan
  exact ⟨by simpa using hfaultless, _, of_decide_eq_true hts, htokens⟩

theorem givesBack_sparingText : GivesBack difference false 33 sparingText := by
  refine .of_scan 7 (by cbv) ?_ ?_ ?_ <;> rfl

theorem givesBack_lavishText : GivesBack difference true 45 lavishText := by
  refine .of_scan 19 (by cbv) ?_ ?_ ?_ <;> rfl

/-- The two texts compile to the same program. -/
theorem compile_parenthesised_difference : ∃ c c', compile sparingText = .ok c ∧
    compile lavishText = .ok c' ∧ c.program = c'.program := by
  obtain ⟨hsparing, ts, hts, htokens⟩ := givesBack_sparingText
  obtain ⟨hlavish, ts', hts', htokens'⟩ := givesBack_lavishText
  rcases compile_parenthesised hsparing hlavish (holed_givingBack 33) (holed_givingBack 45)
    givingBack_lawful hts hts' htokens htokens' with h | ⟨d, _, hd, -⟩
  · exact h
  · obtain ⟨c, hc⟩ : ∃ c, compile sparingText = .ok c := ⟨_, by cbv⟩
    rw [hd] at hc
    cases hc

end StackScript
