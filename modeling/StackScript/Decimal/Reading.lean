/-!
# Reading numbers

How texts are read as numbers. Every reader takes the whole text or refuses it.
-/

namespace StackScript.Decimal

/-- The value of one decimal digit. -/
def digitValue (c : Char) : Nat :=
  c.toNat - '0'.toNat

/-- The number written by a row of decimal digits. -/
def digitsValue (digits : List Char) : Nat :=
  digits.foldl (fun n c => 10 * n + digitValue c) 0

/-- Reads a non-empty row of decimal digits. -/
def readNat? (text : List Char) : Option Nat :=
  if !text.isEmpty && text.all Char.isDigit then some (digitsValue text) else none

/-- Splits a sign off a text; the flag tells a minus. -/
def splitSign : List Char → Bool × List Char
  | '-' :: rest => (true, rest)
  | '+' :: rest => (false, rest)
  | text => (false, text)

/-- Reads an integer of 32 bits: an optional sign and digits, within range. -/
def readInt32? (text : List Char) : Option Int32 :=
  let (negative, digits) := splitSign text
  match readNat? digits with
  | none => none
  | some n =>
    let value : Int := if negative then -(n : Int) else n
    if -2147483648 ≤ value ∧ value ≤ 2147483647 then some (Int32.ofInt value) else none

/-- Reads a count below `2 ^ 64`: an optional plus and digits. -/
def readCount? (text : List Char) : Option Nat :=
  let digits := match text with
    | '+' :: rest => rest
    | text => text
  match readNat? digits with
  | some n => if n < UInt64.size then some n else none
  | none => none

/-- The single-precision number nearest to `digits * 10 ^ exponent`, ties to even. Decimals that lie
far outside the range are not computed. -/
def nearest (digits : Nat) (exponent : Int) : Float32 :=
  let magnitude := (Nat.toDigits 10 digits).length + exponent
  if digits = 0 ∨ magnitude < -60 then Float32.ofBits 0
  else if 60 < magnitude then Float32.ofBits 0x7F800000
  else Float32.ofScientific digits (exponent < 0) exponent.natAbs

/-- Reads what may follow the digits of a number: nothing, or `e` with an exponent. -/
def readExponent? : List Char → Option Int
  | [] => some 0
  | c :: rest =>
    if c = 'e' ∨ c = 'E' then
      let (negative, digits) := splitSign rest
      (readNat? digits).map fun n => if negative then -(n : Int) else n
    else none

/-- Reads a number without sign: digits with at most one point among or beside them, and an optional
exponent. -/
def readMagnitude? (text : List Char) : Option Float32 :=
  let whole := text.takeWhile Char.isDigit
  let rest := text.dropWhile Char.isDigit
  let (fraction, rest) := match rest with
    | '.' :: rest => (rest.takeWhile Char.isDigit, rest.dropWhile Char.isDigit)
    | rest => ([], rest)
  if whole.isEmpty && fraction.isEmpty then none
  else
    (readExponent? rest).map fun exponent =>
      nearest (digitsValue (whole ++ fraction)) (exponent - fraction.length)

/-- Reads a single-precision number: an optional sign, and then `inf`, `infinity` or `nan` in any
case, or a decimal, rounded to the nearest. -/
def readFloat32? (text : List Char) : Option Float32 :=
  let (negative, rest) := splitSign text
  let word := String.ofList (rest.map Char.toLower)
  let magnitude :=
    if word = "inf" ∨ word = "infinity" then some (Float32.ofBits 0x7F800000)
    else if word = "nan" then some (Float32.ofBits 0x7FC00000)
    else readMagnitude? rest
  magnitude.map fun x => if negative then -x else x

end StackScript.Decimal
