/-!
# Shortest decimals

The text of a single-precision number is the shortest decimal that reads back to the same number.
A finite number is taken apart into `mantissa * 2 ^ exponent`; the reals that round to it form an
interval, and the digits are sought on ever finer decimal grids until a point of the grid beside the
number lies in that interval. All comparisons are between natural numbers.
-/

namespace StackScript

/-- A power of `base`. A negative exponent counts as zero. -/
def powerOf (base : Nat) (exponent : Int) : Nat := Nat.pow base exponent.toNat

/-- A finite number without its sign, `mantissa * 2 ^ exponent`. -/
structure Binary where
  mantissa : Nat
  exponent : Int
  /-- The gap to the next smaller number is half the gap to the next greater one. -/
  narrowBelow : Bool

/-- The magnitude of the finite number with the given bits. -/
def Binary.ofBits (bits : UInt32) : Binary :=
  let field := ((bits >>> 23) &&& 0xFF).toNat
  let fraction := (bits &&& 0x7FFFFF).toNat
  if field = 0 then ⟨fraction, -149, false⟩
  else ⟨powerOf 2 23 + fraction, (field : Int) - 150, fraction == 0 && field > 1⟩

/-- The decimal `digits * 10 ^ exponent`. -/
structure Decimal where
  digits : Nat
  exponent : Int

/-- Compares `a * 10 ^ i` with `b * 2 ^ j`. -/
def compareScaled (a : Nat) (i : Int) (b : Nat) (j : Int) : Ordering :=
  compare (a * powerOf 10 i * powerOf 2 (-j)) (b * powerOf 2 j * powerOf 10 (-i))

/-- Whether a decimal lies among the reals that round to `x`: between the midpoints to its two
neighbours, which themselves round to the even mantissa. -/
def Binary.readsBack (x : Binary) (d : Decimal) : Bool :=
  let low := if x.narrowBelow then 4 * x.mantissa - 1 else 4 * x.mantissa - 2
  let high := 4 * x.mantissa + 2
  let even := x.mantissa % 2 == 0
  let below := compareScaled d.digits d.exponent low (x.exponent - 2)
  let above := compareScaled d.digits d.exponent high (x.exponent - 2)
  (below == .gt || (even && below == .eq)) && (above == .lt || (even && above == .eq))

/-- The least `k` with `x < 10 ^ k`, for the exponents that single precision reaches. -/
def Binary.scale (x : Binary) : Int :=
  let exponents := (List.range 85).map fun (i : Nat) => (i : Int) - 45
  (exponents.find? fun k => compareScaled 1 k x.mantissa x.exponent == .gt).getD 39

/-- How often `10 ^ grid` goes into `x`. -/
def Binary.floorAt (x : Binary) (grid : Int) : Nat :=
  (x.mantissa * powerOf 2 x.exponent * powerOf 10 (-grid)) /
    (powerOf 2 (-x.exponent) * powerOf 10 grid)

/-- The point of the grid of step `10 ^ grid` that reads back to `x`, if one does. Of the two points
beside `x` the nearer is taken, and the upper one if both are equally near. -/
def Binary.nearestAt? (x : Binary) (grid : Int) : Option Decimal :=
  let down : Decimal := ⟨x.floorAt grid, grid⟩
  let up : Decimal := ⟨x.floorAt grid + 1, grid⟩
  match x.readsBack down, x.readsBack up with
  | false, false => none
  | true, false => some down
  | false, true => some up
  | true, true =>
    match compareScaled (down.digits + up.digits) grid (2 * x.mantissa) x.exponent with
    | .gt => some down
    | _ => some up

/-- The shortest decimal that reads back to `x`. Nine digits always suffice; were it otherwise, the
number itself would be written out. -/
def Binary.shortest (x : Binary) : Decimal :=
  let k := x.scale
  let grids := (List.range 9).map fun (i : Nat) => k - ((i : Int) + 1)
  (grids.findSome? x.nearestAt?).getD
    ⟨x.mantissa * powerOf 2 x.exponent * powerOf 5 (-x.exponent), min x.exponent 0⟩

/-- The digits of a number without trailing zeros, and how many zeros were dropped. -/
def stripZeros (digits : List Char) : List Char × Nat :=
  let kept := (digits.reverse.dropWhile (· == '0')).reverse
  (kept, digits.length - kept.length)

/-- Writes a decimal without exponent: whole numbers have no point, and a fraction has a digit before
its point. -/
def Decimal.positional (d : Decimal) : List Char :=
  let (digits, zeros) := stripZeros (Nat.toDigits 10 d.digits)
  let exponent := d.exponent + zeros
  if 0 ≤ exponent then digits ++ List.replicate exponent.toNat '0'
  else
    let places := (-exponent).toNat
    if digits.length ≤ places then
      '0' :: '.' :: (List.replicate (places - digits.length) '0' ++ digits)
    else
      digits.take (digits.length - places) ++ '.' :: digits.drop (digits.length - places)

/-- The text of a number: its sign, then the shortest digits that identify it, never with an
exponent. -/
def Decimal.render (x : Float32) : String :=
  if x.isNaN then "NaN"
  else
    let sign := if x.toBits >>> 31 == 1 then "-" else ""
    let magnitude := x.toBits &&& 0x7FFFFFFF
    if magnitude == 0x7F800000 then sign ++ "inf"
    else if magnitude == 0 then sign ++ "0"
    else sign ++ String.ofList (Binary.ofBits magnitude).shortest.positional

end StackScript
