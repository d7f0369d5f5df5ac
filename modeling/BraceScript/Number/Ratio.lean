/-! # Ratios — rounding an exact quotient

    Quotients of naturals are rounded to nearest, a half going to the even neighbour.  From that
    one rule come the binary64 value closest to a quotient, the comparison of a binary64 value
    with an integer, and the remainder of one binary64 value by another, all in exact
    arithmetic. -/

namespace BraceScript.Number

/-- The natural closest to `num / den`, a half going to the even neighbour. -/
def roundDiv (num den : Nat) : Nat :=
  let q := num / den
  let twice := 2 * (num % den)
  if twice < den then q
  else if den < twice then q + 1
  else if q % 2 = 0 then q else q + 1

/-- The exponent of the greatest power of two that is at most `num / den`, for positive
    arguments. -/
def floorLog2 (num den : Nat) : Int :=
  let e : Int := (num.log2 : Int) - den.log2
  if den * Nat.pow 2 e.toNat ≤ num * Nat.pow 2 (-e).toNat then e else e - 1

/-- A finite binary64 value: `(-1)^negative · mantissa · 2^exponent`. -/
structure Dyadic where
  negative : Bool
  mantissa : Nat
  exponent : Int
  deriving DecidableEq, Repr

/-- The bit pattern of infinity without its sign. -/
def infinityBits : Nat := 0x7ff * Nat.pow 2 52

/-- The binary64 value with the given sign and remaining bits. -/
def floatOfBits (negative : Bool) (bits : Nat) : Float :=
  Float.ofBits (UInt64.ofNat (if negative then Nat.pow 2 63 + bits else bits))

/-- Infinity with a sign. -/
def infinity (negative : Bool) : Float :=
  floatOfBits negative infinityBits

/-- The quiet value that is not a number. -/
def notANumber : Float := floatOfBits false (infinityBits + Nat.pow 2 51)

/-- The bits, sign apart, of the binary64 value closest to `num / den`; at least `infinityBits`
    when the quotient is out of range. -/
def ratioBits (num den : Nat) : Nat :=
  if num = 0 then 0
  else
    let unit : Int := max (floorLog2 num den - 52) (-1074)
    let q := roundDiv (num * Nat.pow 2 (-unit).toNat) (den * Nat.pow 2 unit.toNat)
    (unit + 1074).toNat * Nat.pow 2 52 + q

/-- The binary64 value closest to `±num / den`, or none when it is out of range. -/
def floatOfRatio? (negative : Bool) (num den : Nat) : Option Float :=
  let bits := ratioBits num den
  if bits < infinityBits then some (floatOfBits negative bits) else none

/-- The binary64 value closest to `±num / den`, infinite when it is out of range. -/
def floatOfRatio (negative : Bool) (num den : Nat) : Float :=
  (floatOfRatio? negative num den).getD (infinity negative)

/-- The binary64 value closest to an integer, or none when it is out of range. -/
def floatOfInt? (n : Int) : Option Float :=
  floatOfRatio? (n < 0) n.natAbs 1

/-- The exact parts of a finite value; none for infinities and for what is not a number. -/
def dyadic? (x : Float) : Option Dyadic :=
  let bits := x.toBits.toNat
  let negative : Bool := Nat.pow 2 63 ≤ bits
  let field : Nat := bits / Nat.pow 2 52 % 2048
  let fraction : Nat := bits % Nat.pow 2 52
  if field = 2047 then none
  else if field = 0 then some ⟨negative, fraction, -1074⟩
  else some ⟨negative, Nat.pow 2 52 + fraction, (field : Int) - 1075⟩

/-- Whether the sign bit is set. -/
def isNegative (x : Float) : Bool := Nat.pow 2 63 ≤ x.toBits.toNat

/-- Zero with the sign of `x`. -/
def zeroLike (x : Float) : Float := floatOfBits (isNegative x) 0

/-- The numerator of a dyadic value. -/
def Dyadic.numerator (d : Dyadic) : Nat := d.mantissa * Nat.pow 2 d.exponent.toNat

/-- The denominator of a dyadic value, a power of two. -/
def Dyadic.denominator (d : Dyadic) : Nat := Nat.pow 2 (-d.exponent).toNat

/-- The numerator of a dyadic value with its sign. -/
def Dyadic.signedNumerator (d : Dyadic) : Int :=
  if d.negative then -(d.numerator : Int) else d.numerator

/-- The integer part of a dyadic value, towards zero. -/
def Dyadic.truncate (d : Dyadic) : Int :=
  let n : Int := ((d.numerator / d.denominator : Nat) : Int)
  if d.negative then -n else n

/-- How an integer compares with a binary64 value, exactly; none if the value is not a
    number. -/
def compareInt (n : Int) (x : Float) : Option Ordering :=
  match dyadic? x with
  | some d => some (compare (n * (d.denominator : Int)) d.signedNumerator)
  | none =>
      if x.isNaN then none
      else some (if isNegative x then .gt else .lt)

/-- The remainder of a division that rounds its quotient towards zero; it has the sign of `x`
    and is exact.  There is none for an infinite dividend or a zero divisor. -/
def truncatedRemainder (x y : Float) : Float :=
  match dyadic? x, dyadic? y with
  | some a, some b =>
      if b.mantissa = 0 then notANumber
      else
        let num := a.numerator * b.denominator % (b.numerator * a.denominator)
        floatOfRatio a.negative num (a.denominator * b.denominator)
  | some _, none => if y.isNaN then notANumber else x
  | none, _ => notANumber

/-- The remainder that has the sign of the divisor. -/
def floorRemainder (x y : Float) : Float :=
  let r := truncatedRemainder x y
  if r == 0.0 then zeroLike y
  else if (y < 0.0) != (r < 0.0) then r + y
  else r

/-- The quotient rounded down, that goes with `floorRemainder`. -/
def floorQuotient (x y : Float) : Float :=
  let r := truncatedRemainder x y
  let q := (x - r) / y
  let q := if r != 0.0 && ((y < 0.0) != (r < 0.0)) then q - 1.0 else q
  if q == 0.0 then zeroLike (x / y)
  else
    let down := q.floor
    if q - down > 0.5 then down + 1.0 else down

end BraceScript.Number
