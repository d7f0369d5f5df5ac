import BraceScript.Number.Ratio

/-! # Complex numbers — the values of roots of negative numbers

    Arithmetic on pairs of binary64 values.  Quotients scale by the larger part of the divisor;
    powers with a small whole exponent multiply out, all others go through length and angle. -/

namespace BraceScript.Number

/-- A complex number. -/
structure Complex where
  re : Float
  im : Float

/-- Why a complex power has no value. -/
inductive ComplexFault where
  | zeroBase
  | outOfRange
  deriving DecidableEq, Repr

/-! ## Length -/

/-- Two to a power. -/
def twoTo (e : Int) : Float := floatOfRatio false (Nat.pow 2 e.toNat) (Nat.pow 2 (-e).toNat)

/-- The factor that brings large coordinates down and small ones up. -/
def lengthScale : Float := twoTo (-600)

/-- The part of the longer side below which the shorter one only rounds the length. -/
def negligiblePart : Float := twoTo (-54)

/-- The root of a sum of two squares, less an estimate of its own error.  The estimate comes from
    the difference to the side that is closer to the root. -/
def correctedRoot (long short : Float) : Float :=
  let root := Float.sqrt (long * long + short * short)
  if root <= 2.0 * short then
    let excess := root - short
    let first := long * (2.0 * excess - long)
    let second := (excess - 2.0 * (long - short)) * excess
    root - (first + second) / (2.0 * root)
  else
    let excess := root - long
    let first := 2.0 * excess * (long - 2.0 * short)
    let second := (4.0 * excess - short) * short + excess * excess
    root - (first + second) / (2.0 * root)

/-- The length for sides of which the first is at least as long.  Sides whose squares would be out
    of range are scaled before and the length after. -/
def lengthOfSides (long short : Float) : Float :=
  if long > twoTo 511 then
    if short <= long * negligiblePart then long + short
    else correctedRoot (long * lengthScale) (short * lengthScale) / lengthScale
  else if short < twoTo (-459) then
    if long >= short / negligiblePart then long + short
    else correctedRoot (long / lengthScale) (short / lengthScale) * lengthScale
  else if short <= long * negligiblePart then long + short
  else correctedRoot long short

/-- The length of the vector with the given coordinates. -/
def hypotenuse (x y : Float) : Float :=
  if x.isInf || y.isInf then infinity false
  else if x.isNaN || y.isNaN then notANumber
  else if x.abs < y.abs then lengthOfSides y.abs x.abs
  else lengthOfSides x.abs y.abs

namespace Complex

/-- A real number as a complex one. -/
def ofFloat (x : Float) : Complex := ⟨x, 0.0⟩

/-- One. -/
def one : Complex := ⟨1.0, 0.0⟩

/-- Sums. -/
def add (a b : Complex) : Complex := ⟨a.re + b.re, a.im + b.im⟩

/-- Differences. -/
def sub (a b : Complex) : Complex := ⟨a.re - b.re, a.im - b.im⟩

/-- Products. -/
def mul (a b : Complex) : Complex :=
  ⟨a.re * b.re - a.im * b.im, a.re * b.im + a.im * b.re⟩

/-- Whether both parts are equal. -/
def equal (a b : Complex) : Bool := a.re == b.re && a.im == b.im

/-- Whether both parts are zero. -/
def isZero (a : Complex) : Bool := a.re == 0.0 && a.im == 0.0

/-- Whether a part is infinite. -/
def isInfinite (a : Complex) : Bool := a.re.isInf || a.im.isInf

/-- Quotients; none for a zero divisor. -/
def div? (a b : Complex) : Option Complex :=
  let r := b.re.abs
  let i := b.im.abs
  if r >= i then
    if r == 0.0 then none
    else
      let ratio := b.im / b.re
      let scale := b.re + b.im * ratio
      some ⟨(a.re + a.im * ratio) / scale, (a.im - a.re * ratio) / scale⟩
  else if i >= r then
    let ratio := b.re / b.im
    let scale := b.re * ratio + b.im
    some ⟨(a.re * ratio + a.im) / scale, (a.im * ratio - a.re) / scale⟩
  else some ⟨notANumber, notANumber⟩

/-- Multiplies out a power: `square` is a power of the base whose exponent is a power of two,
    `n` the part of the exponent that is left. -/
def powerLoop : (fuel : Nat) → (result square : Complex) → (n : Nat) → Complex
  | 0, result, _, _ => result
  | fuel + 1, result, square, n =>
      if n = 0 then result
      else
        powerLoop fuel (if n % 2 = 1 then result.mul square else result) (square.mul square)
          (n / 2)

/-- A power with a whole exponent. -/
def wholePower? (a : Complex) (n : Int) : Option Complex :=
  let p := powerLoop 8 one a n.natAbs
  if 0 < n then some p else one.div? p

/-- The number of the given length and angle; none for an angle without end. -/
def ofPolar? (length angle : Float) : Option Complex :=
  if angle.isInf then none else some ⟨length * Float.cos angle, length * Float.sin angle⟩

/-- A power through length and angle; none for a zero base unless the exponent is a real number
    that is not negative, and none when the angle grows without end. -/
def polarPower? (a b : Complex) : Option Complex :=
  if b.isZero then some one
  else if a.isZero then
    if b.im != 0.0 || b.re < 0.0 then none else some ⟨0.0, 0.0⟩
  else
    let length := hypotenuse a.re a.im
    let angle := Float.atan2 a.im a.re
    let size := Float.pow length b.re
    let phase := angle * b.re
    if b.im != 0.0 then
      ofPolar? (size / Float.exp (angle * b.im)) (phase + b.im * Float.log length)
    else ofPolar? size phase

/-- The whole number that a small real exponent is. -/
def smallWhole? (b : Complex) : Option Int :=
  if b.im == 0.0 && b.re == b.re.floor && b.re.abs <= 100.0 then
    (dyadic? b.re).map Dyadic.truncate
  else none

/-- Powers. -/
def pow (a b : Complex) : Except ComplexFault Complex :=
  let power := match smallWhole? b with
    | some n => wholePower? a n
    | none => polarPower? a b
  match power with
  | none => .error .zeroBase
  | some p => if p.isInfinite then .error .outOfRange else .ok p

end Complex

end BraceScript.Number
