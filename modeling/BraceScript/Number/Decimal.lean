import BraceScript.Number.Ratio

/-! # Decimals — the digits of a binary64 value

    Two choices of digits are made here, both in exact arithmetic: the fewest digits that read
    back as the same value, and the digits at a given place.  How digits are laid out is left to
    a `Layout`, a record of the decisions of one written form. -/

namespace BraceScript.Number

/-- The value `digits · 10^exponent`. -/
structure Decimal where
  digits : Nat
  exponent : Int
  deriving DecidableEq, Repr

/-- How `a · 10^i` compares with `n · 2^j`. -/
def compareScaled (a : Nat) (i : Int) (n : Nat) (j : Int) : Ordering :=
  compare (a * Nat.pow 10 i.toNat * Nat.pow 2 (-j).toNat)
    (n * Nat.pow 2 j.toNat * Nat.pow 10 (-i).toNat)

/-- Whether the value below is only half as far away as the value above. -/
def Dyadic.narrowBelow (d : Dyadic) : Bool :=
  d.mantissa = Nat.pow 2 52 && -1074 < d.exponent

/-- Whether a decimal lies among the reals that round to the magnitude of `d`: between the
    midpoints to the neighbours, the midpoints included when the mantissa is even. -/
def Dyadic.readsBack (d : Dyadic) (c : Decimal) : Bool :=
  let low := if d.narrowBelow then 4 * d.mantissa - 1 else 4 * d.mantissa - 2
  let fromLow := compareScaled c.digits c.exponent low (d.exponent - 2)
  let fromHigh := compareScaled c.digits c.exponent (4 * d.mantissa + 2) (d.exponent - 2)
  let ends := d.mantissa % 2 = 0
  (fromLow = .gt || (ends && fromLow = .eq)) && (fromHigh = .lt || (ends && fromHigh = .eq))

/-- Raises or lowers an estimate of the decimal scale until `10^(k-1) ≤ num / den < 10^k`. -/
def adjustScale (num den : Nat) : (fuel : Nat) → Int → Int
  | 0, k => k
  | fuel + 1, k =>
      if den * Nat.pow 10 k.toNat ≤ num * Nat.pow 10 (-k).toNat then
        adjustScale num den fuel (k + 1)
      else if num * Nat.pow 10 (1 - k).toNat < den * Nat.pow 10 (k - 1).toNat then
        adjustScale num den fuel (k - 1)
      else k

/-- The least `k` with `num / den < 10^k`, for positive arguments. -/
def decimalScale (num den : Nat) : Int :=
  adjustScale num den 8 (floorLog2 num den * 30103 / 100000)

/-- The magnitude `num / den` in units of `10^place`, rounded to nearest, a half to even. -/
def roundAt (num den : Nat) (place : Int) : Nat :=
  roundDiv (num * Nat.pow 10 (-place).toNat) (den * Nat.pow 10 place.toNat)

/-- Moves the trailing zeros of the digits into the exponent. -/
def Decimal.strip : (fuel : Nat) → Decimal → Decimal
  | 0, c => c
  | fuel + 1, c =>
      if c.digits % 10 = 0 ∧ c.digits ≠ 0 then
        Decimal.strip fuel ⟨c.digits / 10, c.exponent + 1⟩
      else c

/-- The closer of the two neighbours of the magnitude of `d` on the grid `10^place` that reads
    back, if one does; of two equally close the even one. -/
def Dyadic.onGrid (d : Dyadic) (place : Int) : Option Decimal :=
  let num := d.numerator * Nat.pow 10 (-place).toNat
  let den := d.denominator * Nat.pow 10 place.toNat
  let below : Decimal := ⟨num / den, place⟩
  let above : Decimal := ⟨num / den + 1, place⟩
  match d.readsBack below, d.readsBack above with
  | true, true => some ⟨roundDiv num den, place⟩
  | true, false => some below
  | false, true => some above
  | false, false => none

/-- Searches grids of more and more digits. -/
def Dyadic.search (d : Dyadic) (scale : Int) : (fuel count : Nat) → Option Decimal
  | 0, _ => none
  | fuel + 1, count =>
      match d.onGrid (scale - count) with
      | some c => some c
      | none => d.search scale fuel (count + 1)

/-- The fewest digits that read back as the magnitude of `d`, the closest of them. -/
def Dyadic.shortest (d : Dyadic) : Decimal :=
  if d.mantissa = 0 then ⟨0, 0⟩
  else
    let scale := decimalScale d.numerator d.denominator
    match d.search scale 17 1 with
    | some c => c.strip 20
    | none => ⟨d.numerator * Nat.pow 5 (-d.exponent).toNat, min d.exponent 0⟩

/-- The digits of a natural, most significant first. -/
def digitChars (n : Nat) : List Char := Nat.toDigits 10 n

/-- The decimal text of a natural. -/
def digitText (n : Nat) : String := String.ofList (digitChars n)

/-- Repeats the digit zero. -/
def zeros (n : Nat) : List Char := List.replicate n '0'

/-- Zeros in front of a text that is shorter than `width`. -/
def padZeros (width : Nat) (cs : List Char) : List Char := zeros (width - cs.length) ++ cs

/-- An exponent: its mark, a sign and at least two digits. -/
def exponentText (mark : Char) (e : Int) : List Char :=
  mark :: (if e < 0 then '-' else '+') :: padZeros 2 (digitChars e.natAbs)

/-- A whole part and a fraction, with a point between them unless the fraction is empty;
    `keepPoint` keeps the point even then. -/
def joinPoint (keepPoint : Bool) (whole fraction : List Char) : List Char :=
  if fraction.isEmpty && !keepPoint then whole else whole ++ '.' :: fraction

/-- The decisions of one written form of a value in its fewest digits. -/
structure Layout where
  /-- The exponents of the leading digit that are written without an exponent part. -/
  positional : Int → Bool
  /-- What is added to a positional number without a fraction. -/
  wholeEnding : String

/-- Lays out digits whose first one stands for the power `10^(scale - 1)`. -/
def Layout.place (style : Layout) (digits : List Char) (scale : Int) : String :=
  if style.positional (scale - 1) then
    if scale ≤ 0 then String.ofList ('0' :: '.' :: (zeros (-scale).toNat ++ digits))
    else if digits.length ≤ scale.toNat then
      String.ofList (digits ++ zeros (scale.toNat - digits.length)) ++ style.wholeEnding
    else String.ofList (digits.take scale.toNat ++ '.' :: digits.drop scale.toNat)
  else
    String.ofList (joinPoint false (digits.take 1) (digits.drop 1)
      ++ exponentText 'e' (scale - 1))

/-- The written form of a binary64 value. -/
def Layout.write (style : Layout) (x : Float) : String :=
  match dyadic? x with
  | none => if x.isNaN then "nan" else if isNegative x then "-inf" else "inf"
  | some d =>
      let c := d.shortest
      let digits := digitChars c.digits
      let scale := if c.digits = 0 then 1 else c.exponent + digits.length
      (if d.negative then "-" else "") ++ style.place digits scale

/-- Decimal digits with `places` of them after the point. -/
def fixedChars (keepPoint : Bool) (num den places : Nat) : List Char :=
  let digits := padZeros (places + 1) (digitChars (roundAt num den (-(places : Int))))
  let whole := digits.length - places
  joinPoint keepPoint (digits.take whole) (digits.drop whole)

/-- The first `count` digits of `num / den` and the exponent of the first, after rounding. -/
def leadingDigits (num den count : Nat) : List Char × Int :=
  if num = 0 then (zeros count, 0)
  else
    let scale := decimalScale num den
    let n := roundAt num den (scale - count)
    if n = Nat.pow 10 count then (digitChars (Nat.pow 10 (count - 1)), scale)
    else (digitChars n, scale - 1)

/-- One digit before the point, `places` after it, and an exponent part. -/
def scientificChars (keepPoint : Bool) (mark : Char) (num den places : Nat) : List Char :=
  let (digits, e) := leadingDigits num den (places + 1)
  joinPoint keepPoint (digits.take 1) (digits.drop 1) ++ exponentText mark e

/-- A text without the zeros at its end. -/
def dropFinalZeros (cs : List Char) : List Char :=
  (cs.reverse.dropWhile (· == '0')).reverse

/-- At most `count` significant digits, with an exponent part when the leading digit stands for
    less than `10^(-4)` or for at least `10^count`; trailing zeros are kept only on demand. -/
def generalChars (keepZeros : Bool) (mark : Char) (num den count : Nat) : List Char :=
  let count := max count 1
  let (digits, e) := leadingDigits num den count
  let trim := fun cs => if keepZeros then cs else dropFinalZeros cs
  if -4 ≤ e ∧ e < count then
    if e < 0 then
      joinPoint keepZeros ['0'] (trim (zeros (-e - 1).toNat ++ digits))
    else
      joinPoint keepZeros (digits.take (e.toNat + 1)) (trim (digits.drop (e.toNat + 1)))
  else
    joinPoint keepZeros (digits.take 1) (trim (digits.drop 1)) ++ exponentText mark e

end BraceScript.Number
