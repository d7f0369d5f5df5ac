import BraceScript.Value.Comparison
import BraceScript.Value.Template

/-! # Arithmetic on values

    Integers stay integers under sums, products, floored quotients and powers that are not
    negative; a proper quotient of integers is the binary64 value closest to it.  A binary64
    operand makes the other one binary64, a complex operand makes it complex, and an integer that
    is out of range for that is a fault.  A sum with a text joins written forms, a product of a
    text and an integer repeats it, and a text modulo a value is a template filled in. -/

namespace BraceScript

namespace Value

/-- The binary64 value of an integer. -/
def floatOfInt (n : Int) : Except Fault Float :=
  match Number.floatOfInt? n with
  | some x => .ok x
  | none => .error .integerTooLarge

/-- The complex value of a number. -/
def complexOf : Quantity → Except Fault Number.Complex
  | .int n => return .ofFloat (← floatOfInt n)
  | .float x => return .ofFloat x
  | .complex z => return z

/-- Applies an operation to two numbers in the smallest kind that holds both. -/
def lift (onInts : Int → Int → Except Fault Value) (onFloats : Float → Float → Except Fault Value)
    (onComplex : Number.Complex → Number.Complex → Except Fault Value) :
    Quantity → Quantity → Except Fault Value
  | .int m, .int n => onInts m n
  | .float x, .float y => onFloats x y
  | .int m, .float y => do onFloats (← floatOfInt m) y
  | .float x, .int n => do onFloats x (← floatOfInt n)
  | a, b => do onComplex (← complexOf a) (← complexOf b)

/-- Applies an operation to two values that are numbers; others have no such operation. -/
def arithmetic (symbol : String) (op : Quantity → Quantity → Except Fault Value) (v w : Value) :
    Except Fault Value :=
  match v.quantity?, w.quantity? with
  | some a, some b => op a b
  | _, _ => .error (.unsupported symbol v.kindName w.kindName)

/-- Sums; with a text, the written forms joined. -/
def add (v w : Value) : Except Fault Value :=
  if v.isText || w.isText then do
    let left ← v.text?
    let right ← w.text?
    return .text (left ++ right)
  else
    arithmetic "+" (lift (fun m n => .ok (.int (m + n))) (fun x y => .ok (.float (x + y)))
      (fun a b => .ok (.complex (a.add b)))) v w

/-- Differences. -/
def sub (v w : Value) : Except Fault Value :=
  arithmetic "-" (lift (fun m n => .ok (.int (m - n))) (fun x y => .ok (.float (x - y)))
    (fun a b => .ok (.complex (a.sub b)))) v w

/-- The greatest number of repetitions, and the greatest length of a repeated text. -/
def maxCount : Nat := Nat.pow 2 63 - 1

/-- A text several times over; a negative count gives the empty text. -/
def repeatText (s : String) (count : Int) : Except Fault Value :=
  if count < -(Nat.pow 2 63 : Int) ∨ (maxCount : Int) < count then .error .countTooLarge
  else if count ≤ 0 ∨ s.isEmpty then .ok (.text "")
  else if maxCount / count.toNat < s.length then .error .repetitionTooLong
  else .ok (.text (String.join (List.replicate count.toNat s)))

/-- The integer that a value counts with. -/
def count? : Value → Option Int
  | .int n => some n
  | .bool b => some (if b then 1 else 0)
  | _ => none

/-- Products; of a text and an integer, the text repeated. -/
def mul (v w : Value) : Except Fault Value :=
  match v, w with
  | .text s, _ =>
      match w.count? with
      | some n => repeatText s n
      | none => .error (.repetition w.kindName)
  | _, .text s =>
      match v.count? with
      | some n => repeatText s n
      | none => .error (.repetition v.kindName)
  | _, _ =>
      arithmetic "*" (lift (fun m n => .ok (.int (m * n))) (fun x y => .ok (.float (x * y)))
        (fun a b => .ok (.complex (a.mul b)))) v w

/-- The binary64 value closest to a quotient of integers. -/
def divInts (m n : Int) : Except Fault Value :=
  match Number.floatOfRatio? ((m < 0) != (n < 0)) m.natAbs n.natAbs with
  | some x => .ok (.float x)
  | none => .error .quotientTooLarge

/-- A quotient of complex numbers. -/
def divComplex (a b : Number.Complex) : Except Fault Value :=
  match a.div? b with
  | some z => .ok (.complex z)
  | none => .error .divisionByZero

/-- Quotients. -/
def div (v w : Value) : Except Fault Value :=
  if w.isZero then .error .divisionByZero
  else arithmetic "/" (lift divInts (fun x y => .ok (.float (x / y))) divComplex) v w

/-- Complex numbers have no floored quotient and no remainder. -/
def noComplex (symbol : String) (v w : Value) : Except Fault Value :=
  .error (.unsupported symbol v.kindName w.kindName)

/-- Quotients rounded down. -/
def floorDiv (v w : Value) : Except Fault Value :=
  if w.isZero then .error .divisionByZero
  else
    match v, w with
    | .complex _, _ | _, .complex _ => noComplex "//" v w
    | _, _ =>
        arithmetic "//" (lift (fun m n => .ok (.int (Int.fdiv m n)))
          (fun x y => .ok (.float (Number.floorQuotient x y))) (fun _ _ => noComplex "//" v w)) v w

/-- Remainders with the sign of the divisor; of a text, the template filled in. -/
def mod (v w : Value) : Except Fault Value :=
  if w.isZero then .error .moduloByZero
  else
    match v, w with
    | .text s, _ => do return .text (← Template.fill s w)
    | .complex _, _ | _, .complex _ => noComplex "%" v w
    | _, _ =>
        arithmetic "%" (lift (fun m n => .ok (.int (Int.fmod m n)))
          (fun x y => .ok (.float (Number.floorRemainder x y))) (fun _ _ => noComplex "%" v w)) v w

/-! ## Powers -/

/-- Whether a binary64 value is a whole number. -/
def isWhole (x : Float) : Bool :=
  match Number.dyadic? x with
  | some d => d.numerator % d.denominator == 0
  | none => false

/-- Whether a binary64 value is an odd whole number. -/
def isOddWhole (x : Float) : Bool :=
  match Number.dyadic? x with
  | some d => d.numerator % d.denominator == 0 && d.numerator / d.denominator % 2 == 1
  | none => false

/-- A power of complex numbers. -/
def powComplex (a b : Number.Complex) : Except Fault Value :=
  match a.pow b with
  | .ok z => .ok (.complex z)
  | .error .zeroBase => .error .zeroToComplexPower
  | .error .outOfRange => .error .complexOutOfRange

/-- A power of a base that is finite and greater than zero, with the given sign. -/
def powPositive (negative : Bool) (x y : Float) : Except Fault Value :=
  if x == 1.0 then .ok (.float (if negative then -1.0 else 1.0))
  else
    let p := Float.pow x y
    if p.isInf then .error .powerOutOfRange else .ok (.float (if negative then -p else p))

/-- A power whose base or exponent is zero, infinite or not a number; none otherwise. -/
def powSpecial? (x y : Float) : Option (Except Fault Value) :=
  if y == 0.0 then some (.ok (.float 1.0))
  else if x.isNaN then some (.ok (.float x))
  else if y.isNaN then some (.ok (.float (if x == 1.0 then 1.0 else y)))
  else if y.isInf then
    let size := x.abs
    some (.ok (.float (if size == 1.0 then 1.0
      else if (y > 0.0) == (size > 1.0) then y.abs else 0.0)))
  else if x.isInf then
    let odd := isOddWhole y
    some (.ok (.float (if y > 0.0 then (if odd then x else x.abs)
      else (if odd then Number.zeroLike x else 0.0))))
  else if x == 0.0 then
    some (if y < 0.0 then .error .zeroToNegativePower
      else .ok (.float (if isOddWhole y then x else 0.0)))
  else none

/-- A power of binary64 values; a negative base with an exponent that is not whole has a complex
    power. -/
def powFloats (x y : Float) : Except Fault Value :=
  match powSpecial? x y with
  | some answer => answer
  | none =>
      if x < 0.0 then
        if isWhole y then powPositive (isOddWhole y) (-x) y
        else powComplex (.ofFloat x) (.ofFloat y)
      else powPositive false x y

/-- A power of an integer with an exponent that is not negative. -/
def powNat (m : Int) (n : Nat) : Int :=
  if m = 0 ∨ m = 1 then (if n = 0 then 1 else m)
  else if m = -1 then (if n % 2 = 0 then 1 else -1)
  else Int.pow m n

/-- A power of integers; a negative exponent leaves the integers. -/
def powInts (m n : Int) : Except Fault Value :=
  if 0 ≤ n then .ok (.int (powNat m n.toNat))
  else do powFloats (← floatOfInt m) (← floatOfInt n)

/-- Powers. -/
def pow (v w : Value) : Except Fault Value :=
  arithmetic "** or pow()" (lift powInts powFloats powComplex) v w

/-! ## Operators as written -/

/-- The outcome of a written arithmetic operation. -/
def binaryBy (operator : String) (v w : Value) : Except Fault Value :=
  if operator = "+" then v.add w
  else if operator = "-" then v.sub w
  else if operator = "*" then v.mul w
  else if operator = "/" then v.div w
  else if operator = "//" then v.floorDiv w
  else if operator = "%" then v.mod w
  else if operator = "**" then v.pow w
  else .error (.unknownBinary operator)

/-- The outcome of a written sign, which only real numbers may have. -/
def unaryBy (operator : String) (v : Value) : Except Fault Value :=
  match v.quantity? with
  | some (.int n) =>
      if operator = "+" then .ok (.int n)
      else if operator = "-" then .ok (.int (-n))
      else .error (.unknownUnary operator)
  | some (.float x) =>
      if operator = "+" then .ok (.float x)
      else if operator = "-" then .ok (.float (-x))
      else .error (.unknownUnary operator)
  | _ => .error .assertion

end Value

end BraceScript
