import BraceScript.Fault
import BraceScript.Number.Complex
import BraceScript.Number.Decimal

/-! # Values — what expressions evaluate to

    Numbers are integers without bound, binary64 values, or complex numbers; texts and truth
    values are the rest of what a program computes with.  A statement that completes has the value
    `nothing`, and one that gives has the value `given v`. -/

namespace BraceScript

/-- A value. -/
inductive Value where
  | int (n : Int)
  | float (x : Float)
  | complex (z : Number.Complex)
  | text (s : String)
  | bool (b : Bool)
  | nothing
  | given (v : Value)

instance : Inhabited Value := ⟨.nothing⟩

/-- A value taken as a number; truth values count as one and zero. -/
inductive Quantity where
  | int (n : Int)
  | float (x : Float)
  | complex (z : Number.Complex)

namespace Value

/-- The kind of a value by name. -/
def kindName : Value → String
  | .int _ => "int"
  | .float _ => "float"
  | .complex _ => "complex"
  | .text _ => "str"
  | .bool _ => "bool"
  | .nothing => "NoneType"
  | .given _ => "dict"

/-- The number that a value is. -/
def quantity? : Value → Option Quantity
  | .int n => some (.int n)
  | .float x => some (.float x)
  | .complex z => some (.complex z)
  | .bool b => some (.int (if b then 1 else 0))
  | _ => none

/-- Whether a value is a real number; truth values are. -/
def isReal : Value → Bool
  | .int _ | .float _ | .bool _ => true
  | _ => false

/-- Whether a value is a text. -/
def isText : Value → Bool
  | .text _ => true
  | _ => false

/-- What a statement gave, if it gave. -/
def given? : Value → Option Value
  | .given v => some v
  | _ => none

/-! ## Written form -/

/-- Real numbers: positional from `10^(-4)` up to `10^16`, with a fraction in any case. -/
def realLayout : Number.Layout := ⟨fun e => -4 ≤ e && e < 16, ".0"⟩

/-- The parts of complex numbers: as real numbers, whole ones without a fraction. -/
def partLayout : Number.Layout := ⟨fun e => -4 ≤ e && e < 16, ""⟩

/-- The written form of an integer, within the limit on digits. -/
def integerText (n : Int) : Except Fault String :=
  if n.natAbs < Nat.pow 10 Number.maxDigits then
    .ok ((if n < 0 then "-" else "") ++ Number.digitText n.natAbs)
  else .error .tooManyDigitsToWrite

/-- The written form of a complex number: only the imaginary part if the real one is a zero
    without a sign, else both in parentheses. -/
def complexText (z : Number.Complex) : String :=
  let imaginary := partLayout.write z.im
  if z.re == 0.0 && !Number.isNegative z.re then imaginary ++ "j"
  else
    let sign := if imaginary.startsWith "-" then "" else "+"
    "(" ++ partLayout.write z.re ++ sign ++ imaginary ++ "j)"

/-- The written form of a truth value. -/
def boolText (b : Bool) : String := if b then "True" else "False"

/-- The form in which a value stands inside another; texts are quoted. -/
def inner : Value → Except Fault String
  | .int n => integerText n
  | .float x => .ok (realLayout.write x)
  | .complex z => .ok (complexText z)
  | .text s => .ok (Text.quoted s)
  | .bool b => .ok (boolText b)
  | .nothing => .ok "None"
  | .given v => do
      let shown ← v.inner
      return "\x7b'give': " ++ shown ++ "\x7d"

/-- The written form of a value. -/
def text? (v : Value) : Except Fault String :=
  match v with
  | .text s => .ok s
  | _ => v.inner

/-- The truth of a value. -/
def truth : Value → Bool
  | .bool b => b
  | .int n => n != 0
  | .float x => x != 0.0
  | .text s => s.length != 0
  | .complex z => !z.isZero
  | .nothing => false
  | .given _ => true

end Value

end BraceScript
