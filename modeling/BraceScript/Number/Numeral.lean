import BraceScript.Number.Ratio
import BraceScript.Text.Digit
import BraceScript.Text.Quoted

/-! # Numerals — reading numbers from text

    A numeral with a point is a binary64 value, any other an integer.  Blanks around a numeral
    are ignored, a sign may come first, and an underscore may stand between two digits.  An
    integer of more than `maxDigits` digits is refused. -/

namespace BraceScript.Number

/-- The greatest number of decimal digits of an integer that is read or written. -/
def maxDigits : Nat := 4300

/-- Why a text is no numeral. -/
inductive NumeralFault where
  | malformedInteger (text : String)
  | malformedFloat (text : String)
  | tooManyDigits (count : Nat)
  deriving DecidableEq, Repr

/-- The limit on digits in words. -/
def digitLimitText : String :=
  "Exceeds the limit (4300 digits) for integer string conversion"

/-- The advice given with the limit on digits. -/
def digitLimitAdvice : String :=
  "; use sys.set_int_max_str_digits() to increase the limit"

/-- The wording of a fault; a malformed integer is shown up to 200 characters. -/
def NumeralFault.message : NumeralFault → String
  | .malformedInteger text =>
      "invalid literal for int() with base 10: "
        ++ String.ofList ((Text.quoted text).toList.take 200)
  | .malformedFloat text => "could not convert string to float: " ++ Text.quoted text
  | .tooManyDigits count =>
      digitLimitText ++ ": value has " ++ toString count ++ " digits" ++ digitLimitAdvice

/-- A number read from text. -/
inductive Numeral where
  | integer (n : Int)
  | float (x : Float)

/-- The value of a list of digits. -/
def digitsValue (cs : List Char) : Nat :=
  cs.foldl (fun n c => 10 * n + (c.toNat - 48)) 0

/-- Splits off a sign; true stands for minus. -/
def splitSign : List Char → Bool × List Char
  | '-' :: cs => (true, cs)
  | '+' :: cs => (false, cs)
  | cs => (false, cs)

/-- Whether every underscore stands between two digits, given the character before the text. -/
def underscoresFit : (previous : Char) → List Char → Bool
  | previous, [] => previous != '_'
  | previous, c :: cs =>
      (if c = '_' then previous.isDigit else previous != '_' || c.isDigit) && underscoresFit c cs

/-- The integer that a text denotes. -/
def readInteger (s : String) : Except NumeralFault Int :=
  let (negative, cs) := splitSign (Text.plain s.toList)
  let run := cs.takeWhile fun c => c.isDigit || c = '_'
  let digits := run.filter (·.isDigit)
  if !underscoresFit ' ' run then .error (.malformedInteger s)
  else if maxDigits < digits.length then .error (.tooManyDigits digits.length)
  else if digits.isEmpty || run.length < cs.length then .error (.malformedInteger s)
  else
    let n : Int := (digitsValue digits : Int)
    .ok (if negative then -n else n)

/-- The exponent part of a decimal: none when the text is no exponent part. -/
def readExponent : List Char → Option Int
  | [] => some 0
  | mark :: cs =>
      if mark = 'e' ∨ mark = 'E' then
        let (negative, digits) := splitSign cs
        if digits.isEmpty || !digits.all (·.isDigit) then none
        else some (if negative then -(digitsValue digits : Int) else digitsValue digits)
      else none

/-- The binary64 value closest to `±digits · 10^exponent`.  Beyond the powers `±400` of ten the
    answer is infinite or zero whatever the digits are. -/
def floatOfDecimal (negative : Bool) (digits : List Char) (exponent : Int) : Float :=
  let digits := digits.dropWhile (· == '0')
  let scale : Int := digits.length + exponent
  if digits.isEmpty || scale < -400 then floatOfBits negative 0
  else if 400 < scale then infinity negative
  else
    floatOfRatio negative (digitsValue digits * Nat.pow 10 exponent.toNat)
      (Nat.pow 10 (-exponent).toNat)

/-- An unsigned decimal: digits, a point and digits, an exponent part. -/
def readUnsigned (negative : Bool) (cs : List Char) : Option Float :=
  let whole := cs.takeWhile (·.isDigit)
  let rest := cs.dropWhile (·.isDigit)
  let fraction := match rest with
    | '.' :: r => r.takeWhile (·.isDigit)
    | _ => []
  let rest := match rest with
    | '.' :: r => r.dropWhile (·.isDigit)
    | r => r
  if whole.isEmpty && fraction.isEmpty then none
  else
    match readExponent rest with
    | some e => some (floatOfDecimal negative (whole ++ fraction) (e - fraction.length))
    | none => none

/-- The binary64 value that a text denotes: a decimal, or the name of a value that is not
    finite. -/
def readFloat (s : String) : Except NumeralFault Float :=
  let cs := Text.plain s.toList
  let (negative, body) := splitSign (cs.filter (· != '_'))
  let word := String.ofList (body.map Char.toLower)
  let value :=
    if !underscoresFit ' ' cs then none
    else if word = "inf" ∨ word = "infinity" then some (infinity negative)
    else if word = "nan" then some notANumber
    else readUnsigned negative body
  match value with
  | some x => .ok x
  | none => .error (.malformedFloat s)

/-- The number that a text denotes: a binary64 value if it has a point, else an integer. -/
def Numeral.read (s : String) : Except NumeralFault Numeral :=
  if s.toList.contains '.' then (readFloat s).map .float else (readInteger s).map .integer

end BraceScript.Number
