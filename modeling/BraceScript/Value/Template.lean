import BraceScript.Value.Basic

/-! # Templates — filling a value into a text

    A percent sign in a template begins a directive: flags, a width, a precision, a length mark
    that means nothing, and a conversion.  A template is filled in with one value, which exactly
    one directive may take; `%%` stands for a percent sign.  What a statement gave is a mapping
    with the one key `give`, and a directive may name the key it takes. -/

namespace BraceScript.Template

/-- A directive without the percent sign. -/
structure Directive where
  leftAligned : Bool
  plus : Bool
  blank : Bool
  alternate : Bool
  zero : Bool
  width : Option Nat
  precision : Option Nat
  conversion : Char

/-- The value to fill in, and whether no directive has taken it yet. -/
structure Supply where
  value : Value
  available : Bool

/-- Whether a value is a mapping. -/
def isMapping : Value → Bool
  | .given _ => true
  | _ => false

/-- Takes the value. -/
def Supply.take (s : Supply) : Except TemplateFault (Value × Supply) :=
  if s.available then .ok (s.value, ⟨s.value, false⟩) else .error .notEnoughArguments

/-- The greatest width. -/
def maxWidth : Nat := Nat.pow 2 63 - 1

/-- The greatest precision. -/
def maxPrecision : Nat := Nat.pow 2 31 - 1

/-- Whether an integer lies in the signed range of a greatest value. -/
def fitsIn (greatest : Nat) (n : Int) : Bool := -(greatest + 1 : Int) ≤ n && n ≤ greatest

/-! ## Reading a directive -/

/-- Whether a character is a flag. -/
def isFlag (c : Char) : Bool := c = '-' || c = '+' || c = ' ' || c = '#' || c = '0'

/-- Splits off a key in parentheses; `depth` counts the open ones. -/
def splitKey : (depth : Nat) → List Char → Option (List Char × List Char)
  | _, [] => none
  | depth, ')' :: cs =>
      if depth ≤ 1 then some ([], cs)
      else (splitKey (depth - 1) cs).map fun (key, rest) => (')' :: key, rest)
  | depth, '(' :: cs => (splitKey (depth + 1) cs).map fun (key, rest) => ('(' :: key, rest)
  | depth, c :: cs => (splitKey depth cs).map fun (key, rest) => (c :: key, rest)

/-- Takes the key that a directive names out of the value. -/
def readKey (supply : Supply) (mapping : Value) (cs : List Char) :
    Except TemplateFault (Supply × List Char) :=
  match cs with
  | '(' :: rest =>
      match mapping with
      | .given v =>
          match splitKey 1 rest with
          | none => .error .incompleteKey
          | some (key, rest) =>
              let key := String.ofList key
              if key = "give" then .ok (⟨v, true⟩, rest) else .error (.missingKey key)
      | _ => .error .needsMapping
  | _ => .ok (supply, cs)

/-- Reads digits as a number that is at most `limit`. -/
def readNumber (limit : Nat) (tooLarge : TemplateFault) (cs : List Char) :
    Except TemplateFault (Nat × List Char) :=
  let n := Number.digitsValue (cs.takeWhile Char.isDigit)
  if limit < n then .error tooLarge else .ok (n, cs.dropWhile Char.isDigit)

/-- The integer that a star stands for. -/
def starInteger (supply : Supply) : Except TemplateFault (Int × Supply) := do
  let (value, supply) ← supply.take
  match value with
  | .int n => return (n, supply)
  | .bool b => return (if b then 1 else 0, supply)
  | _ => throw .starNeedsInteger

/-- Reads a width; the flag says that the width asks for alignment on the left. -/
def readWidth (supply : Supply) (cs : List Char) :
    Except TemplateFault (Option Nat × Bool × Supply × List Char) :=
  match cs with
  | '*' :: rest => do
      let (n, supply) ← starInteger supply
      if !fitsIn maxWidth n then throw .starWidthTooLarge
      return (some n.natAbs, n < 0, supply, rest)
  | c :: _ =>
      if c.isDigit then do
        let (n, rest) ← readNumber maxWidth .widthTooLarge cs
        return (some n, false, supply, rest)
      else return (none, false, supply, cs)
  | [] => return (none, false, supply, cs)

/-- Reads a precision. -/
def readPrecision (supply : Supply) (cs : List Char) :
    Except TemplateFault (Option Nat × Supply × List Char) :=
  match cs with
  | '.' :: '*' :: rest => do
      let (n, supply) ← starInteger supply
      if !fitsIn maxPrecision n then throw .starPrecisionTooLarge
      return (some n.toNat, supply, rest)
  | '.' :: rest => do
      let (n, rest) ← readNumber maxPrecision .precisionTooLarge rest
      return (some n, supply, rest)
  | _ => return (none, supply, cs)

/-- Passes over a length mark. -/
def skipLength : List Char → List Char
  | c :: cs => if c = 'h' ∨ c = 'l' ∨ c = 'L' then cs else c :: cs
  | [] => []

/-- Reads a directive. -/
def readDirective (supply : Supply) (mapping : Value) (cs : List Char) :
    Except TemplateFault (Directive × Supply × List Char) := do
  let (supply, cs) ← readKey supply mapping cs
  let flags := cs.takeWhile isFlag
  let (width, left, supply, cs) ← readWidth supply (cs.dropWhile isFlag)
  let (precision, supply, cs) ← readPrecision supply cs
  match skipLength cs with
  | [] => throw .incomplete
  | conversion :: rest =>
      let directive : Directive :=
        { leftAligned := left || flags.contains '-', plus := flags.contains '+',
          blank := flags.contains ' ', alternate := flags.contains '#',
          zero := flags.contains '0', width := width, precision := precision,
          conversion := conversion }
      return (directive, supply, rest)

/-! ## Converting a value -/

/-- The digits of a natural in a base up to sixteen, in lower case. -/
def baseDigits (base n : Nat) : List Char := Nat.toDigits base n

/-- Upper case, mark of the base included. -/
def upper (cs : List Char) : List Char := cs.map Char.toUpper

/-- Whether a conversion writes integers in a base other than ten. -/
def isBaseConversion (c : Char) : Bool := c = 'o' || c = 'x' || c = 'X'

/-- An integer in the base of a conversion, with at least as many digits as the precision
    says. -/
def integerChars (d : Directive) (n : Int) : Except Fault (List Char) := do
  let sign := if n < 0 then ['-'] else []
  let least := d.precision.getD 0
  if d.conversion = 'o' then
    let mark := if d.alternate then ['0', 'o'] else []
    return sign ++ mark ++ Number.padZeros least (baseDigits 8 n.natAbs)
  else if isBaseConversion d.conversion then
    let mark := if d.alternate then ['0', 'x'] else []
    let chars := sign ++ mark ++ Number.padZeros least (baseDigits 16 n.natAbs)
    return if d.conversion = 'X' then upper chars else chars
  else
    let _ ← Value.integerText n
    return sign ++ Number.padZeros least (Number.digitChars n.natAbs)

/-- The integer that a value is converted to: its whole part, and only integers themselves for
    the bases other than ten. -/
def integerOf (conversion : Char) (v : Value) : Except TemplateFault Int :=
  match v with
  | .int n => .ok n
  | .bool b => .ok (if b then 1 else 0)
  | .float x =>
      if isBaseConversion conversion then .error (.needsInteger conversion v.kindName)
      else
        match Number.dyadic? x with
        | some d => .ok d.truncate
        | none => .error (if x.isNaN then .notANumberToInteger else .infinityToInteger)
  | _ =>
      .error (if isBaseConversion conversion then .needsInteger conversion v.kindName
        else .needsReal conversion v.kindName)

/-- The binary64 value that a value is converted to. -/
def floatOf (v : Value) : Except Fault Float :=
  match v.quantity? with
  | some (.int n) =>
      match Number.floatOfInt? n with
      | some x => .ok x
      | none => .error .integerTooLarge
  | some (.float x) => .ok x
  | _ => .error (.template (.notReal v.kindName))

/-- A finite magnitude as a conversion writes it. -/
def magnitudeChars (d : Directive) (num den : Nat) : List Char :=
  let precision := d.precision.getD 6
  match d.conversion with
  | 'e' => Number.scientificChars d.alternate 'e' num den precision
  | 'E' => Number.scientificChars d.alternate 'E' num den precision
  | 'g' => Number.generalChars d.alternate 'e' num den precision
  | 'G' => Number.generalChars d.alternate 'E' num den precision
  | _ => Number.fixedChars d.alternate num den precision

/-- A binary64 value as a conversion writes it; values that are not finite are in capitals if
    the conversion is. -/
def floatChars (d : Directive) (x : Float) : List Char :=
  match Number.dyadic? x with
  | some parts =>
      let chars := magnitudeChars d parts.numerator parts.denominator
      if parts.negative then '-' :: chars else chars
  | none =>
      let word := if x.isNaN then ['n', 'a', 'n'] else ['i', 'n', 'f']
      let word := if d.conversion.isUpper then upper word else word
      if !x.isNaN && Number.isNegative x then '-' :: word else word

/-- The character that a value stands for.  A code that is half of a pair stands for none: no text
    holds it, so it is refused here and not where such a text would be shown. -/
def characterOf : Value → Except TemplateFault Char
  | .text s =>
      match s.toList with
      | [c] => .ok c
      | _ => .error .notCharacter
  | .int n =>
      if ¬(0 ≤ n ∧ n < 0x110000) then .error .characterOutOfRange
      else if n.toNat.isValidChar then .ok (Char.ofNat n.toNat)
      else .error (.halfPair n.toNat)
  | .bool b => .ok (Char.ofNat (if b then 1 else 0))
  | _ => .error .notCharacter

/-- Blanks. -/
def blanks (n : Nat) : List Char := List.replicate n ' '

/-- Brings a text to the width of a directive. -/
def align (d : Directive) (chars : List Char) : List Char :=
  let missing := d.width.getD 0 - chars.length
  if d.leftAligned then chars ++ blanks missing else blanks missing ++ chars

/-- Splits a sign from the digits, and supplies the one that the flags ask for. -/
def signOf (d : Directive) (chars : List Char) : List Char × List Char :=
  match chars with
  | '-' :: digits => (['-'], digits)
  | _ => (if d.plus then ['+'] else if d.blank then [' '] else [], chars)

/-- Brings a number to the width of a directive; zeros go between the sign with the mark of the
    base and the digits. -/
def alignNumber (d : Directive) (chars : List Char) : List Char :=
  let (sign, digits) := signOf d chars
  if d.zero then
    let marked := d.alternate && isBaseConversion d.conversion
    let start := sign ++ (if marked then digits.take 2 else [])
    let digits := if marked then digits.drop 2 else digits
    let missing := d.width.getD 0 - (start.length + digits.length)
    if d.leftAligned then start ++ digits ++ blanks missing
    else start ++ Number.zeros missing ++ digits
  else align d (sign ++ digits)

/-- A text cut to the precision of a directive. -/
def cut (d : Directive) (s : String) : List Char :=
  match d.precision with
  | some n => s.toList.take n
  | none => s.toList

/-- What a directive writes for a value; `index` is the place of the conversion. -/
def convert (d : Directive) (index : Nat) (v : Value) : Except Fault (List Char) := do
  match d.conversion with
  | 's' => return align d (cut d (← v.text?))
  | 'r' => return align d (cut d (← v.inner))
  | 'a' => return align d (cut d (Text.asciiOnly (← v.inner)))
  | 'c' =>
      match characterOf v with
      | .ok c => return align d [c]
      | .error fault => throw (.template fault)
  | 'd' | 'i' | 'u' | 'o' | 'x' | 'X' =>
      match integerOf d.conversion v with
      | .ok n => return alignNumber d (← integerChars d n)
      | .error fault => throw (.template fault)
  | 'e' | 'E' | 'f' | 'F' | 'g' | 'G' => return alignNumber d (floatChars d (← floatOf v))
  | _ => throw (.template (.unknownConversion d.conversion index))

/-! ## Filling in -/

/-- Fills in a template of the given size from a place on; the text grows by at least one
    character less in each step. -/
def fillFrom (size : Nat) (mapping : Value) : (fuel : Nat) → Supply → List Char →
    Except Fault (List Char)
  | 0, _, _ => return []
  | fuel + 1, supply, cs =>
      match cs with
      | [] =>
          if supply.available && !isMapping mapping then throw (.template .unusedArgument)
          else return []
      | '%' :: '%' :: rest => return '%' :: (← fillFrom size mapping fuel supply rest)
      | '%' :: rest =>
          match readDirective supply mapping rest with
          | .error fault => throw (.template fault)
          | .ok (d, supply, rest) => do
              let (written, supply) ←
                match supply.take with
                | .error fault => throw (.template fault)
                | .ok (v, supply) => pure (← convert d (size - rest.length - 1) v, supply)
              if isMapping mapping && supply.available then
                throw (.template .unusedArgument)
              return written ++ (← fillFrom size mapping fuel supply rest)
      | c :: rest => return c :: (← fillFrom size mapping fuel supply rest)

/-- Fills a value into a template. -/
def fill (template : String) (v : Value) : Except Fault String := do
  let cs := template.toList
  let chars ← fillFrom cs.length v (cs.length + 1) ⟨v, true⟩ cs
  return String.ofList chars

end BraceScript.Template
