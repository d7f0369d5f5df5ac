import BraceScript.Number.Numeral
import BraceScript.Report

/-! # Faults — why an evaluation fails

    A fault names a cause.  Some causes are errors of the language and have a code.  Four of
    those carry a code of the semantic family: an error of a run refuses such a code, and what is
    shown is the refusal.  All other causes concern values, texts and parts of trees. -/

namespace BraceScript

/-- Why a text cannot be filled in as a template. -/
inductive TemplateFault where
  | notEnoughArguments
  | unusedArgument
  | incomplete
  | incompleteKey
  | needsMapping
  | missingKey (key : String)
  | unknownConversion (conversion : Char) (index : Nat)
  | needsReal (conversion : Char) (kind : String)
  | needsInteger (conversion : Char) (kind : String)
  | notReal (kind : String)
  | notCharacter
  | characterOutOfRange
  | halfPair (code : Nat)
  | starNeedsInteger
  | starWidthTooLarge
  | starPrecisionTooLarge
  | widthTooLarge
  | precisionTooLarge
  | infinityToInteger
  | notANumberToInteger
  deriving DecidableEq, Repr

/-- The wording of a template's fault. -/
def TemplateFault.message : TemplateFault → String
  | .notEnoughArguments => "not enough arguments for format string"
  | .unusedArgument => "not all arguments converted during string formatting"
  | .incomplete => "incomplete format"
  | .incompleteKey => "incomplete format key"
  | .needsMapping => "format requires a mapping"
  | .missingKey key => Text.quoted key
  | .unknownConversion conversion index =>
      let n := conversion.toNat
      let shown := if 31 ≤ n ∧ n ≤ 126 then String.ofList [conversion] else "?"
      "unsupported format character '" ++ shown ++ "' (0x" ++ String.ofList (Nat.toDigits 16 n)
        ++ ") at index " ++ toString index
  | .needsReal conversion kind =>
      "%" ++ String.ofList [conversion] ++ " format: a real number is required, not " ++ kind
  | .needsInteger conversion kind =>
      "%" ++ String.ofList [conversion] ++ " format: an integer is required, not " ++ kind
  | .notReal kind => "must be real number, not " ++ kind
  | .notCharacter => "%c requires int or char"
  | .characterOutOfRange => "%c arg not in range(0x110000)"
  | .halfPair code =>
      "'utf-8' codec can't encode character '\\u" ++ String.ofList (Nat.toDigits 16 code)
        ++ "' in position 0: surrogates not allowed"
  | .starNeedsInteger => "* wants int"
  | .starWidthTooLarge => "Python int too large to convert to C ssize_t"
  | .starPrecisionTooLarge => "Python int too large to convert to C int"
  | .widthTooLarge => "width too big"
  | .precisionTooLarge => "precision too big"
  | .infinityToInteger => "cannot convert float infinity to integer"
  | .notANumberToInteger => "cannot convert float NaN to integer"

/-- Why an evaluation fails. -/
inductive Fault where
  | unknownBinary (operator : String)
  | unknownUnary (operator : String)
  | unknownLogical (operator : String)
  | unknownNegation (operator : String)
  | unknownComparison (operator : String)
  | divisionByZero
  | moduloByZero
  | notBoolean (kind : String)
  | badInitial (kind : String)
  | badTermination (kind : String)
  | badStep (kind : String)
  | undefined (name : String)
  | emptyGive (function : String)
  | notGiving (function : String)
  | procedureGave (procedure : String)
  /-- A part of a tree has no such part. -/
  | noPart (owner part : String)
  /-- A part of a tree that is not handled on its own. -/
  | unhandled (walker kind : String)
  | unsupported (operator left right : String)
  | unordered (operator left right : String)
  | repetition (kind : String)
  | assertion
  | zeroToNegativePower
  | zeroToComplexPower
  | powerOutOfRange
  | complexOutOfRange
  | integerTooLarge
  | quotientTooLarge
  | countTooLarge
  | repetitionTooLong
  | numeral (fault : Number.NumeralFault)
  | tooManyDigitsToWrite
  | template (fault : TemplateFault)
  /-- A type without a default value. -/
  | noDefault (type : String)
  /-- The top of an empty call stack was asked for. -/
  | noRecord
  /-- A record was to be taken from an empty call stack. -/
  | nothingToPop
  /-- A constant without a value. -/
  | noValue
  /-- An item was asked of a list or text that is left out. -/
  | absentIndexed
  /-- The items of a list that is left out were asked for. -/
  | absentIterated
  /-- Something was looked for in a text that is left out. -/
  | absentSearched
  deriving DecidableEq, Repr

namespace Fault

/-- The code and message of a cause that is an error of the language. -/
def coded? : Fault → Option (Code × String)
  | .unknownBinary op => some (.invalidOperation, "Unknown binary operator '" ++ op ++ "'")
  | .unknownUnary op => some (.invalidOperation, "Unknown unary operator '" ++ op ++ "'")
  | .unknownLogical op => some (.invalidOperation, "Unknown boolean operator '" ++ op ++ "'")
  | .unknownNegation op =>
      some (.invalidOperation, "Unknown unary boolean operator '" ++ op ++ "'")
  | .unknownComparison op =>
      some (.invalidOperation, "Unknown comparison operator '" ++ op ++ "'")
  | .divisionByZero => some (.divisionByZero, "Division by zero")
  | .moduloByZero => some (.divisionByZero, "Modulo by zero")
  | .notBoolean kind => some (.invalidOperation, "Expected boolean expression, got " ++ kind)
  | .badInitial kind =>
      some (.invalidInitialValue, "Expected number as initial value, got " ++ kind)
  | .badTermination kind =>
      some (.invalidTerminationValue, "Expected number as termination value, got " ++ kind)
  | .badStep kind => some (.invalidStepValue, "Expected number as step value, got " ++ kind)
  | .undefined name =>
      some (.undeclaredIdentifier, "Identifier '" ++ name ++ "' is not defined.")
  | .emptyGive function =>
      some (.functionEmptyGive,
        "Empty give statement is not allowed in function '" ++ function ++ "'.")
  | .notGiving function =>
      some (.functionNotGiving, "Function '" ++ function ++ "' must give a value.")
  | .procedureGave procedure =>
      some (.procedureGivingValue, "Procedure '" ++ procedure ++ "' cannot give a value.")
  | _ => none

/-- The report of an error of the language, or the refusal of its code. -/
def report? (f : Fault) : Option (Except Refusal Report) :=
  f.coded?.map fun (code, message) => Report.make .run code message

/-- The wording of a cause that has no code. -/
def plainMessage : Fault → String
  | .noPart owner part => "'" ++ owner ++ "' object has no attribute '" ++ part ++ "'"
  | .unhandled walker kind => "Visitor " ++ walker ++ " does not implement visit_" ++ kind
  | .unsupported op left right =>
      "unsupported operand type(s) for " ++ op ++ ": '" ++ left ++ "' and '" ++ right ++ "'"
  | .unordered op left right =>
      "'" ++ op ++ "' not supported between instances of '" ++ left ++ "' and '" ++ right ++ "'"
  | .repetition kind => "can't multiply sequence by non-int of type '" ++ kind ++ "'"
  | .zeroToNegativePower => "0.0 cannot be raised to a negative power"
  | .zeroToComplexPower => "0.0 to a negative or complex power"
  | .powerOutOfRange => "(34, 'Numerical result out of range')"
  | .complexOutOfRange => "complex exponentiation"
  | .integerTooLarge => "int too large to convert to float"
  | .quotientTooLarge => "integer division result too large for a float"
  | .countTooLarge => "cannot fit 'int' into an index-sized integer"
  | .repetitionTooLong => "repeated string is too long"
  | .numeral fault => fault.message
  | .tooManyDigitsToWrite => Number.digitLimitText ++ Number.digitLimitAdvice
  | .template fault => fault.message
  | .noDefault type => Text.quoted type
  | .noRecord => "list index out of range"
  | .nothingToPop => "pop from empty list"
  | .noValue => "list index out of range"
  | .absentIndexed => "'NoneType' object is not subscriptable"
  | .absentIterated => "'NoneType' object is not iterable"
  | .absentSearched => "argument of type 'NoneType' is not iterable"
  | _ => ""

/-- The wording of a cause. -/
def message (f : Fault) : String :=
  match f.report? with
  | some (.ok report) => report.text
  | some (.error refusal) => refusal.message
  | none => f.plainMessage

end Fault

end BraceScript
