import BraceScript.Token

/-! # Reports — errors as they are shown

    Every error of the language has a code, and every code belongs to one family.  A report joins
    a code and a message with what the error is about, and has two forms: a sentence and a form
    that shows every field.  An error about a token, the text, the tree, the meaning or the run
    of a program takes the codes of its own family only. -/

namespace BraceScript

/-- The families of error codes. -/
inductive Family where
  | token | lexical | syntactic | semantic | runtime
  deriving DecidableEq, Repr

namespace Family

/-- The tag that the names of a family's codes begin with. -/
def tag : Family → String
  | .token => "TOK"
  | .lexical => "LEX"
  | .syntactic => "SYN"
  | .semantic => "SEM"
  | .runtime => "RUN"

/-- The family in words. -/
def word : Family → String
  | .token => "token"
  | .lexical => "lexical"
  | .syntactic => "syntactic"
  | .semantic => "semantic"
  | .runtime => "runtime"

/-- The name of the errors of a family. -/
def errorName : Family → String
  | .token => "TokenError"
  | .lexical => "LexicalError"
  | .syntactic => "SyntacticError"
  | .semantic => "SemanticError"
  | .runtime => "RuntimeError"

end Family

/-- The error codes. -/
inductive Code where
  | invalidTokenType | invalidLexeme | wrongPosition
  | invalidCharacter | unterminatedString | invalidNumberFormat
  | unexpectedToken | wrongNumberOfExpressions | uninitializedConstant
  | undeclaredIdentifier | wrongSymbolType | wrongNumberOfArguments | assignmentToConstant
  | typeMismatch | duplicateIdentifier | incompatibleTypes | functionEmptyGive
  | functionNotGiving | procedureGivingValue | skipOutsideWhile | stopOutsideWhile
  | invalidOperation | divisionByZero | invalidInitialValue | invalidTerminationValue
  | invalidStepValue
  deriving DecidableEq, Repr

namespace Code

/-- Every error code. -/
def all : List Code :=
  [.invalidTokenType, .invalidLexeme, .wrongPosition, .invalidCharacter, .unterminatedString,
   .invalidNumberFormat, .unexpectedToken, .wrongNumberOfExpressions, .uninitializedConstant,
   .undeclaredIdentifier, .wrongSymbolType, .wrongNumberOfArguments, .assignmentToConstant,
   .typeMismatch, .duplicateIdentifier, .incompatibleTypes, .functionEmptyGive,
   .functionNotGiving, .procedureGivingValue, .skipOutsideWhile, .stopOutsideWhile,
   .invalidOperation, .divisionByZero, .invalidInitialValue, .invalidTerminationValue,
   .invalidStepValue]

/-- The family of a code. -/
def family : Code → Family
  | .invalidTokenType | .invalidLexeme | .wrongPosition => .token
  | .invalidCharacter | .unterminatedString | .invalidNumberFormat => .lexical
  | .unexpectedToken | .wrongNumberOfExpressions | .uninitializedConstant => .syntactic
  | .undeclaredIdentifier | .wrongSymbolType | .wrongNumberOfArguments
  | .assignmentToConstant | .typeMismatch | .duplicateIdentifier | .incompatibleTypes
  | .functionEmptyGive | .functionNotGiving | .procedureGivingValue | .skipOutsideWhile
  | .stopOutsideWhile => .semantic
  | .invalidOperation | .divisionByZero | .invalidInitialValue | .invalidTerminationValue
  | .invalidStepValue => .runtime

/-- The code as it is shown. -/
def value : Code → String
  | .invalidTokenType => "INVALID_TOKEN_TYPE"
  | .invalidLexeme => "INVALID_LEXEME"
  | .wrongPosition => "WRONG_POSITIONAL_ATTRIBUTE_VALUE"
  | .invalidCharacter => "INVALID_CHARACTER"
  | .unterminatedString => "UNTERMINATED_STRING"
  | .invalidNumberFormat => "INVALID_NUMBER_FORMAT"
  | .unexpectedToken => "UNEXPECTED_TOKEN"
  | .wrongNumberOfExpressions => "WRONG_NUMBER_OF_EXPRESSIONS"
  | .uninitializedConstant => "UNINITIALIZED_CONSTANT"
  | .undeclaredIdentifier => "UNDECLARED_IDENTIFIER"
  | .wrongSymbolType => "WRONG_SYMBOL_TYPE"
  | .wrongNumberOfArguments => "WRONG_NUMBER_OF_ARGUMENTS"
  | .assignmentToConstant => "ASSIGNMENT_TO_CONSTANT"
  | .typeMismatch => "TYPE_MISMATCH"
  | .duplicateIdentifier => "DUPLICATE_IDENTIFIER"
  | .incompatibleTypes => "INCOMPATIBLE_TYPES"
  | .functionEmptyGive => "FUNCTION_EMPTY_GIVE"
  | .functionNotGiving => "FUNCTION_NOT_GIVING"
  | .procedureGivingValue => "PROCEDURE_GIVING_VALUE"
  | .skipOutsideWhile => "SKIP_STATEMENT_OUTSIDE_WHILE"
  | .stopOutsideWhile => "STOP_STATEMENT_OUTSIDE_WHILE"
  | .invalidOperation => "INVALID_OPERATION"
  | .divisionByZero => "DIVISION_BY_ZERO"
  | .invalidInitialValue => "INVALID_INTIAL_VALUE"
  | .invalidTerminationValue => "INVALID_TERMINATION_VALUE"
  | .invalidStepValue => "INVALID_STEP_VALUE"

/-- The full name of a code: the tag of its family and the code. -/
def name (c : Code) : String := c.family.tag ++ "_" ++ c.value

/-- The code with the given full name. -/
def ofName? (s : String) : Option Code := all.find? fun c => c.name = s

end Code

/-- What an error is about. -/
inductive Subject where
  /-- Nothing in particular; such an error takes any code. -/
  | general
  /-- A token that cannot be made or read. -/
  | token (t : Token)
  /-- A place in the text. -/
  | place (position line column : Int)
  /-- The token at which a program stops being well formed. -/
  | found (t : Token)
  /-- The meaning of a program. -/
  | meaning
  /-- The run of a program. -/
  | run
  deriving DecidableEq, Repr

/-- The family whose codes an error takes, if it is bound to one. -/
def Subject.family? : Subject → Option Family
  | .general => none
  | .token _ => some .token
  | .place _ _ _ => some .lexical
  | .found _ => some .syntactic
  | .meaning => some .semantic
  | .run => some .runtime

/-- An error with its code and message. -/
structure Report where
  subject : Subject
  code : Code
  message : String
  deriving DecidableEq, Repr

/-- A code that an error of the given family does not take. -/
structure Refusal where
  code : Code
  family : Family
  deriving DecidableEq, Repr

/-- The wording of a refusal. -/
def Refusal.message (r : Refusal) : String :=
  r.code.value ++ " is not a valid " ++ r.family.word ++ " error code"

namespace Report

/-- Makes a report, unless the code is of another family. -/
def make (subject : Subject) (code : Code) (message : String) : Except Refusal Report :=
  match subject.family? with
  | some family =>
      if code.family = family then .ok ⟨subject, code, message⟩ else .error ⟨code, family⟩
  | none => .ok ⟨subject, code, message⟩

/-- The name of the error. -/
def name (r : Report) : String :=
  match r.subject.family? with
  | some family => family.errorName
  | none => "Error"

/-- The error as a sentence. -/
def text (r : Report) : String :=
  let start := r.name ++ ": " ++ r.message
  match r.subject with
  | .token t => start ++ " (" ++ t.text ++ ")"
  | .place position line column =>
      start ++ " at position " ++ toString position ++ " (line " ++ toString line ++ ", column "
        ++ toString column ++ ")"
  | .found t =>
      let lexeme := match t.lexeme with
        | some l => " '" ++ l ++ "'"
        | none => ""
      start ++ " (found: " ++ t.kind.text ++ lexeme ++ ") at line " ++ toString t.line
        ++ ", column " ++ toString t.column
  | _ => start

/-- The error with every field. -/
def detail (r : Report) : String :=
  let start := r.name ++ "(error_code=" ++ r.code.value ++ ", message='" ++ r.message ++ "'"
  match r.subject with
  | .token t => start ++ ", token=" ++ t.text ++ ")"
  | .place position line column =>
      start ++ ", position=" ++ toString position ++ ", line=" ++ toString line ++ ", column="
        ++ toString column ++ ")"
  | .found t => start ++ ", token=" ++ t.detail ++ ")"
  | _ => start ++ ")"

end Report

end BraceScript
