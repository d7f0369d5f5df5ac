import BraceScript.Number.Numeral
import BraceScript.Report

/-! # Tokens checked and read — which tokens can be made, and the values of literals

    A token begins at line and column one or later, and its lexeme, if it has one, is not empty.
    The literals and identifiers among the tokens have a value, which other tokens have not. -/

namespace BraceScript

/-- Why a token cannot be made or read. -/
inductive TokenIssue where
  | lineTooSmall
  | columnTooSmall
  | emptyLexeme
  | notNumber
  | malformedNumber
  | notString
  | shortString
  | notBoolean
  | malformedBoolean
  | notIdentifier
  deriving DecidableEq, Repr

/-- A token that cannot be made or read. -/
structure TokenError where
  issue : TokenIssue
  token : Token
  deriving DecidableEq, Repr

namespace TokenError

/-- The code of an error. -/
def code (e : TokenError) : Code :=
  match e.issue with
  | .lineTooSmall | .columnTooSmall => .wrongPosition
  | .emptyLexeme | .malformedNumber | .shortString | .malformedBoolean => .invalidLexeme
  | .notNumber | .notString | .notBoolean | .notIdentifier => .invalidTokenType

/-- The wording of an error. -/
def message (e : TokenError) : String :=
  let lexeme := e.token.lexeme.getD ""
  let got := ", got " ++ e.token.kind.text
  match e.issue with
  | .lineTooSmall => "Line number must be >= 1"
  | .columnTooSmall => "Column number must be >= 1"
  | .emptyLexeme => "Lexeme cannot be empty"
  | .notNumber => "Expected number literal" ++ got
  | .malformedNumber => "Invalid number format: " ++ lexeme
  | .notString => "Expected string literal" ++ got
  | .shortString => "String literal too short: " ++ lexeme
  | .notBoolean => "Expected boolean literal" ++ got
  | .malformedBoolean => "Invalid boolean value: " ++ lexeme
  | .notIdentifier => "Expected identifier" ++ got

/-- An error as it is shown. -/
def report (e : TokenError) : Report := ⟨.token e.token, e.code, e.message⟩

end TokenError

namespace Token

/-- Refuses a token at an impossible place or with an empty lexeme. -/
def check (t : Token) : Except TokenError Token :=
  if t.line < 1 then .error ⟨.lineTooSmall, t⟩
  else if t.column < 1 then .error ⟨.columnTooSmall, t⟩
  else if t.lexeme = some "" then .error ⟨.emptyLexeme, t⟩
  else .ok t

/-- The value of a number literal. -/
def numericValue (t : Token) : Except TokenError Number.Numeral :=
  if t.kind = .numberLiteral then
    match Number.Numeral.read (t.lexeme.getD "") with
    | .ok n => .ok n
    | .error _ => .error ⟨.malformedNumber, t⟩
  else .error ⟨.notNumber, t⟩

/-- The value of a string literal: its lexeme without the quotes. -/
def stringValue (t : Token) : Except TokenError String :=
  if t.kind = .stringLiteral then
    let chars := (t.lexeme.getD "").toList
    if chars.length < 2 then .error ⟨.shortString, t⟩
    else .ok (String.ofList (chars.drop 1).dropLast)
  else .error ⟨.notString, t⟩

/-- The value of a truth value. -/
def booleanValue (t : Token) : Except TokenError Bool :=
  if t.kind = .booleanLiteral then
    if t.lexeme = some "true" then .ok true
    else if t.lexeme = some "false" then .ok false
    else .error ⟨.malformedBoolean, t⟩
  else .error ⟨.notBoolean, t⟩

/-- The name that an identifier spells. -/
def identifierName (t : Token) : Except TokenError String :=
  if t.kind = .identifier then .ok (t.lexeme.getD "") else .error ⟨.notIdentifier, t⟩

end Token

end BraceScript
