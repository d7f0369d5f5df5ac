import BraceScript.Cursor
import BraceScript.Node

/-! # Parsing, the steps — one token in hand, the text ahead

    A parser holds one token and a cursor behind it.  Tokens are read one at a time, so an
    unreadable one is met only when the parser comes to it.  Every step, failing or not, leaves a
    state behind: a token that cannot be read leaves the token in hand as it was and the cursor
    where reading stopped.

    A parse goes as deep as its text is nested.  How many nested calls a host allows is no part of
    the language, and such a limit is disregarded throughout: no parse fails because of it, and no
    parse that is only tried is cut short by it, which `lookAhead` would take for a failure of the
    text. -/

namespace BraceScript

/-- What a parser holds. -/
structure Parser.State where
  token : Token
  cursor : Cursor
  deriving DecidableEq, Repr

/-- Why a program is not well formed. -/
inductive ParseCause where
  /-- Something else was expected at the token found. -/
  | expected (what : String)
  /-- As many expressions as names were expected. -/
  | expressionCount (expected actual : Nat)
  deriving DecidableEq, Repr

/-- A program that is not well formed, and the token where that shows. -/
structure ParseError where
  cause : ParseCause
  found : Token
  deriving DecidableEq, Repr

/-- A parse error as it is shown. -/
def ParseError.report (e : ParseError) : Report :=
  match e.cause with
  | .expected what =>
      ⟨.found e.found, .unexpectedToken, "Expected " ++ what ++ ", got " ++ e.found.kind.text⟩
  | .expressionCount expected actual =>
      ⟨.found e.found, .wrongNumberOfExpressions,
        "Expected " ++ toString expected ++ " expressions, got " ++ toString actual⟩

/-- Why parsing stopped. -/
inductive ParseFault where
  | lexical (e : LexError)
  | syntactic (e : ParseError)
  /-- The bound on the depth of the parse was too small. -/
  | exhausted
  deriving DecidableEq, Repr

/-- A parser of `α`: it changes the state also when it fails. -/
abbrev Parser (α : Type) := EStateM ParseFault Parser.State α

namespace Parser

/-- The state at the beginning of a text, its first token in hand. -/
def start (source : String) : Except LexError State :=
  match (Cursor.ofString source).next with
  | (.ok token, cursor) => .ok ⟨token, cursor⟩
  | (.error e, _) => .error e

/-- A bound on the depth of any parse from a state: a parse goes down fewer than sixteen levels
    between two tokens, and no text has more tokens than characters, its end apart.  It is always
    enough, so it stands for no limit: where a host would refuse another nested call, this parse
    goes on. -/
def depthBound (s : State) : Nat := 16 * (s.cursor.rest.length + 2)

/-- The kind of the token in hand. -/
def kind : Parser Kind := fun s => .ok s.token.kind s

/-- The token in hand. -/
def inHand : Parser Token := fun s => .ok s.token s

/-- Fails at the token in hand. -/
def reject {α : Type} (cause : ParseCause) : Parser α :=
  fun s => .error (.syntactic ⟨cause, s.token⟩) s

/-- Takes the next token in hand. -/
def shift : Parser Unit := fun s =>
  match s.cursor.next with
  | (.ok token, cursor) => .ok () ⟨token, cursor⟩
  | (.error e, cursor) => .error (.lexical e) ⟨s.token, cursor⟩

/-- Passes over a token of the given kind and returns it. -/
def consume (expected : Kind) : Parser Token := do
  let token ← inHand
  if token.kind = expected then
    shift
    return token
  else
    reject (.expected expected.text)

/-- The token behind the one in hand, which stays there: the place in the text is saved and
    restored, unless the token cannot be read. -/
def peekNext : Parser Token := fun s =>
  match s.cursor.next with
  | (.ok token, cursor) => .ok token ⟨s.token, cursor.restore s.cursor⟩
  | (.error e, cursor) => .error (.lexical e) ⟨s.token, cursor⟩

/-- Back at a saved state: the place in the text and the token in hand are restored. -/
def State.restore (s saved : State) : State := ⟨saved.token, s.cursor.restore saved.cursor⟩

/-- Whether a parser would succeed with an outcome that passes the test, judged by its outcome
    and the state behind it; a failure counts as passing.  Either way the state is restored. -/
def lookAhead {α : Type} (p : Parser α) (test : α → State → Bool) : Parser Bool := fun s =>
  match p s with
  | .ok a after => .ok (test a after) (after.restore s)
  | .error _ after => .ok true (after.restore s)

/-- The lexeme of a token of the given kind. -/
def consumeLexeme (expected : Kind) : Parser String := do
  let token ← consume expected
  return token.lexeme.getD ""

/-- The name of a type. -/
def typeName : Parser Node := do
  let token ← inHand
  if token.kind.isType then
    let _ ← consume token.kind
    return .typeName token.kind.text
  else
    reject (.expected "type")

/-- An identifier. -/
def identifier : Parser Node := do
  let name ← consumeLexeme .identifier
  return .identifier name

/-- A parameter: its type, then its name. -/
def parameter : Parser Node := do
  let type ← typeName
  let name ← identifier
  return .parameter name type

/-- The type that a function gives. -/
def giveType : Parser Node := do
  let _ ← consume .arrow
  typeName

/-- More items, each after a comma. -/
def commaItems (item : Parser Node) : (depth : Nat) → Parser (List Node)
  | 0 => throw .exhausted
  | depth + 1 => do
      if (← kind) = .comma then
        let _ ← consume .comma
        let first ← item
        let rest ← commaItems item depth
        return first :: rest
      else
        return []

/-- One or more items with commas between them. -/
def commaList (item : Parser Node) (depth : Nat) : Parser (List Node) := do
  let first ← item
  let rest ← commaItems item depth
  return first :: rest

/-- One or more identifiers. -/
def identifierList (depth : Nat) : Parser (List Node) := commaList identifier depth

/-- One or more parameters. -/
def parameterList (depth : Nat) : Parser (List Node) := commaList parameter depth

/-- A skip statement. -/
def skipStatement : Parser Node := do
  let _ ← consume .skipWord
  return .skip

/-- A stop statement. -/
def stopStatement : Parser Node := do
  let _ ← consume .stopWord
  return .stop

end Parser

end BraceScript
