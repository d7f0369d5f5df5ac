import BraceScript.Report

/-! # Cursors — a place in a text, and the tokens read from there

    A cursor knows the text, how many characters are behind it, its line and column, and the
    characters ahead.  `next` reads one token: it passes blanks and a comment, then takes the
    longest token that begins at the cursor.  A token that cannot be read leaves the cursor where
    reading stopped. -/

namespace BraceScript

/-- A place in a text.  Stepping past the end still counts positions and columns. -/
structure Cursor where
  source : List Char
  position : Nat
  line : Nat
  column : Nat
  rest : List Char
  deriving DecidableEq, Repr

/-- Why no token could be read. -/
inductive LexCause where
  | invalidCharacter (c : Char)
  | stringCutByNewline
  | stringCutInEscape
  | stringUnclosed (quote : Char)
  | invalidNumber (lexeme : String)
  deriving DecidableEq, Repr

/-- A failure to read a token, with the place where reading stopped. -/
structure LexError where
  cause : LexCause
  position : Nat
  line : Nat
  column : Nat
  deriving DecidableEq, Repr

namespace LexCause

/-- The code of a cause. -/
def code : LexCause → Code
  | .invalidCharacter _ => .invalidCharacter
  | .stringCutByNewline | .stringCutInEscape | .stringUnclosed _ => .unterminatedString
  | .invalidNumber _ => .invalidNumberFormat

/-- The wording of a cause. -/
def message : LexCause → String
  | .invalidCharacter c => "Invalid character: '" ++ String.ofList [c] ++ "'"
  | .stringCutByNewline => "Unterminated string (newline)"
  | .stringCutInEscape => "Unterminated string (escape end)"
  | .stringUnclosed quote => "Unterminated string, expected '" ++ String.ofList [quote] ++ "'"
  | .invalidNumber lexeme => "Invalid number: '" ++ lexeme ++ "'"

end LexCause

/-- A failure to read a token as it is shown. -/
def LexError.report (e : LexError) : Report :=
  ⟨.place e.position e.line e.column, e.cause.code, e.cause.message⟩

/-! ## Classes of characters -/

/-- The ten digits. -/
def isDigit (c : Char) : Bool := '0' ≤ c && c ≤ '9'

/-- What an identifier may begin with. -/
def isWordStart (c : Char) : Bool :=
  ('a' ≤ c && c ≤ 'z') || ('A' ≤ c && c ≤ 'Z') || c = '_' || c = '$'

/-- What an identifier may go on with. -/
def isWordPart (c : Char) : Bool := isDigit c || isWordStart c

/-- Blanks, the line end among them. -/
def isSpace (c : Char) : Bool :=
  c = ' ' || c = '\t' || c = '\n' || c = '\r' || c = '\x0c' || c = '\x0b'

/-- Blanks within a line. -/
def isInlineSpace (c : Char) : Bool := isSpace c && c != '\n'

/-- The two quotes. -/
def isQuote (c : Char) : Bool := c = Text.singleQuote || c = Text.doubleQuote

/-- The character that stands after a backslash in a string, read as an escape. -/
def unescape (c : Char) : Char :=
  if c = 'n' then '\n' else if c = 't' then '\t' else if c = 'r' then '\r' else c

namespace Cursor

/-! ## Moving -/

/-- The beginning of a text. -/
def start (source : List Char) : Cursor := ⟨source, 0, 1, 1, source⟩

/-- The beginning of a text. -/
def ofString (s : String) : Cursor := start s.toList

/-- The character at the cursor. -/
def current (c : Cursor) : Option Char := c.rest.head?

/-- Whether the cursor is past the last character. -/
def atEnd (c : Cursor) : Bool := c.source.length ≤ c.position

/-- One step forward. -/
def advance (c : Cursor) : Cursor :=
  match c.rest with
  | '\n' :: rest => ⟨c.source, c.position + 1, c.line + 1, 1, rest⟩
  | _ :: rest => ⟨c.source, c.position + 1, c.line, c.column + 1, rest⟩
  | [] => ⟨c.source, c.position + 1, c.line, c.column + 1, []⟩

/-- Several steps forward. -/
def advanceBy : (steps : Nat) → Cursor → Cursor
  | 0, c => c
  | steps + 1, c => advanceBy steps c.advance

/-- The characters of a class at the cursor, and the cursor behind them. -/
def span (c : Cursor) (p : Char → Bool) : List Char × Cursor :=
  let run := c.rest.takeWhile p
  (run, advanceBy run.length c)

/-- The character `offset` steps from the cursor, counted from the end of the text when that is
    before its beginning; the failure is an offset beyond the text on the left. -/
def peek (c : Cursor) (offset : Int) : Except Unit (Option Char) :=
  let index : Int := (c.position : Int) + offset
  let size : Int := (c.source.length : Int)
  if 0 ≤ index then .ok c.source[index.toNat]?
  else if 0 ≤ size + index then .ok c.source[(size + index).toNat]?
  else .error ()

/-- Back at a place of the text that was saved: its position, line, column and character. -/
def restore (c saved : Cursor) : Cursor :=
  ⟨c.source, saved.position, saved.line, saved.column, saved.rest⟩

/-- The cursor behind the blanks of a line. -/
def skipSpace (c : Cursor) : Cursor := (c.span isInlineSpace).2

/-- The cursor behind line ends. -/
def skipNewlines (c : Cursor) : Cursor := (c.span (· == '\n')).2

/-- The cursor at the end of the line, one step taken in any case. -/
def skipComment (c : Cursor) : Cursor := (c.advance.span (· != '\n')).2

/-- The cursor behind blanks and a comment.  A comment ends at a line end or at the end of the
    text, and neither is passed over. -/
def skipTrivia (c : Cursor) : Cursor :=
  let c := c.skipSpace
  if c.current = some '#' then c.skipComment else c

/-! ## Reading tokens -/

/-- A failure at the cursor. -/
def fail (c : Cursor) (cause : LexCause) : LexError := ⟨cause, c.position, c.line, c.column⟩

/-- A token without a lexeme that begins at the cursor. -/
def token (c : Cursor) (kind : Kind) : Token := ⟨kind, c.line, c.column, none⟩

/-- A token with a lexeme that begins at the cursor. -/
def lexemeToken (c : Cursor) (kind : Kind) (lexeme : List Char) : Token :=
  ⟨kind, c.line, c.column, some (String.ofList lexeme)⟩

/-- The characters of a number: digits, and a point with digits if a digit follows it. -/
def numberLexeme (cs : List Char) : List Char :=
  let whole := cs.takeWhile isDigit
  match cs.dropWhile isDigit with
  | '.' :: d :: more =>
      if isDigit d then whole ++ '.' :: (d :: more).takeWhile isDigit else whole
  | _ => whole

/-- Reads a number. -/
def number (c : Cursor) : Except LexError Token × Cursor :=
  let lexeme := numberLexeme c.rest
  let after := advanceBy lexeme.length c
  if lexeme.isEmpty then (.error (after.fail (.invalidNumber "")), after)
  else (.ok (c.lexemeToken .numberLiteral lexeme), after)

/-- Reads what stands in a string up to its closing quote; `done` holds the characters read so
    far, last first. -/
def stringBody (quote : Char) : List Char → List Char → Cursor →
    Except LexError (List Char) × Cursor
  | [], _, c => (.error (c.fail (.stringUnclosed quote)), c)
  | x :: xs, done, c =>
      if x = quote then (.ok done.reverse, c.advance)
      else if x = '\n' then (.error (c.fail .stringCutByNewline), c)
      else if x = Text.backslash then
        match xs with
        | [] => (.error (c.advance.fail .stringCutInEscape), c.advance)
        | y :: ys => stringBody quote ys (unescape y :: done) c.advance.advance
      else stringBody quote xs (x :: done) c.advance

/-- Reads a string that begins with `quote` at the cursor and goes on with `rest`.  The lexeme
    holds the quotes, and escapes as what they stand for. -/
def stringFrom (c : Cursor) (quote : Char) (rest : List Char) : Except LexError Token × Cursor :=
  match stringBody quote rest [] c.advance with
  | (.ok body, after) => (.ok (c.lexemeToken .stringLiteral (quote :: (body ++ [quote]))), after)
  | (.error e, after) => (.error e, after)

/-- Reads a string that is closed by the character it begins with; at the end of the text there
    is none to read. -/
def string? (c : Cursor) : Option (Except LexError Token × Cursor) :=
  match c.rest with
  | [] => none
  | quote :: rest => some (c.stringFrom quote rest)

/-- The token of a word that begins at the cursor; keywords have no lexeme. -/
def wordToken (c : Cursor) (word : List Char) : Token :=
  match Kind.ofWord (String.ofList word) with
  | .booleanLiteral => c.lexemeToken .booleanLiteral word
  | .identifier => c.lexemeToken .identifier word
  | kind => c.token kind

/-- Reads an identifier, a keyword or a truth value. -/
def word (c : Cursor) : Token × Cursor :=
  let (run, after) := c.span isWordPart
  (c.wordToken run, after)

/-- Whether the text goes on with the given characters. -/
def startsWith (c : Cursor) (lexeme : String) : Bool := lexeme.toList.isPrefixOf c.rest

/-- Reads a sign of two characters, if there is one. -/
def pairSign (c : Cursor) : Option Token × Cursor :=
  match c.rest with
  | a :: b :: _ =>
      match Kind.ofPair? a b with
      | some kind => (some (c.token kind), c.advance.advance)
      | none => (none, c)
  | _ => (none, c)

/-- Reads a sign, one of two characters if there is one. -/
def sign (c : Cursor) (first : Char) : Except LexError Token × Cursor :=
  match c.pairSign with
  | (some token, after) => (.ok token, after)
  | (none, _) =>
      match Kind.ofChar? first with
      | some kind => (.ok (c.token kind), c.advance)
      | none => (.error (c.fail (.invalidCharacter first)), c)

/-- Whether a number begins with the given characters. -/
def startsNumber : List Char → Bool
  | '.' :: d :: _ => isDigit d
  | c :: _ => isDigit c
  | [] => false

/-- Reads a token that begins at the cursor itself. -/
def tokenHere (c : Cursor) : Except LexError Token × Cursor :=
  match c.rest with
  | [] => (.ok (c.token .endOfFile), c)
  | first :: rest =>
      if first = '\n' then (.ok (c.token .newline), c.skipNewlines)
      else if startsNumber c.rest then c.number
      else if isQuote first then c.stringFrom first rest
      else if isWordStart first then (.ok c.word.1, c.word.2)
      else c.sign first

/-- Reads the next token.  The end of the text is a token too, and can be read again. -/
def next (c : Cursor) : Except LexError Token × Cursor := c.skipTrivia.tokenHere

/-- Reads tokens up to the end of the text or a failure. -/
def readAll : (fuel : Nat) → Cursor → List Token × Option LexError × Cursor
  | 0, c => ([], none, c)
  | fuel + 1, c =>
      match c.next with
      | (.error e, after) => ([], some e, after)
      | (.ok token, after) =>
          if token.kind = .endOfFile then ([token], none, after)
          else
            let (tokens, failure, last) := readAll fuel after
            (token :: tokens, failure, last)

/-- Every token from the cursor on, the end of the text included; every token but that one takes
    at least one character. -/
def tokens (c : Cursor) : List Token × Option LexError × Cursor :=
  readAll (c.rest.length + 1) c

/-! ## Text -/

/-- Where the cursor is. -/
def text (c : Cursor) : String :=
  let shown := match c.current with
    | some x => Text.quoted (String.ofList [x])
    | none => "None"
  "Character " ++ shown ++ " at position " ++ toString c.position ++ " (line "
    ++ toString c.line ++ ", column " ++ toString c.column ++ ")"

/-- The text that the cursor moves over. -/
def detail (c : Cursor) : String :=
  "LexicalAnalyzer(source_code=" ++ Text.quoted (String.ofList c.source) ++ ")"

end Cursor

end BraceScript
