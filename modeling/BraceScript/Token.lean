import BraceScript.Text.Quoted

/-! # Tokens — the words of a program

    A token has a kind, the line and column where it begins, and, for literals and identifiers,
    its lexeme.  Keywords, operators and punctuation are fixed by their kind. -/

namespace BraceScript

/-- The kinds of token. -/
inductive Kind where
  | leftBrace | rightBrace | leftParenthesis | rightParenthesis
  | comma | colon | assign
  | plus | minus | multiply | divide | modulo | floorDivide | power
  | less | greater | lessEqual | greaterEqual | equal | notEqual
  | arrow
  | letWord | keepWord | giveWord | funcWord | procWord | execWord
  | andWord | orWord | notWord
  | ifWord | elifWord | elseWord | whileWord | forWord | toWord | stepWord
  | skipWord | stopWord | showWord
  | numberType | stringType | booleanType
  | numberLiteral | stringLiteral | booleanLiteral
  | identifier | newline | endOfFile
  deriving DecidableEq, Repr

namespace Kind

/-- Every kind of token. -/
def all : List Kind :=
  [.leftBrace, .rightBrace, .leftParenthesis, .rightParenthesis, .comma, .colon, .assign, .plus,
   .minus, .multiply, .divide, .modulo, .floorDivide, .power, .less, .greater, .lessEqual,
   .greaterEqual, .equal, .notEqual, .arrow, .letWord, .keepWord, .giveWord, .funcWord,
   .procWord, .execWord, .andWord, .orWord, .notWord, .ifWord, .elifWord, .elseWord, .whileWord,
   .forWord, .toWord, .stepWord, .skipWord, .stopWord, .showWord, .numberType, .stringType,
   .booleanType, .numberLiteral, .stringLiteral, .booleanLiteral, .identifier, .newline,
   .endOfFile]

/-- How a kind is written: as in a program where the kind fixes that, else by its own name. -/
def text : Kind → String
  | .leftBrace => "\x7b"
  | .rightBrace => "\x7d"
  | .leftParenthesis => "("
  | .rightParenthesis => ")"
  | .comma => ","
  | .colon => ":"
  | .assign => "="
  | .plus => "+"
  | .minus => "-"
  | .multiply => "*"
  | .divide => "/"
  | .modulo => "%"
  | .floorDivide => "//"
  | .power => "**"
  | .less => "<"
  | .greater => ">"
  | .lessEqual => "<="
  | .greaterEqual => ">="
  | .equal => "=="
  | .notEqual => "!="
  | .arrow => "->"
  | .letWord => "let"
  | .keepWord => "keep"
  | .giveWord => "give"
  | .funcWord => "func"
  | .procWord => "proc"
  | .execWord => "exec"
  | .andWord => "and"
  | .orWord => "or"
  | .notWord => "not"
  | .ifWord => "if"
  | .elifWord => "elif"
  | .elseWord => "else"
  | .whileWord => "while"
  | .forWord => "for"
  | .toWord => "to"
  | .stepWord => "step"
  | .skipWord => "skip"
  | .stopWord => "stop"
  | .showWord => "show"
  | .numberType => "number"
  | .stringType => "string"
  | .booleanType => "boolean"
  | .numberLiteral => "NUMBER_LITERAL"
  | .stringLiteral => "STRING_LITERAL"
  | .booleanLiteral => "BOOLEAN_LITERAL"
  | .identifier => "IDENTIFIER"
  | .newline => "NEWLINE"
  | .endOfFile => "EOF"

/-- The name of a kind in capitals. -/
def name : Kind → String
  | .leftBrace => "LEFT_BRACE"
  | .rightBrace => "RIGHT_BRACE"
  | .leftParenthesis => "LEFT_PARENTHESIS"
  | .rightParenthesis => "RIGHT_PARENTHESIS"
  | .comma => "COMMA"
  | .colon => "COLON"
  | .assign => "ASSIGN"
  | .plus => "PLUS"
  | .minus => "MINUS"
  | .multiply => "MULTIPLY"
  | .divide => "DIVIDE"
  | .modulo => "MODULO"
  | .floorDivide => "FLOOR_DIVIDE"
  | .power => "POWER"
  | .less => "LESS"
  | .greater => "GREATER"
  | .lessEqual => "LESS_EQUAL"
  | .greaterEqual => "GREATER_EQUAL"
  | .equal => "EQUAL"
  | .notEqual => "NOT_EQUAL"
  | .arrow => "ARROW"
  | .letWord => "LET"
  | .keepWord => "KEEP"
  | .giveWord => "GIVE"
  | .funcWord => "FUNC"
  | .procWord => "PROC"
  | .execWord => "EXEC"
  | .andWord => "AND"
  | .orWord => "OR"
  | .notWord => "NOT"
  | .ifWord => "IF"
  | .elifWord => "ELIF"
  | .elseWord => "ELSE"
  | .whileWord => "WHILE"
  | .forWord => "FOR"
  | .toWord => "TO"
  | .stepWord => "STEP"
  | .skipWord => "SKIP"
  | .stopWord => "STOP"
  | .showWord => "SHOW"
  | .numberType => "NUMBER_TYPE"
  | .stringType => "STRING_TYPE"
  | .booleanType => "BOOLEAN_TYPE"
  | .numberLiteral => "NUMBER_LITERAL"
  | .stringLiteral => "STRING_LITERAL"
  | .booleanLiteral => "BOOLEAN_LITERAL"
  | .identifier => "IDENTIFIER"
  | .newline => "NEWLINE"
  | .endOfFile => "EOF"

/-- The kind that is written so. -/
def ofText? (s : String) : Option Kind := all.find? fun k => k.text = s

/-- The words of the language, each with its kind. -/
def keywords : List (String × Kind) :=
  [.letWord, .keepWord, .giveWord, .funcWord, .procWord, .execWord, .numberType, .stringType,
   .booleanType, .andWord, .orWord, .notWord, .ifWord, .elifWord, .elseWord, .whileWord,
   .forWord, .toWord, .stepWord, .skipWord, .stopWord, .showWord].map fun k => (k.text, k)

/-- The signs of two characters. -/
def pairSigns : List (String × Kind) :=
  [.arrow, .power, .floorDivide, .equal, .notEqual, .lessEqual, .greaterEqual].map
    fun k => (k.text, k)

/-- The signs of one character. -/
def singleSigns : List (String × Kind) :=
  [.leftBrace, .rightBrace, .leftParenthesis, .rightParenthesis, .comma, .colon, .assign, .plus,
   .minus, .multiply, .divide, .modulo, .less, .greater].map fun k => (k.text, k)

/-- The kind of a word: a keyword, a truth value, or else an identifier. -/
def ofWord (word : String) : Kind :=
  if word = "true" ∨ word = "false" then .booleanLiteral
  else (keywords.lookup word).getD .identifier

/-- The sign that two characters form. -/
def ofPair? (a b : Char) : Option Kind := pairSigns.lookup (String.ofList [a, b])

/-- The sign that one character is. -/
def ofChar? (c : Char) : Option Kind := singleSigns.lookup (String.ofList [c])

/-- Whether a kind compares two values. -/
def isComparison : Kind → Bool
  | .equal | .notEqual | .less | .greater | .lessEqual | .greaterEqual => true
  | _ => false

/-- Whether a kind names a type. -/
def isType : Kind → Bool
  | .numberType | .stringType | .booleanType => true
  | _ => false

/-- Whether a kind adds or subtracts. -/
def isAdditive : Kind → Bool
  | .plus | .minus => true
  | _ => false

/-- Whether a kind multiplies or divides. -/
def isMultiplicative : Kind → Bool
  | .multiply | .divide | .floorDivide | .modulo => true
  | _ => false

end Kind

/-- A word of a program and where it begins; lines and columns count from one. -/
structure Token where
  kind : Kind
  line : Int
  column : Int
  lexeme : Option String := none
  deriving DecidableEq, Repr

namespace Token

/-- The place of a token in brackets. -/
def place (t : Token) : String :=
  "[" ++ toString t.line ++ ":" ++ toString t.column ++ "]"

/-- The short form of a token. -/
def text (t : Token) : String :=
  let lexeme := match t.lexeme with
    | some l => ": " ++ Text.quoted l
    | none => ""
  "Token(" ++ t.kind.text ++ lexeme ++ ")" ++ t.place

/-- The form of a token that shows every field. -/
def detail (t : Token) : String :=
  let fields := "(type=<TokenType." ++ t.kind.name ++ ": " ++ Text.quoted t.kind.text
    ++ ">, line=" ++ toString t.line ++ ", column=" ++ toString t.column
  match t.lexeme with
  | some l => "TokenWithLexeme" ++ fields ++ ", lexeme=" ++ Text.quoted l ++ ")"
  | none => "Token" ++ fields ++ ")"

end Token

end BraceScript
