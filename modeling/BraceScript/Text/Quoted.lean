import BraceScript.Text.Printable

/-! # Quoted text — how a text is shown inside a larger one

    A quoted text stands between two quotes, single ones unless the text has a single quote and
    no double one.  The quote in use, the backslash, and the line, return and tab characters get
    a backslash of their own; what has no visible form is written by its code point, in the
    shortest of the three widths that holds it. -/

namespace BraceScript.Text

/-- The single quote. -/
def singleQuote : Char := '\x27'

/-- The double quote. -/
def doubleQuote : Char := '\x22'

/-- The backslash. -/
def backslash : Char := '\x5c'

/-- A hexadecimal digit in lower case. -/
def hexDigit (n : Nat) : Char :=
  if n < 10 then Char.ofNat (48 + n) else Char.ofNat (87 + n)

/-- The last `width` hexadecimal digits of `n`, most significant first. -/
def hexDigits : (width : Nat) → (n : Nat) → List Char
  | 0, _ => []
  | width + 1, n => hexDigits width (n / 16) ++ [hexDigit (n % 16)]

/-- The escape that names a character by its code point. -/
def codeEscape (c : Char) : List Char :=
  let n := c.toNat
  if n < 0x100 then backslash :: 'x' :: hexDigits 2 n
  else if n < 0x10000 then backslash :: 'u' :: hexDigits 4 n
  else backslash :: 'U' :: hexDigits 8 n

/-- How one character is written between quotes `quote`; `visible` says which characters stand
    for themselves. -/
def quotedChar (visible : Char → Bool) (quote c : Char) : List Char :=
  if c = quote ∨ c = backslash then [backslash, c]
  else if c = '\n' then [backslash, 'n']
  else if c = '\r' then [backslash, 'r']
  else if c = '\t' then [backslash, 't']
  else if visible c then [c]
  else codeEscape c

/-- The quote that a text is written between. -/
def quoteFor (s : List Char) : Char :=
  if s.contains singleQuote && !s.contains doubleQuote then doubleQuote else singleQuote

/-- The quoted form of a text, with the given notion of a visible character. -/
def quotedBy (visible : Char → Bool) (s : List Char) : List Char :=
  let quote := quoteFor s
  quote :: (s.flatMap (quotedChar visible quote) ++ [quote])

/-- The quoted form of a text. -/
def quoted (s : String) : String :=
  String.ofList (quotedBy isPrintable s.toList)

/-- A text with every character beyond ASCII replaced by its escape. -/
def asciiOnly (s : String) : String :=
  String.ofList (s.toList.flatMap fun c => if c.toNat < 128 then [c] else codeEscape c)

/-- A list in brackets, its items separated by commas. -/
def bracketed (items : List String) : String :=
  "[" ++ ", ".intercalate items ++ "]"

end BraceScript.Text
