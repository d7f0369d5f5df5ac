/-! # Spans of texts — texts that lie between two others

    A text lies between two others in the order of texts when it is not before the first and not
    after the second.  The classes of characters are such spans, and as spans they hold texts of
    any length; the empty text is in none. -/

namespace BraceScript.Text

/-- Whether a text lies between two others, both included. -/
def between (low high s : String) : Bool := !decide (s < low) && !decide (high < s)

/-- Texts in the span of the digits. -/
def isDigitText (s : String) : Bool := !s.isEmpty && between "0" "9" s

/-- Texts in the spans of the letters, the underscore and the dollar sign. -/
def isWordStartText (s : String) : Bool :=
  !s.isEmpty && (between "a" "z" s || between "A" "Z" s || s = "_" || s = "$")

/-- Texts in the spans of the digits and of what an identifier may begin with. -/
def isWordPartText (s : String) : Bool := isDigitText s || isWordStartText s

/-- Whether some characters stand in a row in others. -/
def occursIn (part : List Char) : List Char → Bool
  | [] => part.isEmpty
  | c :: cs => part.isPrefixOf (c :: cs) || occursIn part cs

/-- Texts that stand in the row of the blanks. -/
def isSpaceText (s : String) : Bool :=
  !s.isEmpty && occursIn s.toList [' ', '\t', '\n', '\r', '\x0c', '\x0b']

end BraceScript.Text
