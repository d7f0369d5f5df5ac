import BraceScript.Fault
import BraceScript.Node

/-! # Operator forms — arithmetic with its operators in front or behind

    Arithmetic can be written with each operator before its operands, in parentheses, or behind
    them.  A writer knows numbers, and operations only when it is complete; every other part is a
    fault.  Of a number the first and last character are left out, and a plus sign is not
    written. -/

namespace BraceScript

/-- Where operators are written. -/
inductive Form where
  | front
  | behind
  deriving DecidableEq, Repr

namespace Form

/-- The name of the writer of a form. -/
def writerName : Form → String
  | .front => "PrefixTranslator"
  | .behind => "PostfixTranslator"

/-- Why a writer that cannot take whole programs cannot be made. -/
def unfinishedText (f : Form) : String :=
  "Can't instantiate abstract class " ++ f.writerName
    ++ " with abstract method visit_NodeProgram"

/-- An operation on two written operands. -/
def joinBinary (f : Form) (operator left right : String) : String :=
  match f with
  | .front => "(" ++ operator ++ " " ++ left ++ " " ++ right ++ ")"
  | .behind => left ++ " " ++ right ++ " " ++ operator

/-- An operation on one written operand. -/
def joinUnary (f : Form) (operator operand : String) : String :=
  if operator = "+" then operand
  else
    match f with
    | .front => "(" ++ operator ++ " " ++ operand ++ ")"
    | .behind => operand ++ " " ++ operator

/-- A number without its first and last character. -/
def numberText (lexeme : String) : String := String.ofList (lexeme.toList.drop 1).dropLast

/-- The fault of a part that a writer does not know. -/
def unknown (f : Form) (node : Node) : Except Fault String :=
  .error (.unhandled f.writerName node.kindName)

/-- Writes a tree; an incomplete writer knows no operations and, with operators behind, no
    numbers. -/
def write (f : Form) (complete : Bool) : Node → Except Fault String
  | .absent => .error (.noPart "NoneType" "accept")
  | .bare text => .error (.noPart (Node.bare text).kindName "accept")
  | .incomplete .numberLexeme parts =>
      if complete || f = .front then .error .absentIndexed
      else f.unknown (.incomplete .numberLexeme parts)
  | .binary left operator right =>
      if complete then do
        let l ← write f complete left
        let r ← write f complete right
        return f.joinBinary operator l r
      else f.unknown (.binary left operator right)
  | .unary operator operand =>
      if complete then do
        let o ← write f complete operand
        return f.joinUnary operator o
      else f.unknown (.unary operator operand)
  | .number lexeme =>
      if complete || f = .front then .ok (numberText lexeme) else f.unknown (.number lexeme)
  | node => f.unknown node

/-- What an incomplete writer makes of a node when it is told what kind of node it is; none for
    the kinds that it cannot be told. -/
def writeAs? (f : Form) : Node → Option (Except Fault String)
  | .binary left operator right => some (do
      let l ← f.write false left
      let r ← f.write false right
      return f.joinBinary operator l r)
  | .unary operator operand => some (do
      let o ← f.write false operand
      return f.joinUnary operator o)
  | .number lexeme => if f = .behind then some (.ok (numberText lexeme)) else none
  | .incomplete .numberLexeme _ => if f = .behind then some (.error .absentIndexed) else none
  | _ => none

end Form

namespace Node

mutual

/-- Every part of a tree, each before its own parts; what is left out or a bare text is not
    listed. -/
def preorder : Node → List Node
  | .absent | .bare _ => []
  | .incomplete lacking parts => .incomplete lacking parts :: preorders parts
  | .program body => .program body :: preorder body
  | .block statements => .block statements :: preorders statements
  | .typeName name => [.typeName name]
  | .identifier name => [.identifier name]
  | .variableDecl type names values =>
      .variableDecl type names values :: (preorder type ++ preorders names ++ preorders values)
  | .constantDecl type names values =>
      .constantDecl type names values :: (preorder type ++ preorders names ++ preorders values)
  | .assignment target value => .assignment target value :: (preorder target ++ preorder value)
  | .give value => .give value :: preorder value
  | .display value => .display value :: preorder value
  | .elif condition body => .elif condition body :: (preorder condition ++ preorder body)
  | .otherwise body => .otherwise body :: preorder body
  | .ifElse condition body elifs alternative =>
      .ifElse condition body elifs alternative
        :: (preorder condition ++ preorder body ++ preorders elifs ++ preorder alternative)
  | .whileLoop condition body =>
      .whileLoop condition body :: (preorder condition ++ preorder body)
  | .forLoop initial termination step body =>
      .forLoop initial termination step body
        :: (preorder initial ++ preorder termination ++ preorder step ++ preorder body)
  | .skip => [.skip]
  | .stop => [.stop]
  | .parameter name type => .parameter name type :: (preorder name ++ preorder type)
  | .functionDecl name parameters giveType body =>
      .functionDecl name parameters giveType body
        :: (preorder name ++ preorders parameters ++ preorder giveType ++ preorder body)
  | .procedureDecl name parameters body =>
      .procedureDecl name parameters body
        :: (preorder name ++ preorders parameters ++ preorder body)
  | .functionCall callee arguments =>
      .functionCall callee arguments :: (preorder callee ++ preorders arguments)
  | .procedureCall callee arguments =>
      .procedureCall callee arguments :: (preorder callee ++ preorders arguments)
  | .binary left operator right =>
      .binary left operator right :: (preorder left ++ preorder right)
  | .unary operator operand => .unary operator operand :: preorder operand
  | .truth expression => .truth expression :: preorder expression
  | .logical left operator right =>
      .logical left operator right :: (preorder left ++ preorder right)
  | .negation operator operand => .negation operator operand :: preorder operand
  | .comparison left comparator right =>
      .comparison left comparator right :: (preorder left ++ preorder right)
  | .number lexeme => [.number lexeme]
  | .string lexeme => [.string lexeme]
  | .boolean lexeme => [.boolean lexeme]

/-- The parts of several trees. -/
def preorders : List Node → List Node
  | [] => []
  | node :: rest => preorder node ++ preorders rest

end

end Node

end BraceScript
