import BraceScript.Node

/-! # The gallery — trees of every kind

    One node of each kind, the program apart, in the order in which the kinds are usually named. -/

namespace BraceScript.Gallery

/-- The node that stands for any number. -/
def one : Node := .number "1"

/-- The node that stands for any name. -/
def name : Node := .identifier "x"

/-- A node of each kind but the program. -/
def kinds : List Node := [
  .block [], .typeName "number", name, .variableDecl (.typeName "number") [name] [],
  .constantDecl (.typeName "number") [name] [one], .assignment name one, .give one,
  .display one, .elif (.boolean "true") (.block []), .otherwise (.block []),
  .ifElse (.boolean "true") (.block []) [] .absent, .whileLoop (.boolean "true") (.block []),
  .forLoop (.assignment name one) one .absent (.block []), .skip, .stop,
  .parameter name (.typeName "number"),
  .functionDecl name [] (.typeName "number") (.block []), .procedureDecl name [] (.block []),
  .functionCall name [], .procedureCall name [], .binary one "+" one, .unary "-" one,
  .truth one, .logical (.boolean "true") "and" (.boolean "false"),
  .negation "not" (.boolean "true"), .comparison one "<" one, one, .string "'x'",
  .boolean "true"]

/-- The node whose turn it is. -/
def turn (i : Nat) : Node := kinds.getD (i % kinds.length) .absent

end BraceScript.Gallery
