import BraceScript.Fault
import BraceScript.Node

/-! # Parts of a tree by name

    Several kinds of node have a part of the same name, and a part can be asked of any node; a
    node that has no such part is a fault. -/

namespace BraceScript.Node

/-- The fault of a node that has no such part. -/
def lacks {α : Type} (node : Node) (part : String) : Except Fault α :=
  .error (.noPart node.kindName part)

/-- The name that a node spells. -/
def namePart : Node → Except Fault String
  | .identifier name => .ok name
  | .typeName name => .ok name
  | node => node.lacks "name"

/-- The identifier of a node. -/
def identifierPart : Node → Except Fault Node
  | .assignment target _ => .ok target
  | .parameter name _ => .ok name
  | .functionDecl name _ _ _ => .ok name
  | .procedureDecl name _ _ => .ok name
  | .functionCall callee _ => .ok callee
  | .procedureCall callee _ => .ok callee
  | node => node.lacks "identifier"

/-- The type of a node. -/
def typePart : Node → Except Fault Node
  | .variableDecl type _ _ => .ok type
  | .constantDecl type _ _ => .ok type
  | .parameter _ type => .ok type
  | node => node.lacks "type"

/-- The expression of a node. -/
def expressionPart : Node → Except Fault Node
  | .assignment _ value => .ok value
  | .give value => .ok value
  | .display value => .ok value
  | .truth expression => .ok expression
  | node => node.lacks "expression"

/-- The condition of a node. -/
def conditionPart : Node → Except Fault Node
  | .elif condition _ => .ok condition
  | .ifElse condition _ _ _ => .ok condition
  | .whileLoop condition _ => .ok condition
  | node => node.lacks "condition"

/-- The block of a node. -/
def blockPart : Node → Except Fault Node
  | .program body => .ok body
  | .elif _ body => .ok body
  | .otherwise body => .ok body
  | .ifElse _ body _ _ => .ok body
  | .whileLoop _ body => .ok body
  | .forLoop _ _ _ body => .ok body
  | .functionDecl _ _ _ body => .ok body
  | .procedureDecl _ _ body => .ok body
  | node => node.lacks "block"

end BraceScript.Node
