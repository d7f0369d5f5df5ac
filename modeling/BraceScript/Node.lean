import BraceScript.Text.Quoted

/-! # Syntax trees — programs and their parts

    One type holds every part of a program, so that any part can stand where another is expected;
    the parser builds only well-formed trees, and the analyzer and the evaluator say what happens
    to all others.  `absent` stands for a part that is left out, `bare` for a text in the place of a
    part, and `incomplete` for a node without a lexeme or list that its kind cannot do without.
    Operators and lexemes are kept as written. -/

namespace BraceScript

/-- What an incomplete node is and lacks. -/
inductive Lacking where
  | numberLexeme
  | stringLexeme
  | variableNames
  | constantNames
  | constantValues
  deriving DecidableEq, Repr

/-- A part of a program. -/
inductive Node where
  /-- A part that is left out. -/
  | absent
  /-- A text where a part is expected. -/
  | bare (text : String)
  /-- A node without something that its kind cannot do without; `parts` are the parts it has. -/
  | incomplete (lacking : Lacking) (parts : List Node)
  | program (block : Node)
  | block (statements : List Node)
  | typeName (name : String)
  | identifier (name : String)
  | variableDecl (type : Node) (names values : List Node)
  | constantDecl (type : Node) (names values : List Node)
  | assignment (target value : Node)
  /-- Leaves a function with a value, or a procedure without one. -/
  | give (value : Node)
  | display (value : Node)
  | elif (condition block : Node)
  | otherwise (block : Node)
  | ifElse (condition block : Node) (elifs : List Node) (alternative : Node)
  | whileLoop (condition block : Node)
  | forLoop (initial termination step block : Node)
  | skip
  | stop
  | parameter (name type : Node)
  | functionDecl (name : Node) (parameters : List Node) (giveType block : Node)
  | procedureDecl (name : Node) (parameters : List Node) (block : Node)
  | functionCall (callee : Node) (arguments : List Node)
  | procedureCall (callee : Node) (arguments : List Node)
  | binary (left : Node) (operator : String) (right : Node)
  | unary (operator : String) (operand : Node)
  /-- The truth of an arithmetic expression. -/
  | truth (expression : Node)
  | logical (left : Node) (operator : String) (right : Node)
  | negation (operator : String) (operand : Node)
  | comparison (left : Node) (comparator : String) (right : Node)
  | number (lexeme : String)
  | string (lexeme : String)
  | boolean (lexeme : String)
  deriving Repr, Inhabited

/-- The name of the kind of an incomplete node. -/
def Lacking.kindName : Lacking → String
  | .numberLexeme => "NodeNumberLiteral"
  | .stringLexeme => "NodeStringLiteral"
  | .variableNames => "NodeVariableDeclaration"
  | .constantNames | .constantValues => "NodeConstantDeclaration"

namespace Node

/-- Whether a part is left out. -/
def isAbsent : Node → Bool
  | .absent => true
  | _ => false

/-- The name of a part's kind. -/
def kindName : Node → String
  | .absent => "NoneType"
  | .bare _ => "str"
  | .incomplete lacking _ => lacking.kindName
  | .program _ => "NodeProgram"
  | .block _ => "NodeBlock"
  | .typeName _ => "NodeType"
  | .identifier _ => "NodeIdentifier"
  | .variableDecl _ _ _ => "NodeVariableDeclaration"
  | .constantDecl _ _ _ => "NodeConstantDeclaration"
  | .assignment _ _ => "NodeAssignmentStatement"
  | .give _ => "NodeGiveStatement"
  | .display _ => "NodeShowStatement"
  | .elif _ _ => "NodeElif"
  | .otherwise _ => "NodeElse"
  | .ifElse _ _ _ _ => "NodeIfStatement"
  | .whileLoop _ _ => "NodeWhileStatement"
  | .forLoop _ _ _ _ => "NodeForStatement"
  | .skip => "NodeSkipStatement"
  | .stop => "NodeStopStatement"
  | .parameter _ _ => "NodeParameter"
  | .functionDecl _ _ _ _ => "NodeFunctionDeclaration"
  | .procedureDecl _ _ _ => "NodeProcedureDeclaration"
  | .functionCall _ _ => "NodeFunctionCall"
  | .procedureCall _ _ => "NodeProcedureCall"
  | .binary _ _ _ => "NodeBinaryArithmeticOperation"
  | .unary _ _ => "NodeUnaryArithmeticOperation"
  | .truth _ => "NodeArithmeticExpressionAsBoolean"
  | .logical _ _ _ => "NodeBinaryBooleanOperation"
  | .negation _ _ => "NodeUnaryBooleanOperation"
  | .comparison _ _ _ => "NodeComparisonExpression"
  | .number _ => "NodeNumberLiteral"
  | .string _ => "NodeStringLiteral"
  | .boolean _ => "NodeBooleanLiteral"

/-- The parts of a part, in the order in which they are written down. -/
def children : Node → List Node
  | .absent | .bare _ | .typeName _ | .identifier _ | .skip | .stop | .number _ | .string _
  | .boolean _ => []
  | .incomplete _ parts => parts
  | .program body => [body]
  | .block statements => statements
  | .variableDecl type names values => type :: (names ++ values)
  | .constantDecl type names values => type :: (names ++ values)
  | .assignment target value => [target, value]
  | .give value => [value]
  | .display value => [value]
  | .elif condition body => [condition, body]
  | .otherwise body => [body]
  | .ifElse condition body elifs alternative => condition :: body :: (elifs ++ [alternative])
  | .whileLoop condition body => [condition, body]
  | .forLoop initial termination step body => [initial, termination, step, body]
  | .parameter name type => [name, type]
  | .functionDecl name parameters giveType body => name :: (parameters ++ [giveType, body])
  | .procedureDecl name parameters body => name :: (parameters ++ [body])
  | .functionCall callee arguments => callee :: arguments
  | .procedureCall callee arguments => callee :: arguments
  | .binary left _ right => [left, right]
  | .unary _ operand => [operand]
  | .truth expression => [expression]
  | .logical left _ right => [left, right]
  | .negation _ operand => [operand]
  | .comparison left _ right => [left, right]

/-! ## Written form

    The written form of a tree shows every field.  A list that may be left out is written `None`
    when it is empty. -/

/-- The written form of a list that may be left out. -/
def optionalList (items : List String) : String :=
  if items.isEmpty then "None" else Text.bracketed items

/-- The written form of an incomplete node, given those of its parts. -/
def incompleteText (lacking : Lacking) (parts : List String) : String :=
  match lacking, parts with
  | .variableNames, type :: values | .constantNames, type :: values =>
      lacking.kindName ++ "(type=" ++ type ++ ", identifiers=None, expressions="
        ++ optionalList values ++ ")"
  | .constantValues, type :: names =>
      lacking.kindName ++ "(type=" ++ type ++ ", identifiers=" ++ Text.bracketed names
        ++ ", expressions=None)"
  | _, _ => lacking.kindName ++ "(lexeme=None)"

mutual

/-- The written form of a tree. -/
def text : Node → String
  | .absent => "None"
  | .bare text => text
  | .incomplete lacking parts => incompleteText lacking (texts parts)
  | .program body => "NodeProgram(block=" ++ body.text ++ ")"
  | .block statements => "NodeBlock(statements=" ++ optionalList (texts statements) ++ ")"
  | .typeName name => "NodeType(name=" ++ name ++ ")"
  | .identifier name => "NodeIdentifier(name=" ++ name ++ ")"
  | .variableDecl type names values =>
      "NodeVariableDeclaration(type=" ++ type.text ++ ", identifiers="
        ++ Text.bracketed (texts names) ++ ", expressions=" ++ optionalList (texts values) ++ ")"
  | .constantDecl type names values =>
      "NodeConstantDeclaration(type=" ++ type.text ++ ", identifiers="
        ++ Text.bracketed (texts names) ++ ", expressions=" ++ Text.bracketed (texts values)
        ++ ")"
  | .assignment target value =>
      "NodeAssignmentStatement(identifier=" ++ target.text ++ ", expression=" ++ value.text
        ++ ")"
  | .give value => "NodeGiveStatement(expression=" ++ value.text ++ ")"
  | .display value => "NodeShowStatement(expression=" ++ value.text ++ ")"
  | .elif condition body =>
      "NodeElif(condition=" ++ condition.text ++ ", block=" ++ body.text ++ ")"
  | .otherwise body => "NodeElse(block=" ++ body.text ++ ")"
  | .ifElse condition body elifs alternative =>
      "NodeIfStatement(condition=" ++ condition.text ++ ", block=" ++ body.text ++ ", elifs="
        ++ optionalList (texts elifs) ++ ", else_=" ++ alternative.text ++ ")"
  | .whileLoop condition body =>
      "NodeWhileStatement(condition=" ++ condition.text ++ ", block=" ++ body.text ++ ")"
  | .forLoop initial termination step body =>
      "NodeForStatement(initial_assignment=" ++ initial.text ++ ", termination_expression="
        ++ termination.text ++ ", step_expression=" ++ step.text ++ ", block=" ++ body.text
        ++ ")"
  | .skip => "NodeSkipStatement()"
  | .stop => "NodeStopStatement()"
  | .parameter name type =>
      "NodeParameter(identifier=" ++ name.text ++ ", type=" ++ type.text ++ ")"
  | .functionDecl name parameters giveType body =>
      "NodeFunctionDeclaration(identifier=" ++ name.text ++ ", parameters="
        ++ optionalList (texts parameters) ++ ", give_type=" ++ giveType.text ++ ", block="
        ++ body.text ++ ")"
  | .procedureDecl name parameters body =>
      "NodeProcedureDeclaration(identifier=" ++ name.text ++ ", parameters="
        ++ optionalList (texts parameters) ++ ", block=" ++ body.text ++ ")"
  | .functionCall callee arguments =>
      "NodeFunctionCall(identifier=" ++ callee.text ++ ", arguments="
        ++ optionalList (texts arguments) ++ ")"
  | .procedureCall callee arguments =>
      "NodeProcedureCall(identifier=" ++ callee.text ++ ", arguments="
        ++ optionalList (texts arguments) ++ ")"
  | .binary left operator right =>
      "NodeBinaryArithmeticOperation(left=" ++ left.text ++ ", operator=" ++ operator
        ++ ", right=" ++ right.text ++ ")"
  | .unary operator operand =>
      "NodeUnaryArithmeticOperation(operator=" ++ operator ++ ", operand=" ++ operand.text
        ++ ")"
  | .truth expression =>
      "NodeArithmeticExpressionAsBoolean(expression=" ++ expression.text ++ ")"
  | .logical left operator right =>
      "NodeBinaryBooleanOperation(left=" ++ left.text ++ ", logical_operator=" ++ operator
        ++ ", right=" ++ right.text ++ ")"
  | .negation operator operand =>
      "NodeUnaryBooleanOperation(logical_operator=" ++ operator ++ ", operand=" ++ operand.text
        ++ ")"
  | .comparison left comparator right =>
      "NodeComparisonExpression(left=" ++ left.text ++ ", comparator=" ++ comparator
        ++ ", right=" ++ right.text ++ ")"
  | .number lexeme => "NodeNumberLiteral(lexeme=" ++ lexeme ++ ")"
  | .string lexeme => "NodeStringLiteral(lexeme=" ++ Text.quoted lexeme ++ ")"
  | .boolean lexeme => "NodeBooleanLiteral(lexeme=" ++ lexeme ++ ")"

/-- The written forms of several trees. -/
def texts : List Node → List String
  | [] => []
  | node :: rest => node.text :: texts rest

end

end Node

end BraceScript
