import BraceScript.Parser.Expression

/-! # Parsing, the statements — blocks and programs

    A program is one block.  Statements of a block end at a line end or at its closing brace.
    Every parser takes a bound on its depth; `parse` supplies one that is always enough. -/

namespace BraceScript

namespace Parser

/-- Names and their initial values; if there are values, there are as many as names. -/
def initialValues (names : List Node) (depth : Nat) : Parser (List Node) := do
  let values ← expressionList depth
  if names.length = values.length then
    return values
  else
    reject (.expressionCount names.length values.length)

/-- The declaration of variables. -/
def variableDeclaration (depth : Nat) : Parser Node := do
  let _ ← consume .letWord
  let type ← typeName
  let names ← identifierList depth
  if (← kind) = .assign then
    let _ ← consume .assign
    let values ← initialValues names depth
    return .variableDecl type names values
  else
    return .variableDecl type names []

/-- The declaration of constants. -/
def constantDeclaration (depth : Nat) : Parser Node := do
  let _ ← consume .keepWord
  let type ← typeName
  let names ← identifierList depth
  let _ ← consume .assign
  let values ← initialValues names depth
  return .constantDecl type names values

/-- The parameters of a declaration, none if the closing parenthesis comes first. -/
def parametersBeforeClose (depth : Nat) : Parser (List Node) := do
  if (← kind) = .rightParenthesis then return [] else parameterList depth

/-- A call of a procedure. -/
def procedureCall (depth : Nat) : Parser Node := do
  let _ ← consume .execWord
  let callee ← identifier
  let _ ← consume .leftParenthesis
  let arguments ← argumentsBeforeClose depth
  let _ ← consume .rightParenthesis
  return .procedureCall callee arguments

/-- An assignment. -/
def assignment (depth : Nat) : Parser Node := do
  let target ← identifier
  let _ ← consume .assign
  let value ← expression depth
  return .assignment target value

/-- A give statement, without a value if the statement ends there. -/
def giveStatement (depth : Nat) : Parser Node := do
  let _ ← consume .giveWord
  let k ← kind
  if k = .newline ∨ k = .rightBrace then
    return .give .absent
  else
    let value ← expression depth
    return .give value

/-- A show statement. -/
def showStatement (depth : Nat) : Parser Node := do
  let _ ← consume .showWord
  let value ← expression depth
  return .display value

/-- The step of a for loop, absent if none is written. -/
def stepOption (depth : Nat) : Parser Node := do
  if (← kind) = .stepWord then
    let _ ← consume .stepWord
    arithmetic depth
  else
    return .absent

mutual

/-- A block: statements between braces. -/
def block : (depth : Nat) → Parser Node
  | 0 => throw .exhausted
  | depth + 1 => do
      let _ ← consume .leftBrace
      let items ← statements depth
      let _ ← consume .rightBrace
      return .block items

/-- Statements and line ends up to a closing brace. -/
def statements : (depth : Nat) → Parser (List Node)
  | 0 => throw .exhausted
  | depth + 1 => do
      let k ← kind
      if k = .rightBrace then
        return []
      else if k = .newline then
        let _ ← consume .newline
        statements depth
      else
        let first ← statement depth
        let k ← kind
        if k = .newline then
          let _ ← consume .newline
          let rest ← statements depth
          return first :: rest
        else if k = .rightBrace then
          return [first]
        else
          reject (.expected "NEWLINE or RIGHT_BRACE")

/-- One statement. -/
def statement : (depth : Nat) → Parser Node
  | 0 => throw .exhausted
  | depth + 1 => do
      match ← kind with
      | .letWord => variableDeclaration depth
      | .keepWord => constantDeclaration depth
      | .funcWord => functionDeclaration depth
      | .procWord => procedureDeclaration depth
      | .execWord => procedureCall depth
      | .identifier => assignment depth
      | .giveWord => giveStatement depth
      | .showWord => showStatement depth
      | .ifWord => ifStatement depth
      | .whileWord => whileStatement depth
      | .forWord => forStatement depth
      | .skipWord => skipStatement
      | .stopWord => stopStatement
      | _ => reject (.expected "statement")

/-- The declaration of a function. -/
def functionDeclaration : (depth : Nat) → Parser Node
  | 0 => throw .exhausted
  | depth + 1 => do
      let _ ← consume .funcWord
      let name ← identifier
      let _ ← consume .leftParenthesis
      let parameters ← parametersBeforeClose depth
      let _ ← consume .rightParenthesis
      let type ← giveType
      let body ← block depth
      return .functionDecl name parameters type body

/-- The declaration of a procedure. -/
def procedureDeclaration : (depth : Nat) → Parser Node
  | 0 => throw .exhausted
  | depth + 1 => do
      let _ ← consume .procWord
      let name ← identifier
      let _ ← consume .leftParenthesis
      let parameters ← parametersBeforeClose depth
      let _ ← consume .rightParenthesis
      let body ← block depth
      return .procedureDecl name parameters body

/-- An if statement with its alternatives. -/
def ifStatement : (depth : Nat) → Parser Node
  | 0 => throw .exhausted
  | depth + 1 => do
      let _ ← consume .ifWord
      let condition ← boolean depth
      let body ← block depth
      let elifs ← elifBranches depth
      if (← kind) = .elseWord then
        let alternative ← elseBranch depth
        return .ifElse condition body elifs alternative
      else
        return .ifElse condition body elifs .absent

/-- Any number of elif branches. -/
def elifBranches : (depth : Nat) → Parser (List Node)
  | 0 => throw .exhausted
  | depth + 1 => do
      if (← kind) = .elifWord then
        let first ← elifBranch depth
        let rest ← elifBranches depth
        return first :: rest
      else
        return []

/-- An elif branch. -/
def elifBranch : (depth : Nat) → Parser Node
  | 0 => throw .exhausted
  | depth + 1 => do
      let _ ← consume .elifWord
      let condition ← boolean depth
      let body ← block depth
      return .elif condition body

/-- An else branch. -/
def elseBranch : (depth : Nat) → Parser Node
  | 0 => throw .exhausted
  | depth + 1 => do
      let _ ← consume .elseWord
      let body ← block depth
      return .otherwise body

/-- A while loop. -/
def whileStatement : (depth : Nat) → Parser Node
  | 0 => throw .exhausted
  | depth + 1 => do
      let _ ← consume .whileWord
      let condition ← boolean depth
      let body ← block depth
      return .whileLoop condition body

/-- A for loop. -/
def forStatement : (depth : Nat) → Parser Node
  | 0 => throw .exhausted
  | depth + 1 => do
      let _ ← consume .forWord
      let initial ← assignment depth
      let _ ← consume .toWord
      let termination ← arithmetic depth
      let step ← stepOption depth
      let body ← block depth
      return .forLoop initial termination step body

end

/-- A program. -/
def program (depth : Nat) : Parser Node := do
  let body ← block depth
  return .program body

/-- A program and nothing behind it. -/
def wholeProgram (depth : Nat) : Parser Node := do
  let tree ← program depth
  if (← kind) = .endOfFile then
    return tree
  else
    reject (.expected Kind.endOfFile.text)

/-- Runs a parser with a bound that is always enough. -/
def runFrom {α : Type} (p : (depth : Nat) → Parser α) (s : State) :
    EStateM.Result ParseFault State α :=
  p (depthBound s) s

/-- Runs a parser at the beginning of a text; what is left of the text is ignored. -/
def parsePart (p : (depth : Nat) → Parser Node) (source : String) : Except ParseFault Node :=
  match start source with
  | .error e => .error (.lexical e)
  | .ok s =>
      match runFrom p s with
      | .ok tree _ => .ok tree
      | .error e _ => .error e

end Parser

/-- The tree of a program. -/
def parse (source : String) : Except ParseFault Node := Parser.parsePart Parser.wholeProgram source

end BraceScript
