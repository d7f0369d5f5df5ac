import BraceScript.Report
import BraceScript.Symbol

/-! # Analysis — whether names are used as they are declared

    The analysis walks a program in order.  A name is declared once per scope, before its use and,
    for a variable with a value, before that value is looked at.  Functions and procedures are
    called with as many arguments as they have parameters, constants are not assigned to, gives
    fit the routine around them, and skips and stops stand somewhere inside a while loop.  A
    failing analysis leaves the scopes as they were where it failed. -/

namespace BraceScript

/-- What is declared. -/
inductive Declared where
  | variable | constant | function | procedure
  deriving DecidableEq, Repr

/-- What is declared, as the first word of a sentence. -/
def Declared.title : Declared → String
  | .variable => "Variable"
  | .constant => "Constant"
  | .function => "Function"
  | .procedure => "Procedure"

/-- The symbol of a name that is declared with a type. -/
def Declared.symbol (what : Declared) (name type : String) : Symbol :=
  match what with
  | .constant => .constant name type
  | _ => .variable name type

/-- How a name is used. -/
inductive Usage where
  | variable | function | procedure | identifier
  deriving DecidableEq, Repr

/-- How a name is used, in words. -/
def Usage.word : Usage → String
  | .variable => "variable"
  | .function => "function"
  | .procedure => "procedure"
  | .identifier => "identifier"

/-- Why a program has no meaning. -/
inductive SemanticError where
  | duplicate (what : Declared) (name : String)
  | undeclared (usage : Usage) (name : String)
  | assignmentToConstant (name : String)
  | wrongUse (usage : Usage) (name : String)
  | argumentCount (name : String) (expected actual : Nat)
  | giveOutside
  | giveUnrooted
  | emptyGive (function : String)
  | givingProcedure (procedure : String)
  | giveMisplaced (scope : String)
  | skipOutside
  | stopOutside
  deriving DecidableEq, Repr

namespace SemanticError

/-- The code of an error. -/
def code : SemanticError → Code
  | .duplicate _ _ => .duplicateIdentifier
  | .undeclared _ _ => .undeclaredIdentifier
  | .assignmentToConstant _ => .assignmentToConstant
  | .wrongUse _ _ => .wrongSymbolType
  | .argumentCount _ _ _ => .wrongNumberOfArguments
  | .giveOutside | .giveUnrooted | .giveMisplaced _ => .wrongSymbolType
  | .emptyGive _ => .functionEmptyGive
  | .givingProcedure _ => .procedureGivingValue
  | .skipOutside => .skipOutsideWhile
  | .stopOutside => .stopOutsideWhile

/-- The wording of an error. -/
def message : SemanticError → String
  | .duplicate what name =>
      what.title ++ " '" ++ name ++ "' already declared in this scope"
  | .undeclared usage name => "Undeclared " ++ usage.word ++ " '" ++ name ++ "'"
  | .assignmentToConstant name => "Cannot assign to constant '" ++ name ++ "'"
  | .wrongUse usage name => "'" ++ name ++ "' is not a " ++ usage.word
  | .argumentCount name expected actual =>
      "'" ++ name ++ "' expects " ++ toString expected ++ " arguments, got " ++ toString actual
  | .giveOutside => "Give statement outside of function or procedure"
  | .giveUnrooted => "Invalid scope structure"
  | .emptyGive function => "Function '" ++ function ++ "' must give a value"
  | .givingProcedure procedure => "Procedure '" ++ procedure ++ "' cannot give a value"
  | .giveMisplaced scope => "Give statement in invalid context: " ++ scope
  | .skipOutside => "skip statements can only be used inside while blocks"
  | .stopOutside => "stop statements can only be used inside while blocks"

/-- An error as it is shown. -/
def report (e : SemanticError) : Report := ⟨.meaning, e.code, e.message⟩

end SemanticError

/-- Why an analysis stops. -/
inductive AnalysisFault where
  | semantic (e : SemanticError)
  /-- The tree is of a shape that the analysis cannot walk. -/
  | shape (f : Fault)
  deriving DecidableEq, Repr

/-- A step of an analysis: it changes the scopes also when it fails. -/
abbrev Analysis (α : Type) := EStateM AnalysisFault Scopes α

namespace Analysis

/-- Stops at an error. -/
def fail {α : Type} (e : SemanticError) : Analysis α := throw (.semantic e)

/-- A part of the tree. -/
def part {α : Type} : Except Fault α → Analysis α
  | .ok a => pure a
  | .error f => throw (.shape f)

/-- The symbol of a name. -/
def lookup (name : String) : Analysis (Option Symbol) := fun s => .ok (s.lookup name) s

/-- Refuses a name that the current scope already has. -/
def requireNew (what : Declared) (name : String) : Analysis Unit := fun s =>
  if s.declares name then .error (.semantic (.duplicate what name)) s else .ok () s

/-- Gives a symbol its name in the current scope. -/
def define (symbol : Symbol) : Analysis Unit := modify (·.define symbol)

/-- Opens a scope. -/
def enter (name : String) (kind : ScopeKind) (parameters : List Parameter) : Analysis Unit :=
  modify (·.enter name kind parameters)

/-- Opens the scope of a block, which is named for its level. -/
def enterBlock (stem : String) (kind : ScopeKind) : Analysis Unit :=
  modify fun s => s.enter (stem ++ toString s.current.level) kind []

/-- Leaves the current scope. -/
def leave : Analysis Unit := modify Scopes.leave

/-- Declares the next name: its symbol is entered unless the scope has the name. -/
def declareName (what : Declared) (type name : Node) : Analysis Unit := do
  let spelled ← part name.namePart
  requireNew what spelled
  let typeSpelled ← part type.namePart
  define (what.symbol spelled typeSpelled)

/-- Declares names that have no values. -/
def declareNames (what : Declared) (type : Node) : List Node → Analysis Unit
  | [] => pure ()
  | name :: names => do
      declareName what type name
      declareNames what type names

/-- Analyzes a node that lacks something: literals need no lexeme here, and constants that lack
    their values fail at the first value. -/
def incomplete (lacking : Lacking) (parts : List Node) : Analysis Unit :=
  match lacking, parts with
  | .numberLexeme, _ | .stringLexeme, _ => pure ()
  | .variableNames, _ | .constantNames, _ => throw (.shape .absentIterated)
  | .constantValues, type :: name :: _ => do
      declareName .constant type name
      throw (.shape .absentIndexed)
  | .constantValues, _ => pure ()

/-- A list of parameters that is left out when it is empty. -/
def someUnlessEmpty (ps : List Parameter) : Option (List Parameter) :=
  if ps.isEmpty then none else some ps

/-- The number of arguments that a routine takes is the number that it gets. -/
def checkCount (r : Routine) (name : String) (arguments : List Node) : Analysis Unit :=
  let expected := (r.parameters.getD []).length
  if expected = arguments.length then pure ()
  else fail (.argumentCount name expected arguments.length)

/-- A called function is declared, is a function, and gets the right number of arguments. -/
def checkFunction (callee : Node) (arguments : List Node) : Analysis Unit := do
  let name ← part callee.namePart
  match ← lookup name with
  | none => fail (.undeclared .function name)
  | some (.function f) => checkCount f.toRoutine name arguments
  | some _ => fail (.wrongUse .function name)

/-- A called procedure is declared, is a procedure, and gets the right number of arguments. -/
def checkProcedure (callee : Node) (arguments : List Node) : Analysis Unit := do
  let name ← part callee.namePart
  match ← lookup name with
  | none => fail (.undeclared .procedure name)
  | some (.procedure p) => checkCount p name arguments
  | some _ => fail (.wrongUse .procedure name)

/-- The target of an assignment is a declared variable. -/
def checkTarget (target : Node) : Analysis Unit := do
  let name ← part target.namePart
  match ← lookup name with
  | none => fail (.undeclared .variable name)
  | some (.constant _ _) => fail (.assignmentToConstant name)
  | some (.variable _ _) => pure ()
  | some _ => fail (.wrongUse .variable name)

/-- The innermost scope that is the body of a routine, with the scopes around it. -/
def routineScope : List Scope → Option (Scope × List Scope)
  | [] => none
  | scope :: rest => if scope.kind.isRoutine then some (scope, rest) else routineScope rest

/-- Whether the value of a give is to be looked at: a function gives a value, a procedure
    gives none. -/
def checkGive (value : Node) : Analysis Bool := do
  match routineScope (← get).toList with
  | none => fail .giveOutside
  | some (_, []) => fail .giveUnrooted
  | some (scope, outer) =>
      match Scopes.findIn scope.name outer with
      | some (.function _) => if value.isAbsent then fail (.emptyGive scope.name) else pure true
      | some (.procedure _) =>
          if value.isAbsent then pure false else fail (.givingProcedure scope.name)
      | _ => fail (.giveMisplaced scope.name)

/-- Whether a while loop is around the current place. -/
def insideWhile : Analysis Bool := fun s =>
  .ok (s.toList.any fun scope => scope.kind = .whileBlock) s

/-- A name that is read is declared, and its symbol fits. -/
def checkName (fits : Symbol → Bool) (name : String) : Analysis Unit := do
  match ← lookup name with
  | none => fail (.undeclared .identifier name)
  | some symbol => if fits symbol then pure () else fail (.wrongUse .identifier name)

/-- Declares a routine and opens its scope. -/
def openRoutine (what : Declared) (kind : ScopeKind) (name : Node) (parameters : List Node)
    (symbol : String → List Parameter → Except Fault Symbol) : Analysis Unit := do
  let spelled ← part name.namePart
  requireNew what spelled
  let ps ← part (Parameter.ofNodes parameters)
  define (← part (symbol spelled ps))
  enter spelled kind ps

/-- The symbol of a function. -/
def functionSymbol (giveType body : Node) (name : String) (ps : List Parameter) :
    Except Fault Symbol := do
  let type ← giveType.namePart
  return .function ⟨⟨name, someUnlessEmpty ps, body⟩, type⟩

/-- The symbol of a procedure. -/
def procedureSymbol (body : Node) (name : String) (ps : List Parameter) : Except Fault Symbol :=
  .ok (.procedure ⟨name, someUnlessEmpty ps, body⟩)

mutual

/-- Analyzes a part of a program; the symbols of names that are read have to fit. -/
def node (fits : Symbol → Bool) : Node → Analysis Unit
  | .absent => throw (.shape (.noPart "NoneType" "accept"))
  | .bare text => throw (.shape (.noPart (Node.bare text).kindName "accept"))
  | .incomplete lacking parts => incomplete lacking parts
  | .program body => node fits body
  | .block statements => nodes fits statements
  | .typeName _ => throw (.shape (.unhandled "SemanticAnalyzer" "NodeType"))
  | .parameter _ _ => throw (.shape (.unhandled "SemanticAnalyzer" "NodeParameter"))
  | .identifier name => checkName fits name
  | .variableDecl type names values => initialized fits .variable type names values
  | .constantDecl type names values => initialized fits .constant type names values
  | .functionDecl name parameters giveType body => do
      openRoutine .function .function name parameters (functionSymbol giveType body)
      node fits body
      leave
  | .procedureDecl name parameters body => do
      openRoutine .procedure .procedure name parameters (procedureSymbol body)
      node fits body
      leave
  | .assignment target value => do
      checkTarget target
      node fits value
  | .functionCall callee arguments => do
      checkFunction callee arguments
      nodes fits arguments
  | .procedureCall callee arguments => do
      checkProcedure callee arguments
      nodes fits arguments
  | .give value => do
      if ← checkGive value then node fits value else pure ()
  | .display value => node fits value
  | .ifElse condition body elifs alternative => do
      node fits condition
      enterBlock "if_statement_" .ifBlock
      node fits body
      leave
      nodes fits elifs
      if alternative.isAbsent then pure () else node fits alternative
  | .elif condition body => do
      node fits condition
      enterBlock "elif_statement_" .elifBlock
      node fits body
      leave
  | .otherwise body => do
      enterBlock "else_statement_" .elseBlock
      node fits body
      leave
  | .whileLoop condition body => do
      node fits condition
      enterBlock "while_statement_" .whileBlock
      node fits body
      leave
  | .forLoop initial termination step body => do
      node fits termination
      if step.isAbsent then pure () else node fits step
      enterBlock "for_statement_" .forBlock
      node fits initial
      node fits body
      leave
  | .skip => do
      if ← insideWhile then pure () else fail .skipOutside
  | .stop => do
      if ← insideWhile then pure () else fail .stopOutside
  | .truth expression => node fits expression
  | .binary left _ right => do
      node fits left
      node fits right
  | .unary _ operand => node fits operand
  | .logical left _ right => do
      node fits left
      node fits right
  | .negation _ operand => node fits operand
  | .comparison left _ right => do
      node fits left
      node fits right
  | .number _ => pure ()
  | .string _ => pure ()
  | .boolean _ => pure ()

/-- Analyzes several parts in order. -/
def nodes (fits : Symbol → Bool) : List Node → Analysis Unit
  | [] => pure ()
  | first :: rest => do
      node fits first
      nodes fits rest

/-- Declares names one after the other, each before its value is analyzed.  Variables may lack
    values, constants may not. -/
def initialized (fits : Symbol → Bool) (what : Declared) (type : Node) (names : List Node) :
    List Node → Analysis Unit
  | [] =>
      match what, names with
      | .constant, name :: _ => do
          declareName what type name
          throw (.shape .noValue)
      | _, _ => declareNames what type names
  | value :: values =>
      match names with
      | [] => pure ()
      | name :: names => do
          declareName what type name
          node fits value
          initialized fits what type names values

end

end Analysis

/-- Analyzes a part of a program in given scopes, where the symbols of names that are read have to
    fit: the fault that stopped the analysis, if any, and the scopes behind it. -/
def analyzeWith (fits : Symbol → Bool) (scopes : Scopes) (tree : Node) :
    Option AnalysisFault × Scopes :=
  match Analysis.node fits tree scopes with
  | .ok _ after => (none, after)
  | .error e after => (some e, after)

/-- Analyzes a part of a program in given scopes.  A declared name can be read, whatever it is
    declared as. -/
def analyzeIn (scopes : Scopes) (tree : Node) : Option AnalysisFault × Scopes :=
  analyzeWith (fun _ => true) scopes tree

/-- Analyzes a program. -/
def analyze (tree : Node) : Option AnalysisFault × Scopes := analyzeIn Scopes.initial tree

end BraceScript
