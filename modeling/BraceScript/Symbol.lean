import BraceScript.Node.Part
import BraceScript.Table

/-! # Symbols and scopes — what names mean where

    A scope is a table of symbols with a name, a kind and a level; scopes are nested, and a name
    means what the innermost scope that has it says.  A scope of level one also knows the built-in
    types. -/

namespace BraceScript

/-- A parameter of a function or procedure. -/
structure Parameter where
  name : String
  type : String
  deriving DecidableEq, Repr

/-- A function or procedure: its name, parameters and body.  The list of parameters may be left
    out. -/
structure Routine where
  name : String
  parameters : Option (List Parameter)
  body : Node

/-- A function: a routine with the type that it gives. -/
structure Function extends Routine where
  giveType : String

/-- What a name means. -/
inductive Symbol where
  | builtIn (name : String)
  | variable (name type : String)
  | constant (name type : String)
  | function (f : Function)
  | procedure (p : Routine)

/-- The parameters that are declared, in order. -/
def Parameter.ofNodes : List Node → Except Fault (List Parameter)
  | [] => .ok []
  | node :: rest => do
      let name ← node.identifierPart
      let spelled ← name.namePart
      let type ← node.typePart
      let typeSpelled ← type.namePart
      return ⟨spelled, typeSpelled⟩ :: (← Parameter.ofNodes rest)

/-- A parameter as it stands in a list of parameters. -/
def Parameter.text (p : Parameter) : String := p.name ++ ": " ++ p.type

/-- A parameter with its fields. -/
def Parameter.detail (p : Parameter) : String :=
  "VariableSymbol(identifier=" ++ p.name ++ ", type=" ++ p.type ++ ")"

/-- The parameters of a routine in parentheses. -/
def Routine.signature (r : Routine) : String :=
  r.name ++ "(" ++ ", ".intercalate ((r.parameters.getD []).map Parameter.text) ++ ")"

/-- The parameters of a routine with their fields. -/
def Routine.parametersDetail (r : Routine) : String :=
  match r.parameters with
  | some ps => Text.bracketed (ps.map Parameter.detail)
  | none => "None"

/-- A function as it is shown. -/
def Function.text (f : Function) : String :=
  "<FUNCTION: " ++ f.signature ++ " -> " ++ f.giveType ++ ">"

/-- A procedure as it is shown. -/
def Routine.text (r : Routine) : String := "<PROCEDURE: " ++ r.signature ++ ">"

namespace Symbol

/-- The name of a symbol. -/
def name : Symbol → String
  | .builtIn name => name
  | .variable name _ => name
  | .constant name _ => name
  | .function f => f.name
  | .procedure p => p.name

/-- A symbol as it is shown. -/
def text : Symbol → String
  | .builtIn name => "<BUILT-IN: " ++ name ++ ">"
  | .variable name type => "<VARIABLE: " ++ name ++ ", " ++ type ++ ">"
  | .constant name type => "<CONSTANT: " ++ name ++ ", " ++ type ++ ">"
  | .function f => f.text
  | .procedure p => p.text

/-- A symbol with its fields; that of a procedure is left open. -/
def detail : Symbol → String
  | .builtIn name => "BuiltInTypeSymbol(identifier=" ++ name ++ ")"
  | .variable name type => (Parameter.mk name type).detail
  | .constant name type =>
      "ConstantSymbol(identifier=" ++ name ++ ", type=" ++ type ++ ")"
  | .function f =>
      "FunctionSymbol(identifier=" ++ f.name ++ ", parameters=" ++ f.parametersDetail
        ++ ", give_type=" ++ f.giveType ++ ", block=" ++ f.body.text ++ ")"
  | .procedure p =>
      "ProcedureSymbol(identifier=" ++ p.name ++ ", parameters=" ++ p.parametersDetail
        ++ ", block=" ++ p.body.text

end Symbol

/-- The kinds of scope. -/
inductive ScopeKind where
  | program | function | procedure
  | ifBlock | elifBlock | elseBlock | whileBlock | forBlock
  deriving DecidableEq, Repr

namespace ScopeKind

/-- Every kind of scope. -/
def all : List ScopeKind :=
  [.program, .function, .procedure, .ifBlock, .elifBlock, .elseBlock, .whileBlock, .forBlock]

/-- How a kind of scope is written. -/
def text : ScopeKind → String
  | .program => "PROGRAM"
  | .function => "FUNCTION"
  | .procedure => "PROCEDURE"
  | .ifBlock => "IF_BLOCK"
  | .elifBlock => "ELIF_BLOCK"
  | .elseBlock => "ELSE_BLOCK"
  | .whileBlock => "WHILE_BLOCK"
  | .forBlock => "FOR_BLOCK"

/-- The kind of scope that is written so. -/
def ofText? (s : String) : Option ScopeKind := all.find? fun k => k.text = s

/-- Whether a scope is the body of a function or procedure. -/
def isRoutine : ScopeKind → Bool
  | .function | .procedure => true
  | _ => false

end ScopeKind

/-- A scope. -/
structure Scope where
  name : String
  kind : ScopeKind
  level : Int
  symbols : Table Symbol

namespace Scope

/-- Gives a symbol its name in a scope. -/
def define (s : Scope) (symbol : Symbol) : Scope :=
  { s with symbols := s.symbols.insert symbol.name symbol }

/-- The symbol of a name in the scope itself. -/
def find? (s : Scope) (name : String) : Option Symbol := s.symbols.get? name

/-- The built-in types. -/
def builtIns : List Symbol := [.builtIn "number", .builtIn "string", .builtIn "boolean"]

/-- A new scope; at level one it knows the built-in types. -/
def make (name : String) (kind : ScopeKind) (level : Int) : Scope :=
  let empty : Scope := ⟨name, kind, level, []⟩
  if level = 1 then builtIns.foldl define empty else empty

/-- A scope as it is shown. -/
def text (s : Scope) : String :=
  "Scope '" ++ s.name ++ "' (level " ++ toString s.level ++ "): "
    ++ Text.bracketed (s.symbols.values.map Symbol.text)

end Scope

/-- Nested scopes: the current one and those around it, innermost first. -/
structure Scopes where
  current : Scope
  outer : List Scope

namespace Scopes

/-- The scopes at the beginning of a program. -/
def initial : Scopes := ⟨Scope.make "global" .program 1, []⟩

/-- The scopes from the current one outwards. -/
def toList (s : Scopes) : List Scope := s.current :: s.outer

/-- The symbol of a name in the innermost of several scopes that has it. -/
def findIn (name : String) : List Scope → Option Symbol
  | [] => none
  | scope :: rest =>
      match scope.find? name with
      | some symbol => some symbol
      | none => findIn name rest

/-- The symbol of a name. -/
def lookup (s : Scopes) (name : String) : Option Symbol := findIn name s.toList

/-- Whether the current scope itself has a name. -/
def declares (s : Scopes) (name : String) : Bool := (s.current.find? name).isSome

/-- Gives a symbol its name in the current scope. -/
def define (s : Scopes) (symbol : Symbol) : Scopes :=
  { s with current := s.current.define symbol }

/-- Opens a scope in the current one, with its parameters as variables. -/
def enter (s : Scopes) (name : String) (kind : ScopeKind) (parameters : List Parameter) :
    Scopes :=
  let scope := Scope.make name kind (s.current.level + 1)
  ⟨parameters.foldl (fun scope p => scope.define (.variable p.name p.type)) scope, s.toList⟩

/-- Leaves the current scope; the outermost one stays. -/
def leave (s : Scopes) : Scopes :=
  match s.outer with
  | [] => s
  | scope :: rest => ⟨scope, rest⟩

/-- The current scope with its fields; the scope around it is shown in short. -/
def detail (s : Scopes) : String :=
  let outer := match s.outer with
    | [] => "None"
    | scope :: _ => scope.text
  "ScopedSymbolTable(name='" ++ s.current.name ++ "', type=" ++ s.current.kind.text ++ ", level="
    ++ toString s.current.level ++ ", enclosing_scope=" ++ outer ++ ")"

end Scopes

end BraceScript
