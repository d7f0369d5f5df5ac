import BraceScript.Value.Arithmetic
import BraceScript.Work

/-! # Evaluation — running programs

    Running a part of a program returns its value: expressions have the value they denote,
    statements that complete have `nothing`, and gives have what is given, which ends every block
    and loop up to the call around them.  A skip or a stop ends everything up to the innermost
    running loop, also calls, whose records then stay on the stack.

    `Action.step` says what each task does by itself and what it asks for; `Eval.perform` carries
    that out.  Only `perform` has a bound on the depth of the run, and `visits` lists the tasks that
    it comes to. -/

namespace BraceScript

namespace Eval

/-- How one round of a loop ends. -/
inductive Round where
  | finished
  | again
  | gave (v : Value)

/-- The value that a declared variable has before one is set. -/
def defaultValue (type : String) : Except Fault Value :=
  if type = "number" then .ok (.int 0)
  else if type = "string" then .ok (.text "")
  else if type = "boolean" then .ok (.bool false)
  else .error (.noDefault type)

/-- Sets variables, declared without values, to the default of their type. -/
def setDefaults (height : Nat) (type : Node) : List Node → Eval Unit
  | [] => pure ()
  | name :: names => do
      let spelled ← attempt type.namePart
      let v ← attempt (defaultValue spelled)
      setAt height (← attempt name.namePart) v
      setDefaults height type names

/-- The lexeme of a string without its quotes. -/
def unquote (lexeme : String) : String := String.ofList (lexeme.toList.drop 1).dropLast

/-- The value of a number as written. -/
def numberValue (lexeme : String) : Except Fault Value :=
  match Number.Numeral.read lexeme with
  | .ok (.integer n) => .ok (.int n)
  | .ok (.float x) => .ok (.float x)
  | .error f => .error (.numeral f)

/-- The value of a variable of the top record. -/
def valueOf (name : String) : Eval Value := do
  match (← top).get? name with
  | none | some .nothing => fail (.undefined name)
  | some v => return v

/-- A real number, or the given fault. -/
def requireReal (fault : String → Fault) (v : Value) : Eval Unit :=
  if v.isReal then pure () else fail (fault v.kindName)

/-- The step of a for loop that has none written: towards its end. -/
def impliedStep (initial termination : Value) : Except Fault Value := do
  if ← initial.related .lessEqual termination then return .int 1 else return .int (-1)

/-- Whether a for loop has passed its end. -/
def isPast (current termination step : Value) : Except Fault Bool := do
  if ← step.related .greater (.int 0) then current.related .greater termination
  else current.related .less termination

/-- The variable of a for loop, which has to be a real number. -/
def loopVariable (height : Nat) (name : String) : Eval Value := do
  match ← getAt height name with
  | some v => if v.isReal then return v else fail .assertion
  | none => fail .assertion

/-- Moves the variable of a for loop on from a value. -/
def moveOn (height : Nat) (name : String) (current step : Value) : Eval Unit := do
  setAt height name (← attempt (current.add step))

/-- What a function call evaluates to, given what its body did. -/
def functionResult (name : String) : Value → Except Fault Value
  | .given .nothing => .error (.emptyGive name)
  | .given v => .ok v
  | _ => .error (.notGiving name)

/-- What a procedure call evaluates to, given what its body did. -/
def procedureResult (name : String) : Value → Except Fault Value
  | .given .nothing => .ok .nothing
  | .given _ => .error (.procedureGave name)
  | _ => .ok .nothing

/-- Evaluates a node that lacks something.  Declarations first ask for the top record, and
    constants that lack their values fail at the first value. -/
def incomplete (lacking : Lacking) (parts : List Node) : Eval Value :=
  match lacking with
  | .numberLexeme => fail .absentSearched
  | .stringLexeme => fail .absentIndexed
  | .variableNames | .constantNames => do
      let _ ← topHeight
      fail .absentIterated
  | .constantValues => do
      let _ ← topHeight
      if parts.length ≤ 1 then return .nothing else fail .absentIndexed

/-- The fault of a part that is not evaluated on its own. -/
def unhandled (node : Node) : Eval Value := fail (.unhandled "Interpreter" node.kindName)

end Eval

namespace Action

open Eval

/-! ## The parts of a task -/

/-- Runs statements in order up to one that gives. -/
def block : List Node → Action Value
  | [] => return .nothing
  | statement :: rest => do
      match ← eval statement with
      | .given v => return .given v
      | _ => block rest

/-- Evaluates arguments in order. -/
def evalAll : List Node → Action (List Value)
  | [] => return []
  | node :: rest => do
      let v ← eval node
      let values ← evalAll rest
      return v :: values

/-- Sets declared variables to their values, and to defaults where values are missing. -/
def setVariables (height : Nat) (type : Node) : (names values : List Node) → Action Unit
  | names, [] => setDefaults height type names
  | [], _ :: _ => pure ()
  | name :: names, value :: values => do
      let v ← eval value
      setAt height (← attempt name.namePart) v
      setVariables height type names values

/-- Sets constants to their values. -/
def setConstants (height : Nat) : (names values : List Node) → Action Unit
  | [], _ => pure ()
  | _ :: _, [] => Eval.fail .noValue
  | name :: names, value :: values => do
      let v ← eval value
      setAt height (← attempt name.namePart) v
      setConstants height names values

/-- Evaluates a condition, which has to be a truth value. -/
def condition (node : Node) : Action Bool := do
  match ← eval node with
  | .bool b => return b
  | v => Eval.fail (.notBoolean v.kindName)

/-- Runs the first branch whose condition holds, or else the alternative if there is one. -/
def branches : (elifs : List Node) → (alternative : Node) → Action Value
  | [], alternative => do
      if alternative.isAbsent then return .nothing
      else eval (← attempt alternative.blockPart)
  | branch :: rest, alternative => do
      if ← condition (← attempt branch.conditionPart) then
        eval (← attempt branch.blockPart)
      else branches rest alternative

/-- One round of a while loop. -/
def whileRound (test body : Node) : Action Round := do
  if ← condition test then
    match ← eval body with
    | .given v => return .gave v
    | _ => return .again
  else return .finished

/-- The step of a for loop. -/
def stepValue (first last : Value) (step : Node) : Action Value := do
  if step.isAbsent then attempt (impliedStep first last)
  else
    let v ← eval step
    requireReal .badStep v
    return v

/-- One round of a for loop, with the move to the next round. -/
def forRound (height : Nat) (name : String) (last step : Value) (body : Node) : Action Round := do
  let current ← loopVariable height name
  if ← attempt (isPast current last step) then return .finished
  else
    match ← eval body with
    | .given v => return .gave v
    | _ =>
        moveOn height name current step
        return .again

/-- Runs a body and takes a record from the stack behind it. -/
def runBody (body : Node) : Action Value := do
  let outcome ← eval body
  let _ ← pop
  return outcome

/-! ## Tasks -/

/-- What a part of a program does. -/
def evaluate (node : Node) : Action Value :=
  match node with
  | .absent => Eval.fail (.noPart "NoneType" "accept")
  | .bare _ => Eval.fail (.noPart node.kindName "accept")
  | .incomplete lacking parts => incomplete lacking parts
  | .program body => do
      push (Record.make "program" .program 1)
      let _ ← runBody body
      return .nothing
  | .block statements => block statements
  | .variableDecl type names values => do
      let height ← topHeight
      setVariables height type names values
      return .nothing
  | .constantDecl _ names values => do
      let height ← topHeight
      setConstants height names values
      return .nothing
  | .assignment target value => do
      let v ← eval value
      let _ ← top
      setTop (← attempt target.namePart) v
      return .nothing
  | .give value => do
      if value.isAbsent then return .given .nothing
      else return .given (← eval value)
  | .display value => do
      display (← eval value)
      return .nothing
  | .functionDecl name parameters giveType body => do
      let ps ← attempt (Parameter.ofNodes parameters)
      let spelled ← attempt name.namePart
      let type ← attempt giveType.namePart
      declareFunction ⟨⟨spelled, some ps, body⟩, type⟩
      return .nothing
  | .procedureDecl name parameters body => do
      let ps ← attempt (Parameter.ofNodes parameters)
      let spelled ← attempt name.namePart
      declareProcedure ⟨spelled, some ps, body⟩
      return .nothing
  | .functionCall callee arguments => do
      let found ← findFunction (← attempt callee.namePart)
      let values ← evalAll arguments
      let r ← enterCall .function (found.map Function.toRoutine) values
      let outcome ← runBody r.body
      attempt (functionResult r.name outcome)
  | .procedureCall callee arguments => do
      let found ← findProcedure (← attempt callee.namePart)
      let values ← evalAll arguments
      let r ← enterCall .procedure found values
      let outcome ← runBody r.body
      attempt (procedureResult r.name outcome)
  | .ifElse test body elifs alternative => do
      if ← condition test then eval body
      else branches elifs alternative
  | .whileLoop test body => ask (.whileLoop test body)
  | .forLoop initial termination step body => do
      let first ← eval (← attempt initial.expressionPart)
      requireReal .badInitial first
      let last ← eval termination
      requireReal .badTermination last
      let step ← stepValue first last step
      let _ ← eval initial
      let height ← topHeight
      let target ← attempt initial.identifierPart
      let name ← attempt target.namePart
      ask (.forLoop height name last step body)
  | .skip => leave .skip
  | .stop => leave .stop
  | .identifier name => valueOf name
  | .binary left operator right => do
      let v ← eval left
      let w ← eval right
      attempt (v.binaryBy operator w)
  | .unary operator operand => do
      let v ← eval operand
      attempt (v.unaryBy operator)
  | .logical left operator right => do
      if operator = "and" then
        if ← condition left then return .bool (← condition right)
        else return .bool false
      else if operator = "or" then
        if ← condition left then return .bool true
        else return .bool (← condition right)
      else Eval.fail (.unknownLogical operator)
  | .negation operator operand => do
      let b ← condition operand
      if operator = "not" then return .bool (!b) else Eval.fail (.unknownNegation operator)
  | .comparison left comparator right => do
      let v ← eval left
      let w ← eval right
      return .bool (← attempt (v.compareBy comparator w))
  | .truth expression => do
      let v ← eval expression
      return .bool v.truth
  | .number lexeme => attempt (numberValue lexeme)
  | .string lexeme => return .text (unquote lexeme)
  | .boolean lexeme => return .bool (lexeme = "true")
  | .typeName _ | .elif _ _ | .otherwise _ | .parameter _ _ => unhandled node

/-- How a task goes on: with its value, or as another task. -/
inductive Next where
  | value (v : Value)
  | task (t : Task)

/-- What a task does by itself.  A skipped round of a for loop moves on from what the variable is
    then. -/
def step : Task → Action Next
  | .eval node => do return .value (← evaluate node)
  | .whileLoop test body => do
      match ← caught (whileRound test body) with
      | .ok .finished => return .value .nothing
      | .ok (.gave v) => return .value (.given v)
      | .ok .again => return .task (.whileLoop test body)
      | .error .skip => return .task (.whileLoop test body)
      | .error .stop => return .value .nothing
      | .error e => leave e
  | .forLoop height name last step body => do
      match ← caught (forRound height name last step body) with
      | .ok .finished => return .value .nothing
      | .ok (.gave v) => return .value (.given v)
      | .ok .again => return .task (.forLoop height name last step body)
      | .error .skip =>
          moveOn height name (← loopVariable height name) step
          return .task (.forLoop height name last step body)
      | .error .stop => return .value .nothing
      | .error e => leave e

end Action

namespace Eval

/-! ## Runs -/

/-- Carries a task out, with what it asks for and what it goes on as. -/
def perform : (depth : Nat) → Task → Eval Value
  | 0, _, m => .error .exhausted m
  | depth + 1, task, m =>
      match (Action.step task m).carryOut (perform depth) with
      | .ok (.value v) after => .ok v after
      | .ok (.task next) after => perform depth next after
      | .error e after => .error e after

/-- Evaluates a part of a program. -/
def eval (depth : Nat) (node : Node) : Eval Value := perform depth (.eval node)

/-- Evaluates a condition, which has to be a truth value. -/
def condition (depth : Nat) (node : Node) : Eval Bool := fun m =>
  (Action.condition node m).carryOut (perform depth)

end Eval

/-- A task that a run comes to: the machine it finds, and the depth that is left. -/
structure Visit where
  depth : Nat
  task : Task
  machine : Machine

/-- The visits of a run, in order. -/
def visits : (depth : Nat) → Task → Machine → List Visit
  | 0, task, m => [⟨0, task, m⟩]
  | depth + 1, task, m =>
      let work := Action.step task m
      let below := (work.asked (Eval.perform depth)).flatMap fun (t, n) => visits depth t n
      let behind := match work.carryOut (Eval.perform depth) with
        | .ok (.task next) after => visits depth next after
        | _ => []
      ⟨depth + 1, task, m⟩ :: (below ++ behind)

/-- A bound on the depth of a run that no run reaches in practice. -/
def ampleDepth : Nat := Nat.pow 2 62

/-- How a run ended, and the machine behind it. -/
structure Run where
  exit : Option Exit
  machine : Machine

/-- Runs a program on a machine on which nothing has run. -/
def interpret (depth : Nat) (tree : Node) : Run :=
  match Eval.eval depth tree Machine.initial with
  | .ok _ m => ⟨none, m⟩
  | .error e m => ⟨some e, m⟩

end BraceScript
