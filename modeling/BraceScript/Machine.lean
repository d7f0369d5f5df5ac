import BraceScript.Record
import BraceScript.Symbol

/-! # The machine — what a running program holds

    A machine has a call stack, the functions and procedures declared so far, and a history of
    what could be seen: records that came and went, and lines that were shown.  A step of a
    program changes the machine also when it does not complete. -/

namespace BraceScript

/-- What can be seen of a run. -/
inductive Event where
  | pushed (r : Record)
  | popped (r : Record)
  | shown (line : String)

/-- The state of a run; the history has the latest event first. -/
structure Machine where
  stack : CallStack
  functions : Table Function
  procedures : Table Routine
  history : List Event

/-- How a step ends that does not complete. -/
inductive Exit where
  | fault (f : Fault)
  /-- On to the next round of the innermost loop. -/
  | skip
  /-- Out of the innermost loop. -/
  | stop
  /-- The bound on the depth of the run was too small. -/
  | exhausted
  deriving DecidableEq, Repr

/-- A step of a program. -/
abbrev Eval (α : Type) := EStateM Exit Machine α

namespace Machine

/-- A machine on which nothing has run. -/
def initial : Machine := ⟨[], [], [], []⟩

/-- The events of a run, the first one first. -/
def events (m : Machine) : List Event := m.history.reverse

/-- What an event shows. -/
def lineOf : Event → Option String
  | .shown line => some line
  | _ => none

/-- All that was shown, each line with a line end. -/
def output (m : Machine) : String :=
  String.join ((m.events.filterMap lineOf).map (· ++ "\n"))

/-- The record that an event took from the stack. -/
def poppedOf : Event → Option Record
  | .popped r => some r
  | _ => none

/-- The record that was taken from the stack last. -/
def lastPopped (m : Machine) : Option Record := (m.history.filterMap poppedOf).head?

end Machine

namespace Eval

/-- Stops with a fault. -/
def fail {α : Type} (f : Fault) : Eval α := throw (.fault f)

/-- An outcome that may be a fault. -/
def attempt {α : Type} : Except Fault α → Eval α
  | .ok a => pure a
  | .error f => fail f

/-- Adds an event to the history. -/
def record (e : Event) : Eval Unit := modify fun m => { m with history := e :: m.history }

/-- The record on top of the stack. -/
def top : Eval Record := fun m =>
  match m.stack with
  | r :: _ => .ok r m
  | [] => .error (.fault .noRecord) m

/-- The height of the record on top of the stack. -/
def topHeight : Eval Nat := do
  let _ ← top
  return (← get).stack.length

/-- Puts a record on the stack. -/
def push (r : Record) : Eval Unit := fun m =>
  .ok () { m with stack := r :: m.stack, history := .pushed r :: m.history }

/-- Takes the top record from the stack. -/
def pop : Eval Record := fun m =>
  match m.stack with
  | r :: rest => .ok r { m with stack := rest, history := .popped r :: m.history }
  | [] => .error (.fault .nothingToPop) m

/-- Sets a variable of the top record. -/
def setTop (name : String) (v : Value) : Eval Unit := fun m =>
  match m.stack with
  | r :: rest => .ok () { m with stack := r.set name v :: rest }
  | [] => .error (.fault .noRecord) m

/-- Sets a variable of the record at a height. -/
def setAt (height : Nat) (name : String) (v : Value) : Eval Unit :=
  modify fun m => { m with stack := m.stack.setAt height name v }

/-- The value of a variable of the record at a height. -/
def getAt (height : Nat) (name : String) : Eval (Option Value) := do
  return ((← get).stack.at? height).bind (·.get? name)

/-- Shows a value. -/
def display (v : Value) : Eval Unit := do
  let line ← attempt v.text?
  record (.shown line)

/-- Declares a function. -/
def declareFunction (f : Function) : Eval Unit :=
  modify fun m => { m with functions := m.functions.insert f.name f }

/-- Declares a procedure. -/
def declareProcedure (p : Routine) : Eval Unit :=
  modify fun m => { m with procedures := m.procedures.insert p.name p }

/-- The function that a name stands for, if it is declared. -/
def findFunction (name : String) : Eval (Option Function) := fun m =>
  .ok (m.functions.get? name) m

/-- The procedure that a name stands for, if it is declared. -/
def findProcedure (name : String) : Eval (Option Routine) := fun m =>
  .ok (m.procedures.get? name) m

/-- The record of a callee: it starts from the variables of the caller, and the parameters are set
    to the arguments. -/
def calleeRecord (kind : RecordKind) (r : Routine) (arguments : List Value) (caller : Record) :
    Record :=
  Record.setAll ⟨r.name, kind, caller.level + 1, caller.members⟩
    ((r.parameters.getD []).map Parameter.name) arguments

/-- Begins a call: puts the record of the callee on the stack. -/
def enterCall (kind : RecordKind) (callee : Option Routine) (arguments : List Value) :
    Eval Routine := do
  let caller ← top
  match callee with
  | none => fail (.noPart "NoneType" "identifier")
  | some r =>
      push (calleeRecord kind r arguments caller)
      return r

/-! ## What the steps do -/

section

variable {m : Machine} {r : Record} {rest : CallStack}

theorem top_nil (h : m.stack = []) : top m = .error (.fault .noRecord) m := by
  simp only [top, h]

theorem top_cons (h : m.stack = r :: rest) : top m = .ok r m := by
  simp only [top, h]

theorem topHeight_nil (h : m.stack = []) : topHeight m = .error (.fault .noRecord) m := by
  simp only [topHeight, bind, EStateM.bind, top_nil h]

theorem topHeight_cons (h : m.stack = r :: rest) :
    topHeight m = .ok (rest.length + 1) m := by
  simp only [topHeight, bind, EStateM.bind, top_cons h]
  show EStateM.Result.ok m.stack.length m = _
  rw [h, List.length_cons]

theorem pop_nil (h : m.stack = []) : pop m = .error (.fault .nothingToPop) m := by
  simp only [pop, h]

theorem pop_cons (h : m.stack = r :: rest) :
    pop m = .ok r { m with stack := rest, history := .popped r :: m.history } := by
  simp only [pop, h]

theorem setTop_nil (h : m.stack = []) (name : String) (v : Value) :
    setTop name v m = .error (.fault .noRecord) m := by
  simp only [setTop, h]

theorem setTop_cons (h : m.stack = r :: rest) (name : String) (v : Value) :
    setTop name v m = .ok () { m with stack := r.set name v :: rest } := by
  simp only [setTop, h]

theorem enterCall_cons (h : m.stack = r :: rest) (kind : RecordKind) (p : Routine)
    (arguments : List Value) :
    enterCall kind (some p) arguments m =
      .ok p { m with
        stack := calleeRecord kind p arguments r :: r :: rest
        history := .pushed (calleeRecord kind p arguments r) :: m.history } := by
  simp only [enterCall, bind, EStateM.bind, top_cons h]
  rw [← h]
  rfl

end

end Eval

end BraceScript
