import BraceScript.Table
import BraceScript.Value.Basic

/-! # Activation records and the call stack

    A record holds the variables of a program, function or procedure while it runs, in the order
    in which they were first set.  Records are stacked, the newest on top.  A record is known by
    its height, the number of records from the bottom of the stack up to it, which stays the same
    while records come and go above it. -/

namespace BraceScript

/-- What a record was made for. -/
inductive RecordKind where
  | program | function | procedure
  deriving DecidableEq, Repr

namespace RecordKind

/-- Every kind of record. -/
def all : List RecordKind := [.program, .function, .procedure]

/-- How a kind of record is written. -/
def text : RecordKind → String
  | .program => "PROGRAM"
  | .function => "FUNCTION"
  | .procedure => "PROCEDURE"

/-- The kind of record that is written so. -/
def ofText? (s : String) : Option RecordKind := all.find? fun k => k.text = s

end RecordKind

/-- An activation record. -/
structure Record where
  name : String
  kind : RecordKind
  level : Int
  members : Table Value

namespace Record

/-- A record without variables. -/
def make (name : String) (kind : RecordKind) (level : Int) : Record := ⟨name, kind, level, []⟩

/-- Sets a variable. -/
def set (r : Record) (name : String) (v : Value) : Record :=
  { r with members := r.members.insert name v }

/-- The value of a variable. -/
def get? (r : Record) (name : String) : Option Value := r.members.get? name

/-- Sets variables to values, one to one as long as there are both. -/
def setAll (r : Record) : List String → List Value → Record
  | name :: names, v :: values => (r.set name v).setAll names values
  | _, _ => r

/-- A record with its fields. -/
def detail (r : Record) : String :=
  "ActivationRecord(name='" ++ r.name ++ "', type=" ++ r.kind.text ++ ", nesting_level="
    ++ toString r.level ++ ")"

/-- The lines of variables. -/
def memberLines : Table Value → Except Fault String
  | [] => .ok ""
  | (name, v) :: rest => do
      let shown ← v.text?
      return "\n\t" ++ name ++ ": " ++ shown ++ (← memberLines rest)

/-- A record as it is shown, its variables on lines of their own. -/
def text (r : Record) : Except Fault String := do
  let lines ← memberLines r.members
  return toString r.level ++ ": " ++ r.kind.text ++ " " ++ r.name ++ ":" ++ lines

end Record

/-- A stack of records, the top one first. -/
abbrev CallStack := List Record

namespace CallStack

/-- The record at a height. -/
def at? (height : Nat) : CallStack → Option Record
  | [] => none
  | r :: rest => if rest.length + 1 = height then some r else at? height rest

/-- Sets a variable of the record at a height. -/
def setAt (height : Nat) (name : String) (v : Value) : CallStack → CallStack
  | [] => []
  | r :: rest =>
      if rest.length + 1 = height then r.set name v :: rest else r :: setAt height name v rest

/-- Sets a variable of the top record. -/
def setTop (name : String) (v : Value) : CallStack → Option CallStack
  | [] => none
  | r :: rest => some (r.set name v :: rest)

/-- A stack as it is shown, the bottom record first. -/
def text (s : CallStack) : String :=
  "Call Stack:\n" ++ "\n".intercalate (s.reverse.map Record.detail)

/-- A stack by name. -/
def detail : String := "CallStack()"

end CallStack

end BraceScript
