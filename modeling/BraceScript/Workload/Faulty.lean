import BraceScript.Program

/-! # Faulty programs — one for each way to fail

    A program may be impossible to cut into tokens, impossible to parse, without meaning, or fail
    when it runs.  With a list of programs for each, the four ways take turns. -/

namespace BraceScript.Faulty

/-- The stages at which a program can fail. -/
inductive Stage where
  | lexical | syntactic | semantic | running
  deriving DecidableEq, Repr

namespace Stage

/-- The short name of a stage. -/
def tag : Stage → String
  | .lexical => "lex"
  | .syntactic => "syn"
  | .semantic => "sem"
  | .running => "run"

/-- The stages take turns. -/
def ofIndex (i : Nat) : Stage :=
  match i % 4 with
  | 0 => .lexical
  | 1 => .syntactic
  | 2 => .semantic
  | _ => .running

end Stage

/-- The program whose turn it is; each list starts anew when it has come to its end. -/
def program (programs : Stage → List String) (i : Nat) : String :=
  let turn := programs (Stage.ofIndex i)
  turn.getD (i % turn.length) ""

/-- The report with which a program fails, if it fails with one. -/
def report? (source : String) : Option Report :=
  match Program.run true source with
  | .unparsed (.lexical e) => some e.report
  | .unparsed (.syntactic e) => some e.report
  | .meaningless (.semantic e) => some e.report
  | .ran ⟨some (.fault f), _⟩ =>
      match f.report? with
      | some (.ok r) => some r
      | _ => none
  | _ => none

end BraceScript.Faulty
