import BraceScript.Analysis
import BraceScript.Evaluation
import BraceScript.Parser.Statement
import BraceScript.Text.Utf8

/-! # Programs — from text to what it shows

    A program is parsed, analyzed and run; each stage can end the work.  The command line takes
    the name of a file, runs the program in it, and shows what the program shows; every failure of
    the program ends it silently. -/

namespace BraceScript

/-- How far a program comes. -/
inductive Outcome where
  | unparsed (f : ParseFault)
  | meaningless (f : AnalysisFault)
  | ran (run : Run)

namespace Program

/-- Parses, analyzes on demand, and runs a program. -/
def run (analyzed : Bool) (source : String) : Outcome :=
  match parse source with
  | .error f => .unparsed f
  | .ok tree =>
      match if analyzed then (analyze tree).1 else none with
      | some f => .meaningless f
      | none => .ran (interpret ampleDepth tree)

/-- What a program shows. -/
def output (source : String) : String :=
  match run true source with
  | .ran r => r.machine.output
  | _ => ""

end Program

namespace CommandLine

/-- What is shown when no file is named. -/
def usage : String := "Usage: python main.py <program_file>\n"

/-- What a file of program text shows, if it exists; a file that is no text is refused. -/
def showFile : (bytes : Option (List Nat)) → Except Text.DecodeError String
  | none => .ok ""
  | some bytes => (Text.ofBytes bytes).map Program.output

/-- What the command line shows: the first argument names the file, others are ignored. -/
def output (arguments : List String) (file : String → Option (List Nat)) :
    Except Text.DecodeError String :=
  match arguments with
  | [] => .ok usage
  | name :: _ => showFile (file name)

end CommandLine

end BraceScript
