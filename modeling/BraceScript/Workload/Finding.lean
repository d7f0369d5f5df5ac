import BraceScript.Node.Form
import BraceScript.Token.Literal
import BraceScript.Workload.Faulty
import BraceScript.Workload.Gallery
import BraceScript.Workload.Sample

/-! # Workloads — what the parts of the language make of samples of any size

    A workload takes one size, puts one part of the language to work on samples of that size, and
    finds numbers and texts.  Nothing is measured here: a finding depends on the size alone, and for
    four workloads on materials that are handed to them. -/

namespace BraceScript

/-- What a workload finds. -/
inductive Finding where
  | absent
  | value (v : Value)
  | text (s : String)
  | list (items : List Finding)

/-- What is handed to workloads: a text of any size that is cut into tokens, statements that are
    written beside the survey, programs that fail at each stage, and expressions that are written in
    both operator forms. -/
structure Materials where
  listing : (size : Int) → String
  statements : List Node
  faulty : Faulty.Stage → List String
  expression : (index : Nat) → Node

/-- The workloads. -/
inductive Workload where
  | lexing | parsing | analysis | running | recursion | treeText | bareVisitor | faults
  | tokenValues | symbols | records | forms | commandLine
  deriving DecidableEq, Repr

namespace Workload

/-- A text that may be missing, as a finding. -/
def textOf : Except Fault String → Finding
  | .ok s => .text s
  | .error _ => .absent

/-- One group of findings for each number below a size. -/
def gather (size : Int) (group : Nat → List Finding) : List Finding :=
  ((List.range size.toNat).map group).flatten

/-! ## Whole programs -/

/-- The number of tokens of the listing. -/
def lexingFinding (m : Materials) (size : Int) : Finding :=
  .value (.int (Cursor.ofString (m.listing size)).tokens.1.length)

/-- The number of statements of the survey. -/
def parsingFinding (size : Int) : Finding :=
  match parse (Sample.survey size) with
  | .ok (.program (.block statements)) => .value (.int statements.length)
  | _ => .absent

/-- The global scope after the analysis of the survey. -/
def analysisFinding (size : Int) : Finding :=
  match parse (Sample.survey size) with
  | .ok tree => .text ("SemanticAnalyzer()" ++ (analyze tree).2.current.text)
  | .error _ => .absent

/-- What the loops show without analysis, and the call stack that they leave; the analysis would
    refuse the interrupted loop. -/
def runningFinding (size : Int) : Finding :=
  match Program.run false (Sample.loops true size) with
  | .ran r => .text (r.machine.output ++ CallStack.detail ++ CallStack.text r.machine.stack)
  | _ => .absent

/-- What the recursion shows. -/
def recursionFinding (size : Int) : Finding := .text (Program.output (Sample.recursion size))

/-- The length of the texts of the survey's tree and of the statements beside it. -/
def treeTextFinding (m : Materials) (size : Int) : Finding :=
  match parse (Sample.survey size) with
  | .ok tree =>
      .value (.int ((tree :: m.statements).foldl (fun n node => n + node.text.length) 0))
  | .error _ => .absent

/-! ## Parts -/

/-- What a visitor says that knows programs only. -/
def bareVisitorFinding (size : Int) : Finding :=
  .list (.text "program" :: gather size fun i =>
    [.text (Fault.unhandled "BareVisitor" (Gallery.turn i).kindName).message])

/-- The reports of faulty programs. -/
def faultsFinding (m : Materials) (size : Int) : Finding :=
  .list (gather size fun i =>
    match Faulty.report? (Faulty.program m.faulty i) with
    | some r =>
        [.list [.text (Faulty.Stage.ofIndex i).tag, .text r.code.name, .text r.text,
          .text r.detail]]
    | none => [])

/-- A value, or the code of the error with which it is refused. -/
def valueOrCode {α : Type} (found : α → Finding) : Except TokenError α → Finding
  | .ok a => found a
  | .error e => .text e.code.name

/-- A number as a finding. -/
def numeralFinding : Number.Numeral → Finding
  | .integer n => .value (.int n)
  | .float x => .value (.float x)

/-- The tokens whose values are asked for, in turn. -/
def literals : List (Kind × String) := [
  (.numberLiteral, "42"), (.numberLiteral, "3.14"), (.numberLiteral, "abc"),
  (.stringLiteral, "\"hi\""), (.stringLiteral, "'"), (.booleanLiteral, "true"),
  (.booleanLiteral, "false"), (.booleanLiteral, "maybe"), (.identifier, "foo")]

/-- A token with its values of all kinds. -/
def literalFindings (i : Nat) : List Finding :=
  let (kind, lexeme) := literals.getD (i % literals.length) (.identifier, "foo")
  let t : Token := ⟨kind, 1, 1, some lexeme⟩
  [.text t.text, .text { t with lexeme := none }.text,
   valueOrCode numeralFinding t.numericValue, valueOrCode .text t.stringValue,
   valueOrCode (fun b => .value (.bool b)) t.booleanValue, valueOrCode .text t.identifierName]

/-- A refused token with the reason at length. -/
def refusedFinding (t : Token) : Finding :=
  match t.check with
  | .ok _ => .absent
  | .error e => .text (e.report.text ++ e.report.detail)

/-- Tokens that are refused, and the values of others. -/
def tokenValuesFinding (size : Int) : Finding :=
  .list ([.text "no-inst", refusedFinding ⟨.plus, 0, 1, none⟩,
    refusedFinding ⟨.plus, 1, 0, none⟩,
    valueOrCode (fun t : Token => .text t.text) (Token.check ⟨.identifier, 1, 1, some ""⟩)]
    ++ gather size literalFindings)

/-- Symbols of four kinds take turns. -/
def symbolAt (i : Nat) : Symbol :=
  let name := "sym" ++ Number.digitText i
  let parameters : List Parameter := [⟨"p0", "number"⟩, ⟨"p1", "string"⟩]
  match i % 4 with
  | 0 => .variable name "number"
  | 1 => .constant name "string"
  | 2 => .function ⟨⟨name, some parameters, .block []⟩, "number"⟩
  | _ => .procedure ⟨name, some parameters, .block []⟩

/-- What a name stands for, as text. -/
def lookupFinding : Option Symbol → Finding
  | some symbol => .text symbol.text
  | none => .absent

/-- Symbols, the scope that holds them, and what is seen of it from inner scopes. -/
def symbolsFinding (size : Int) : Finding :=
  let defined := (List.range size.toNat).foldl (fun s i => Scopes.define s (symbolAt i))
    Scopes.initial
  let inner : Scopes := ⟨Scope.make "inner" .function 2, defined.toList⟩
  let leaf : Scopes := ⟨Scope.make "leaf" .ifBlock 3, inner.toList⟩
  let builtIn := match leaf.lookup "number" with
    | some symbol => [.text symbol.text, .text symbol.detail]
    | none => []
  .list ((gather size fun i =>
      [.text (symbolAt i).text, .text (symbolAt i).detail,
       lookupFinding (defined.lookup (symbolAt i).name)])
    ++ [.text defined.detail, .text defined.current.text, .text inner.detail,
        .text leaf.current.text, lookupFinding (leaf.current.find? "sym0"),
        lookupFinding (leaf.lookup "missing")]
    ++ builtIn)

/-- Records of three kinds take turns, each with sixty-one members. -/
def recordAt (i : Nat) : Record :=
  let kind : RecordKind := match i % 3 with
    | 0 => .program
    | 1 => .function
    | _ => .procedure
  let filled := (List.range 60).foldl
    (fun (r : Record) k => r.set ("k" ++ Number.digitText k) (.int k))
    (Record.make ("fn" ++ Number.digitText i) kind (i + 1))
  filled.set "extra" (.int (i + 1))

/-- Records, and the stack that they make up. -/
def recordsFinding (size : Int) : Finding :=
  let stack : CallStack := (List.range size.toNat).reverse.map recordAt
  .list ((gather size fun i => [.text (recordAt i).detail, textOf (recordAt i).text])
    ++ [.text CallStack.detail, .text (CallStack.text stack), .text (CallStack.text stack)])

/-- Expressions in both operator forms. -/
def formsFinding (m : Materials) (size : Int) : Finding :=
  .list (gather size fun i =>
    [textOf (Form.behind.write true (m.expression i)),
     textOf (Form.front.write true (m.expression i))])

/-! ## The command line -/

/-- The files on which the command line is tried: one that is not there, one that cannot be cut
    into tokens, one that fails when it runs, and the loops. -/
def files (size : Int) : Table String := [
  ("lexical", "\x7b let number a = @ \x7d"),
  ("operands", "\x7b let number a = \"x\" - 1 \x7d"),
  ("loops", Sample.loops false size)]

/-- The bytes of a file, if it is there. -/
def bytesOf (size : Int) (name : String) : Option (List Nat) :=
  (Table.get? (files size) name).map fun s => s.toUTF8.toList.map UInt8.toNat

/-- What the command line shows without an argument and for each file. -/
def commandLineFinding (size : Int) : Finding :=
  let shown := [[], ["missing"], ["lexical"], ["operands"], ["loops"]].map fun arguments =>
    match CommandLine.output arguments (bytesOf size) with
    | .ok s => s
    | .error _ => ""
  .text (String.join shown)

/-! ## All of them -/

/-- What a workload of a size finds in the materials that it is handed. -/
def finding (m : Materials) : Workload → (size : Int) → Finding
  | .lexing => lexingFinding m
  | .parsing => parsingFinding
  | .analysis => analysisFinding
  | .running => runningFinding
  | .recursion => recursionFinding
  | .treeText => treeTextFinding m
  | .bareVisitor => bareVisitorFinding
  | .faults => faultsFinding m
  | .tokenValues => tokenValuesFinding
  | .symbols => symbolsFinding
  | .records => recordsFinding
  | .forms => formsFinding m
  | .commandLine => commandLineFinding

/-- A small, a middle and a large size of a workload. -/
structure Sizes where
  small : Int
  middle : Int
  large : Int

/-- The sizes of each workload. -/
def sizes : Workload → Sizes
  | .lexing => ⟨80, 400, 1600⟩
  | .parsing => ⟨30, 150, 600⟩
  | .analysis => ⟨30, 150, 600⟩
  | .running => ⟨40, 200, 800⟩
  | .recursion => ⟨11, 15, 19⟩
  | .treeText => ⟨30, 120, 500⟩
  | .bareVisitor => ⟨300, 1200, 4000⟩
  | .faults => ⟨20, 60, 200⟩
  | .tokenValues => ⟨80, 400, 1600⟩
  | .symbols => ⟨60, 300, 1200⟩
  | .records => ⟨50, 200, 800⟩
  | .forms => ⟨150, 600, 2400⟩
  | .commandLine => ⟨300, 1200, 4000⟩

/-- The size of a workload that is given none. -/
def usualSize : Workload → Int
  | .bareVisitor => (sizes .bareVisitor).small
  | w => w.sizes.middle

end Workload

end BraceScript
