import BraceScript.Analysis
import BraceScript.Proofs.RenamedRuns

/-! # Renamed analyses — verdicts under other names

    The analysis looks names up, and enters them, in scopes that know the names of types.  The
    scope of a routine is named for it; all other scopes are named for their level, and their names
    are never looked up.  So a renamed program is analyzed as the program is.

    * `Analysis.mirrors_node`: every part in all scopes;
    * `analyze_rename`: every program. -/

namespace BraceScript

variable {α β γ δ : Type} {f g : String → String}

/-! ## Scopes -/

namespace Symbol

/-- A symbol with its names renamed. -/
def rename (f : String → String) : Symbol → Symbol
  | .builtIn name => .builtIn (f name)
  | .variable name type => .variable (f name) (f type)
  | .constant name type => .constant (f name) (f type)
  | .function h => .function (h.rename f)
  | .procedure p => .procedure (p.rename f)

theorem name_rename (s : Symbol) : (s.rename f).name = f s.name := by
  cases s <;> rfl

end Symbol

namespace Scope

/-- The name of a scope, renamed if it is the name of a routine. -/
def nameOf (f : String → String) (kind : ScopeKind) (name : String) : String :=
  if kind.isRoutine then f name else name

/-- A scope with its names renamed. -/
def rename (f : String → String) (s : Scope) : Scope :=
  ⟨nameOf f s.kind s.name, s.kind, s.level, s.symbols.rename f (Symbol.rename f)⟩

variable (ρ : Renaming)

theorem define_rename (s : Scope) (symbol : Symbol) :
    (s.rename ρ.map).define (symbol.rename ρ.map) = (s.define symbol).rename ρ.map := by
  have hsymbols := s.symbols.insert_rename ρ.injective (Symbol.rename ρ.map) symbol.name symbol
  rw [define, define, symbol.name_rename]
  simp only [rename]
  rw [← hsymbols]

theorem foldl_define_rename (symbols : List Symbol) (s : Scope) :
    (symbols.map (Symbol.rename ρ.map)).foldl define (s.rename ρ.map) =
      (symbols.foldl define s).rename ρ.map := by
  induction symbols generalizing s with
  | nil => rfl
  | cons symbol rest ih => rw [List.map_cons, List.foldl_cons, s.define_rename, ih, List.foldl_cons]

theorem find?_rename (s : Scope) (name : String) :
    (s.rename ρ.map).find? (ρ.map name) = (s.find? name).map (Symbol.rename ρ.map) :=
  s.symbols.get?_rename ρ.injective (Symbol.rename ρ.map) name

/-- The built-in types keep their names. -/
theorem builtIns_rename : builtIns.map (Symbol.rename ρ.map) = builtIns := by
  have hkeeps := ρ.keeps
  simp only [typeNames, List.forall_mem_cons] at hkeeps
  simp only [builtIns, List.map_cons, List.map_nil, Symbol.rename, hkeeps]

theorem make_rename (name : String) (kind : ScopeKind) (level : Int) :
    make (nameOf ρ.map kind name) kind level = (make name kind level).rename ρ.map := by
  unfold make
  split
  · rw [← foldl_define_rename, builtIns_rename]
    rfl
  · rfl

end Scope

namespace Scopes

/-- Nested scopes with their names renamed. -/
def rename (f : String → String) (s : Scopes) : Scopes :=
  ⟨s.current.rename f, s.outer.map (Scope.rename f)⟩

variable (ρ : Renaming)

theorem findIn_rename (name : String) (scopes : List Scope) :
    findIn (ρ.map name) (scopes.map (Scope.rename ρ.map)) =
      (findIn name scopes).map (Symbol.rename ρ.map) := by
  induction scopes with
  | nil => rfl
  | cons scope rest ih =>
      rw [List.map_cons, findIn, findIn, scope.find?_rename, ih]
      cases scope.find? name <;> rfl

theorem declares_rename (s : Scopes) (name : String) :
    (s.rename ρ.map).declares (ρ.map name) = s.declares name := by
  rw [declares, declares, rename, Scope.find?_rename, Option.isSome_map]

theorem define_rename (s : Scopes) (symbol : Symbol) :
    (s.rename ρ.map).define (symbol.rename ρ.map) = (s.define symbol).rename ρ.map := by
  simp only [define, rename, Scope.define_rename]

theorem enter_rename (s : Scopes) (name : String) (kind : ScopeKind) (ps : List Parameter) :
    (s.rename ρ.map).enter (Scope.nameOf ρ.map kind name) kind (ps.map (Parameter.rename ρ.map)) =
      (s.enter name kind ps).rename ρ.map := by
  have hfold : ∀ scope : Scope,
      (ps.map (Parameter.rename ρ.map)).foldl
        (fun scope p => scope.define (.variable p.name p.type)) (scope.rename ρ.map) =
      (ps.foldl (fun scope p => scope.define (.variable p.name p.type)) scope).rename ρ.map := by
    intro scope
    have hsymbols := Scope.foldl_define_rename ρ (ps.map fun p => .variable p.name p.type) scope
    rw [List.map_map, List.foldl_map, List.foldl_map] at hsymbols
    rw [List.foldl_map]
    exact hsymbols
  rw [enter, enter, rename, rename, Scope.make_rename ρ, hfold]
  rfl

theorem leave_rename (s : Scopes) : (s.rename f).leave = s.leave.rename f := by
  obtain ⟨current, outer⟩ := s
  cases outer <;> rfl

theorem initial_rename : initial.rename ρ.map = initial := by
  rw [rename, initial, ← Scope.make_rename]
  rfl

end Scopes

/-! ## Errors -/

namespace SemanticError

/-- An error with its names renamed. -/
def rename (f : String → String) : SemanticError → SemanticError
  | .duplicate what name => .duplicate what (f name)
  | .undeclared usage name => .undeclared usage (f name)
  | .assignmentToConstant name => .assignmentToConstant (f name)
  | .wrongUse usage name => .wrongUse usage (f name)
  | .argumentCount name expected actual => .argumentCount (f name) expected actual
  | .emptyGive function => .emptyGive (f function)
  | .givingProcedure procedure => .givingProcedure (f procedure)
  | .giveMisplaced scope => .giveMisplaced (f scope)
  | e => e

/-- The names in an error. -/
def names : SemanticError → List String
  | .duplicate _ name | .undeclared _ name | .assignmentToConstant name | .wrongUse _ name
  | .argumentCount name _ _ | .emptyGive name | .givingProcedure name | .giveMisplaced name =>
      [name]
  | _ => []

theorem rename_congr {e : SemanticError} (h : ∀ x ∈ e.names, f x = g x) :
    e.rename f = e.rename g := by
  cases e <;> simp_all [rename, names]

theorem names_rename (e : SemanticError) : (e.rename f).names = e.names.map f := by
  cases e <;> rfl

theorem code_rename (e : SemanticError) : (e.rename f).code = e.code := by
  cases e <;> rfl

end SemanticError

namespace AnalysisFault

/-- What stops an analysis, with its names renamed. -/
def rename (f : String → String) : AnalysisFault → AnalysisFault
  | .semantic e => .semantic (e.rename f)
  | .shape fault => .shape (fault.rename f)

/-- The names in what stops an analysis. -/
def names : AnalysisFault → List String
  | .semantic e => e.names
  | .shape fault => fault.names

theorem rename_congr {e : AnalysisFault} (h : ∀ x ∈ e.names, f x = g x) :
    e.rename f = e.rename g := by
  cases e with
  | semantic e => exact congrArg semantic (SemanticError.rename_congr h)
  | shape fault => exact congrArg shape (Fault.rename_congr h)

theorem names_rename (e : AnalysisFault) : (e.rename f).names = e.names.map f := by
  cases e with
  | semantic e => exact e.names_rename
  | shape fault => exact fault.names_rename

/-- The code of the error that stops an analysis. -/
def code : AnalysisFault → Option Code
  | .semantic e => some e.code
  | .shape _ => none

theorem code_rename (e : AnalysisFault) : (e.rename f).code = e.code := by
  cases e with
  | semantic e => exact congrArg some e.code_rename
  | shape fault => rfl

end AnalysisFault

/-! ## Steps of an analysis -/

namespace Analysis

/-- How a step ends, with its names renamed; `φ` renames what it completes with. -/
def renamed (f : String → String) (φ : α → β) :
    EStateM.Result AnalysisFault Scopes α → EStateM.Result AnalysisFault Scopes β
  | .ok a s => .ok (φ a) (s.rename f)
  | .error e s => .error (e.rename f) (s.rename f)

/-- A step does in renamed scopes what another one does in the scopes; `φ` renames what they
    complete with. -/
def Mirrors (ρ : Renaming) (φ : α → β) (x : Analysis α) (y : Analysis β) : Prop :=
  ∀ s : Scopes, y (s.rename ρ.map) = renamed ρ.map φ (x s)

variable {ρ : Renaming} {φ : α → β} {ψ : γ → δ}

namespace Mirrors

theorem pure {a : α} {b : β} (h : φ a = b) :
    Mirrors ρ φ (Pure.pure a : Analysis α) (Pure.pure b : Analysis β) := by
  subst h
  exact fun _ => rfl

theorem bind {x : Analysis α} {y : Analysis β} {k : α → Analysis γ} {l : β → Analysis δ}
    (hx : Mirrors ρ φ x y) (hk : ∀ a, Mirrors ρ ψ (k a) (l (φ a))) :
    Mirrors ρ ψ (x >>= k) (y >>= l) := by
  intro s
  show EStateM.bind y l (s.rename ρ.map) = renamed ρ.map ψ (EStateM.bind x k s)
  unfold EStateM.bind
  rw [hx s]
  cases x s with
  | ok a after => exact hk a after
  | error e after => rfl

/-- In sequence, where the first step completes with something that has no names. -/
theorem seq {x y : Analysis α} {k : α → Analysis γ} {l : α → Analysis δ} (hx : Mirrors ρ id x y)
    (hk : ∀ a, Mirrors ρ ψ (k a) (l a)) : Mirrors ρ ψ (x >>= k) (y >>= l) := hx.bind hk

theorem ite {c c' : Prop} [Decidable c] [Decidable c'] (hc : c' ↔ c) {x x' : Analysis α}
    {y y' : Analysis β} (hx : Mirrors ρ φ x y) (hy : Mirrors ρ φ x' y') :
    Mirrors ρ φ (if c then x else x') (if c' then y else y') := by
  by_cases h : c
  · rw [if_pos h, if_pos (hc.mpr h)]
    exact hx
  · rw [if_neg h, if_neg (mt hc.mp h)]
    exact hy

theorem fail {e e' : SemanticError} (h : e.rename ρ.map = e') :
    Mirrors ρ φ (Analysis.fail e : Analysis α) (Analysis.fail e' : Analysis β) := by
  subst h
  exact fun _ => rfl

theorem stuck {fault fault' : Fault} (h : fault.rename ρ.map = fault') :
    Mirrors ρ φ (throw (.shape fault) : Analysis α) (throw (.shape fault') : Analysis β) := by
  subst h
  exact fun _ => rfl

theorem part {x : Except Fault α} {y : Except Fault β} (h : y = Fault.within ρ.map φ x) :
    Mirrors ρ φ (Analysis.part x) (Analysis.part y) := by
  subst h
  cases x with
  | ok a => exact .pure rfl
  | error fault => exact stuck rfl

theorem name (node : Node) :
    Mirrors ρ ρ.map (Analysis.part node.namePart) (Analysis.part (node.rename ρ.map).namePart) :=
  part node.namePart_rename

theorem get : Mirrors ρ (Scopes.rename ρ.map) (MonadState.get : Analysis Scopes)
    (MonadState.get : Analysis Scopes) := fun _ => rfl

theorem lookup (name : String) :
    Mirrors ρ (Option.map (Symbol.rename ρ.map)) (Analysis.lookup name)
      (Analysis.lookup (ρ.map name)) := fun s =>
  congrArg (EStateM.Result.ok · _) (Scopes.findIn_rename ρ name s.toList)

theorem requireNew (what : Declared) (name : String) :
    Mirrors ρ id (Analysis.requireNew what name) (Analysis.requireNew what (ρ.map name)) := by
  intro s
  unfold Analysis.requireNew
  rw [s.declares_rename]
  split <;> rfl

theorem define {symbol symbol' : Symbol} (h : symbol.rename ρ.map = symbol') :
    Mirrors ρ id (Analysis.define symbol) (Analysis.define symbol') := by
  subst h
  exact fun s => congrArg (EStateM.Result.ok ()) (s.define_rename ρ symbol)

theorem enter (name : String) {kind : ScopeKind} (hkind : kind.isRoutine = true)
    (ps : List Parameter) :
    Mirrors ρ id (Analysis.enter name kind ps)
      (Analysis.enter (ρ.map name) kind (ps.map (Parameter.rename ρ.map))) := by
  intro s
  have henter := s.enter_rename ρ name kind ps
  rw [Scope.nameOf, if_pos hkind] at henter
  exact congrArg (EStateM.Result.ok ()) henter

theorem enterBlock (stem : String) {kind : ScopeKind} (hkind : kind.isRoutine = false) :
    Mirrors ρ id (Analysis.enterBlock stem kind) (Analysis.enterBlock stem kind) := by
  intro s
  have henter := s.enter_rename ρ (stem ++ toString s.current.level) kind []
  rw [Scope.nameOf, hkind] at henter
  exact congrArg (EStateM.Result.ok ()) henter

theorem leave : Mirrors ρ id Analysis.leave Analysis.leave := fun s =>
  congrArg (EStateM.Result.ok ()) s.leave_rename

/-! ## Declarations -/

theorem declareName (what : Declared) (type node : Node) :
    Mirrors ρ id (Analysis.declareName what type node)
      (Analysis.declareName what (type.rename ρ.map) (node.rename ρ.map)) := by
  refine (name node).bind fun spelled => (requireNew what spelled).seq fun _ => ?_
  refine (name type).bind fun typeSpelled => define ?_
  cases what <;> rfl

theorem declareNames (what : Declared) (type : Node) (nodes : List Node) :
    Mirrors ρ id (Analysis.declareNames what type nodes)
      (Analysis.declareNames what (type.rename ρ.map) (nodes.map (Node.rename ρ.map))) := by
  induction nodes with
  | nil => exact .pure rfl
  | cons node rest ih =>
      rw [List.map_cons, Analysis.declareNames, Analysis.declareNames]
      exact (declareName what type node).seq fun _ => ih

theorem incomplete (lacking : Lacking) (parts : List Node) :
    Mirrors ρ id (Analysis.incomplete lacking parts)
      (Analysis.incomplete lacking (parts.map (Node.rename ρ.map))) := by
  cases lacking with
  | numberLexeme | stringLexeme => exact .pure rfl
  | variableNames | constantNames => exact stuck rfl
  | constantValues =>
      rcases parts with _ | ⟨type, _ | ⟨node, rest⟩⟩
      · exact .pure rfl
      · exact .pure rfl
      · exact (declareName .constant type node).seq fun _ => stuck rfl

theorem someUnlessEmpty_rename (ps : List Parameter) :
    someUnlessEmpty (ps.map (Parameter.rename f)) =
      (someUnlessEmpty ps).map (List.map (Parameter.rename f)) := by
  cases ps <;> rfl

theorem functionSymbol_rename (giveType body : Node) (spelled : String) (ps : List Parameter) :
    functionSymbol (giveType.rename f) (body.rename f) (f spelled)
        (ps.map (Parameter.rename f)) =
      Fault.within f (Symbol.rename f) (functionSymbol giveType body spelled ps) := by
  simp only [functionSymbol, giveType.namePart_rename, someUnlessEmpty_rename]
  cases giveType.namePart <;> rfl

theorem procedureSymbol_rename (body : Node) (spelled : String) (ps : List Parameter) :
    procedureSymbol (body.rename f) (f spelled) (ps.map (Parameter.rename f)) =
      Fault.within f (Symbol.rename f) (procedureSymbol body spelled ps) := by
  simp only [procedureSymbol, someUnlessEmpty_rename]
  rfl

theorem openRoutine (what : Declared) {kind : ScopeKind} (hkind : kind.isRoutine = true)
    (node : Node) (parameters : List Node)
    {symbol symbol' : String → List Parameter → Except Fault Symbol}
    (hsymbol : ∀ spelled ps, symbol' (ρ.map spelled) (ps.map (Parameter.rename ρ.map)) =
      Fault.within ρ.map (Symbol.rename ρ.map) (symbol spelled ps)) :
    Mirrors ρ id (Analysis.openRoutine what kind node parameters symbol)
      (Analysis.openRoutine what kind (node.rename ρ.map) (parameters.map (Node.rename ρ.map))
        symbol') := by
  refine (name node).bind fun spelled => (requireNew what spelled).seq fun _ => ?_
  refine (part (Parameter.ofNodes_rename parameters)).bind fun ps => ?_
  refine (part (hsymbol spelled ps)).bind fun symbol => (define rfl).seq fun _ => ?_
  exact enter spelled hkind ps

/-! ## Tests -/

theorem checkCount (r : Routine) (spelled : String) (arguments : List Node) :
    Mirrors ρ id (Analysis.checkCount r spelled arguments)
      (Analysis.checkCount (r.rename ρ.map) (ρ.map spelled)
        (arguments.map (Node.rename ρ.map))) := by
  unfold Analysis.checkCount
  rw [r.parameters_rename, List.length_map, List.length_map]
  exact ite Iff.rfl (.pure rfl) (fail rfl)

theorem checkFunction (callee : Node) (arguments : List Node) :
    Mirrors ρ id (Analysis.checkFunction callee arguments)
      (Analysis.checkFunction (callee.rename ρ.map) (arguments.map (Node.rename ρ.map))) := by
  refine (name callee).bind fun spelled => (lookup spelled).bind fun found => ?_
  rcases found with _ | symbol
  · exact fail rfl
  · cases symbol with
    | function h => exact checkCount h.toRoutine spelled arguments
    | _ => exact fail rfl

theorem checkProcedure (callee : Node) (arguments : List Node) :
    Mirrors ρ id (Analysis.checkProcedure callee arguments)
      (Analysis.checkProcedure (callee.rename ρ.map) (arguments.map (Node.rename ρ.map))) := by
  refine (name callee).bind fun spelled => (lookup spelled).bind fun found => ?_
  rcases found with _ | symbol
  · exact fail rfl
  · cases symbol with
    | procedure p => exact checkCount p spelled arguments
    | _ => exact fail rfl

theorem checkTarget (target : Node) :
    Mirrors ρ id (Analysis.checkTarget target) (Analysis.checkTarget (target.rename ρ.map)) := by
  refine (name target).bind fun spelled => (lookup spelled).bind fun found => ?_
  rcases found with _ | symbol
  · exact fail rfl
  · cases symbol with
    | «variable» key type => exact .pure rfl
    | _ => exact fail rfl

theorem checkName {fits : Symbol → Bool}
    (hfits : ∀ symbol, fits (symbol.rename ρ.map) = fits symbol) (spelled : String) :
    Mirrors ρ id (Analysis.checkName fits spelled) (Analysis.checkName fits (ρ.map spelled)) := by
  refine (lookup spelled).bind fun found => ?_
  rcases found with _ | symbol
  · exact fail rfl
  · exact ite (by rw [hfits]) (.pure rfl) (fail rfl)

theorem insideWhile : Mirrors ρ id Analysis.insideWhile Analysis.insideWhile := by
  intro s
  refine congrArg (EStateM.Result.ok · _) ?_
  show ((s.toList.map (Scope.rename ρ.map)).any _) = _
  rw [List.any_map]
  rfl

theorem routineScope_rename (scopes : List Scope) :
    routineScope (scopes.map (Scope.rename f)) =
      (routineScope scopes).map (Prod.map (Scope.rename f) (List.map (Scope.rename f))) := by
  induction scopes with
  | nil => rfl
  | cons scope rest ih =>
      rw [List.map_cons, routineScope, routineScope, ih]
      by_cases hkind : scope.kind.isRoutine = true
      · rw [if_pos hkind, if_pos (show (scope.rename f).kind.isRoutine = true from hkind)]
        rfl
      · rw [if_neg hkind, if_neg (show ¬ (scope.rename f).kind.isRoutine = true from hkind)]

theorem isRoutine_of_routineScope {scopes outer : List Scope} {scope : Scope}
    (h : routineScope scopes = some (scope, outer)) : scope.kind.isRoutine = true := by
  induction scopes with
  | nil => cases h
  | cons first rest ih =>
      rw [routineScope] at h
      split at h
      · cases h
        assumption
      · exact ih h

theorem checkGive (value : Node) :
    Mirrors ρ id (Analysis.checkGive value) (Analysis.checkGive (value.rename ρ.map)) := by
  refine get.bind fun s => ?_
  have htoList : (s.rename ρ.map).toList = s.toList.map (Scope.rename ρ.map) := rfl
  rw [htoList, routineScope_rename]
  rcases hroutine : routineScope s.toList with _ | ⟨scope, _ | ⟨around, outer⟩⟩
  · exact fail rfl
  · exact fail rfl
  · -- the scope of a routine is named for the routine, so its name is looked up renamed
    have hname : (scope.rename ρ.map).name = ρ.map scope.name :=
      if_pos (isRoutine_of_routineScope hroutine)
    have hfound := Scopes.findIn_rename ρ scope.name (around :: outer)
    simp only [Option.map_some, Prod.map_apply, List.map_cons, hname] at hfound ⊢
    rw [hfound]
    rcases Scopes.findIn scope.name (around :: outer) with _ | symbol
    · exact fail rfl
    · cases symbol with
      | function h => exact ite (by simp) (fail rfl) (.pure rfl)
      | procedure p => exact ite (by simp) (.pure rfl) (fail rfl)
      | _ => exact fail rfl

end Mirrors

/-! ## Parts -/

variable {fits : Symbol → Bool}

/-- A renamed part is analyzed in renamed scopes as the part is in the scopes. -/
def MirrorsPart (ρ : Renaming) (fits : Symbol → Bool) (it : Node) : Prop :=
  Mirrors ρ id (node fits it) (node fits (it.rename ρ.map))

theorem mirrors_nodes {parts : List Node} (h : ∀ it ∈ parts, MirrorsPart ρ fits it) :
    Mirrors ρ id (nodes fits parts) (nodes fits (parts.map (Node.rename ρ.map))) := by
  induction parts with
  | nil => exact .pure rfl
  | cons first rest ih =>
      rw [List.map_cons, nodes, nodes]
      rw [List.forall_mem_cons] at h
      exact Mirrors.seq h.1 fun _ => ih h.2

theorem mirrors_initialized (what : Declared) (type : Node) (names : List Node)
    {values : List Node} (h : ∀ it ∈ values, MirrorsPart ρ fits it) :
    Mirrors ρ id (initialized fits what type names values)
      (initialized fits what (type.rename ρ.map) (names.map (Node.rename ρ.map))
        (values.map (Node.rename ρ.map))) := by
  induction values generalizing names with
  | nil =>
      cases names with
      | nil => cases what <;> exact Mirrors.pure rfl
      | cons name names =>
          cases what with
          | constant => exact (Mirrors.declareName .constant type name).seq fun _ => .stuck rfl
          | _ => exact .declareNames _ type (name :: names)
  | cons value values ih =>
      cases names with
      | nil => exact .pure rfl
      | cons name names =>
          rw [List.map_cons, List.map_cons, initialized, initialized]
          rw [List.forall_mem_cons] at h
          exact (Mirrors.declareName what type name).seq fun _ =>
            Mirrors.seq h.1 fun _ => ih names h.2

/-- Parts in a scope of their own. -/
theorem mirrors_scope (stem : String) {kind : ScopeKind} (hkind : kind.isRoutine = false)
    {x y : Analysis Unit} (h : Mirrors ρ id x y) :
    Mirrors ρ id (do enterBlock stem kind; x; leave) (do enterBlock stem kind; y; leave) :=
  (Mirrors.enterBlock stem hkind).seq fun _ => h.seq fun _ => .leave

/-- Whatever a part is, its analysis does not depend on names. -/
theorem mirrors_node (hfits : ∀ symbol, fits (symbol.rename ρ.map) = fits symbol) (it : Node) :
    MirrorsPart ρ fits it := by
  induction it using Node.children_induction with
  | h it ih =>
      unfold MirrorsPart
      cases it <;> simp only [Node.rename, Node.renameAll_eq, node] <;>
        simp only [Node.children, List.forall_mem_cons, List.forall_mem_append] at ih
      case absent | bare | typeName | parameter => exact .stuck rfl
      case incomplete lacking parts => exact .incomplete lacking parts
      case block statements => exact mirrors_nodes ih
      case identifier name => exact .checkName hfits name
      case number | string | boolean => exact .pure rfl
      case program body => exact ih.1
      case display value => exact ih.1
      case truth expression => exact ih.1
      case unary operator operand => exact ih.1
      case negation operator operand => exact ih.1
      case binary | logical | comparison => exact Mirrors.seq ih.1 fun _ => ih.2.1
      case variableDecl type names values => exact mirrors_initialized .variable type names ih.2.2
      case constantDecl type names values => exact mirrors_initialized .constant type names ih.2.2
      case assignment target value => exact (Mirrors.checkTarget target).seq fun _ => ih.2.1
      case functionCall callee arguments =>
          exact (Mirrors.checkFunction callee arguments).seq fun _ => mirrors_nodes ih.2
      case procedureCall callee arguments =>
          exact (Mirrors.checkProcedure callee arguments).seq fun _ => mirrors_nodes ih.2
      case give value =>
          exact (Mirrors.checkGive value).seq fun _ => .ite Iff.rfl ih.1 (.pure rfl)
      case skip | stop =>
          exact Mirrors.insideWhile.seq fun _ => .ite Iff.rfl (.pure rfl) (.fail rfl)
      case functionDecl name parameters giveType body =>
          refine Mirrors.seq (.openRoutine .function rfl name parameters ?_) fun _ => ?_
          · exact Mirrors.functionSymbol_rename giveType body
          · exact Mirrors.seq ih.2.2.2.1 fun _ => .leave
      case procedureDecl name parameters body =>
          refine Mirrors.seq (.openRoutine .procedure rfl name parameters ?_) fun _ => ?_
          · exact Mirrors.procedureSymbol_rename body
          · exact Mirrors.seq ih.2.2.1 fun _ => .leave
      case otherwise body => exact mirrors_scope _ rfl ih.1
      case elif condition body => exact Mirrors.seq ih.1 fun _ => mirrors_scope _ rfl ih.2.1
      case whileLoop condition body => exact Mirrors.seq ih.1 fun _ => mirrors_scope _ rfl ih.2.1
      case ifElse condition body elifs alternative =>
          obtain ⟨hcondition, hbody, helifs, halternative, -⟩ := ih
          refine Mirrors.seq hcondition fun _ => (Mirrors.enterBlock _ rfl).seq fun _ => ?_
          refine Mirrors.seq hbody fun _ => Mirrors.leave.seq fun _ => ?_
          exact (mirrors_nodes helifs).seq fun _ => .ite (by simp) (.pure rfl) halternative
      case forLoop initial termination step body =>
          obtain ⟨hinitial, htermination, hstep, hbody, -⟩ := ih
          have hscope : Mirrors ρ id
              (do enterBlock "for_statement_" .forBlock; node fits initial; node fits body; leave)
              (do
                enterBlock "for_statement_" .forBlock
                node fits (initial.rename ρ.map)
                node fits (body.rename ρ.map)
                leave) := by
            refine (Mirrors.enterBlock _ rfl).seq fun _ => Mirrors.seq hinitial fun _ => ?_
            exact Mirrors.seq hbody fun _ => .leave
          refine Mirrors.seq htermination fun _ => .ite (by simp) hscope ?_
          exact Mirrors.seq hstep fun _ => hscope

end Analysis

/-- A renamed program is analyzed as the program is. -/
theorem analyze_rename (ρ : Renaming) (tree : Node) :
    (analyze (tree.rename ρ.map)).1 = (analyze tree).1.map (AnalysisFault.rename ρ.map) := by
  have hpart : Analysis.MirrorsPart ρ (fun _ => true) tree :=
    Analysis.mirrors_node (fun _ => rfl) tree
  have hnode := hpart Scopes.initial
  rw [Scopes.initial_rename] at hnode
  rw [analyze, analyze, analyzeIn, analyzeIn, analyzeWith, analyzeWith, hnode]
  cases Analysis.node (fun _ => true) tree Scopes.initial <;> rfl

end BraceScript
