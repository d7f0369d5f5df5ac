import BraceScript.Proofs.Acceptance
import BraceScript.Proofs.Parts

/-! # Phases — the analysis as a list of things to do

    The analysis of a part is a fixed sequence of tests, declarations and analyses of parts, some of
    them in a scope of their own.  `Node.phases` writes it down as a list, and a list is run until
    something fails.

    * `Analysis.node_eq`: to analyze a part is to run its phases;
    * `Analysis.leavesOuter`: the analysis of any part leaves the scopes around the current one as
      they are. -/

namespace BraceScript

namespace Analysis

/-- A test that the analysis makes, which changes no scopes. -/
inductive Test where
  /-- A part that cannot be walked. -/
  | stuck (f : Fault)
  | read (name : String)
  | assigned (name : Node)
  | function (callee : Node) (arguments : List Node)
  | procedure (callee : Node) (arguments : List Node)
  | give (value : Node)
  /-- A while loop is around. -/
  | loop (e : SemanticError)

/-- What the analysis of a part does, one thing after the other. -/
inductive Phase where
  | test (t : Test)
  /-- Declares a variable or a constant. -/
  | declare (what : Declared) (type name : Node)
  /-- Analyzes a part. -/
  | part (node : Node)
  /-- Analyzes parts in a scope of their own. -/
  | scope (stem : String) (kind : ScopeKind) (parts : List Node)
  /-- Declares a routine, and analyzes its body in a scope of its own. -/
  | routine (what : Declared) (kind : ScopeKind) (name : Node) (parameters : List Node)
      (symbol : String → List Parameter → Except Fault Symbol) (body : Node)

variable (fits : Symbol → Bool)

def Test.check (fits : Symbol → Bool) : Test → Analysis Unit
  | .stuck f => throw (.shape f)
  | .read name => checkName fits name
  | .assigned name => checkTarget name
  | .function callee arguments => checkFunction callee arguments
  | .procedure callee arguments => checkProcedure callee arguments
  | .give value => do let _ ← checkGive value
  | .loop e => do if ← insideWhile then pure () else fail e

def Phase.run (fits : Symbol → Bool) : Phase → Analysis Unit
  | .test t => t.check fits
  | .declare what type name => declareName what type name
  | .part it => node fits it
  | .scope stem kind parts => do
      enterBlock stem kind
      nodes fits parts
      leave
  | .routine what kind name parameters symbol body => do
      openRoutine what kind name parameters symbol
      node fits body
      leave

def runAll (fits : Symbol → Bool) : List Phase → Analysis Unit
  | [] => pure ()
  | phase :: rest => do
      phase.run fits
      runAll fits rest

end Analysis

open Analysis (Phase)

namespace Node

/-- A part that is analyzed unless it is left out. -/
def presentPhase (part : Node) : List Phase := if part.isAbsent then [] else [.part part]

/-- The declarations of names, each before its value. -/
def namePhases (what : Declared) (type : Node) : (names values : List Node) → List Phase
  | names, [] =>
      match what, names with
      | .constant, name :: _ => [.declare what type name, .test (.stuck .noValue)]
      | _, _ => names.map (.declare what type)
  | [], _ :: _ => []
  | name :: names, value :: values =>
      .declare what type name :: .part value :: namePhases what type names values

def incompletePhases : Lacking → List Node → List Phase
  | .numberLexeme, _ | .stringLexeme, _ => []
  | .variableNames, _ | .constantNames, _ => [.test (.stuck .absentIterated)]
  | .constantValues, type :: name :: _ =>
      [.declare .constant type name, .test (.stuck .absentIndexed)]
  | .constantValues, _ => []

/-- What the analysis of a part does. -/
def phases : Node → List Phase
  | .absent => [.test (.stuck (.noPart "NoneType" "accept"))]
  | .bare text => [.test (.stuck (.noPart (Node.bare text).kindName "accept"))]
  | .incomplete lacking parts => incompletePhases lacking parts
  | .program body => [.part body]
  | .block statements => statements.map .part
  | .typeName _ => [.test (.stuck (.unhandled "SemanticAnalyzer" "NodeType"))]
  | .parameter _ _ => [.test (.stuck (.unhandled "SemanticAnalyzer" "NodeParameter"))]
  | .identifier name => [.test (.read name)]
  | .variableDecl type names values => namePhases .variable type names values
  | .constantDecl type names values => namePhases .constant type names values
  | .functionDecl name parameters giveType body =>
      [.routine .function .function name parameters (Analysis.functionSymbol giveType body) body]
  | .procedureDecl name parameters body =>
      [.routine .procedure .procedure name parameters (Analysis.procedureSymbol body) body]
  | .assignment target value => [.test (.assigned target), .part value]
  | .functionCall callee arguments => .test (.function callee arguments) :: arguments.map .part
  | .procedureCall callee arguments => .test (.procedure callee arguments) :: arguments.map .part
  | .give value => .test (.give value) :: value.presentPhase
  | .display value => [.part value]
  | .ifElse condition body elifs alternative =>
      .part condition :: .scope "if_statement_" .ifBlock [body] ::
        (elifs.map .part ++ alternative.presentPhase)
  | .elif condition body => [.part condition, .scope "elif_statement_" .elifBlock [body]]
  | .otherwise body => [.scope "else_statement_" .elseBlock [body]]
  | .whileLoop condition body => [.part condition, .scope "while_statement_" .whileBlock [body]]
  | .forLoop initial termination step body =>
      .part termination :: (step.presentPhase ++
        [.scope "for_statement_" .forBlock [initial, body]])
  | .skip => [.test (.loop .skipOutside)]
  | .stop => [.test (.loop .stopOutside)]
  | .truth part | .unary _ part | .negation _ part => [.part part]
  | .binary left _ right | .logical left _ right | .comparison left _ right =>
      [.part left, .part right]
  | .number _ | .string _ | .boolean _ => []

end Node

namespace Analysis

/-! ## The analysis in phases -/

section

variable (fits : Symbol → Bool)

theorem runAll_append (first second : List Phase) :
    runAll fits (first ++ second) = (do runAll fits first; runAll fits second) := by
  induction first with
  | nil => simp [runAll]
  | cons phase rest ih => simp [runAll, ih]

theorem nodes_eq (parts : List Node) : nodes fits parts = runAll fits (parts.map .part) := by
  induction parts with
  | nil => rfl
  | cons part rest ih => rw [nodes, ih]; rfl

theorem declareNames_eq (what : Declared) (type : Node) (names : List Node) :
    declareNames what type names = runAll fits (names.map (.declare what type)) := by
  induction names with
  | nil => rfl
  | cons name names ih => rw [declareNames, ih]; rfl

theorem initialized_eq (what : Declared) (type : Node) (names values : List Node) :
    initialized fits what type names values =
      runAll fits (Node.namePhases what type names values) := by
  induction values generalizing names with
  | nil =>
      cases what <;> cases names <;> first
        | exact declareNames_eq fits _ type _
        | simp [initialized, Node.namePhases, runAll, Phase.run, Test.check]
  | cons value values ih =>
      cases names with
      | nil => rfl
      | cons name names =>
          rw [initialized, ih]
          rfl

theorem runAll_presentPhase (part : Node) :
    runAll fits part.presentPhase = if part.isAbsent then pure () else node fits part := by
  unfold Node.presentPhase
  split
  · rfl
  · simp [runAll, Phase.run]

/-- A give that is passed: the routine around it is a function and gives a value, or it is a
    procedure and gives none. -/
theorem checkGive_inv {value : Node} {b : Bool} {s s' : Scopes} (h : checkGive value s = .ok b s') :
    s' = s ∧ b = !value.isAbsent ∧ ∃ scope outer symbol,
      routineScope s.toList = some (scope, outer) ∧ Scopes.findIn scope.name outer = some symbol ∧
      ((∃ f, symbol = .function f) ∧ value.isAbsent = false ∨
        (∃ p, symbol = .procedure p) ∧ value.isAbsent = true) := by
  obtain ⟨scopes, mid, hget, h⟩ := bind_ok h
  cases hget
  cases hroutine : routineScope s.toList with
  | none => rw [hroutine] at h; exact nomatch h
  | some found =>
      rw [hroutine] at h
      obtain ⟨scope, outer⟩ := found
      cases outer with
      | nil => exact nomatch h
      | cons around outer =>
          cases hsymbol : Scopes.findIn scope.name (around :: outer) with
          | none => simp only [hsymbol] at h; exact nomatch h
          | some symbol =>
              simp only [hsymbol] at h
              refine ⟨?_, ?_, scope, around :: outer, symbol, rfl, hsymbol, ?_⟩
              · cases value <;> cases symbol <;> cases h <;> rfl
              · cases value <;> cases symbol <;> cases h <;> rfl
              · cases symbol with
                | function f =>
                    refine .inl ⟨⟨f, rfl⟩, ?_⟩
                    cases value <;> cases h <;> rfl
                | procedure p =>
                    refine .inr ⟨⟨p, rfl⟩, ?_⟩
                    cases value <;> cases h
                    rfl
                | _ => exact nomatch h

theorem give_eq (value : Node) :
    node fits (.give value) = runAll fits (Node.give value).phases := by
  funext s
  show (do if ← checkGive value then node fits value else pure () : Analysis Unit) s =
    (do (do let _ ← checkGive value); runAll fits value.presentPhase : Analysis Unit) s
  rw [runAll_presentPhase]
  simp only [bind, EStateM.bind]
  cases hcheck : checkGive value s with
  | error e after => rfl
  | ok b after =>
      obtain ⟨-, rfl, -⟩ := checkGive_inv hcheck
      cases value <;> rfl

theorem node_eq (part : Node) : node fits part = runAll fits part.phases := by
  cases part with
  | give value => exact give_eq fits value
  | variableDecl type names values => exact initialized_eq fits .variable type names values
  | constantDecl type names values => exact initialized_eq fits .constant type names values
  | block statements => exact nodes_eq fits statements
  | functionCall callee arguments | procedureCall callee arguments =>
      rw [node, nodes_eq]
      rfl
  | incomplete lacking parts =>
      cases lacking with
      | constantValues =>
          rcases parts with _ | ⟨type, _ | ⟨name, rest⟩⟩ <;> rfl
      | _ =>
          simp [node, Node.phases, Node.incompletePhases, incomplete, runAll, Phase.run, Test.check]
  | ifElse condition body elifs alternative =>
      simp [node, Node.phases, runAll, runAll_append, Phase.run, nodes, runAll_presentPhase,
        nodes_eq]
  | forLoop initial termination step body =>
      by_cases habsent : step.isAbsent = true <;>
        simp [node, Node.phases, runAll, runAll_append, Phase.run, nodes, runAll_presentPhase,
          habsent]
  | _ => simp [node, Node.phases, runAll, Phase.run, Test.check, nodes]

end

/-! ## Parts of phases -/

/-- The parts that a phase analyzes. -/
def Phase.parts : Phase → List Node
  | .part it => [it]
  | .scope _ _ parts => parts
  | .routine _ _ _ _ _ body => [body]
  | _ => []

theorem phase_of_mem_namePhases {what : Declared} {type : Node} {names values : List Node}
    {phase : Phase} (h : phase ∈ Node.namePhases what type names values) :
    (∃ name ∈ names, phase = .declare what type name) ∨ (∃ f, phase = .test (.stuck f)) ∨
      ∃ value ∈ values, phase = .part value := by
  induction values generalizing names with
  | nil =>
      unfold Node.namePhases at h
      split at h
      · simp only [List.mem_cons, List.not_mem_nil, or_false] at h
        rcases h with rfl | rfl
        · exact .inl ⟨_, List.mem_cons_self, rfl⟩
        · exact .inr (.inl ⟨_, rfl⟩)
      · obtain ⟨name, hname, rfl⟩ := List.mem_map.mp h
        exact .inl ⟨name, hname, rfl⟩
  | cons value values ih =>
      cases names with
      | nil => exact absurd h List.not_mem_nil
      | cons name names =>
          rw [Node.namePhases, List.mem_cons, List.mem_cons] at h
          rcases h with rfl | rfl | h
          · exact .inl ⟨name, List.mem_cons_self, rfl⟩
          · exact .inr (.inr ⟨value, List.mem_cons_self, rfl⟩)
          · rcases ih h with ⟨n, hn, rfl⟩ | ⟨f, rfl⟩ | ⟨v, hv, rfl⟩
            · exact .inl ⟨n, List.mem_cons_of_mem _ hn, rfl⟩
            · exact .inr (.inl ⟨f, rfl⟩)
            · exact .inr (.inr ⟨v, List.mem_cons_of_mem _ hv, rfl⟩)

/-- What is analyzed for a part is a part of it. -/
theorem mem_children_of_phase {it part : Node} {phase : Phase} (hphase : phase ∈ it.phases)
    (hpart : part ∈ phase.parts) : part ∈ it.children := by
  cases it with
  | variableDecl type names values =>
      rcases phase_of_mem_namePhases hphase with ⟨_, _, rfl⟩ | ⟨_, rfl⟩ | ⟨value, hvalue, rfl⟩
      · exact absurd hpart List.not_mem_nil
      · exact absurd hpart List.not_mem_nil
      · obtain rfl := List.mem_singleton.mp hpart
        simp [Node.children, hvalue]
  | constantDecl type names values =>
      rcases phase_of_mem_namePhases hphase with ⟨_, _, rfl⟩ | ⟨_, rfl⟩ | ⟨value, hvalue, rfl⟩
      · exact absurd hpart List.not_mem_nil
      · exact absurd hpart List.not_mem_nil
      · obtain rfl := List.mem_singleton.mp hpart
        simp [Node.children, hvalue]
  | incomplete lacking parts =>
      rcases lacking with _ | _ | _ | _ | _ <;>
        rcases parts with _ | ⟨_, _ | ⟨_, _⟩⟩ <;>
        grind [Node.phases, Node.incompletePhases, Phase.parts]
  | _ => grind [Node.phases, Node.children, Phase.parts, Node.presentPhase]

/-- Only a declaration of a routine has a body that belongs to another routine. -/
theorem routine_of_phase {it : Node} {phase : Phase} (h : phase ∈ it.phases) :
    it.declaresRoutine = true ↔
      ∃ what kind name parameters symbol body,
        phase = .routine what kind name parameters symbol body := by
  cases it with
  | variableDecl type names values | constantDecl type names values =>
      rcases phase_of_mem_namePhases h with ⟨_, _, rfl⟩ | ⟨_, rfl⟩ | ⟨_, _, rfl⟩ <;>
        simp [Node.declaresRoutine]
  | incomplete lacking parts =>
      rcases lacking with _ | _ | _ | _ | _ <;>
        rcases parts with _ | ⟨_, _ | ⟨_, _⟩⟩ <;>
        grind [Node.phases, Node.incompletePhases, Node.declaresRoutine]
  | _ => grind [Node.phases, Node.declaresRoutine, Node.presentPhase]

theorem scope_kind {it : Node} {stem : String} {kind : ScopeKind} {parts : List Node}
    (h : Phase.scope stem kind parts ∈ it.phases) : kind.isRoutine = false := by
  cases it with
  | variableDecl type names values | constantDecl type names values =>
      rcases phase_of_mem_namePhases h with ⟨_, _, h⟩ | ⟨_, h⟩ | ⟨_, _, h⟩ <;> cases h
  | incomplete lacking parts =>
      rcases lacking with _ | _ | _ | _ | _ <;>
        rcases parts with _ | ⟨_, _ | ⟨_, _⟩⟩ <;>
        grind [Node.phases, Node.incompletePhases]
  | _ => grind [Node.phases, Node.presentPhase, ScopeKind.isRoutine]

end Analysis

/-! ## What passes and what fails -/

namespace Analysis

variable {α β : Type} {fits : Symbol → Bool} {s s' : Scopes} {u : Unit} {e : AnalysisFault}

theorem bind_error {x : Analysis α} {f : α → Analysis β} (h : (x >>= f) s = .error e s') :
    x s = .error e s' ∨ ∃ a mid, x s = .ok a mid ∧ f a mid = .error e s' := by
  change EStateM.bind x f s = .error e s' at h
  unfold EStateM.bind at h
  cases hx : x s with
  | ok a mid => rw [hx] at h; exact .inr ⟨a, mid, rfl, h⟩
  | error e' mid =>
      rw [hx] at h
      cases h
      exact .inl rfl

/-- An error that concerns only the shape of the tree or a name that is declared twice. -/
def IsPlain : AnalysisFault → Prop
  | .shape _ | .semantic (.duplicate _ _) => True
  | _ => False

theorem part_bind_error {x : Except Fault α} {f : α → Analysis β}
    (h : (part x >>= f) s = .error e s') : IsPlain e ∨ ∃ a, x = .ok a ∧ f a s = .error e s' := by
  cases x with
  | ok a => exact .inr ⟨a, rfl, h⟩
  | error g => cases h; exact .inl trivial

theorem requireNew_bind_error {what : Declared} {name : String} {f : Unit → Analysis β}
    (h : (requireNew what name >>= f) s = .error e s') :
    IsPlain e ∨ f () s = .error e s' := by
  rcases bind_error h with hnew | ⟨_, mid, hnew, hrest⟩
  · unfold requireNew at hnew
    split at hnew
    · cases hnew; exact .inl trivial
    · exact nomatch hnew
  · obtain ⟨-, rfl⟩ := requireNew_ok hnew
    exact .inr hrest

theorem declareName_inv {what : Declared} {type name : Node}
    (h : declareName what type name s = .ok u s') :
    ∃ spelled typeSpelled, name.namePart = .ok spelled ∧ type.namePart = .ok typeSpelled ∧
      s.declares spelled = false ∧ s' = s.define (what.symbol spelled typeSpelled) := by
  obtain ⟨spelled, hname, hrest⟩ := part_bind_ok h
  obtain ⟨_, mid, htest, hdefine⟩ := bind_ok hrest
  obtain ⟨hnew, rfl⟩ := requireNew_ok htest
  obtain ⟨typeSpelled, htype, hdefine⟩ := part_bind_ok hdefine
  cases hdefine
  exact ⟨spelled, typeSpelled, hname, htype, hnew, rfl⟩

theorem declareName_error {what : Declared} {type name : Node}
    (h : declareName what type name s = .error e s') : IsPlain e := by
  rcases part_bind_error h with h | ⟨spelled, -, h⟩
  · exact h
  rcases requireNew_bind_error h with h | h
  · exact h
  rcases part_bind_error h with h | ⟨_, -, h⟩
  · exact h
  · exact nomatch h

theorem openRoutine_inv {what : Declared} {kind : ScopeKind} {name : Node} {parameters : List Node}
    {symbol : String → List Parameter → Except Fault Symbol}
    (h : openRoutine what kind name parameters symbol s = .ok u s') :
    ∃ spelled ps sym, name.namePart = .ok spelled ∧ Parameter.ofNodes parameters = .ok ps ∧
      symbol spelled ps = .ok sym ∧ s.declares spelled = false ∧
      s' = (s.define sym).enter spelled kind ps := by
  obtain ⟨spelled, hname, hrest⟩ := part_bind_ok h
  obtain ⟨_, mid, htest, hdefine⟩ := bind_ok hrest
  obtain ⟨hnew, rfl⟩ := requireNew_ok htest
  obtain ⟨ps, hps, hdefine⟩ := part_bind_ok hdefine
  obtain ⟨sym, hsym, hdefine⟩ := part_bind_ok hdefine
  cases hdefine
  exact ⟨spelled, ps, sym, hname, hps, hsym, hnew, rfl⟩

theorem openRoutine_error {what : Declared} {kind : ScopeKind} {name : Node}
    {parameters : List Node} {symbol : String → List Parameter → Except Fault Symbol}
    (h : openRoutine what kind name parameters symbol s = .error e s') : IsPlain e := by
  rcases part_bind_error h with h | ⟨spelled, -, h⟩
  · exact h
  rcases requireNew_bind_error h with h | h
  · exact h
  rcases part_bind_error h with h | ⟨ps, -, h⟩
  · exact h
  rcases part_bind_error h with h | ⟨sym, -, h⟩
  · exact h
  · exact nomatch h

theorem checkFunction_inv {callee : Node} {arguments : List Node}
    (h : checkFunction callee arguments s = .ok u s') :
    s' = s ∧ ∃ name f, callee.namePart = .ok name ∧ s.lookup name = some (.function f) ∧
      (f.parameters.getD []).length = arguments.length := by
  obtain ⟨name, hname, h⟩ := part_bind_ok h
  have hnamed : checkFunction (.identifier name) arguments s = .ok u s' := h
  obtain ⟨⟨f, hfound, hcount⟩, rfl⟩ := checkFunction_ok hnamed
  exact ⟨rfl, name, f, hname, hfound, hcount⟩

theorem checkProcedure_inv {callee : Node} {arguments : List Node}
    (h : checkProcedure callee arguments s = .ok u s') :
    s' = s ∧ ∃ name p, callee.namePart = .ok name ∧ s.lookup name = some (.procedure p) ∧
      (p.parameters.getD []).length = arguments.length := by
  obtain ⟨name, hname, h⟩ := part_bind_ok h
  have hnamed : checkProcedure (.identifier name) arguments s = .ok u s' := h
  obtain ⟨⟨p, hfound, hcount⟩, rfl⟩ := checkProcedure_ok hnamed
  exact ⟨rfl, name, p, hname, hfound, hcount⟩

theorem checkTarget_inv {target : Node} (h : checkTarget target s = .ok u s') :
    s' = s ∧ ∃ name key type, target.namePart = .ok name ∧
      s.lookup name = some (.variable key type) := by
  obtain ⟨name, hname, h⟩ := part_bind_ok h
  have h := lookup_bind_ok h
  cases hfound : s.lookup name with
  | none => rw [hfound] at h; exact nomatch h
  | some symbol =>
      rw [hfound] at h
      cases symbol with
      | «variable» key type => cases h; exact ⟨rfl, name, key, type, hname, hfound⟩
      | _ => exact nomatch h

theorem Test.check_ok {t : Test} (h : t.check fits s = .ok u s') : s' = s := by
  cases t with
  | stuck f => exact nomatch h
  | read name => exact (checkName_ok h).2
  | assigned name => exact (checkTarget_inv h).1
  | function callee arguments => exact (checkFunction_inv h).1
  | procedure callee arguments => exact (checkProcedure_inv h).1
  | give value =>
      obtain ⟨b, mid, hcheck, hrest⟩ := bind_ok h
      obtain ⟨rfl, -⟩ := checkGive_inv hcheck
      cases hrest
      rfl
  | loop e =>
      obtain ⟨b, mid, hinside, hrest⟩ := bind_ok h
      obtain ⟨-, rfl⟩ := insideWhile_ok hinside
      exact (test_ok hrest).2

/-! ### Scopes around -/

/-- The analysis of a part leaves the scopes around the current one as they are. -/
def LeavesOuter (fits : Symbol → Bool) (part : Node) : Prop :=
  ∀ s s' u, node fits part s = .ok u s' → s'.outer = s.outer

theorem nodes_outer {parts : List Node} (hparts : ∀ part ∈ parts, LeavesOuter fits part)
    (h : nodes fits parts s = .ok u s') : s'.outer = s.outer := by
  induction parts generalizing s with
  | nil => cases h; rfl
  | cons first rest ih =>
      rw [nodes] at h
      obtain ⟨_, mid, hfirst, h⟩ := bind_ok h
      have hrest := ih (fun part hpart => hparts part (List.mem_cons_of_mem _ hpart)) h
      exact hrest.trans (hparts first List.mem_cons_self s mid _ hfirst)

/-- A scope of its own is left for the scopes around. -/
theorem scope_ok {stem : String} {kind : ScopeKind} {parts : List Node}
    (hparts : ∀ part ∈ parts, LeavesOuter fits part)
    (h : Phase.run fits (.scope stem kind parts) s = .ok u s') : s' = s := by
  obtain ⟨_, inner, henter, hrest⟩ := bind_ok h
  obtain ⟨_, behind, hbehind, hleave⟩ := bind_ok hrest
  have houter := nodes_outer hparts hbehind
  cases henter
  cases hleave
  exact Scopes.leave_of_outer houter

/-- Behind the body of a routine, the routine has its name in the scopes around. -/
theorem routine_ok {what : Declared} {kind : ScopeKind} {name body : Node} {parameters : List Node}
    {symbol : String → List Parameter → Except Fault Symbol} (hbody : LeavesOuter fits body)
    (h : Phase.run fits (.routine what kind name parameters symbol body) s = .ok u s') :
    ∃ spelled ps sym behind, name.namePart = .ok spelled ∧ Parameter.ofNodes parameters = .ok ps ∧
      symbol spelled ps = .ok sym ∧ s.declares spelled = false ∧
      node fits body ((s.define sym).enter spelled kind ps) = .ok () behind ∧
      s' = s.define sym := by
  obtain ⟨_, inner, hopen, hrest⟩ := bind_ok h
  obtain ⟨spelled, ps, sym, hname, hps, hsym, hnew, rfl⟩ := openRoutine_inv hopen
  obtain ⟨_, behind, hbehind, hleave⟩ := bind_ok hrest
  have houter := hbody _ behind _ hbehind
  cases hleave
  exact ⟨spelled, ps, sym, behind, hname, hps, hsym, hnew, hbehind,
    Scopes.leave_of_outer houter⟩

theorem runAll_outer {phases : List Phase}
    (hparts : ∀ phase ∈ phases, ∀ part ∈ phase.parts, LeavesOuter fits part)
    (h : runAll fits phases s = .ok u s') : s'.outer = s.outer := by
  induction phases generalizing s with
  | nil => cases h; rfl
  | cons phase rest ih =>
      obtain ⟨_, mid, hphase, h⟩ := bind_ok h
      rw [ih (fun other hother => hparts other (List.mem_cons_of_mem _ hother)) h]
      have hown := hparts phase List.mem_cons_self
      cases phase with
      | test t => rw [Test.check_ok hphase]
      | declare what type name =>
          obtain ⟨_, _, -, -, -, rfl⟩ := declareName_inv hphase
          rfl
      | part it => exact hown it List.mem_cons_self s mid _ hphase
      | scope stem kind parts => rw [scope_ok hown hphase]
      | routine what kind name parameters symbol body =>
          obtain ⟨_, _, _, _, -, -, -, -, -, rfl⟩ :=
            routine_ok (hown body List.mem_cons_self) hphase
          rfl

theorem leavesOuter (part : Node) : LeavesOuter fits part := by
  induction part using Node.children_induction with
  | h part ih =>
      intro s s' u h
      rw [node_eq] at h
      refine runAll_outer (fun phase hphase inner hinner => ?_) h
      exact ih inner (mem_children_of_phase hphase hinner)

end Analysis

end BraceScript
