import BraceScript.Proofs.Calls
import BraceScript.Proofs.Definedness
import BraceScript.Proofs.Places
import BraceScript.Proofs.Steps

/-! # Declarations — what is known and what runs is written in the program

    The analyzer knows names by symbols and a run knows routines by two tables.  Both come from
    declarations, and declarations are parts of the program.

    * `Node.Defines`: the symbols that a declaration makes known, parameters included;
    * `places_known`: what scopes know at a place of a program, a part of the program defines;
    * `visits_declared`: the tasks that a run comes to are parts of the program, the routines in its
      tables are declared there, and each call finds one. -/

namespace BraceScript

open Eval (perform)

/-! ## What declarations define -/

/-- The parameters that a part declares. -/
def Node.parameters : Node → List Node
  | .functionDecl _ parameters _ _ | .procedureDecl _ parameters _ => parameters
  | _ => []

/-- A part declares a routine, and the analysis knows it by this symbol. -/
inductive Node.DefinesRoutine : Node → Symbol → Prop
  | function {name giveType body : Node} {parameters : List Node} {spelled : String}
      {ps : List Parameter} {symbol : Symbol} (hname : name.namePart = .ok spelled)
      (hps : Parameter.ofNodes parameters = .ok ps)
      (h : Analysis.functionSymbol giveType body spelled ps = .ok symbol) :
      DefinesRoutine (.functionDecl name parameters giveType body) symbol
  | procedure {name body : Node} {parameters : List Node} {spelled : String}
      {ps : List Parameter} {symbol : Symbol} (hname : name.namePart = .ok spelled)
      (hps : Parameter.ofNodes parameters = .ok ps)
      (h : Analysis.procedureSymbol body spelled ps = .ok symbol) :
      DefinesRoutine (.procedureDecl name parameters body) symbol

/-- A part makes a symbol known: it declares a variable, a constant or a routine, or a routine with
    this parameter. -/
inductive Node.Defines : Node → Symbol → Prop
  | variable {type name : Node} {names values : List Node} {spelled typeSpelled : String}
      (hmem : name ∈ names) (hname : name.namePart = .ok spelled)
      (htype : type.namePart = .ok typeSpelled) :
      Defines (.variableDecl type names values) (.variable spelled typeSpelled)
  | constant {type name : Node} {names values : List Node} {spelled typeSpelled : String}
      (hmem : name ∈ names) (hname : name.namePart = .ok spelled)
      (htype : type.namePart = .ok typeSpelled) :
      Defines (.constantDecl type names values) (.constant spelled typeSpelled)
  | routine {decl : Node} {symbol : Symbol} (h : decl.DefinesRoutine symbol) : Defines decl symbol
  | parameter {decl : Node} {ps : List Parameter} {q : Parameter}
      (hps : Parameter.ofNodes decl.parameters = .ok ps) (hq : q ∈ ps) :
      Defines decl (.variable q.name q.type)

theorem Analysis.functionSymbol_inv {giveType body : Node} {spelled : String}
    {ps : List Parameter} {symbol : Symbol}
    (h : Analysis.functionSymbol giveType body spelled ps = .ok symbol) :
    ∃ type, symbol = BraceScript.functionSymbol spelled type ps body := by
  unfold Analysis.functionSymbol at h
  cases htype : giveType.namePart with
  | error f => rw [htype] at h; cases h
  | ok type => rw [htype] at h; cases h; exact ⟨type, rfl⟩

namespace Node.DefinesRoutine

variable {decl : Node} {symbol : Symbol}

/-- The symbol is that of a function or a procedure. -/
theorem routine (h : decl.DefinesRoutine symbol) :
    (∃ f, symbol = .function f) ∨ ∃ p, symbol = .procedure p := by
  cases h with
  | function _ _ h =>
      obtain ⟨type, rfl⟩ := Analysis.functionSymbol_inv h
      exact .inl ⟨_, rfl⟩
  | procedure _ _ h => cases h; exact .inr ⟨_, rfl⟩

/-- What a run enters for a declaration is what the analysis knows, with a list of parameters. -/
theorem entered (h : decl.DefinesRoutine symbol) {entered : Symbol}
    (hentered : decl.routineSymbol? = some entered) (kind : RecordKind) :
    entered.routine? kind = (symbol.routine? kind).map Routine.listed ∧
      entered.name = symbol.name := by
  cases h with
  | @function name giveType body parameters spelled ps symbol hname hps h =>
      cases name with
      | identifier name =>
          cases giveType with
          | typeName type =>
              rw [Node.routineSymbol?, hps] at hentered
              cases hname
              cases h
              cases hentered
              refine ⟨?_, rfl⟩
              cases kind with
              | function =>
                  show some _ = some (Routine.listed _)
                  rw [Routine.listed, getD_someUnlessEmpty]
              | _ => rfl
          | _ => cases hentered
      | _ => cases hentered
  | @procedure name body parameters spelled ps symbol hname hps h =>
      cases name with
      | identifier name =>
          rw [Node.routineSymbol?, hps] at hentered
          cases hname
          cases h
          cases hentered
          refine ⟨?_, rfl⟩
          cases kind with
          | procedure =>
              show some _ = some (Routine.listed _)
              rw [Routine.listed, getD_someUnlessEmpty]
          | _ => rfl
      | _ => cases hentered

end Node.DefinesRoutine

namespace Analysis

/-- The parts of a program that declare names. -/
theorem defines_of_declare {it type name : Node} {what : Declared} {spelled typeSpelled : String}
    {W : String → Prop} {c : Category} (hformed : Formed W c it)
    (hphase : .declare what type name ∈ it.phases) (hname : name.namePart = .ok spelled)
    (htype : type.namePart = .ok typeSpelled) :
    it.Defines (what.symbol spelled typeSpelled) := by
  cases it with
  | variableDecl type names values =>
      rcases phase_of_mem_namePhases hphase with ⟨_, hmem, h⟩ | ⟨_, h⟩ | ⟨_, _, h⟩ <;> cases h
      exact .variable hmem hname htype
  | constantDecl type names values =>
      rcases phase_of_mem_namePhases hphase with ⟨_, hmem, h⟩ | ⟨_, h⟩ | ⟨_, _, h⟩ <;> cases h
      exact .constant hmem hname htype
  | incomplete lacking parts => cases hformed with | present hformed => cases hformed
  | _ => grind [Node.phases, Node.presentPhase]

/-- The parts of a program that declare routines. -/
theorem defines_of_routine {it name body : Node} {what : Declared} {kind : ScopeKind}
    {parameters : List Node} {make : String → List Parameter → Except Fault Symbol}
    {spelled : String} {ps : List Parameter} {symbol : Symbol}
    (hphase : .routine what kind name parameters make body ∈ it.phases)
    (hname : name.namePart = .ok spelled) (hps : Parameter.ofNodes parameters = .ok ps)
    (hsymbol : make spelled ps = .ok symbol) :
    it.DefinesRoutine symbol ∧ symbol.name = spelled ∧ it.parameters = parameters ∧
      kind.isRoutine = true := by
  have hdeclares := (routine_of_phase hphase).mpr ⟨_, _, _, _, _, _, rfl⟩
  cases it with
  | functionDecl _ _ _ _ =>
      cases List.mem_singleton.mp hphase
      refine ⟨.function hname hps hsymbol, ?_, rfl, rfl⟩
      obtain ⟨type, rfl⟩ := Analysis.functionSymbol_inv hsymbol
      rfl
  | procedureDecl _ _ _ =>
      cases List.mem_singleton.mp hphase
      refine ⟨.procedure hname hps hsymbol, ?_, rfl, rfl⟩
      cases hsymbol
      rfl
  | _ => cases hdeclares

end Analysis

/-! ## What scopes know -/

/-- Parts of well-formed parts are well formed. -/
theorem Formed.of_mem_parts {W : String → Prop} {c : Category} {tree node : Node}
    (h : Formed W c tree) (hnode : node ∈ tree.parts) : ∃ c', Formed W c' node := by
  induction tree using Node.children_induction generalizing c with
  | h tree ih =>
      rcases Node.mem_parts.mp hnode with rfl | ⟨child, hchild, hnode⟩
      · exact ⟨c, h⟩
      · obtain ⟨c', hformed, -⟩ := h.children hchild
        exact ih child hchild hformed hnode

/-- The body of a routine that a well-formed part declares is a block. -/
theorem Formed.body {W : String → Prop} {c : Category} {decl : Node} {entered : Symbol}
    {kind : RecordKind} {p : Routine} (h : Formed W c decl)
    (hentered : decl.routineSymbol? = some entered) (hp : entered.routine? kind = some p) :
    Formed W .block p.body := by
  rcases (Node.routineSymbol?_inv hentered hp).2 with ⟨_, _, _, rfl⟩ | ⟨_, _, rfl⟩
  · cases h with
    | functionDecl _ _ _ hbody => exact hbody
    | present h => cases h
  · cases h with
    | procedureDecl _ _ hbody => exact hbody
    | present h => cases h

/-- What scopes know, a part of the program defines. -/
def Scopes.DefinedIn (tree : Node) (s : Scopes) : Prop :=
  ∀ name symbol, s.Knows name symbol → symbol.name = name ∧ ∃ decl ∈ tree.parts, decl.Defines symbol

namespace Scopes.DefinedIn

variable {tree decl : Node} {s : Scopes} {symbol : Symbol}

theorem define (h : s.DefinedIn tree) (hdecl : decl ∈ tree.parts) (hsymbol : decl.Defines symbol) :
    (s.define symbol).DefinedIn tree := by
  intro name found hknows
  rcases knows_define hknows with ⟨rfl, rfl⟩ | hknows
  · exact ⟨rfl, decl, hdecl, hsymbol⟩
  · exact h name found hknows

theorem enter (h : s.DefinedIn tree) (label : String) (kind : ScopeKind) {ps : List Parameter}
    (hps : ∀ q ∈ ps, ∃ decl ∈ tree.parts, decl.Defines (.variable q.name q.type)) :
    (s.enter label kind ps).DefinedIn tree := by
  intro name found hknows
  rcases knows_enter hknows with ⟨q, hq, rfl, rfl⟩ | hknows
  · exact ⟨rfl, hps q hq⟩
  · exact h name found hknows

end Scopes.DefinedIn

theorem Warden.definedIn {fits : Symbol → Bool} {W : String → Prop} {c : Category} {tree : Node}
    (htree : Formed W c tree) :
    Warden fits (fun _ node => node ∈ tree.parts) (fun _ s => s.DefinedIn tree) fun _ => True where
  children _ _ _ hnode hpart := Node.mem_parts_of_mem_children hnode hpart
  block _ _ label kind _ hs := hs.enter label kind fun _ hq => absurd hq List.not_mem_nil
  name _ _ _ what _ _ _ _ hnode hphase hname htype _ hs := by
    obtain ⟨c', hformed⟩ := htree.of_mem_parts hnode
    exact hs.define hnode (Analysis.defines_of_declare hformed hphase hname htype)
  routine _ s node _ kind _ _ _ _ spelled ps sym hnode hphase hname hps hsym _ hs := by
    obtain ⟨hdefines, -, hparameters, -⟩ := Analysis.defines_of_routine hphase hname hps hsym
    have hdefined : (s.define sym).DefinedIn tree := hs.define hnode (.routine hdefines)
    refine ⟨hdefined, hdefined.enter spelled kind fun q hq => ⟨node, hnode, ?_⟩⟩
    exact .parameter (by rw [hparameters]; exact hps) hq
  test _ _ _ _ _ _ _ _ _ _ := trivial
  plain _ _ := trivial

/-- At each place of a program the scopes know only what a part of it defines. -/
theorem places_known {W : String → Prop} {c : Category} {tree : Node} (htree : Formed W c tree) :
    ∀ p ∈ tree.places, p.node ∈ tree.parts ∧ p.scopes.DefinedIn tree := by
  have hinitial : Scopes.initial.DefinedIn tree :=
    fun _ _ hknows => absurd hknows Scopes.not_knows_initial
  exact ((Warden.definedIn htree).kept tree none _ tree.self_mem_parts hinitial).1

/-- The analysis of an accepted program passes. -/
theorem Node.passes_of_accepted {tree : Node} (h : (analyze tree).1 = none) :
    (Place.mk none Scopes.initial tree).Passes fun _ => true := by
  unfold analyze analyzeIn analyzeWith at h
  cases hnode : Analysis.node (fun _ => true) tree Scopes.initial with
  | ok _ after => exact ⟨after, hnode⟩
  | error e after => rw [hnode] at h; cases h

/-! ## What runs -/

/-- The parts that a task is about are parts of a program. -/
def Task.PartOf (tree : Node) : Task → Prop
  | .eval node => node ∈ tree.parts
  | .whileLoop test body => test ∈ tree.parts ∧ body ∈ tree.parts
  | .forLoop _ _ _ _ body => body ∈ tree.parts

/-- A run has declared what its scopes know, and what it has declared is written in the program. -/
def Following.declared (tree : Node) : Following Unit where
  part node := node ∈ tree.parts
  height _ _ := True
  holds _ s m := Following.calls.holds () s m ∧ m.DeclaredIn tree
  exits _ s e m := Following.calls.exits () s e m ∧ m.DeclaredIn tree

theorem Follower.declared (tree : Node) : Follower anySymbol (Following.declared tree) where
  children _ _ hnode hpart := Node.mem_parts_of_mem_children hnode hpart
  holds_le k s t m hle hm := ⟨Follower.calls.holds_le k s t m hle hm.1, hm.2⟩
  exits_le k s t e m hle hexit := ⟨Follower.calls.exits_le k s t e m hle hexit.1, hexit.2⟩
  shown _ _ _ _ hm := hm
  height _ _ _ _ _ _ _ := trivial
  set _ _ _ _ _ _ hm _ _ := hm
  declare k s m h what name type v hm _ hv :=
    ⟨Follower.calls.declare k s m h what name type v hm.1 trivial hv, hm.2⟩
  initialiser _ _ _ _ what name type _ _ _ hm _ :=
    .inl ⟨⟨hm.1.1.define what name type, hm.1.2⟩, hm.2⟩
  routine k s m decl kind symbol entered r label scopeKind behind hdecl hentered hr hlisted hname
      hgrown hnew hbody hm :=
    ⟨Follower.calls.routine k s m decl kind symbol entered r label scopeKind behind trivial hentered
      hr hlisted hname hgrown hnew hbody hm.1, hm.2.declare hdecl hentered⟩
  name _ _ _ _ _ _ _ hm _ _ _ _ _ := .inr ⟨⟨hm.1, nofun⟩, hm.2⟩
  found k s m n kind name symbol r hm hn hknows hr hnone :=
    ⟨Follower.calls.found k s m n kind name symbol r hm.1 hn.1 hknows hr hnone, hn.2⟩
  call k s m n kind name symbol r p values caller rest hm hgrown hknows hr hp hgrows hn hs hvalues
      hlength := by
    obtain ⟨k', t, behind, -, ht, hbody, hcalled, hback, hexit⟩ :=
      Follower.calls.call k s m n kind name symbol r p values caller rest hm.1 hgrown hknows hr hp
        hgrows hn.1 hs hvalues hlength
    refine ⟨k', t, behind, (hm.2 kind name p hp).body_mem, ht, hbody, ⟨hcalled, hn.2⟩, ?_, ?_⟩
    · exact fun d v after r' rest' hrun hafter hstack =>
        ⟨hback d v after r' rest' hrun hafter.1 hstack, hafter.2⟩
    · exact fun d e after hrun hafter => ⟨hexit d e after hrun hafter.1, hafter.2⟩
  skipped _ _ _ hexit := ⟨hexit.1.1, hexit.2⟩
  stopped _ _ _ hexit := ⟨hexit.1.1, hexit.2⟩
  exit k s m e hm hordinary := ⟨Follower.calls.exit k s m e hm.1 hordinary, hm.2⟩
  empty k s m hm hempty := ⟨Follower.calls.empty k s m hm.1 hempty, hm.2⟩

theorem Machine.declaredIn_empty (tree : Node) {m : Machine} (hfunctions : m.functions = [])
    (hprocedures : m.procedures = []) : m.DeclaredIn tree := by
  intro kind name p hp
  cases kind with
  | function => rw [Machine.routine?, hfunctions] at hp; cases hp
  | procedure => rw [Machine.routine?, hprocedures] at hp; cases hp
  | program => cases hp

/-- In an accepted program, the tasks that a run comes to are parts of the program, the routines in
    its tables are declared there, and a call finds a routine. -/
theorem visits_declared {source : String} {tree : Node} (hparse : parse source = .ok tree)
    (haccepted : (analyze tree).1 = none) {depth : Nat} {v : Visit}
    (hv : v ∈ visits depth (.eval tree) Machine.initial) :
    v.task.PartOf tree ∧ v.machine.DeclaredIn tree ∧
      ∀ node kind callee arguments, v.task = .eval node →
        node.call? = some (kind, callee, arguments) →
        ∃ name p, callee = .identifier name ∧ v.machine.routine? kind name = some p := by
  obtain ⟨body, behind, rfl, -, hscoped⟩ := scoped_of_accepted hparse haccepted
  have hbody : body ∈ (Node.program body).parts :=
    Node.mem_parts_of_mem_children (Node.self_mem_parts _) List.mem_cons_self
  have hstarted : (Following.declared (.program body)).holds () Scopes.initial Machine.started :=
    ⟨Following.calls_started, Machine.declaredIn_empty _ rfl rfl⟩
  rcases (Follower.declared (.program body)).program_visits hbody hscoped hstarted depth v hv with
    ⟨-, htask, hmachine⟩ | ⟨⟨k, s, s'⟩, -, ⟨⟨hregisters, -⟩, htables⟩, hadmits⟩
  · rw [htask, hmachine]
    refine ⟨Node.self_mem_parts _, Machine.declaredIn_empty _ rfl rfl, ?_⟩
    intro node kind callee arguments hsame hcall
    cases hsame
    cases hcall
  · refine ⟨?_, htables, ?_⟩
    · cases htask : v.task with
      | eval node => rw [htask] at hadmits; exact hadmits.1
      | whileLoop test body => rw [htask] at hadmits; exact ⟨hadmits.2.1.1, hadmits.2.2.1⟩
      | forLoop height name last step body => rw [htask] at hadmits; exact hadmits.2.2.1
    · intro node kind callee arguments htask hcall
      rw [htask] at hadmits
      have hchecked := hadmits.2
      -- the analyzer knows the name as a routine, so that it has been declared
      obtain ⟨name, symbol, r, rfl, hknows, hr⟩ : ∃ name symbol r, callee = .identifier name ∧
          s.Knows name symbol ∧ symbol.routine? kind = some r := by
        cases node with
        | functionCall _ _ =>
            cases hcall
            obtain ⟨name, f, rfl, hfound⟩ := Following.Checked.functionCall hchecked
            exact ⟨name, _, _, rfl, Scopes.knows_of_lookup hfound trivial, rfl⟩
        | procedureCall _ _ =>
            cases hcall
            obtain ⟨name, p, rfl, hfound⟩ := Following.Checked.procedureCall hchecked
            exact ⟨name, _, _, rfl, Scopes.knows_of_lookup hfound trivial, rfl⟩
        | _ => cases hcall
      have hsome := hregisters kind name symbol r hknows hr
      exact ⟨name, _, rfl, (Option.some_get hsome).symm⟩

end BraceScript
