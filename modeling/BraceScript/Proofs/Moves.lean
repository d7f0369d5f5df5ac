import BraceScript.Proofs.Declarations

/-! # Moves — the analysis as one list

    The phases of a part have other analyses inside.  Written out in full, the analysis of a part is
    one list of moves: tests, declarations, and scopes that are opened and left.  The names that the
    open scopes have are read off the moves alone, and a move that declares a name which its scope
    has already fails.

    * `Node.moves`, `Analysis.node_moves`: to analyze a part is to make its moves, up to one that
      fails;
    * `Analysis.notes`, `Analysis.notes_noted`: the names of the open scopes behind moves;
    * `Analysis.verdict_repeated`: moves that come to a name which the scope has already end there,
      or have ended before. -/

namespace BraceScript

theorem Declared.name_symbol (what : Declared) (name type : String) :
    (what.symbol name type).name = name := by
  cases what <;> rfl

namespace Analysis

/-! ## Moves -/

/-- What the analysis does, without the analyses of parts in it. -/
inductive Move where
  | test (t : Test)
  | declare (what : Declared) (type name : Node)
  | enter (stem : String) (kind : ScopeKind)
  | openRoutine (what : Declared) (kind : ScopeKind) (name : Node) (parameters : List Node)
      (symbol : String → List Parameter → Except Fault Symbol)
  | leave

def Move.run (fits : Symbol → Bool) : Move → Analysis Unit
  | .test t => t.check fits
  | .declare what type name => declareName what type name
  | .enter stem kind => enterBlock stem kind
  | .openRoutine what kind name parameters symbol =>
      Analysis.openRoutine what kind name parameters symbol
  | .leave => Analysis.leave

def runMoves (fits : Symbol → Bool) : List Move → Analysis Unit
  | [] => pure ()
  | move :: rest => do
      move.run fits
      runMoves fits rest

/-- The moves of a phase, given those of its parts. -/
def Phase.movesOf : (phase : Phase) → ((part : Node) → part ∈ phase.parts → List Move) → List Move
  | .test t, _ => [.test t]
  | .declare what type name, _ => [.declare what type name]
  | .part it, inner => inner it List.mem_cons_self
  | .scope stem kind parts, inner =>
      .enter stem kind :: (parts.attach.flatMap (fun part => inner part.1 part.2) ++ [.leave])
  | .routine what kind name parameters symbol body, inner =>
      .openRoutine what kind name parameters symbol :: (inner body List.mem_cons_self ++ [.leave])

end Analysis

open Analysis (Move Phase runMoves)

/-- The moves of the analysis of a part, in order. -/
def Node.moves (it : Node) : List Move :=
  it.phases.attach.flatMap fun phase => phase.1.movesOf fun part _ => part.moves
termination_by it
decreasing_by exact Node.sizeOf_lt_of_mem_children (Analysis.mem_children_of_phase phase.2 ‹_›)

namespace Analysis

/-- The moves of a phase. -/
def Phase.moves (phase : Phase) : List Move := phase.movesOf fun part _ => part.moves

theorem moves_eq (it : Node) : it.moves = it.phases.flatMap Phase.moves := by
  rw [Node.moves, List.flatMap_subtype (g := Phase.moves) fun _ _ => rfl, List.unattach_attach]

theorem Phase.moves_scope (stem : String) (kind : ScopeKind) (parts : List Node) :
    (Phase.scope stem kind parts).moves =
      .enter stem kind :: (parts.flatMap Node.moves ++ [.leave]) := by
  rw [Phase.moves, Phase.movesOf, List.flatMap_subtype (g := Node.moves) fun _ _ => rfl,
    List.unattach_attach]

section

variable (fits : Symbol → Bool)

theorem runMoves_append (first second : List Move) :
    runMoves fits (first ++ second) = (do runMoves fits first; runMoves fits second) := by
  induction first with
  | nil => simp [runMoves]
  | cons move rest ih => simp [runMoves, ih]

theorem runMoves_parts {parts : List Node}
    (h : ∀ part ∈ parts, node fits part = runMoves fits part.moves) :
    nodes fits parts = runMoves fits (parts.flatMap Node.moves) := by
  induction parts with
  | nil => rfl
  | cons first rest ih =>
      rw [nodes, List.flatMap_cons, runMoves_append, h first List.mem_cons_self,
        ih fun part hpart => h part (List.mem_cons_of_mem _ hpart)]

theorem Phase.run_moves {phase : Phase}
    (h : ∀ part ∈ phase.parts, node fits part = runMoves fits part.moves) :
    phase.run fits = runMoves fits phase.moves := by
  cases phase with
  | test t => simp [Phase.run, Phase.moves, Phase.movesOf, runMoves, Move.run]
  | declare what type name => simp [Phase.run, Phase.moves, Phase.movesOf, runMoves, Move.run]
  | part it => exact h it List.mem_cons_self
  | scope stem kind parts =>
      have hparts : nodes fits parts = runMoves fits (parts.flatMap Node.moves) :=
        runMoves_parts fits h
      rw [Phase.moves_scope]
      simp [Phase.run, runMoves, runMoves_append, hparts, Move.run]
  | routine what kind name parameters symbol body =>
      have hbody := h body List.mem_cons_self
      simp [Phase.run, Phase.moves, Phase.movesOf, runMoves, runMoves_append, hbody, Move.run]

/-- To analyze a part is to make its moves. -/
theorem node_moves (it : Node) : node fits it = runMoves fits it.moves := by
  induction it using Node.children_induction with
  | h it ih =>
      have hphases : ∀ phases : List Phase, (∀ phase ∈ phases, phase ∈ it.phases) →
          runAll fits phases = runMoves fits (phases.flatMap Phase.moves) := by
        intro phases hphases
        induction phases with
        | nil => rfl
        | cons first rest ihrest =>
            have hfirst : first.run fits = runMoves fits first.moves :=
              first.run_moves fits fun part hpart =>
                ih part (mem_children_of_phase (hphases first List.mem_cons_self) hpart)
            rw [runAll, List.flatMap_cons, runMoves_append, hfirst,
              ihrest fun phase hphase => hphases phase (List.mem_cons_of_mem _ hphase)]
      rw [node_eq, moves_eq]
      exact hphases _ fun _ hphase => hphase

end

/-- The fault that moves end with when they are made from the beginning, if any. -/
def verdict (moves : List Move) : Option AnalysisFault :=
  match runMoves (fun _ => true) moves Scopes.initial with
  | .ok _ _ => none
  | .error e _ => some e

theorem analyze_eq_verdict (tree : Node) : (analyze tree).1 = verdict tree.moves := by
  unfold analyze analyzeIn analyzeWith verdict
  rw [node_moves]
  cases runMoves _ tree.moves Scopes.initial <;> rfl

/-! ## Names of the open scopes -/

/-- Notes names in the innermost scope. -/
def noteIn (names : List String) : List (List String) → List (List String)
  | [] => []
  | own :: outer => (own ++ names) :: outer

/-- The name that a move declares in its scope, with what it is declared as. -/
def Move.declared : Move → Option (Declared × String)
  | .declare what _ name | .openRoutine what _ name _ _ => name.namePart.toOption.map (what, ·)
  | _ => none

/-- The name that a move declares, if any. -/
def Move.names (move : Move) : List String := (move.declared.map Prod.snd).toList

/-- The names of the open scopes, innermost first, behind a move. -/
def Move.note (move : Move) (names : List (List String)) : List (List String) :=
  match move with
  | .test _ => names
  | .declare _ _ _ => noteIn move.names names
  | .enter _ _ => [] :: names
  | .openRoutine _ _ _ parameters _ =>
      ((Parameter.ofNodes parameters).toOption.getD []).map Parameter.name ::
        noteIn move.names names
  | .leave =>
      match names with
      | _ :: around :: outer => around :: outer
      | _ => names

/-- The names of the open scopes behind moves. -/
def notes (moves : List Move) (names : List (List String)) : List (List String) :=
  moves.foldl (fun names move => move.note names) names

/-- Scopes have the names that are noted, and possibly others. -/
def Noted (s : Scopes) (names : List (List String)) : Prop :=
  List.Forall₂ (fun scope own => ∀ name ∈ own, (scope.find? name).isSome) s.toList names

theorem isSome_define {scope : Scope} {name : String} (symbol : Symbol)
    (h : (scope.find? name).isSome) : ((scope.define symbol).find? name).isSome := by
  by_cases hname : symbol.name = name
  · rw [← hname, Scope.find?_define_self]
    rfl
  · rwa [Scope.find?_define_of_ne scope hname]

theorem isSome_parameters {ps : List Parameter} {scope : Scope} {name : String}
    (h : (scope.find? name).isSome ∨ name ∈ ps.map Parameter.name) :
    ((ps.foldl (fun scope p => scope.define (.variable p.name p.type)) scope).find?
      name).isSome := by
  induction ps generalizing scope with
  | nil => simpa using h
  | cons p ps ih =>
      rw [List.map_cons, List.mem_cons] at h
      refine ih ?_
      rcases h with h | rfl | h
      · exact .inl (isSome_define _ h)
      · refine .inl ?_
        have hself := scope.find?_define_self (.variable p.name p.type)
        exact Option.isSome_iff_exists.mpr ⟨_, hself⟩
      · exact .inr h

namespace Noted

variable {s s' : Scopes} {names : List (List String)}

theorem initial : Noted Scopes.initial [[]] :=
  .cons (fun _ h => absurd h List.not_mem_nil) .nil

theorem define (h : Noted s names) {symbol : Symbol} {new : List String}
    (hnew : ∀ name ∈ new, name = symbol.name) : Noted (s.define symbol) (noteIn new names) := by
  obtain ⟨current, outer⟩ := s
  cases h with
  | cons hown houter =>
      refine .cons (fun name hname => ?_) houter
      rcases List.mem_append.mp hname with hname | hname
      · exact isSome_define symbol (hown name hname)
      · rw [hnew name hname]
        exact Option.isSome_iff_exists.mpr ⟨_, current.find?_define_self symbol⟩

theorem enter (h : Noted s names) (name : String) (kind : ScopeKind) (ps : List Parameter) :
    Noted (s.enter name kind ps) (ps.map Parameter.name :: names) :=
  .cons (fun _ hname => isSome_parameters (.inr hname)) h

theorem leave (h : Noted s names) : Noted s.leave (Move.leave.note names) := by
  obtain ⟨current, outer⟩ := s
  cases h with
  | cons hown houter =>
      cases houter with
      | nil => exact .cons hown .nil
      | cons haround hrest => exact .cons haround hrest

end Noted

/-- A move that gives a routine its own name. -/
def Move.Faithful : Move → Prop
  | .openRoutine _ _ name parameters symbol => ∀ spelled ps sym, name.namePart = .ok spelled →
      Parameter.ofNodes parameters = .ok ps → symbol spelled ps = .ok sym → sym.name = spelled
  | _ => True

section

variable {fits : Symbol → Bool} {s s' : Scopes} {u : Unit} {names : List (List String)}

/-- One move: what is noted behind it is there behind it. -/
theorem Move.noted {move : Move} (hmove : move.Faithful) (h : Noted s names)
    (hrun : move.run fits s = .ok u s') : Noted s' (move.note names) := by
  cases move with
  | test t =>
      obtain rfl := Test.check_ok hrun
      exact h
  | declare what type name =>
      obtain ⟨spelled, typeSpelled, hname, -, -, rfl⟩ := declareName_inv hrun
      refine h.define ?_
      rw [Move.names, Move.declared, hname, Declared.name_symbol]
      exact fun _ hmem => List.mem_singleton.mp hmem
  | enter stem kind =>
      cases hrun
      exact h.enter _ _ []
  | openRoutine what kind name parameters symbol =>
      obtain ⟨spelled, ps, sym, hname, hps, hsym, -, rfl⟩ := openRoutine_inv hrun
      have hnamed : sym.name = spelled := hmove spelled ps sym hname hps hsym
      rw [Move.note, hps]
      refine Noted.enter (h.define ?_) spelled kind ps
      rw [Move.names, Move.declared, hname, hnamed]
      exact fun _ hmem => List.mem_singleton.mp hmem
  | leave =>
      cases hrun
      exact h.leave

/-- All moves: what is noted behind them is there behind them. -/
theorem notes_noted {moves : List Move} (hmoves : ∀ move ∈ moves, move.Faithful)
    (h : Noted s names) (hrun : runMoves fits moves s = .ok u s') :
    Noted s' (notes moves names) := by
  induction moves generalizing s names with
  | nil =>
      cases hrun
      exact h
  | cons move rest ih =>
      obtain ⟨_, mid, hmove, hrest⟩ := bind_ok hrun
      have hmid := Move.noted (hmoves move List.mem_cons_self) h hmove
      exact ih (fun other hother => hmoves other (List.mem_cons_of_mem _ hother)) hmid hrest

theorem namePart_eq {node : Node} {what what' : Declared} {name : String}
    (h : node.namePart.toOption.map (what, ·) = some (what', name)) :
    what = what' ∧ node.namePart = .ok name := by
  cases hpart : node.namePart with
  | ok spelled =>
      rw [hpart] at h
      cases h
      exact ⟨rfl, rfl⟩
  | error f =>
      rw [hpart] at h
      cases h

theorem declare_repeated {what : Declared} {node : Node} {name : String}
    {f : String → Analysis Unit} (hname : node.namePart = .ok name) (h : s.declares name = true) :
    (do let spelled ← part node.namePart; requireNew what spelled; f spelled : Analysis Unit) s =
      .error (.semantic (.duplicate what name)) s := by
  rw [hname]
  show EStateM.bind (requireNew what name) _ s = _
  rw [EStateM.bind, requireNew, if_pos h]

/-- A name that the scope has already is not declared again. -/
theorem Move.run_repeated {move : Move} {what : Declared} {name : String} {own : List String}
    {outer : List (List String)} (h : Noted s (own :: outer))
    (hdeclared : move.declared = some (what, name)) (hown : name ∈ own) :
    move.run fits s = .error (.semantic (.duplicate what name)) s := by
  have hdeclares : s.declares name = true := by
    cases h with
    | cons hscope _ => exact hscope name hown
  cases move with
  | declare what' type node =>
      obtain ⟨rfl, hname⟩ := namePart_eq hdeclared
      exact declare_repeated hname hdeclares
  | openRoutine what' kind node parameters symbol =>
      obtain ⟨rfl, hname⟩ := namePart_eq hdeclared
      exact declare_repeated hname hdeclares
  | _ => cases hdeclared

/-- Moves that come to a name which the scope has already end there, or have ended before. -/
theorem verdict_repeated {before behind : List Move} {move : Move} {what : Declared} {name : String}
    {own : List String} {outer : List (List String)} (hmoves : ∀ move ∈ before, move.Faithful)
    (hnotes : notes before [[]] = own :: outer) (hdeclared : move.declared = some (what, name))
    (hown : name ∈ own) :
    ∃ f, verdict (before ++ move :: behind) = some f ∧
      (verdict before = some f ∨
        verdict before = none ∧ f = .semantic (.duplicate what name)) := by
  unfold verdict
  cases hbefore : runMoves (fun _ => true) before Scopes.initial with
  | error e after =>
      have hwhole : runMoves (fun _ => true) (before ++ move :: behind) Scopes.initial =
          .error e after := by
        rw [runMoves_append]
        show EStateM.bind _ _ _ = _
        rw [EStateM.bind, hbefore]
      rw [hwhole]
      exact ⟨e, rfl, .inl rfl⟩
  | ok u after =>
      have hnoted := notes_noted hmoves .initial hbefore
      rw [hnotes] at hnoted
      have hwhole : runMoves (fun _ => true) (before ++ move :: behind) Scopes.initial =
          .error (.semantic (.duplicate what name)) after := by
        rw [runMoves_append]
        show EStateM.bind _ _ _ = _
        rw [EStateM.bind, hbefore]
        show EStateM.bind (move.run _) _ after = _
        rw [EStateM.bind, Move.run_repeated hnoted hdeclared hown]
      rw [hwhole]
      exact ⟨_, rfl, .inr ⟨rfl, rfl⟩⟩

end

/-- Every move of a part that opens a routine gives it its own name. -/
theorem faithful_of_mem_moves {it : Node} {move : Move} (h : move ∈ it.moves) : move.Faithful := by
  induction it using Node.children_induction with
  | h it ih =>
      rw [moves_eq] at h
      obtain ⟨phase, hphase, hmove⟩ := List.mem_flatMap.mp h
      have hparts : ∀ part ∈ phase.parts, move ∈ part.moves → move.Faithful :=
        fun part hpart => ih part (mem_children_of_phase hphase hpart)
      cases phase with
      | test t =>
          obtain rfl := List.mem_singleton.mp hmove
          trivial
      | declare what type name =>
          obtain rfl := List.mem_singleton.mp hmove
          trivial
      | part it => exact hparts it List.mem_cons_self hmove
      | scope stem kind parts =>
          rw [Phase.moves_scope] at hmove
          simp only [List.mem_cons, List.mem_append, List.mem_flatMap, List.not_mem_nil,
            or_false] at hmove
          rcases hmove with rfl | ⟨part, hpart, hmove⟩ | rfl
          · trivial
          · exact hparts part hpart hmove
          · trivial
      | routine what kind name parameters symbol body =>
          simp only [Phase.moves, Phase.movesOf, List.mem_cons, List.mem_append, List.not_mem_nil,
            or_false] at hmove
          rcases hmove with rfl | hmove | rfl
          · intro spelled ps sym hname hps hsym
            exact (defines_of_routine hphase hname hps hsym).2.1
          · exact hparts body List.mem_cons_self hmove
          · trivial

end Analysis

end BraceScript
