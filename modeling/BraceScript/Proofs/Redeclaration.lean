import Mathlib
import BraceScript.Proofs.Lawfulness
import BraceScript.Proofs.Moves

/-! # Redeclaration — names that a scope has already

    Every routine, every branch and every loop has a block with a scope of its own, and so has the
    program.  The analysis makes moves into the block that declare the names of its statements one
    by one, each after a look at the scope.  The parameters of a routine are entered all at once,
    without a look at each other.

    * `Analysis.Paired`: moves that leave the scopes that they open;
    * `Formed.paired`, `Formed.holds`: the moves of well-formed parts, and those into their blocks;
    * `names_declared_once`: in every scope of an accepted program no name is declared twice, except
      among parameters. -/

namespace BraceScript

namespace Analysis

/-! ## Moves that leave what they open -/

/-- A move that declares its name in the scope in which it is made, and opens none. -/
def Move.Flat (move : Move) : Prop :=
  ∀ own outer, move.note (own :: outer) = (own ++ move.names) :: outer

/-- A move that declares its name in the scope in which it is made, and opens another one. -/
def Move.Opens (move : Move) : Prop :=
  ∀ own outer, ∃ inner, move.note (own :: outer) = inner :: (own ++ move.names) :: outer

/-- Moves that leave the scopes that they open, and declare these names in the scope in which they
    begin. -/
inductive Paired : List Move → List String → Prop
  | nil : Paired [] []
  | flat {move : Move} {moves : List Move} {names : List String} (hmove : move.Flat)
      (h : Paired moves names) : Paired (move :: moves) (move.names ++ names)
  | opened {move : Move} {inner moves : List Move} {innerNames names : List String}
      (hmove : move.Opens) (hinner : Paired inner innerNames) (h : Paired moves names) :
      Paired (move :: (inner ++ .leave :: moves)) (move.names ++ names)

theorem notes_append (first second : List Move) (names : List (List String)) :
    notes (first ++ second) names = notes second (notes first names) := List.foldl_append

namespace Paired

variable {moves moves' : List Move} {names' : List String}

theorem append {names : List String} (h : Paired moves names) (h' : Paired moves' names') :
    Paired (moves ++ moves') (names ++ names') := by
  induction h with
  | nil => exact h'
  | flat hmove _ ih =>
      rw [List.append_assoc]
      exact .flat hmove ih
  | opened hmove hinner _ _ ih =>
      rw [List.cons_append, List.append_assoc, List.append_assoc]
      exact .opened hmove hinner ih

theorem flatMap {α : Type} {items : List α} {f : α → List Move} {g : α → List String}
    (h : ∀ item ∈ items, Paired (f item) (g item)) :
    Paired (items.flatMap f) (items.flatMap g) := by
  induction items with
  | nil => exact .nil
  | cons first rest ih =>
      rw [List.flatMap_cons, List.flatMap_cons]
      exact (h first List.mem_cons_self).append
        (ih fun item hitem => h item (List.mem_cons_of_mem _ hitem))

/-- Behind a scope that was opened and left, the scope around it has the name that it was opened
    with. -/
theorem notes_opened {move : Move} {inner : List Move} {innerNames : List String}
    (hmove : move.Opens)
    (hinner : ∀ own outer, notes inner (own :: outer) = (own ++ innerNames) :: outer)
    (own : List String) (outer : List (List String)) :
    notes (move :: (inner ++ .leave :: moves)) (own :: outer) =
      notes moves ((own ++ move.names) :: outer) := by
  obtain ⟨first, hfirst⟩ := hmove own outer
  calc notes (move :: (inner ++ .leave :: moves)) (own :: outer)
      = notes (.leave :: moves) (notes inner (move.note (own :: outer))) := notes_append _ _ _
    _ = notes (.leave :: moves) ((first ++ innerNames) :: (own ++ move.names) :: outer) := by
        rw [hfirst, hinner]
    _ = notes moves ((own ++ move.names) :: outer) := rfl

/-- Behind paired moves, the scope in which they began has their names. -/
theorem notes_eq {names : List String} (h : Paired moves names) (own : List String)
    (outer : List (List String)) : notes moves (own :: outer) = (own ++ names) :: outer := by
  induction h generalizing own outer with
  | nil =>
      rw [List.append_nil]
      rfl
  | @flat move moves names hmove _ ih =>
      calc notes (move :: moves) (own :: outer)
          = notes moves (move.note (own :: outer)) := rfl
        _ = (own ++ (move.names ++ names)) :: outer := by
            rw [hmove own outer, ih, List.append_assoc]
  | opened hmove _ _ ihinner ih =>
      rw [notes_opened hmove ihinner, ih, List.append_assoc]

/-- Where a name stands among the names of moves: it is that of the first move, or it stands among
    those of the others. -/
theorem split_names {move : Move} {names front back : List String} {name : String}
    (h : move.names ++ names = front ++ name :: back) :
    (front = [] ∧ ∃ what, move.declared = some (what, name)) ∨
      ∃ rest, front = move.names ++ rest ∧ names = rest ++ name :: back := by
  unfold Move.names at h ⊢
  cases hdeclared : move.declared with
  | none =>
      rw [hdeclared] at h
      exact .inr ⟨front, rfl, h⟩
  | some declared =>
      rw [hdeclared] at h
      cases front with
      | nil =>
          cases h
          exact .inl ⟨rfl, declared.1, rfl⟩
      | cons head rest =>
          cases h
          exact .inr ⟨rest, rfl, rfl⟩

/-- Every name of paired moves is declared by one of them, behind those that declare the names
    before it. -/
theorem split {names front back : List String} {name : String} (h : Paired moves names)
    (hnames : names = front ++ name :: back) :
    ∃ before move behind what, moves = before ++ move :: behind ∧
      move.declared = some (what, name) ∧
      ∀ own outer, notes before (own :: outer) = (own ++ front) :: outer := by
  induction h generalizing front with
  | nil => exact absurd hnames (by simp)
  | @flat first _ _ hmove _ ih =>
      rcases split_names hnames with ⟨rfl, what, hdeclared⟩ | ⟨rest, rfl, hrest⟩
      · refine ⟨[], first, _, what, rfl, hdeclared, fun own outer => ?_⟩
        rw [List.append_nil]
        rfl
      · obtain ⟨before, move, behind, what, rfl, hdeclared, hnotes⟩ := ih hrest
        refine ⟨first :: before, move, behind, what, rfl, hdeclared, fun own outer => ?_⟩
        calc notes (first :: before) (own :: outer)
            = notes before (first.note (own :: outer)) := rfl
          _ = (own ++ (first.names ++ rest)) :: outer := by
              rw [hmove own outer, hnotes, List.append_assoc]
  | @opened first inner _ _ _ hmove hinner _ _ ih =>
      rcases split_names hnames with ⟨rfl, what, hdeclared⟩ | ⟨rest, rfl, hrest⟩
      · refine ⟨[], first, _, what, rfl, hdeclared, fun own outer => ?_⟩
        rw [List.append_nil]
        rfl
      · obtain ⟨before, move, behind, what, rfl, hdeclared, hnotes⟩ := ih hrest
        refine ⟨first :: (inner ++ .leave :: before), move, behind, what, by simp, hdeclared, ?_⟩
        intro own outer
        rw [notes_opened hmove hinner.notes_eq, hnotes, List.append_assoc]

end Paired

/-! ## The moves of well-formed parts -/

/-- The names that a phase declares in its scope. -/
def Phase.names : Phase → List String
  | .declare _ _ name | .routine _ _ name _ _ _ => name.namePart.toOption.toList
  | .part it => it.declaredBehind.map Declaration.name
  | _ => []

theorem Move.names_declare (what : Declared) (type name : Node) :
    (Move.declare what type name).names = name.namePart.toOption.toList := by
  rw [Move.names, Move.declared]
  cases name.namePart.toOption <;> rfl

theorem Move.names_openRoutine (what : Declared) (kind : ScopeKind) (name : Node)
    (parameters : List Node) (symbol : String → List Parameter → Except Fault Symbol) :
    (Move.openRoutine what kind name parameters symbol).names = name.namePart.toOption.toList := by
  rw [Move.names, Move.declared]
  cases name.namePart.toOption <;> rfl

theorem Move.enter_opens (stem : String) (kind : ScopeKind) : (Move.enter stem kind).Opens := by
  intro own outer
  refine ⟨[], ?_⟩
  show [] :: own :: outer = [] :: (own ++ []) :: outer
  rw [List.append_nil]

theorem Move.test_flat (t : Test) : (Move.test t).Flat := by
  intro own outer
  show own :: outer = (own ++ []) :: outer
  rw [List.append_nil]

theorem Paired.phase {phase : Phase}
    (h : ∀ part ∈ phase.parts, Paired part.moves (part.declaredBehind.map Declaration.name)) :
    Paired phase.moves phase.names := by
  cases phase with
  | test t => exact .flat (Move.test_flat t) .nil
  | declare what type name =>
      have hflat : (Move.declare what type name).Flat := fun _ _ => rfl
      have hpaired := Paired.flat hflat .nil
      rwa [Move.names_declare, List.append_nil] at hpaired
  | part it => exact h it List.mem_cons_self
  | scope stem kind parts =>
      rw [Phase.moves_scope]
      exact .opened (Move.enter_opens stem kind) (.flatMap h) .nil
  | routine what kind name parameters symbol body =>
      have hopens : (Move.openRoutine what kind name parameters symbol).Opens := fun _ _ => ⟨_, rfl⟩
      have hpaired := Paired.opened hopens (h body List.mem_cons_self) .nil
      rwa [Move.names_openRoutine, List.append_nil] at hpaired

theorem names_parts {parts : List Node} (h : ∀ part ∈ parts, part.declaredBehind = []) :
    (parts.map Phase.part).flatMap Phase.names = [] := by
  induction parts with
  | nil => rfl
  | cons first rest ih =>
      rw [List.map_cons, List.flatMap_cons, Phase.names, h first List.mem_cons_self,
        ih fun part hpart => h part (List.mem_cons_of_mem _ hpart)]
      rfl

theorem names_present {part : Node} (h : part.declaredBehind = []) :
    part.presentPhase.flatMap Phase.names = [] := by
  unfold Node.presentPhase
  split
  · rfl
  · rw [List.flatMap_singleton, Phase.names, h]
    rfl

end Analysis

namespace Formed

open Analysis

variable {W : String → Prop} {c : Category} {it : Node}

theorem names_label {label : Node} (h : Formed W .name label) :
    label.namePart.toOption.toList = [label.spelling] := by
  cases h
  rfl

theorem names_namePhases {what : Declared} {role : Role} {type : Node} {names values : List Node}
    (hnames : ∀ name ∈ names, Formed W .name name)
    (hvalues : ∀ value ∈ values, Formed W .expression value)
    (hlength : (values = [] ∧ what ≠ .constant) ∨ names.length = values.length) :
    (Node.namePhases what type names values).flatMap Phase.names =
      (Node.declaredAs role names).map Declaration.name := by
  induction values generalizing names with
  | nil =>
      have hphases : Node.namePhases what type names [] = names.map (.declare what type) := by
        rcases hlength with ⟨-, hwhat⟩ | hlength
        · cases what with
          | constant => exact absurd rfl hwhat
          | _ => cases names <;> rfl
        · rw [List.eq_nil_of_length_eq_zero hlength]
          cases what <;> rfl
      rw [hphases, Node.declaredAs, List.map_map]
      clear hphases hlength
      induction names with
      | nil => rfl
      | cons name names ih =>
          rw [List.map_cons, List.flatMap_cons, Phase.names,
            names_label (hnames name List.mem_cons_self),
            ih fun other hother => hnames other (List.mem_cons_of_mem _ hother)]
          rfl
  | cons value values ih =>
      cases names with
      | nil => exact absurd hlength (by simp)
      | cons name names =>
          have hrest := ih (fun other hother => hnames other (List.mem_cons_of_mem _ hother))
            (fun other hother => hvalues other (List.mem_cons_of_mem _ hother))
            (.inr (by simpa using hlength))
          rw [Node.namePhases, List.flatMap_cons, List.flatMap_cons, hrest, Phase.names,
            Phase.names, names_label (hnames name List.mem_cons_self),
            (hvalues value List.mem_cons_self).declaredBehind_eq_nil rfl]
          rfl

theorem names_part (h : Formed W c it) (hc : c.mayDeclare = false) :
    (Phase.part it).names = [] := by
  rw [Phase.names, h.declaredBehind_eq_nil hc]
  rfl

/-- The phases of a part declare what is declared behind it. -/
theorem names_phases (h : Formed W c it) (hc : c ≠ .program) :
    it.phases.flatMap Phase.names = it.declaredBehind.map Declaration.name := by
  induction h with
  | present _ ih => exact ih (by decide)
  | functionCall _ harguments =>
      rw [Node.phases, List.flatMap_cons, names_parts]
      · rfl
      · exact fun a ha => (harguments a ha).declaredBehind_eq_nil rfl
  | procedureCall _ harguments =>
      rw [Node.phases, List.flatMap_cons, names_parts]
      · rfl
      · exact fun a ha => (harguments a ha).declaredBehind_eq_nil rfl
  | binary _ hleft hright _ _ | logical _ hleft hright _ _ | comparison _ hleft hright _ _ =>
      rw [Node.phases, List.flatMap_cons, List.flatMap_singleton, names_part hleft rfl,
        names_part hright rfl]
      rfl
  | unary _ h _ | negation _ h _ | truth h _ | display h _ =>
      rw [Node.phases, List.flatMap_singleton, names_part h rfl]
      rfl
  | give h _ =>
      rw [Node.phases, List.flatMap_cons, names_present (h.declaredBehind_eq_nil rfl)]
      rfl
  | variableDecl _ hnames hvalues hlength _ _ _ =>
      exact names_namePhases hnames hvalues (hlength.imp (fun h => ⟨h, by decide⟩) id)
  | constantDecl _ hnames hvalues hlength _ _ _ =>
      exact names_namePhases hnames hvalues (.inr hlength)
  | assignment _ hvalue _ _ =>
      rw [Node.phases, List.flatMap_cons, List.flatMap_singleton, names_part hvalue rfl]
      rfl
  | functionDecl hname _ _ _ _ _ _ _ | procedureDecl hname _ _ _ _ _ =>
      rw [Node.phases, List.flatMap_singleton, Phase.names, names_label hname]
      rfl
  | block hstatements _ =>
      rw [Node.phases, Node.declaredBehind, List.flatMap_map, List.map_flatMap]
      refine List.flatMap_congr fun statement hstatement => ?_
      rw [Phase.names, (hstatements statement hstatement).declaredBehind_eq]
  | program h _ => exact absurd rfl hc
  | ifElse hcondition _ helifs halternative _ _ _ _ =>
      rw [Node.phases, List.flatMap_cons, List.flatMap_cons, List.flatMap_append, names_parts,
        names_present (halternative.declaredBehind_eq_nil rfl), names_part hcondition rfl]
      · rfl
      · exact fun e he => (helifs e he).declaredBehind_eq_nil rfl
  | elif hcondition _ _ _ | whileLoop hcondition _ _ _ =>
      rw [Node.phases, List.flatMap_cons, List.flatMap_singleton, names_part hcondition rfl]
      rfl
  | forLoop _ _ htermination hstep _ _ _ _ _ =>
      rw [Node.phases, List.flatMap_cons, List.flatMap_append,
        names_present (hstep.declaredBehind_eq_nil rfl), names_part htermination rfl]
      rfl
  | _ => rfl

/-- The moves of a part leave the scopes that they open, and declare what is declared behind it. -/
theorem paired (h : Formed W c it) (hc : c ≠ .program) :
    Paired it.moves (it.declaredBehind.map Declaration.name) := by
  induction it using Node.children_induction generalizing c with
  | h it ih =>
      rw [moves_eq, ← h.names_phases hc]
      refine .flatMap fun phase hphase => .phase fun part hpart => ?_
      have hchild := mem_children_of_phase hphase hpart
      obtain ⟨c', hpart, hc'⟩ := h.children hchild
      exact ih part hchild hpart hc'

end Formed

/-! ## Blocks -/

/-- A block with a scope of its own: the names of its parameters, and those that its statements
    declare, in order. -/
structure Block where
  parameters : List String
  declared : List String

/-- All names of the scope of a block. -/
def Block.names (block : Block) : List String := block.parameters ++ block.declared

/-- The block with a scope of its own that a part has. -/
def Node.ownBlock? : Node → Option Block
  | .program body | .ifElse _ body _ _ | .elif _ body | .otherwise body | .whileLoop _ body
  | .forLoop _ _ _ body => some ⟨[], body.declaredBehind.map Declaration.name⟩
  | .functionDecl _ parameters _ body | .procedureDecl _ parameters body =>
      some ⟨parameters.map Node.spelling, body.declaredBehind.map Declaration.name⟩
  | _ => none

namespace Analysis

/-- The block with a scope of its own that a phase analyzes. -/
def Phase.ownBlock? : Phase → Option Block
  | .scope _ _ parts =>
      some ⟨[], parts.flatMap fun part => part.declaredBehind.map Declaration.name⟩
  | .routine _ _ _ parameters _ body =>
      some ⟨((Parameter.ofNodes parameters).toOption.getD []).map Parameter.name,
        body.declaredBehind.map Declaration.name⟩
  | _ => none

/-- Moves go into a block with a scope of its own: one of them opens the scope, with the parameters,
    and paired moves declare the other names. -/
def Holds (moves : List Move) (block : Block) : Prop :=
  ∃ before opening inner behind, moves = before ++ opening :: (inner ++ behind) ∧
    (∀ names, ∃ outer, opening.note names = block.parameters :: outer) ∧
    Paired inner block.declared

theorem Holds.of_stretch {moves moves' : List Move} {block : Block} (h : Holds moves block)
    (hstretch : moves <:+: moves') : Holds moves' block := by
  obtain ⟨before, opening, inner, behind, rfl, hopening, hinner⟩ := h
  obtain ⟨first, last, rfl⟩ := hstretch
  exact ⟨first ++ before, opening, inner, behind ++ last, by simp, hopening, hinner⟩

theorem Phase.holds {phase : Phase} {block : Block}
    (h : ∀ part ∈ phase.parts, Paired part.moves (part.declaredBehind.map Declaration.name))
    (hblock : phase.ownBlock? = some block) : Holds phase.moves block := by
  cases phase with
  | scope stem kind parts =>
      cases hblock
      exact ⟨[], .enter stem kind, _, [.leave], Phase.moves_scope stem kind parts,
        fun names => ⟨names, rfl⟩, .flatMap h⟩
  | routine what kind name parameters symbol body =>
      cases hblock
      exact ⟨[], .openRoutine what kind name parameters symbol, _, [.leave], rfl,
        fun names => ⟨_, rfl⟩, h body List.mem_cons_self⟩
  | _ => cases hblock

theorem Phase.moves_contained {it : Node} {phase : Phase} (h : phase ∈ it.phases) :
    phase.moves <:+: it.moves := by
  rw [moves_eq]
  exact List.infix_of_mem_flatten (List.mem_map_of_mem h)

theorem part_moves_contained {phase : Phase} {part : Node} (h : part ∈ phase.parts) :
    part.moves <:+: phase.moves := by
  cases phase with
  | part it =>
      obtain rfl := List.mem_singleton.mp h
      exact List.infix_rfl
  | scope stem kind parts =>
      rw [Phase.moves_scope]
      have hinner : part.moves <:+: parts.flatMap Node.moves :=
        List.infix_of_mem_flatten (List.mem_map_of_mem h)
      exact hinner.trans ⟨[.enter stem kind], [.leave], rfl⟩
  | routine what kind name parameters symbol body =>
      obtain rfl := List.mem_singleton.mp h
      exact ⟨[.openRoutine what kind name parameters symbol], [.leave], rfl⟩
  | _ => exact absurd h List.not_mem_nil

end Analysis

namespace Formed

open Analysis

variable {W : String → Prop} {c : Category} {it part : Node} {block : Block}

/-- Parts of parts are no programs. -/
theorem inner (h : Formed W c it) (hc : c ≠ .program) (hpart : part ∈ it.parts) :
    ∃ c', Formed W c' part ∧ c' ≠ .program := by
  induction it using Node.children_induction generalizing c with
  | h it ih =>
      rcases Node.mem_parts.mp hpart with rfl | ⟨child, hchild, hpart⟩
      · exact ⟨c, h, hc⟩
      · obtain ⟨c', hformed, hc'⟩ := h.children hchild
        exact ih child hchild hformed hc' hpart

/-- The analysis of a well-formed part makes the moves of all its parts, labels apart. -/
theorem moves_contained (h : Formed W c it) (hpart : part ∈ it.parts) (hlabel : ¬ part.IsLabel) :
    part.moves <:+: it.moves := by
  induction it using Node.children_induction generalizing c with
  | h it ih =>
      rcases Node.mem_parts.mp hpart with rfl | ⟨child, hchild, hpart⟩
      · exact List.infix_rfl
      · obtain ⟨c', hformed, -⟩ := h.children hchild
        rcases h.analyzed hchild with hchildLabel | ⟨phase, hphase, hmem⟩
        · exact absurd (hformed.parts_label hchildLabel hpart) hlabel
        · have hinner := ih child hchild hformed hpart
          exact (hinner.trans (part_moves_contained hmem)).trans (Phase.moves_contained hphase)

/-- The names of parameters are those that they spell. -/
theorem names_parameters {parameters : List Node}
    (h : ∀ p ∈ parameters, Formed IsWord .parameter p) :
    ((Parameter.ofNodes parameters).toOption.getD []).map Parameter.name =
      parameters.map Node.spelling := by
  obtain ⟨ps, hps, hnames⟩ := Formed.ofNodes h
  have hspelled := congrArg (List.map Declaration.name) hnames
  rw [Node.declaredAs, List.map_map, List.map_map] at hspelled
  rw [hps]
  exact hspelled

/-- A block with a scope of its own is analyzed in one phase. -/
theorem phase_ownBlock (h : Formed IsWord c it) (hc : c ≠ .program)
    (hblock : it.ownBlock? = some block) : ∃ phase ∈ it.phases, phase.ownBlock? = some block := by
  induction h with
  | present _ ih => exact ih (by decide) hblock
  | functionDecl _ hparameters _ _ _ _ _ _ | procedureDecl _ hparameters _ _ _ _ =>
      cases hblock
      refine ⟨_, List.mem_cons_self, ?_⟩
      rw [Phase.ownBlock?, names_parameters hparameters]
  | ifElse _ _ _ _ _ _ _ _ =>
      cases hblock
      refine ⟨_, List.mem_cons_of_mem _ List.mem_cons_self, ?_⟩
      rw [Phase.ownBlock?, List.flatMap_singleton]
  | elif _ _ _ _ | whileLoop _ _ _ _ =>
      cases hblock
      refine ⟨_, List.mem_cons_of_mem _ List.mem_cons_self, ?_⟩
      rw [Phase.ownBlock?, List.flatMap_singleton]
  | otherwise _ _ =>
      cases hblock
      refine ⟨_, List.mem_cons_self, ?_⟩
      rw [Phase.ownBlock?, List.flatMap_singleton]
  | @forLoop target value termination step body _ _ _ _ _ _ _ _ _ _ =>
      cases hblock
      refine ⟨.scope "for_statement_" .forBlock [.assignment target value, body], ?_, ?_⟩
      · simp [Node.phases]
      · rw [Phase.ownBlock?, List.flatMap_cons, List.flatMap_singleton]
        rfl
  | program _ _ => exact absurd rfl hc
  | _ => cases hblock

/-- The moves of a part go into its block. -/
theorem holds (h : Formed IsWord c it) (hc : c ≠ .program) (hblock : it.ownBlock? = some block) :
    Holds it.moves block := by
  obtain ⟨phase, hphase, hblock⟩ := h.phase_ownBlock hc hblock
  refine Holds.of_stretch (phase.holds (fun part hpart => ?_) hblock) (Phase.moves_contained hphase)
  obtain ⟨c', hformed, hc'⟩ := h.children (mem_children_of_phase hphase hpart)
  exact hformed.paired hc'

end Formed

/-! ## Programs -/

open Analysis (Move verdict notes Paired)

/-- If no name of the second list repeats one before it, the lists together repeat a name only if
    the first one does. -/
theorem nodup_append_iff {first second : List String}
    (h : ∀ front name back, second = front ++ name :: back → name ∉ first ++ front) :
    (first ++ second).Nodup ↔ first.Nodup := by
  induction second generalizing first with
  | nil => rw [List.append_nil]
  | cons name rest ih =>
      have hnew : name ∉ first := by
        have := h [] name rest rfl
        rwa [List.append_nil] at this
      have hrest : (first ++ [name] ++ rest).Nodup ↔ (first ++ [name]).Nodup := by
        refine ih fun front other back hsplit => ?_
        rw [List.append_assoc, List.singleton_append]
        exact h (name :: front) other back (by rw [hsplit, List.cons_append])
      rw [← List.singleton_append, ← List.append_assoc, hrest, List.nodup_append_comm]
      simp [hnew]

/-- The moves of a program that declare the names of a block, each behind those before it. -/
theorem declared_by_moves {source : String} {tree part : Node} {block : Block}
    (hparse : parse source = .ok tree) (hpart : part ∈ tree.parts)
    (hblock : part.ownBlock? = some block) {front back : List String} {name : String}
    (hsplit : block.declared = front ++ name :: back) :
    ∃ before move behind what outer, tree.moves = before ++ move :: behind ∧
      move.declared = some (what, name) ∧
      notes before [[]] = (block.parameters ++ front) :: outer := by
  cases parse_formed hparse with
  | @program body hbody =>
      have hprogram : (Node.program body).moves = body.moves := by
        rw [Analysis.moves_eq]
        simp [Node.phases, Analysis.Phase.moves, Analysis.Phase.movesOf]
      rcases Node.mem_parts.mp hpart with rfl | ⟨child, hchild, hwithin⟩
      · cases hblock
        obtain ⟨before, move, behind, what, hmoves, hdeclared, hnotes⟩ :=
          (hbody.paired (by decide)).split hsplit
        exact ⟨before, move, behind, what, [], hprogram.trans hmoves, hdeclared, hnotes [] []⟩
      · obtain rfl := List.mem_singleton.mp hchild
        obtain ⟨c, hformed, hc⟩ := hbody.inner (by decide) hwithin
        have hlabel : ¬ part.IsLabel := by
          intro hlabel
          cases part with
          | absent | identifier _ | typeName _ | parameter _ _ => cases hblock
          | _ => exact hlabel
        obtain ⟨before, opening, inner, behind, hmoves, hopening, hinner⟩ :=
          (hformed.holds hc hblock).of_stretch (hbody.moves_contained hwithin hlabel)
        obtain ⟨first, move, last, what, rfl, hdeclared, hnotes⟩ := hinner.split hsplit
        obtain ⟨outer, houter⟩ := hopening (notes before [[]])
        refine ⟨before ++ opening :: first, move, last ++ behind, what, outer, ?_, hdeclared, ?_⟩
        · rw [hprogram, hmoves]
          simp
        · rw [Analysis.notes_append]
          show notes first (opening.note (notes before [[]])) = _
          rw [houter, hnotes]

/-- A scope has one declaration per name, parameters apart.  In a program that the analysis accepts,
    the names that a block declares differ from each other and from its parameters, so that all its
    names differ exactly if its parameters do.  A program in which a block declares a name again, or
    declares that of a parameter, is rejected: the moves before that declaration end with the same
    error already, or the error is that the name is declared twice. -/
theorem names_declared_once {source : String} {tree part : Node} {block : Block}
    (hparse : parse source = .ok tree) (hpart : part ∈ tree.parts)
    (hblock : part.ownBlock? = some block) :
    ((analyze tree).1 = none → (block.names.Nodup ↔ block.parameters.Nodup)) ∧
      ∀ front name back, block.declared = front ++ name :: back →
        name ∈ block.parameters ++ front →
        ∃ before move behind what f, tree.moves = before ++ move :: behind ∧
          move.declared = some (what, name) ∧ (analyze tree).1 = some f ∧
          (verdict before = some f ∨
            verdict before = none ∧ f = .semantic (.duplicate what name)) := by
  have hrejected : ∀ front name back, block.declared = front ++ name :: back →
      name ∈ block.parameters ++ front →
      ∃ before move behind what f, tree.moves = before ++ move :: behind ∧
        move.declared = some (what, name) ∧ (analyze tree).1 = some f ∧
        (verdict before = some f ∨
          verdict before = none ∧ f = .semantic (.duplicate what name)) := by
    intro front name back hsplit hname
    obtain ⟨before, move, behind, what, outer, hmoves, hdeclared, hnotes⟩ :=
      declared_by_moves hparse hpart hblock hsplit
    have hfaithful : ∀ move ∈ before, move.Faithful := by
      intro move hmove
      have hmem : move ∈ tree.moves := by
        rw [hmoves]
        exact List.mem_append_left _ hmove
      exact Analysis.faithful_of_mem_moves hmem
    obtain ⟨f, hverdict, hf⟩ := Analysis.verdict_repeated hfaithful hnotes hdeclared hname
    refine ⟨before, move, behind, what, f, hmoves, hdeclared, ?_, hf⟩
    rw [Analysis.analyze_eq_verdict, hmoves]
    exact hverdict
  refine ⟨fun haccepted => nodup_append_iff fun front name back hsplit hname => ?_, hrejected⟩
  obtain ⟨_, _, _, _, f, -, -, hf, -⟩ := hrejected front name back hsplit hname
  rw [haccepted] at hf
  cases hf

/-- A variable of a procedure repeats the name of a parameter. -/
theorem names_declared_once_of_parameter :
    ∃ source tree part block, parse source = .ok tree ∧ part ∈ tree.parts ∧
      part.ownBlock? = some block ∧ block.declared = ["b"] ++ "a" :: [] ∧
      "a" ∈ block.parameters ++ ["b"] ∧
      ∃ before move behind what f, tree.moves = before ++ move :: behind ∧
        move.declared = some (what, "a") ∧ (analyze tree).1 = some f ∧
        (verdict before = some f ∨
          verdict before = none ∧ f = .semantic (.duplicate what "a")) := by
  let boolean := Node.typeName "boolean"
  let part := Node.procedureDecl (.identifier "p") [.parameter (.identifier "a") boolean]
    (.block [.variableDecl boolean [.identifier "b", .identifier "a"] []])
  let tree := Node.program (.block [part])
  have hparse : parse "\x7b\nproc p(boolean a) \x7b\nlet boolean b, a\n\x7d\n\x7d" = .ok tree := by
    cbv
  have hbody : Node.block [part] ∈ tree.parts :=
    Node.mem_parts_of_mem_children (Node.self_mem_parts tree) List.mem_cons_self
  have hpart : part ∈ tree.parts := Node.mem_parts_of_mem_children hbody List.mem_cons_self
  exact ⟨_, tree, part, ⟨["a"], ["b", "a"]⟩, hparse, hpart, rfl, rfl, by decide,
    (names_declared_once hparse hpart rfl).2 ["b"] "a" [] rfl (by decide)⟩

/-- Two parameters of a procedure have the same name, and the analysis accepts that. -/
theorem repeated_parameters_accepted :
    ∃ source tree part block, parse source = .ok tree ∧ part ∈ tree.parts ∧
      part.ownBlock? = some block ∧ ¬ block.names.Nodup ∧ (analyze tree).1 = none := by
  let number := Node.typeName "number"
  let a := Node.identifier "a"
  let part := Node.procedureDecl (.identifier "p") [.parameter a number, .parameter a number]
    (.block [.display a])
  let tree := Node.program (.block [part])
  have hparse : parse "\x7b\nproc p(number a, number a) \x7b\nshow a\n\x7d\n\x7d" = .ok tree := by
    cbv
  have hbody : Node.block [part] ∈ tree.parts :=
    Node.mem_parts_of_mem_children (Node.self_mem_parts tree) List.mem_cons_self
  have hpart : part ∈ tree.parts := Node.mem_parts_of_mem_children hbody List.mem_cons_self
  have haccepted : (analyze tree).1 = none := by cbv
  exact ⟨_, tree, part, ⟨["a", "a"], []⟩, hparse, hpart, rfl, by decide, haccepted⟩

end BraceScript
