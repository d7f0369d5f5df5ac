import BraceScript.Proofs.Deepening
import BraceScript.Proofs.Twins

/-! # Branches — elifs are ifs in else blocks

    An if statement tries its branches in order.  The first elif and all that is behind it could as
    well stand in an else block, as an if statement of their own: a run does not tell the
    difference, and neither does the analysis, which opens one block more around them.

    * `Branch`, `chained`, `nested`: if statements with elifs, and the same ones without;
    * `ends_nested_iff`: both end alike on every machine;
    * `nested_matches`: both are judged alike in all scopes inside a program;
    * `elif_chains_nest`: the two together, in all scopes that an analyzer comes to, and for every
      if statement of a program. -/

namespace BraceScript

/-! ## If statements -/

/-- A branch of an if statement: what is tested, and the statements of its block. -/
structure Branch where
  condition : Node
  statements : List Node
  isExpression : condition.IsExpression

/-- A branch as an elif. -/
def Branch.elif (branch : Branch) : Node := .elif branch.condition (.block branch.statements)

/-- The statements behind an else, if there is one. -/
def alternative : Option (List Node) → Node
  | none => .absent
  | some statements => .otherwise (.block statements)

/-- An if statement with elifs for all branches but the first. -/
def chained (first : Branch) (rest : List Branch) (last : Option (List Node)) : Node :=
  .ifElse first.condition (.block first.statements) (rest.map Branch.elif) (alternative last)

/-- The same if statement without elifs: what is behind the first branch is an if statement that
    stands alone in an else block. -/
def nested (first : Branch) (rest : List Branch) (last : Option (List Node)) : Node :=
  match rest with
  | [] => chained first [] last
  | next :: rest => chained first [] (some [nested next rest last])

/-- Every well-formed if statement is a chain of branches. -/
theorem Formed.exists_chained {W : String → Prop} {c : Category} {condition body last : Node}
    {elifs : List Node} (h : Formed W c (.ifElse condition body elifs last)) :
    ∃ first rest alternatives,
      Node.ifElse condition body elifs last = chained first rest alternatives := by
  cases h with
  | ifElse hcondition hbody helifs hlast =>
      have hbranches : ∃ rest : List Branch, elifs = rest.map Branch.elif := by
        induction elifs with
        | nil => exact ⟨[], rfl⟩
        | cons first elifs ih =>
            obtain ⟨rest, rfl⟩ := ih fun e he => helifs e (List.mem_cons_of_mem _ he)
            cases helifs first List.mem_cons_self with
            | elif htest hblock =>
                cases hblock
                exact ⟨⟨_, _, htest.mono fun _ _ => trivial⟩ :: rest, rfl⟩
      obtain ⟨rest, rfl⟩ := hbranches
      cases hbody
      have htest : condition.IsExpression := hcondition.mono fun _ _ => trivial
      cases hlast with
      | noAlternative => exact ⟨⟨condition, _, htest⟩, rest, none, rfl⟩
      | otherwise hblock =>
          cases hblock
          exact ⟨⟨condition, _, htest⟩, rest, some _, rfl⟩
  | present h => cases h

/-! ## Runs -/

namespace Action

theorem evaluate_ifElse (condition body : Node) (elifs : List Node) (last : Node) :
    evaluate (.ifElse condition body elifs last) = (do
      if ← Action.condition condition then eval body else branches elifs last) := rfl

/-- The elifs of an if statement are tried as the branches of one that begins there. -/
theorem branches_elif (branch : Branch) (elifs : List Node) (last : Node) :
    branches (branch.elif :: elifs) last =
      evaluate (.ifElse branch.condition (.block branch.statements) elifs last) := rfl

namespace Ends

variable {m m' : Machine} {v : Value} {e : Ending Value}

/-- What a statement may complete with. -/
def Plain (v : Value) : Prop := v = .nothing ∨ ∃ given, v = .given given

theorem block_plain {statements : List Node} (h : Ends (block statements) m (.ok v m')) :
    Plain v := by
  induction statements generalizing m with
  | nil =>
      obtain ⟨D, hD⟩ := h
      cases hD D le_rfl
      exact .inl rfl
  | cons statement rest ih =>
      rcases bind_inv (.eval statement) h with ⟨w, m₁, -, hrest⟩ | ⟨exit, m₁, -, hexit⟩
      · cases w with
        | given w =>
            obtain ⟨D, hD⟩ := hrest
            cases hD D le_rfl
            exact .inr ⟨w, rfl⟩
        | _ => exact ih hrest
      · cases hexit

theorem branches_plain {rest : List Branch} {last : Option (List Node)}
    (h : Ends (branches (rest.map Branch.elif) (alternative last)) m (.ok v m')) : Plain v := by
  induction rest generalizing m with
  | nil =>
      cases last with
      | none =>
          obtain ⟨D, hD⟩ := h
          cases hD D le_rfl
          exact .inl rfl
      | some statements => exact block_plain (eval_iff.mp h)
  | cons branch rest ih =>
      rw [List.map_cons, branches_elif, evaluate_ifElse] at h
      rcases bind_inv (.condition _) h with ⟨b, m₁, -, hrest⟩ | ⟨exit, m₁, -, hexit⟩
      · cases b with
        | true => exact block_plain (eval_iff.mp hrest)
        | false => exact ih hrest
      · cases hexit

/-- An if statement completes with nothing, or with what one of its blocks gives. -/
theorem chained_plain {first : Branch} {rest : List Branch} {last : Option (List Node)}
    (h : Ends (Action.eval (chained first rest last)) m (.ok v m')) : Plain v := by
  have hbranches :
      Ends (branches ((first :: rest).map Branch.elif) (alternative last)) m (.ok v m') :=
    eval_iff.mp h
  exact branches_plain hbranches

/-- A statement that stands alone in a block. -/
theorem block_single {statement : Node}
    (hplain : ∀ v m m', Ends (Action.eval statement) m (.ok v m') → Plain v) :
    Ends (Action.eval (.block [statement])) m e ↔ Ends (Action.eval statement) m e := by
  refine eval_iff.trans ⟨fun h => ?_, fun h => ?_⟩
  · rcases bind_inv (.eval statement) h with ⟨v, m₁, hfirst, hrest⟩ | ⟨exit, m₁, hfirst, rfl⟩
    · obtain ⟨D, hD⟩ := hrest
      have he := hD D le_rfl
      rcases hplain v _ _ hfirst with rfl | ⟨given, rfl⟩
      · cases he
        exact hfirst
      · cases he
        exact hfirst
    · exact hfirst
  · cases e with
    | ok v m' =>
        rcases hplain v _ _ h with rfl | ⟨given, rfl⟩
        · exact block_next h pure
        · exact block_given h
    | error exit m' => exact block_cut h

end Ends

end Action

/-- With elifs and without, an if statement ends alike. -/
theorem ends_nested_iff {first : Branch} {rest : List Branch} {last : Option (List Node)}
    {m : Machine} {e : Ending Value} :
    Action.Ends (Action.eval (nested first rest last)) m e ↔
      Action.Ends (Action.eval (chained first rest last)) m e := by
  induction rest generalizing first m e with
  | nil => exact .rfl
  | cons next rest ih =>
      rw [Action.Ends.eval_iff, Action.Ends.eval_iff]
      refine Action.Ends.bind_congr (.condition _) fun b n => ?_
      cases b with
      | true => exact .rfl
      | false =>
          have hplain : ∀ v m m', Action.Ends (Action.eval (nested next rest last)) m (.ok v m') →
              Action.Ends.Plain v := fun v m m' h => Action.Ends.chained_plain (ih.mp h)
          calc Action.Ends (Action.branches [] (.otherwise (.block [nested next rest last]))) n e
              ↔ Action.Ends (Action.eval (nested next rest last)) n e :=
                Action.Ends.block_single hplain
            _ ↔ Action.Ends (Action.eval (chained next rest last)) n e := ih
            _ ↔ Action.Ends
                (Action.branches ((next :: rest).map Branch.elif) (alternative last)) n e :=
                Action.Ends.eval_iff

/-! ## Analyses -/

namespace Analysis

variable {fits : Symbol → Bool} {R : Scopes → Scopes → Prop}

/-- The analysis of an if statement. -/
theorem node_chained (first : Branch) (rest : List Branch) (last : Option (List Node)) :
    node fits (chained first rest last) = (do
      node fits first.condition
      Phase.run fits (.scope "if_statement_" .ifBlock [.block first.statements])
      nodes fits (rest.map Branch.elif)
      runAll fits (alternative last).presentPhase) := by
  rw [node_eq, nodes_eq]
  simp only [chained, Node.phases, runAll, runAll_append]
  rfl

theorem node_elif (branch : Branch) :
    node fits branch.elif = (do
      node fits branch.condition
      Phase.run fits (.scope "elif_statement_" .elifBlock [.block branch.statements])) := by
  rw [node_eq]
  simp [Branch.elif, Node.phases, runAll, Phase.run]

section

variable (hR : ∀ s t, R s t → s.Alike t)

include hR

theorem elif_matches (branch : Branch) :
    Matches R R (node fits branch.elif) (node fits branch.elif) := by
  rw [node_elif]
  refine (Matches.expression hR branch.isExpression).bind fun _ => ?_
  exact .scope hR _ _ (.refl _) rfl fun part _ => .node part

theorem otherwise_matches (statements : List Node) :
    Matches R R (node fits (.otherwise (.block statements)))
      (node fits (.otherwise (.block statements))) := by
  rw [node_eq]
  refine .runAll fun phase hphase => ?_
  obtain rfl := List.mem_singleton.mp hphase
  exact .scope hR _ _ (.refl _) rfl fun part _ => .node part

theorem elifs_match (rest : List Branch) (last : Option (List Node)) :
    Matches R R
      (do nodes fits (rest.map Branch.elif); runAll fits (alternative last).presentPhase)
      (do nodes fits (rest.map Branch.elif); runAll fits (alternative last).presentPhase) := by
  refine (Matches.nodes fun part hpart => ?_).bind fun _ => .runAll fun phase hphase => ?_
  · obtain ⟨branch, -, rfl⟩ := List.mem_map.mp hpart
    exact elif_matches hR branch
  · cases last with
    | none => exact absurd hphase List.not_mem_nil
    | some statements =>
        obtain rfl := List.mem_singleton.mp hphase
        exact otherwise_matches hR statements

/-- If statements with the same first branch are judged alike if what is behind it is. -/
theorem chained_matches (first : Branch) {rest rest' : List Branch}
    {last last' : Option (List Node)} (h : Matches R R
      (do nodes fits (rest.map Branch.elif); runAll fits (alternative last).presentPhase)
      (do nodes fits (rest'.map Branch.elif); runAll fits (alternative last').presentPhase)) :
    Matches R R (node fits (chained first rest last)) (node fits (chained first rest' last')) := by
  rw [node_chained, node_chained]
  refine (Matches.expression hR first.isExpression).bind fun _ => ?_
  exact (Matches.scope hR _ _ (.refl _) rfl fun part _ => .node part).bind fun _ => h

/-- Elifs are judged as an if statement that begins with the first of them, in scopes that are
    alike. -/
theorem elifs_match_chained (next : Branch) (rest : List Branch) (last : Option (List Node)) :
    Matches R R
      (do nodes fits ((next :: rest).map Branch.elif); runAll fits (alternative last).presentPhase)
      (node fits (chained next rest last)) := by
  have hkind : ScopeKind.elifBlock.Alike .ifBlock := ⟨rfl, by decide⟩
  rw [node_chained, List.map_cons, nodes, node_elif]
  simp only [bind_assoc]
  refine (Matches.expression hR next.isExpression).bind fun _ => ?_
  refine (Matches.scope hR _ _ hkind rfl fun part _ => .node part).bind fun _ => ?_
  exact elifs_match hR rest last

end

/-- Exactly these scopes. -/
def At (s t : Scopes) : Scopes → Scopes → Prop := fun s' t' => s' = s ∧ t' = t

theorem At.alike {s t : Scopes} (h : s.Alike t) : ∀ s' t', At s t s' t' → s'.Alike t' := by
  rintro _ _ ⟨rfl, rfl⟩
  exact h

theorem Matched.fixed {α : Type} {S : Scopes → Scopes → Prop} {s t : Scopes} {x y : Analysis α}
    (h : Matched S (x s) (y t)) : Matches (At s t) S x y := by
  rintro _ _ ⟨rfl, rfl⟩
  exact h

theorem Matched.trans {α : Type} {s t u : Scopes} {x y z : EStateM.Result AnalysisFault Scopes α}
    (h : Matched (At s t) x y) (h' : Matched (At t u) y z) : Matched (At s u) x z := by
  cases h with
  | ok hst =>
      cases h' with
      | ok htu => exact .ok ⟨hst.1, htu.2⟩
  | error =>
      cases h' with
      | error => exact .error

/-- A statement that stands alone in an else block is judged as it is in the scope of the block. -/
theorem matched_otherwise {s : Scopes} {x : EStateM.Result AnalysisFault Scopes Unit}
    {statement : Node}
    (h : Matched (At s (s.enter ("else_statement_" ++ toString s.current.level) .elseBlock [])) x
      (node fits statement
        (s.enter ("else_statement_" ++ toString s.current.level) .elseBlock []))) :
    Matched (At s s) x (runAll fits (alternative (some [statement])).presentPhase s) := by
  have hrun : runAll fits (alternative (some [statement])).presentPhase = (do
      enterBlock "else_statement_" .elseBlock
      node fits statement
      leave) := by
    simp [alternative, Node.presentPhase, Node.isAbsent, runAll, Phase.run, node, nodes]
  rw [hrun]
  show Matched (At s s) x (EStateM.bind (node fits statement) _ _)
  unfold EStateM.bind
  generalize node fits statement _ = y at h
  cases h with
  | ok hscopes =>
      obtain ⟨rfl, rfl⟩ := hscopes
      exact .ok ⟨rfl, rfl⟩
  | error => exact .error

/-- With elifs and without, an if statement is judged alike, and it leaves the scopes as they are
    if it passes. -/
theorem nested_matches (first : Branch) (rest : List Branch) (last : Option (List Node))
    {s : Scopes} (hs : 0 < s.current.level) :
    Matched (At s s) (node fits (chained first rest last) s)
      (node fits (nested first rest last) s) := by
  -- the induction goes into the else blocks, one scope further in each time
  induction rest generalizing first s with
  | nil =>
      have hR := At.alike (.refl hs)
      exact chained_matches hR first (elifs_match hR [] last) s s ⟨rfl, rfl⟩
  | cons next rest ih =>
      rw [nested]
      refine chained_matches (At.alike (.refl hs)) first (Matched.fixed ?_) s s ⟨rfl, rfl⟩
      have halike := Scopes.alike_enter hs ("else_statement_" ++ toString s.current.level)
        (ScopeKind.Alike.refl .elseBlock)
      refine matched_otherwise (Matched.trans ?_ (ih next halike.level'))
      exact elifs_match_chained (At.alike halike) next rest last s _ ⟨rfl, rfl⟩

end Analysis

/-! ## Scopes that an analyzer comes to -/

/-- The scopes of an analyzer that has begun anew: those in which it comes to a part, and those
    behind an analysis, also behind one that has failed. -/
inductive Scopes.Reached : Scopes → Prop
  | initial : Reached Scopes.initial
  | visited {s : Scopes} {tree : Node} {p : Place} (h : Reached s)
      (hp : p ∈ (Place.mk none s tree).all fun _ => true) : Reached p.scopes
  | behind {s : Scopes} (h : Reached s) (tree : Node) : Reached (analyzeIn s tree).2

namespace Scopes

theorem Above.level_pos {s t : Scopes} (h : s.Above t) (hs : 0 < s.current.level) :
    0 < t.current.level := by
  induction h with
  | here s => exact hs
  | inside _ hlevel _ ih => exact ih (by omega)

/-- Levels stay positive at every place that the analysis comes to. -/
theorem level_warden : Warden (fun _ => true) (fun _ _ => True)
    (fun _ s => 0 < s.current.level) fun _ => True where
  children := fun _ _ _ _ _ => trivial
  block := fun _ s _ _ _ hs => by rw [enter_level]; omega
  name := fun _ _ _ _ _ _ _ _ _ _ _ _ _ hs => hs
  routine := fun _ _ _ _ _ _ _ _ _ _ _ _ _ _ _ _ _ _ hs => by
    refine ⟨hs, ?_⟩
    rw [enter_level]
    exact Int.add_pos hs Int.one_pos
  test := fun _ _ _ _ _ _ _ _ _ _ => trivial
  plain := fun _ _ => trivial

theorem Reached.level_pos {s : Scopes} (h : s.Reached) : 0 < s.current.level := by
  induction h with
  | initial => exact Int.one_pos
  | visited _ hp ih => exact ((level_warden.kept _ _ _ trivial ih).1 _ hp).2
  | @behind s _ tree ih =>
      have horderly : Analysis.Orderly s (Analysis.node (fun _ => true) tree s) :=
        Analysis.orderly tree s
      rw [analyzeIn, analyzeWith]
      cases hrun : Analysis.node (fun _ => true) tree s with
      | ok u after =>
          rw [hrun] at horderly
          rw [horderly.current.level]
          exact ih
      | error e after =>
          rw [hrun] at horderly
          obtain ⟨begun, hbegun, habove⟩ := horderly
          exact habove.level_pos (by rw [hbegun.current.level]; exact ih)

end Scopes

/-- Elifs are ifs in else blocks.  Every if statement of a program is a chain of branches.  On every
    machine, such a chain ends in a way exactly if it does so with its elifs nested, with the same
    shown lines, stack and tables.  In all scopes that an analyzer comes to, it is rejected for the
    same reason or accepted, with the same scopes behind it. -/
theorem elif_chains_nest :
    (∀ source tree, parse source = .ok tree → ∀ condition body elifs alternatives,
      Node.ifElse condition body elifs alternatives ∈ tree.parts → ∃ first rest last,
        Node.ifElse condition body elifs alternatives = chained first rest last) ∧
    ∀ (first : Branch) (rest : List Branch) (last : Option (List Node)),
      (∀ m e, Action.Ends (Action.eval (chained first rest last)) m e ↔
        Action.Ends (Action.eval (nested first rest last)) m e) ∧
      ∀ s, Scopes.Reached s →
        (analyzeIn s (chained first rest last)).1 = (analyzeIn s (nested first rest last)).1 ∧
          ((analyzeIn s (chained first rest last)).1 = none →
            (analyzeIn s (chained first rest last)).2 =
              (analyzeIn s (nested first rest last)).2) := by
  refine ⟨fun source tree hparse condition body elifs alternatives hpart => ?_,
    fun first rest last => ⟨fun m e => ends_nested_iff.symm, fun s hs => ?_⟩⟩
  · obtain ⟨c, hformed⟩ := (parse_formed hparse).of_mem_parts hpart
    exact hformed.exists_chained
  have hmatched : Analysis.Matched (Analysis.At s s)
      (Analysis.node (fun _ => true) (chained first rest last) s)
      (Analysis.node (fun _ => true) (nested first rest last) s) :=
    Analysis.nested_matches first rest last hs.level_pos
  unfold analyzeIn analyzeWith
  generalize Analysis.node _ (chained first rest last) s = x,
    Analysis.node _ (nested first rest last) s = y at hmatched
  cases hmatched with
  | ok hscopes =>
      obtain ⟨rfl, rfl⟩ := hscopes
      exact ⟨rfl, fun _ => rfl⟩
  | error => exact ⟨rfl, fun h => by cases h⟩

/-- The elif of a program is run as it is when it stands in an else block, and a skip in an elif is
    accepted by an analyzer that has failed inside a while loop. -/
theorem elif_chains_nest_in_loop :
    let loop := Node.whileLoop (.boolean "true") (.block [.display (.identifier "x")])
    let first : Branch := ⟨.boolean "false", [.give .absent], .boolean _⟩
    let next : Branch := ⟨.boolean "true", [.skip], .boolean _⟩
    (∃ source tree condition body elifs, parse source = .ok tree ∧ elifs ≠ [] ∧
      Node.ifElse condition body elifs .absent ∈ tree.parts ∧ ∃ head tail last,
        Node.ifElse condition body elifs .absent = chained head tail last ∧
        ∃ m, Action.Ends (Action.eval (nested head tail last)) Machine.started (.ok .nothing m) ∧
          m.output = "True\n") ∧
      (analyzeIn (analyzeIn Scopes.initial loop).2 (chained next [next] none)).1 = none ∧
      (analyzeIn (analyzeIn Scopes.initial loop).2 (nested next [next] none)).1 = none ∧
      (analyzeIn (analyzeIn Scopes.initial loop).2 (nested next [first] (some []))).1 =
        some (.semantic .giveOutside) := by
  intro loop first next
  have hreached : (analyzeIn Scopes.initial loop).2.Reached := .behind .initial loop
  have hpasses :
      (analyzeIn (analyzeIn Scopes.initial loop).2 (chained next [next] none)).1 = none := rfl
  have hfails : (analyzeIn (analyzeIn Scopes.initial loop).2 (chained next [first] (some []))).1 =
      some (.semantic .giveOutside) := rfl
  refine ⟨?_, hpasses, ?_, ?_⟩
  · let shows : Node := .display (.boolean "true")
    let elifs : List Node := [.elif (.boolean "true") (.block [shows])]
    let choice : Node := .ifElse (.boolean "false") (.block []) elifs .absent
    let tree : Node := .program (.block [choice])
    have hparse : parse "\x7b\nif false \x7b\x7d elif true \x7b\nshow true\n\x7d\n\x7d" =
        .ok tree := by
      cbv
    have hpart : choice ∈ tree.parts :=
      Node.mem_parts_of_mem_children (Node.mem_parts_of_mem_children tree.self_mem_parts
        List.mem_cons_self) List.mem_cons_self
    obtain ⟨head, tail, last, hchain⟩ : ∃ head tail last, choice = chained head tail last :=
      elif_chains_nest.1 _ _ hparse _ _ _ _ hpart
    have hfalse : Action.Ends (Action.condition (.boolean "false")) Machine.started
        (.ok false Machine.started) := (Action.Ends.eval (.lift rfl)).bind (.lift rfl)
    have htrue : Action.Ends (Action.condition (.boolean "true")) Machine.started
        (.ok true Machine.started) := (Action.Ends.eval (.lift rfl)).bind (.lift rfl)
    have hshows : Action.Ends (Action.eval shows) Machine.started
        (.ok .nothing { Machine.started with
          history := .shown "True" :: Machine.started.history }) :=
      .display (.eval (.lift rfl)) rfl
    have hruns : Action.Ends (Action.eval choice) Machine.started (.ok .nothing
        { Machine.started with history := .shown "True" :: Machine.started.history }) :=
      .eval (hfalse.bind (htrue.bind (.eval (.block_next hshows .pure))))
    rw [hchain, (elif_chains_nest.2 head tail last).1] at hruns
    exact ⟨_, tree, _, _, elifs, hparse, List.cons_ne_nil _ _, hpart, head, tail, last, hchain, _,
      hruns, by decide⟩
  · rw [← ((elif_chains_nest.2 next [next] none).2 _ hreached).1]
    exact hpasses
  · rw [← ((elif_chains_nest.2 next [first] (some [])).2 _ hreached).1]
    exact hfails

end BraceScript
