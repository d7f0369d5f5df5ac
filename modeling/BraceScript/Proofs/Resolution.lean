import Mathlib
import BraceScript.Proofs.Declarations

/-! # Resolution — which routine a call runs

    The analyzer looks the name of a call up in the scopes around it, innermost first.  A run looks
    it up in one table, where the last declaration that has run stands, wherever it was written.
    The two can differ when a name is declared twice: `call_finds_inner` has a function that is
    declared again in a block, and the call behind the block runs the inner one.

    * `calls_resolved`: a call of a name that is declared once runs the routine that the analyzer
      found for it. -/

namespace BraceScript

open Eval (perform)

/-- A declaration of a routine in a program enters it under the name that the analysis knows. -/
theorem Node.DefinesRoutine.declared {W : String → Prop} {c : Category} {decl : Node}
    {symbol : Symbol} {kind : RecordKind} {r : Routine} (h : decl.DefinesRoutine symbol)
    (hformed : Formed W c decl) (hr : symbol.routine? kind = some r) :
    decl.declaredName? kind = some symbol.name := by
  cases h with
  | function hname hps h =>
      cases hformed with
      | present hformed => cases hformed
      | functionDecl hword _ htype _ =>
          cases hword
          cases htype
          cases hname
          cases h
          cases kind <;> cases hr
          rfl
  | procedure hname hps h =>
      cases hformed with
      | present hformed => cases hformed
      | procedureDecl hword _ _ =>
          cases hword
          cases hname
          cases h
          cases kind <;> cases hr
          rfl

/-- Where the analysis passes a call, it finds a routine with as many parameters as there are
    arguments. -/
theorem Place.Passes.call {fits : Symbol → Bool} {p : Place} {kind : RecordKind} {name : String}
    {arguments : List Node} (h : p.Passes fits)
    (hcall : p.node.call? = some (kind, .identifier name, arguments)) :
    ∃ symbol r, p.scopes.lookup name = some symbol ∧ symbol.routine? kind = some r ∧
      (r.parameters.getD []).length = arguments.length := by
  obtain ⟨after, hafter⟩ := h.runAll
  obtain ⟨routine, s, node⟩ := p
  cases node with
  | functionCall callee _ =>
      cases hcall
      obtain ⟨_, mid, htest, -⟩ := Analysis.bind_ok hafter
      obtain ⟨-, _, f, hname, hfound, hcount⟩ := Analysis.checkFunction_inv htest
      cases hname
      exact ⟨_, _, hfound, rfl, hcount⟩
  | procedureCall callee _ =>
      cases hcall
      obtain ⟨_, mid, htest, -⟩ := Analysis.bind_ok hafter
      obtain ⟨-, _, p, hname, hfound, hcount⟩ := Analysis.checkProcedure_inv htest
      cases hname
      exact ⟨_, _, hfound, rfl, hcount⟩
  | _ => cases hcall

/-- What the analysis finds for a call is declared in the program. -/
theorem Scopes.DefinedIn.routine {tree : Node} {s : Scopes} (h : s.DefinedIn tree)
    {kind : RecordKind} {name : String} {symbol : Symbol} {r : Routine}
    (hfound : s.lookup name = some symbol) (hr : symbol.routine? kind = some r) :
    symbol.name = name ∧ ∃ decl ∈ tree.parts, decl.DefinesRoutine symbol := by
  have hknows := Scopes.knows_of_lookup hfound (Symbol.isDeclared_of_routine hr)
  obtain ⟨hname, decl, hdecl, hdefines⟩ := h name symbol hknows
  refine ⟨hname, decl, hdecl, ?_⟩
  cases hdefines with
  | routine h => exact h
  | _ => cases kind <;> cases hr

/-- A call asks for its arguments and for the body of the routine that it finds. -/
theorem Visit.task_of_call {v b : Visit} {node : Node} {kind : RecordKind} {name : String}
    {arguments : List Node} {p : Routine} (htask : v.task = .eval node)
    (hcall : node.call? = some (kind, .identifier name, arguments))
    (hp : v.machine.routine? kind name = some p) (hb : b ∈ v.asks) :
    b.task = .eval p.body ∨ ∃ a ∈ arguments, b.task = .eval a := by
  have hasks := Visit.task_asks hb
  rw [htask] at hasks
  generalize b.task = task at hasks
  cases hasks with
  | child _ hnone _ => rw [hnone] at hcall; cases hcall
  | argument hcall' hmem =>
      cases hcall.symm.trans hcall'
      exact .inr ⟨_, hmem, rfl⟩
  | body hcall' hname' hp' =>
      cases hcall.symm.trans hcall'
      cases hname'
      cases hp.symm.trans hp'
      exact .inl rfl
  | _ => cases hcall

/-- In an accepted program, whenever a call runs whose name is declared once as a routine of its
    kind, the routine that the run finds was entered by the very declaration that the analyzer finds
    for the call, wherever the analyzer comes to it.  So the call runs the body of that declaration,
    and it has as many arguments as this has parameters. -/
theorem calls_resolved {source : String} {tree : Node} (hparse : parse source = .ok tree)
    (haccepted : (analyze tree).1 = none) {depth : Nat} {v : Visit}
    (hv : v ∈ visits depth (.eval tree) Machine.initial) {node : Node} {kind : RecordKind}
    {name : String} {arguments : List Node} (htask : v.task = .eval node)
    (hcall : node.call? = some (kind, .identifier name, arguments))
    (honce : (tree.declaredNames kind).count name ≤ 1) :
    ∃ decl ∈ tree.parts, ∃ entered p, decl.routineSymbol? = some entered ∧
      entered.routine? kind = some p ∧ v.machine.routine? kind name = some p ∧
      (∀ b ∈ v.asks, b.task = .eval p.body ∨ ∃ a ∈ arguments, b.task = .eval a) ∧
      (p.parameters.getD []).length = arguments.length ∧
      (∃ q ∈ tree.places, q.node = node) ∧
      ∀ q ∈ tree.places, q.node = node →
        ∃ symbol, q.scopes.lookup name = some symbol ∧ decl.DefinesRoutine symbol := by
  have hformed := parse_formed hparse
  obtain ⟨hpart, htables, hfinds⟩ := visits_declared hparse haccepted hv
  rw [htask] at hpart
  obtain ⟨_, p, hsame, hp⟩ := hfinds node kind _ arguments htask hcall
  cases hsame
  obtain ⟨decl, hdecl, entered, hentered, hroutine, hname⟩ := htables kind name p hp
  have hnamed := (Node.routineSymbol?_inv hentered hroutine).1
  rw [hname] at hnamed
  have hpasses := Node.passes_of_accepted haccepted
  -- at every place of the call the analyzer finds what the same declaration defines
  have hplaces : ∀ q ∈ tree.places, q.node = node →
      ∃ symbol r, q.scopes.lookup name = some symbol ∧ decl.DefinesRoutine symbol ∧
        symbol.routine? kind = some r ∧ (r.parameters.getD []).length = arguments.length := by
    rintro q hq rfl
    obtain ⟨symbol, r, hfound, hr, hcount⟩ := (hpasses.all hq).call hcall
    obtain ⟨rfl, decl', hdecl', hdefines⟩ := (places_known hformed q hq).2.routine hfound hr
    obtain ⟨c', hformed'⟩ := hformed.of_mem_parts hdecl'
    have hnamed' := hdefines.declared hformed' hr
    obtain rfl := eq_of_count_filterMap honce hdecl hdecl' hnamed hnamed'
    exact ⟨symbol, r, hfound, hdefines, hr, hcount⟩
  have hlabel : ¬ node.IsLabel := by
    intro hlabel
    cases node <;> first
      | exact hlabel
      | cases hcall
  obtain ⟨q, hq, hnode⟩ := hpasses.placed hformed hpart hlabel
  refine ⟨decl, hdecl, entered, p, hentered, hroutine, hp,
    fun b hb => Visit.task_of_call htask hcall hp hb, ?_, ⟨q, hq, hnode⟩, ?_⟩
  · obtain ⟨symbol, r, -, hdefines, hr, hcount⟩ := hplaces q hq hnode
    have hlisted := (hdefines.entered hentered kind).1
    rw [hroutine, hr] at hlisted
    cases hlisted
    exact hcount
  · intro q hq hnode
    obtain ⟨symbol, -, hfound, hdefines, -⟩ := hplaces q hq hnode
    exact ⟨symbol, hfound, hdefines⟩

/-- A function is called in a procedure, which is declared in a block. -/
theorem calls_resolved_in_block :
    ∃ source tree, parse source = .ok tree ∧ (analyze tree).1 = none ∧
      (tree.declaredNames .function).count "f" ≤ 1 ∧
      ∃ v ∈ visits 12 (.eval tree) Machine.initial,
        v.task = .eval (.functionCall (.identifier "f") [.boolean "true"]) ∧
        ∃ decl ∈ tree.parts, ∃ entered p, decl.routineSymbol? = some entered ∧
          entered.routine? .function = some p ∧ v.machine.routine? .function "f" = some p ∧
          (∀ b ∈ v.asks, b.task = .eval p.body ∨ ∃ a ∈ [.boolean "true"], b.task = .eval a) ∧
          (p.parameters.getD []).length = 1 ∧
          (∃ q ∈ tree.places, q.node = .functionCall (.identifier "f") [.boolean "true"]) ∧
          ∀ q ∈ tree.places, q.node = .functionCall (.identifier "f") [.boolean "true"] →
            ∃ symbol, q.scopes.lookup "f" = some symbol ∧ decl.DefinesRoutine symbol := by
  let tree : Node := .program (.block
    [.functionDecl (.identifier "f") [.parameter (.identifier "x") (.typeName "boolean")]
      (.typeName "boolean") (.block [.give (.identifier "x")]),
    .ifElse (.boolean "true") (.block
      [.procedureDecl (.identifier "p") [] (.block
        [.display (.functionCall (.identifier "f") [.boolean "true"])]),
      .procedureCall (.identifier "p") []]) [] .absent])
  have hparse : parse ("\x7b\nfunc f(boolean x) -> boolean \x7b\ngive x\n\x7d\nif true \x7b\n"
      ++ "proc p() \x7b\nshow f(true)\n\x7d\nexec p()\n\x7d\n\x7d") = .ok tree := by cbv
  have haccepted : (analyze tree).1 = none := by cbv
  have hnames : tree.declaredNames .function = ["f"] := by cbv
  have honce : (tree.declaredNames .function).count "f" ≤ 1 := by rw [hnames]; decide
  -- the eleventh part that the run comes to is the call of the function
  have hlength : 10 < (visits 12 (.eval tree) Machine.initial).length := by decide
  have htask : (visits 12 (.eval tree) Machine.initial)[10].task =
      .eval (.functionCall (.identifier "f") [.boolean "true"]) := by cbv
  exact ⟨_, tree, hparse, haccepted, honce, _, List.getElem_mem hlength, htask,
    calls_resolved hparse haccepted (List.getElem_mem hlength) htask rfl honce⟩

/-- A function is declared again in a block: behind the block the analyzer finds the outer one for a
    call, and the run finds the inner one. -/
theorem call_finds_inner :
    ∃ source tree, parse source = .ok tree ∧ (analyze tree).1 = none ∧
      (∃ q ∈ tree.places, q.node = .functionCall (.identifier "f") [] ∧
        q.scopes.lookup "f" =
          some (.function ⟨⟨"f", none, .block [.give (.boolean "true")]⟩, "boolean"⟩)) ∧
      (∃ v ∈ visits 12 (.eval tree) Machine.initial,
        v.task = .eval (.functionCall (.identifier "f") []) ∧
        v.machine.routine? .function "f" =
          some ⟨"f", some [], .block [.give (.boolean "false")]⟩) ∧
      (interpret 12 tree).exit = none ∧ (interpret 12 tree).machine.output = "False\n" := by
  let tree : Node := .program (.block
    [.functionDecl (.identifier "f") [] (.typeName "boolean") (.block [.give (.boolean "true")]),
    .ifElse (.boolean "true") (.block
      [.functionDecl (.identifier "f") [] (.typeName "boolean")
        (.block [.give (.boolean "false")])]) [] .absent,
    .display (.functionCall (.identifier "f") [])])
  have hparse : parse ("\x7b\nfunc f() -> boolean \x7b\ngive true\n\x7d\nif true \x7b\n"
      ++ "func f() -> boolean \x7b\ngive false\n\x7d\n\x7d\nshow f()\n\x7d") = .ok tree := by cbv
  have haccepted : (analyze tree).1 = none := by cbv
  have hplaces : 14 < tree.places.length := by cbv
  have hlength : 8 < (visits 12 (.eval tree) Machine.initial).length := by decide
  refine ⟨_, tree, hparse, haccepted, ⟨_, List.getElem_mem hplaces, ?_, ?_⟩,
    ⟨_, List.getElem_mem hlength, ?_, ?_⟩, ?_, ?_⟩ <;> cbv

end BraceScript
