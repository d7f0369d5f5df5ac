import Mathlib
import BraceScript.Proofs.Acceptance
import BraceScript.Proofs.Following

/-! # Calls — what is called is declared

    The analyzer looks names of routines up in nested scopes; a run looks them up in two tables,
    which all routines share and which are filled as declarations run.  The two agree where it
    matters: whenever a run comes to a call, the name is in the table.

    The routines that the scopes of a running part know have been declared by the run.  The scopes
    of a routine's body were there when it was declared, so what they know was declared by then,
    and no name ever leaves a table.

    * `calls_find_routines`: in an accepted program every call finds its name. -/

namespace BraceScript

open Eval (perform)

/-- Every symbol fits. -/
abbrev anySymbol : Symbol → Bool := fun _ => true

namespace Machine

/-- The routines that scopes know are in the tables. -/
def Registers (m : Machine) (s : Scopes) : Prop :=
  ∀ kind name symbol r, s.Knows name symbol → symbol.routine? kind = some r →
    (m.routine? kind name).isSome

/-- The bodies of the routines in the tables are well scoped, and the routines that their scopes
    know are in the tables, too. -/
def Housed (m : Machine) : Prop :=
  ∀ kind name p, m.routine? kind name = some p →
    ∃ home label scopeKind behind, Grown anySymbol home ∧ m.Registers home ∧
      Scoped anySymbol .block (home.enter label scopeKind (p.parameters.getD [])) p.body behind

variable {m n : Machine} {s : Scopes}

theorem Registers.grows (h : m.Registers s) (hgrows : m.Grows n) : n.Registers s :=
  fun kind name symbol r hknows hr => hgrows kind name (h kind name symbol r hknows hr)

theorem Registers.le {t : Scopes} (h : m.Registers s) (hle : t.Le s) : m.Registers t :=
  Scopes.EachRoutine.le h hle

theorem Registers.define (h : m.Registers s) (what : Declared) (name type : String) :
    m.Registers (s.define (what.symbol name type)) :=
  Scopes.EachRoutine.define h what name type

theorem Registers.enter (h : m.Registers s) (label : String) (scopeKind : ScopeKind)
    (ps : List Parameter) : m.Registers (s.enter label scopeKind ps) :=
  Scopes.EachRoutine.enter h label scopeKind ps

/-- A declaration registers what it declares. -/
theorem Registers.declare (h : m.Registers s) {kind : RecordKind} {symbol entered : Symbol}
    {r p : Routine} (hr : symbol.routine? kind = some r) (hp : entered.routine? kind = some p)
    (hname : symbol.name = entered.name) : (m.declare entered).Registers (s.define symbol) := by
  have hgrown : (m.declare entered).Registers s := h.grows (m.grows_declare entered)
  refine Scopes.EachRoutine.routine hgrown hr ?_
  rw [hname, routine?_declare_self hp]
  rfl

theorem Housed.declare (h : m.Housed) {kind : RecordKind} {symbol entered : Symbol} {r : Routine}
    {label : String} {scopeKind : ScopeKind} {behind : Scopes} (hm : m.Registers s)
    (hgrown : Grown anySymbol s) (hnew : s.declares symbol.name = false)
    (hr : symbol.routine? kind = some r) (hentered : entered.routine? kind = some r.listed)
    (hname : symbol.name = entered.name)
    (hbody : Scoped anySymbol .block
      ((s.define symbol).enter label scopeKind (r.parameters.getD [])) r.body behind) :
    (m.declare entered).Housed := by
  intro kind' key p hp
  rcases routine?_declare hp with ⟨-, hp⟩ | hp
  · obtain ⟨-, rfl⟩ := Symbol.routine?_unique hentered hp
    exact ⟨s.define symbol, label, scopeKind, behind,
      .routine hgrown hnew kind hr rfl label scopeKind hbody, hm.declare hr hentered hname, hbody⟩
  · obtain ⟨home, label', scopeKind', behind', hhome, hregisters, hscoped⟩ := h kind' key p hp
    exact ⟨home, label', scopeKind', behind', hhome, hregisters.grows (m.grows_declare entered),
      hscoped⟩

end Machine

/-- A run has declared what its scopes know. -/
def Following.calls : Following Unit where
  part _ := True
  height _ _ := True
  holds _ s m := m.Registers s ∧ m.Housed
  exits _ s e m := (m.Registers s ∧ m.Housed) ∧ e ≠ .fault (.noPart "NoneType" "identifier")

theorem Follower.calls : Follower anySymbol Following.calls where
  children _ _ _ _ := trivial
  holds_le _ _ _ _ hle hm := ⟨hm.1.le hle, hm.2⟩
  exits_le _ _ _ _ _ hle hexit := ⟨⟨hexit.1.1.le hle, hexit.1.2⟩, hexit.2⟩
  shown _ _ _ _ hm := hm
  height _ _ _ _ _ _ _ := trivial
  set _ _ _ _ _ _ hm _ _ := hm
  declare _ _ _ _ what name type _ hm _ _ := ⟨hm.1.define what name type, hm.2⟩
  initialiser _ _ _ _ what name type _ _ _ hm _ := .inl ⟨hm.1.define what name type, hm.2⟩
  routine _ _ _ _ _ _ _ _ _ _ _ _ _ hr hentered hname hgrown hnew hbody hm :=
    ⟨hm.1.declare hr hentered hname, hm.2.declare hm.1 hgrown hnew hr hentered hname hbody⟩
  name _ _ _ _ _ _ _ hm _ _ _ _ _ := .inr ⟨hm, nofun⟩
  found _ _ m _ kind name symbol r hm _ hknows hr hnone := by
    have hsome := hm.1 kind name symbol r hknows hr
    rw [hnone] at hsome
    exact nomatch hsome
  call k s m n kind name symbol r p values caller rest hm _ _ _ hp hgrows hn _ _ _ := by
    obtain ⟨home, label, scopeKind, behind, hhome, hregisters, hbody⟩ := hm.2 kind name p hp
    refine ⟨(), _, behind, trivial, hhome.enter label scopeKind _, hbody,
      ⟨(hregisters.grows hgrows).enter label scopeKind _, hn.2⟩, ?_, ?_⟩
    · intro d v after r' rest' hrun hafter _
      -- what the caller had declared is still in the tables, whatever the body did to them
      have hgrown := perform_grows d p.body (n.called kind p values caller)
      rw [hrun, Ending.machine_ok] at hgrown
      exact ⟨hn.1.grows hgrown, hafter.2⟩
    · intro d e after hrun hexit
      have hgrown := perform_grows d p.body (n.called kind p values caller)
      rw [hrun, Ending.machine_error] at hgrown
      exact ⟨⟨hn.1.grows hgrown, hexit.1.2⟩, hexit.2⟩
  skipped _ _ _ hexit := hexit.1
  stopped _ _ _ hexit := hexit.1
  exit _ _ _ _ hm hordinary := ⟨hm, fun he => hordinary _ he⟩
  empty _ _ _ hm _ := ⟨hm, nofun⟩

theorem Following.Checked.functionCall {s s' : Scopes} {fits : Symbol → Bool} {callee : Node}
    {arguments : List Node} (h : Checked fits s (.functionCall callee arguments) s') :
    ∃ name f, callee = .identifier name ∧ s.lookup name = some (.function f) := by
  rcases h with h | h | h
  · cases h with
    | functionCall hfound _ _ => exact ⟨_, _, rfl, hfound⟩
  · exact nomatch h
  · exact nomatch h

theorem Following.Checked.procedureCall {s s' : Scopes} {fits : Symbol → Bool} {callee : Node}
    {arguments : List Node} (h : Checked fits s (.procedureCall callee arguments) s') :
    ∃ name p, callee = .identifier name ∧ s.lookup name = some (.procedure p) := by
  rcases h with h | h | h
  · exact nomatch h
  · cases h with
    | procedureCall hfound _ _ => exact ⟨_, _, rfl, hfound⟩
  · exact nomatch h

/-- A program starts with empty tables, and nothing is known. -/
theorem Following.calls_started : Following.calls.holds () Scopes.initial Machine.started := by
  refine ⟨Scopes.EachRoutine.initial, fun kind name p hp => ?_⟩
  cases kind <;> exact nomatch hp

/-- In an accepted program every call of a function finds its name among the functions, every call
    of a procedure finds its name among the procedures, and so no part of a run, nor the program,
    fails because what it calls is missing. -/
theorem calls_find_routines {source : String} {tree : Node} (hparse : parse source = .ok tree)
    (haccepted : (analyze tree).1 = none) (depth : Nat) :
    (∀ v ∈ visits depth (.eval tree) Machine.initial,
      (∀ callee arguments, v.task = .eval (.functionCall callee arguments) →
        ∃ name f, callee = .identifier name ∧ v.machine.functions.get? name = some f) ∧
      (∀ callee arguments, v.task = .eval (.procedureCall callee arguments) →
        ∃ name p, callee = .identifier name ∧ v.machine.procedures.get? name = some p) ∧
      ∀ after, perform v.depth v.task v.machine ≠
        .error (.fault (.noPart "NoneType" "identifier")) after) ∧
    (interpret depth tree).exit ≠ some (.fault (.noPart "NoneType" "identifier")) := by
  obtain ⟨body, behind, rfl, -, hscoped⟩ := scoped_of_accepted hparse haccepted
  have hexit : (interpret depth (.program body)).exit ≠
      some (.fault (.noPart "NoneType" "identifier")) := by
    intro hexit
    obtain ⟨m, hm⟩ := Follower.calls.program_exits trivial hscoped Following.calls_started hexit
    exact hm.2 rfl
  refine ⟨fun v hv => ?_, hexit⟩
  rcases Follower.calls.program_visits trivial hscoped Following.calls_started depth v hv with
    ⟨hdepth, htask, hmachine⟩ | ⟨⟨k, s, s'⟩, hpre⟩
  · rw [htask]
    refine ⟨nofun, nofun, fun after hrun => hexit ?_⟩
    rw [hdepth, hmachine] at hrun
    unfold interpret Eval.eval
    rw [hrun]
  · have hend := Contract.fulfilled Follower.calls.kept v.depth (k, s, s') v.task v.machine hpre
    obtain ⟨-, ⟨hregisters, -⟩, hadmits⟩ := hpre
    refine ⟨fun callee arguments htask => ?_, fun callee arguments htask => ?_,
      fun after hrun => ?_⟩
    · rw [htask] at hadmits
      obtain ⟨name, f, rfl, hfound⟩ := Following.Checked.functionCall hadmits.2
      have hsome := hregisters .function name _ _ (Scopes.knows_of_lookup hfound trivial) rfl
      rw [Machine.routine?, Option.isSome_map] at hsome
      exact ⟨name, _, rfl, (Option.some_get hsome).symm⟩
    · rw [htask] at hadmits
      obtain ⟨name, p, rfl, hfound⟩ := Following.Checked.procedureCall hadmits.2
      have hsome := hregisters .procedure name _ _ (Scopes.knows_of_lookup hfound trivial) rfl
      exact ⟨name, _, rfl, (Option.some_get hsome).symm⟩
    · rw [hrun] at hend
      exact hend.2 rfl

/-- A procedure is called twice and declares a function each time, which it calls. -/
theorem calls_find_routines_nested :
    ∃ source tree, parse source = .ok tree ∧ (analyze tree).1 = none ∧
      (∃ v ∈ visits 10 (.eval tree) Machine.initial,
        v.task = .eval (.functionCall (.identifier "f") []) ∧
        ∃ name f, Node.identifier "f" = .identifier name ∧
          v.machine.functions.get? name = some f) ∧
      (interpret 10 tree).exit ≠ some (.fault (.noPart "NoneType" "identifier")) := by
  let tree : Node := .program (.block
    [.procedureDecl (.identifier "p") [] (.block
      [.functionDecl (.identifier "f") [] (.typeName "boolean")
        (.block [.give (.boolean "true")]),
      .display (.functionCall (.identifier "f") [])]),
    .procedureCall (.identifier "p") [], .procedureCall (.identifier "p") []])
  have hparse : parse ("\x7b\nproc p() \x7b\nfunc f() -> boolean \x7b\ngive true\n\x7d\n"
      ++ "show f()\n\x7d\nexec p()\nexec p()\n\x7d") = .ok tree := by cbv
  have haccepted : (analyze tree).1 = none := by cbv
  obtain ⟨hvisits, hexit⟩ := calls_find_routines hparse haccepted 10
  -- the sixteenth part that the run comes to is the call in the second call of the procedure
  have hlength : 15 < (visits 10 (.eval tree) Machine.initial).length := by decide
  have htask : (visits 10 (.eval tree) Machine.initial)[15].task =
      .eval (.functionCall (.identifier "f") []) := by cbv
  have hcall := (hvisits _ (List.getElem_mem hlength)).1 _ _ htask
  exact ⟨_, tree, hparse, haccepted, ⟨_, List.getElem_mem hlength, htask, hcall⟩, hexit⟩

end BraceScript
