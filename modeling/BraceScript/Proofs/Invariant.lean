import BraceScript.Proofs.Keeping

/-! # Invariants — what every step of a run keeps

    Some properties of the machine hold throughout a run because each single change of the machine
    keeps them.  An invariant is such a property together with the parts of programs that may run,
    all of it in a context: what is below on the stack, say, or whether a loop runs around.  A
    keeper collects what has to be checked for it: the changes of variables, tables and history one
    by one, and the pushing and popping around a body together, since the record that is popped
    need not be the one that was pushed.

    * `Keeper.kept`: what a keeper checks is an invariant of all runs, by one case analysis of what
      tasks do. -/

namespace BraceScript

open Eval (perform)

variable {α β κ : Type}

/-- What a record keeps while its variables change: its name, kind and level. -/
abbrev Record.Header := String × RecordKind × Int

/-- The header of a record. -/
def Record.header (r : Record) : Record.Header := (r.name, r.kind, r.level)

@[simp] theorem Record.header_set (r : Record) (name : String) (v : Value) :
    (r.set name v).header = r.header := rfl

/-- The headers of the records on the stack, the top one first. -/
def Machine.headers (m : Machine) : List Record.Header := m.stack.map Record.header

theorem CallStack.map_header_setAt (height : Nat) (name : String) (v : Value) (s : CallStack) :
    (s.setAt height name v).map Record.header = s.map Record.header := by
  induction s with
  | nil => rfl
  | cons r rest ih =>
      unfold CallStack.setAt
      split
      · rfl
      · rw [List.map_cons, List.map_cons, ih]

/-- A property of machines that runs are to keep. -/
structure Invariant (κ : Type) where
  /-- The parts that may run in a context. -/
  runs : κ → Node → Prop
  /-- The bodies that may run on records of their own. -/
  bodies : Node → Prop
  /-- The context of the rounds of a loop. -/
  loop : κ → κ
  /-- What holds before a part runs, and behind it if it completes. -/
  holds : κ → Machine → Prop
  /-- What holds behind a part that does not complete. -/
  exits : κ → Exit → Machine → Prop

namespace Invariant

variable (I : Invariant κ)

/-- The tasks that may run in a context. -/
def admits (k : κ) : Task → Prop
  | .eval node => I.runs k node
  | .whileLoop test body => I.runs (I.loop k) test ∧ I.runs (I.loop k) body
  | .forLoop _ _ _ _ body => I.runs (I.loop k) body

/-- What holds behind a part, however it ends. -/
def settles (k : κ) : Ending α → Prop
  | .ok _ m => I.holds k m
  | .error e m => I.exits k e m

/-- The contract of an invariant. -/
def contract : Contract κ where
  pre k task m := I.admits k task ∧ I.holds k m
  post k _ _ e := I.settles k e

end Invariant

/-- What makes runs keep an invariant. -/
structure Keeper (I : Invariant κ) : Prop where
  children : ∀ k node, I.runs k node → ¬ node.IsContext → ∀ part ∈ node.children, I.runs k part
  whileLoop : ∀ k test body, I.runs k (.whileLoop test body) →
    I.runs (I.loop k) test ∧ I.runs (I.loop k) body
  forLoop : ∀ k initial termination step body, I.runs k (.forLoop initial termination step body) →
    (∀ part ∈ [initial, termination, step], I.runs k part) ∧
      (∀ part, initial.Has part → I.runs k part) ∧ I.runs (I.loop k) body
  branch : ∀ k test body elifs alternative, I.runs k (.ifElse test body elifs alternative) →
    ∀ arm ∈ alternative :: elifs, ∀ part, arm.Has part → I.runs k part
  program : ∀ k body, I.runs k (.program body) → I.bodies body
  functionBody : ∀ k m name f, I.holds k m → m.functions.get? name = some f → I.bodies f.body
  procedureBody : ∀ k m name p, I.holds k m → m.procedures.get? name = some p → I.bodies p.body
  stack : ∀ k m s, I.holds k m → s.map Record.header = m.headers → I.holds k { m with stack := s }
  shown : ∀ k m line, I.holds k m → I.holds k { m with history := .shown line :: m.history }
  function : ∀ k m name parameters type body f, I.holds k m →
    I.runs k (.functionDecl name parameters type body) → name.namePart = .ok f.name →
    Parameter.ofNodes parameters = .ok (f.parameters.getD []) → f.body = body →
    I.holds k { m with functions := m.functions.insert f.name f }
  procedure : ∀ k m name parameters body p, I.holds k m →
    I.runs k (.procedureDecl name parameters body) → name.namePart = .ok p.name →
    Parameter.ofNodes parameters = .ok (p.parameters.getD []) → p.body = body →
    I.holds k { m with procedures := m.procedures.insert p.name p }
  /-- A body runs in a context of its own, between pushing a record and popping one. -/
  bracket : ∀ k m r body, I.bodies body → I.holds k m →
    ∃ k', I.runs k' body ∧
      I.holds k' { m with stack := r :: m.stack, history := .pushed r :: m.history } ∧
      (∀ n, I.holds k' n → (n.stack = [] → I.exits k (.fault .nothingToPop) n) ∧
        ∀ r' rest, n.stack = r' :: rest →
          I.holds k { n with stack := rest, history := .popped r' :: n.history }) ∧
      ∀ e n, I.exits k' e n → I.exits k e n
  enter : ∀ k m, I.holds k m → I.holds (I.loop k) m
  leave : ∀ k m, I.holds (I.loop k) m → I.holds k m
  skipped : ∀ k m, I.exits (I.loop k) .skip m → I.holds k m
  stopped : ∀ k m, I.exits (I.loop k) .stop m → I.holds k m
  uncaught : ∀ k e m, I.exits (I.loop k) e m → e ≠ .skip → e ≠ .stop → I.exits k e m
  skip : ∀ k m, I.runs k .skip → I.holds k m → I.exits k .skip m
  stop : ∀ k m, I.runs k .stop → I.holds k m → I.exits k .stop m
  fault : ∀ k m f, I.holds k m → ¬ f.IsUnderflow → I.exits k (.fault f) m
  empty : ∀ k m, I.holds k m → m.stack = [] → I.exits k (.fault .noRecord) m
  exhausted : ∀ k m, I.holds k m → I.exits k .exhausted m

/-- An action keeps the invariant in a context. -/
abbrev Invariant.Keeps (I : Invariant κ) (k : κ) (x : Action α) : Prop :=
  BraceScript.Keeps I.contract (I.holds k) (I.exits k) x

variable {I : Invariant κ} {k : κ}

theorem Invariant.keeps_ask {task : Task} (h : I.admits k task) : I.Keeps k (Action.ask task) := by
  intro m hm
  refine Action.Meets.ask k ⟨h, hm⟩ ?_ ?_
  · intro d v after _ hpost
    exact hpost
  · intro d e after _ hpost
    exact hpost

theorem Invariant.keeps_eval {node : Node} (h : I.runs k node) : I.Keeps k (Action.eval node) :=
  I.keeps_ask h

/-! ## One case analysis -/

namespace Keeper

variable (h : Keeper I)

include h

/-! ### Steps -/

theorem sturdy (k : κ) : Sturdy (I.holds k) (I.exits k) where
  fault m f hm hf := h.fault k m f hm hf.not_underflow
  empty m hm hempty := h.empty k m hm hempty

theorem keeps_setTop (name : String) (v : Value) :
    I.Keeps k (liftM (Eval.setTop name v) : Action Unit) := by
  intro m hm
  show (Work.ended (Eval.setTop name v m)).Meets _ _ _
  cases hs : m.stack with
  | nil => rw [Eval.setTop_nil hs]; exact h.empty k m hm hs
  | cons r rest =>
      rw [Eval.setTop_cons hs]
      refine h.stack k m _ hm ?_
      rw [Machine.headers, hs, List.map_cons, List.map_cons, Record.header_set]

theorem keeps_setAt (height : Nat) (name : String) (v : Value) :
    I.Keeps k (liftM (Eval.setAt height name v) : Action Unit) :=
  fun m hm => h.stack k m _ hm (CallStack.map_header_setAt height name v m.stack)

theorem keeps_moveOn (height : Nat) (name : String) (current step : Value) :
    I.Keeps k (liftM (Eval.moveOn height name current step) : Action Unit) := by
  unfold Eval.moveOn
  rw [Action.liftM_bind]
  exact (h.sturdy k).keeps_computed_bind (current.computes_add step)
    fun v _ => h.keeps_setAt height name v

/-- A part of the tree is looked at. -/
theorem keeps_part {x : Except Fault α} {Q : α → Prop} (hx : Yields Fault.OfTree Q x)
    {f : α → Action β} (hf : ∀ part, Q part → I.Keeps k (f part)) :
    I.Keeps k (liftM (Eval.attempt x) >>= f) := by
  intro m hm
  cases hx with
  | ok ha => exact hf _ ha m hm
  | error hg => exact h.fault k m _ hm hg.not_underflow

theorem keeps_namePart (node : Node) {f : String → Action β}
    (hf : ∀ name, node.namePart = .ok name → I.Keeps k (f name)) :
    I.Keeps k (liftM (Eval.attempt node.namePart) >>= f) :=
  h.keeps_part node.yields_namePart.named hf

theorem keeps_valueOf (name : String) :
    I.Keeps k (liftM (Eval.valueOf name) : Action Value) := by
  unfold Eval.valueOf
  rw [Action.liftM_bind]
  refine (h.sturdy k).keeps_top.bind fun r => ?_
  split
  · exact fun m hm => h.fault k m _ hm fun h => h
  · exact fun m hm => h.fault k m _ hm fun h => h
  · exact Keeps.pure

theorem keeps_setDefaults (height : Nat) (type : Node) (names : List Node) :
    I.Keeps k (liftM (Eval.setDefaults height type names) : Action Unit) := by
  induction names with
  | nil => exact Keeps.pure
  | cons name names ih =>
      rw [Eval.setDefaults]
      simp only [Action.liftM_bind]
      refine h.keeps_namePart type fun spelled _ => ?_
      refine ((h.sturdy k).keeps_defaultValue spelled).bind fun v => ?_
      refine h.keeps_namePart name fun name _ => ?_
      exact (h.keeps_setAt height name v).bind fun _ => ih

/-! ### Parts of tasks -/

theorem keeps_setVariables (height : Nat) (type : Node) {names values : List Node}
    (hN : ∀ v ∈ values, I.Keeps k (Action.eval v)) :
    I.Keeps k (Action.setVariables height type names values) := by
  induction values generalizing names with
  | nil => rw [Action.setVariables]; exact h.keeps_setDefaults height type names
  | cons value values ih =>
      cases names with
      | nil => exact Keeps.pure
      | cons name names =>
          rw [Action.setVariables]
          refine (hN _ List.mem_cons_self).bind fun v => ?_
          refine h.keeps_namePart name fun spelled _ => ?_
          refine (h.keeps_setAt height spelled v).bind fun _ => ?_
          exact ih fun v hv => hN v (List.mem_cons_of_mem _ hv)

theorem keeps_setConstants (height : Nat) {names values : List Node}
    (hN : ∀ v ∈ values, I.Keeps k (Action.eval v)) :
    I.Keeps k (Action.setConstants height names values) := by
  induction values generalizing names with
  | nil =>
      cases names with
      | nil => exact Keeps.pure
      | cons name names => exact (h.sturdy k).keeps_fail trivial
  | cons value values ih =>
      cases names with
      | nil => exact Keeps.pure
      | cons name names =>
          rw [Action.setConstants]
          refine (hN _ List.mem_cons_self).bind fun v => ?_
          refine h.keeps_namePart name fun spelled _ => ?_
          refine (h.keeps_setAt height spelled v).bind fun _ => ?_
          exact ih fun v hv => hN v (List.mem_cons_of_mem _ hv)

theorem keeps_branches {elifs : List Node} {alternative : Node}
    (harms : ∀ arm ∈ alternative :: elifs, ∀ part, arm.Has part → I.runs k part) :
    I.Keeps k (Action.branches elifs alternative) := by
  induction elifs with
  | nil =>
      rw [Action.branches]
      refine Keeps.ite Keeps.pure (h.keeps_part alternative.yields_blockPart fun part hpart => ?_)
      exact I.keeps_eval (harms alternative List.mem_cons_self part hpart)
  | cons branch rest ih =>
      have hbranch : ∀ part, branch.Has part → I.runs k part := harms branch (by simp)
      rw [Action.branches]
      refine h.keeps_part branch.yields_conditionPart fun test htest => ?_
      have htest := I.keeps_eval (hbranch test htest)
      refine ((h.sturdy k).keeps_condition htest).bind fun b => Keeps.ite ?_ ?_
      · exact h.keeps_part branch.yields_blockPart fun part hpart =>
          I.keeps_eval (hbranch part hpart)
      · exact ih fun arm harm => harms arm (by
          rcases List.mem_cons.mp harm with rfl | harm
          · exact List.mem_cons_self
          · exact List.mem_cons_of_mem _ (List.mem_cons_of_mem _ harm))

theorem keeps_forRound (height : Nat) (name : String) (last step : Value) {body : Node}
    (hb : I.runs k body) : I.Keeps k (Action.forRound height name last step body) :=
  (h.sturdy k).keeps_forRound height name last step (I.keeps_eval hb)
    (h.keeps_moveOn height name · step)

/-- A body that runs on a record of its own. -/
theorem meets_runBody {body : Node} (hb : I.bodies body) (r : Record) {m : Machine}
    (hm : I.holds k m) :
    Action.Meets I.contract (Action.runBody body)
      { m with stack := r :: m.stack, history := .pushed r :: m.history }
      (fun _ after => I.holds k after) (fun e after => I.exits k e after) := by
  -- the body runs in a context of its own; popping brings back the context of the caller
  obtain ⟨k', hruns, hpushed, hback, hexit⟩ := h.bracket k m r body hb hm
  refine Action.Meets.bind (Action.Meets.ask k' ⟨hruns, hpushed⟩ ?_ ?_)
  · intro d v after _ hpost
    obtain ⟨hempty, hpopped⟩ := hback after hpost
    refine Action.Meets.bind ?_
    show (Work.ended (Eval.pop after)).Meets _ _ _
    cases hs : after.stack with
    | nil => rw [Eval.pop_nil hs]; exact hempty hs
    | cons r' rest => rw [Eval.pop_cons hs]; exact hpopped r' rest hs
  · intro d e after _ hpost
    exact hexit e after hpost

/-- A call, once its arguments have been evaluated. -/
theorem keeps_call (kind : RecordKind) {callee : Option Routine} (values : List Value)
    (hcallee : ∀ p, callee = some p → I.bodies p.body)
    {result : String → Value → Except Fault Value}
    (hresult : ∀ name v, Yields Fault.IsOrdinary (fun _ => True) (result name v)) :
    I.Keeps k (do
      let r ← liftM (Eval.enterCall kind callee values)
      let outcome ← Action.runBody r.body
      liftM (Eval.attempt (result r.name outcome))) := by
  intro m hm
  refine Action.Meets.bind ?_
  show (Work.ended (Eval.enterCall kind callee values m)).Meets _ _ _
  cases hs : m.stack with
  | nil =>
      simp only [Eval.enterCall, bind, EStateM.bind, Eval.top_nil hs]
      exact h.empty k m hm hs
  | cons r rest =>
      cases callee with
      | none =>
          simp only [Eval.enterCall, bind, EStateM.bind, Eval.top_cons hs]
          exact h.fault k m _ hm fun h => h
      | some p =>
          rw [Eval.enterCall_cons hs, ← hs]
          refine Action.Meets.bind ?_
          refine (h.meets_runBody (hcallee p rfl) _ hm).mono ?_ fun e after h => h
          intro outcome after hafter
          exact (h.sturdy k).keeps_attempt (hresult p.name outcome) (fun _ h => h) after hafter

theorem keeps_functionCall (callee : Node) {arguments : List Node}
    (hargs : ∀ a ∈ arguments, I.Keeps k (Action.eval a)) :
    I.Keeps k (Action.evaluate (.functionCall callee arguments)) := by
  refine h.keeps_namePart callee fun name _ m hm => ?_
  refine Keeps.bind (Keeps.evalAll hargs) (fun values => ?_) m hm
  refine h.keeps_call .function values ?_ Eval.yields_functionResult
  intro p hp
  obtain ⟨f, hf, rfl⟩ := Option.map_eq_some_iff.mp hp
  exact h.functionBody k m name f hm hf

theorem keeps_procedureCall (callee : Node) {arguments : List Node}
    (hargs : ∀ a ∈ arguments, I.Keeps k (Action.eval a)) :
    I.Keeps k (Action.evaluate (.procedureCall callee arguments)) := by
  refine h.keeps_namePart callee fun name _ m hm => ?_
  refine Keeps.bind (Keeps.evalAll hargs) (fun values => ?_) m hm
  refine h.keeps_call .procedure values ?_ Eval.yields_procedureResult
  intro p hp
  exact h.procedureBody k m name p hm hp

theorem keeps_functionDecl {name type body : Node} {parameters : List Node}
    (hN : I.runs k (.functionDecl name parameters type body)) :
    I.Keeps k (Action.evaluate (.functionDecl name parameters type body)) := by
  refine h.keeps_part (Parameter.yields_ofNodes parameters).named fun ps hps => ?_
  refine h.keeps_namePart name fun spelled hname => ?_
  refine h.keeps_namePart type fun spelledType _ m hm => ?_
  exact h.function k m name parameters type body ⟨⟨spelled, some ps, body⟩, spelledType⟩ hm hN
    hname hps rfl

theorem keeps_procedureDecl {name body : Node} {parameters : List Node}
    (hN : I.runs k (.procedureDecl name parameters body)) :
    I.Keeps k (Action.evaluate (.procedureDecl name parameters body)) := by
  refine h.keeps_part (Parameter.yields_ofNodes parameters).named fun ps hps => ?_
  refine h.keeps_namePart name fun spelled hname m hm => ?_
  exact h.procedure k m name parameters body ⟨spelled, some ps, body⟩ hm hN hname hps rfl

theorem keeps_forLoop {initial termination step body : Node}
    (hN : I.runs k (.forLoop initial termination step body)) :
    I.Keeps k (Action.evaluate (.forLoop initial termination step body)) := by
  obtain ⟨hparts, hinitial, hbody⟩ := h.forLoop k initial termination step body hN
  refine h.keeps_part initial.yields_expressionPart fun part hpart => ?_
  refine (I.keeps_eval (hinitial part hpart)).bind fun first => ?_
  refine ((h.sturdy k).keeps_requireReal .badInitial (fun _ => trivial) first).bind fun _ => ?_
  refine (I.keeps_eval (hparts termination (by simp))).bind fun last => ?_
  refine ((h.sturdy k).keeps_requireReal .badTermination (fun _ => trivial) last).bind fun _ => ?_
  have hstep := I.keeps_eval (hparts step (by simp))
  refine ((h.sturdy k).keeps_stepValue first last hstep).bind fun step => ?_
  refine (I.keeps_eval (hparts initial (by simp))).bind fun _ => ?_
  refine (h.sturdy k).keeps_topHeight.bind fun height => ?_
  refine h.keeps_part initial.yields_identifierPart fun target _ => ?_
  refine h.keeps_namePart target fun name _ => ?_
  exact I.keeps_ask hbody

theorem keeps_evaluate {node : Node} (hN : I.runs k node) :
    I.Keeps k (Action.evaluate node) := by
  have part : ¬ node.IsContext → ∀ part ∈ node.children, I.Keeps k (Action.eval part) :=
    fun hcontext part hpart => I.keeps_eval (h.children k node hN hcontext part hpart)
  cases node with
  | absent | bare _ | typeName _ | elif _ _ | otherwise _ | parameter _ _ =>
      exact fun m hm => h.fault k m _ hm fun h => h
  | incomplete lacking parts => exact (h.sturdy k).keeps_incomplete lacking parts
  | program body =>
      intro m hm
      refine Action.Meets.bind (Action.Meets.bind ?_)
      exact (h.meets_runBody (h.program k body hN) _ hm).mono (fun _ _ h => h) fun _ _ h => h
  | block statements => exact Keeps.block (part fun h => h)
  | variableDecl type names values =>
      refine (h.sturdy k).keeps_topHeight.bind fun height => ?_
      refine (h.keeps_setVariables height type fun v hv => ?_).bind fun _ => Keeps.pure
      exact part (fun h => h) v (by simp [Node.children, hv])
  | constantDecl type names values =>
      refine (h.sturdy k).keeps_topHeight.bind fun height => ?_
      refine (h.keeps_setConstants height fun v hv => ?_).bind fun _ => Keeps.pure
      exact part (fun h => h) v (by simp [Node.children, hv])
  | assignment target value =>
      refine (part (fun h => h) value (by simp [Node.children])).bind fun v => ?_
      refine (h.sturdy k).keeps_top.bind fun _ => h.keeps_namePart target fun name _ => ?_
      exact (h.keeps_setTop name v).bind fun _ => Keeps.pure
  | give value =>
      refine Keeps.ite Keeps.pure ?_
      exact (part (fun h => h) value (by simp [Node.children])).bind
        fun _ => Keeps.pure
  | display value =>
      refine (part (fun h => h) value (by simp [Node.children])).bind fun v => ?_
      exact ((h.sturdy k).keeps_display v (h.shown k)).bind fun _ => Keeps.pure
  | functionDecl name parameters type body => exact h.keeps_functionDecl hN
  | procedureDecl name parameters body => exact h.keeps_procedureDecl hN
  | functionCall callee arguments =>
      exact h.keeps_functionCall callee fun a ha =>
        part (fun h => h) a (List.mem_cons_of_mem _ ha)
  | procedureCall callee arguments =>
      exact h.keeps_procedureCall callee fun a ha =>
        part (fun h => h) a (List.mem_cons_of_mem _ ha)
  | ifElse test body elifs alternative =>
      have htest := part (fun h => h) test (by simp [Node.children])
      have hbody := part (fun h => h) body (by simp [Node.children])
      refine ((h.sturdy k).keeps_condition htest).bind fun b => Keeps.ite hbody ?_
      exact h.keeps_branches (h.branch k test body elifs alternative hN)
  | whileLoop test body => exact I.keeps_ask (h.whileLoop k test body hN)
  | forLoop initial termination step body => exact h.keeps_forLoop hN
  | skip => exact fun m hm => h.skip k m hN hm
  | stop => exact fun m hm => h.stop k m hN hm
  | identifier name => exact h.keeps_valueOf name
  | number _ | string _ | boolean _ | binary _ _ _ | unary _ _ | logical _ _ _ | negation _ _
  | comparison _ _ _ | truth _ =>
      exact (h.sturdy k).keeps_operation trivial fun operand hoperand =>
        part (fun h => h) operand (Node.operands_subset _ hoperand)

/-! ### Tasks -/

omit h in
/-- A loop goes on in the context that it began in. -/
theorem owed_task {task next : Task} {m after : Machine} (hnext : I.admits k next)
    (hafter : I.holds k after) : I.contract.owed k task m (.task next) after :=
  ⟨k, ⟨hnext, hafter⟩, fun _ hpost => hpost⟩

theorem kept : I.contract.Kept where
  exhausted k task m hpre := h.exhausted k m hpre.2
  step k task m hpre := by
    obtain ⟨hadmits, hm⟩ := hpre
    cases task with
    | eval node =>
        refine Action.Meets.bind ((h.keeps_evaluate hadmits m hm).mono ?_ fun e after h => h)
        exact fun v after hafter => hafter
    | whileLoop test body =>
        have hround := (h.sturdy (I.loop k)).keeps_whileRound (I.keeps_eval hadmits.1)
          (I.keeps_eval hadmits.2) m (h.enter k m hm)
        refine Action.Meets.bind (Action.Meets.caught (hround.mono ?_ ?_))
        · intro round after hafter
          have hafter := h.leave k after hafter
          cases round with
          | finished => exact hafter
          | gave v => exact hafter
          | again => exact owed_task hadmits hafter
        · intro e after hexit
          cases e with
          | skip => exact owed_task hadmits (h.skipped k after hexit)
          | stop => exact h.stopped k after hexit
          | fault f => exact h.uncaught k _ after hexit nofun nofun
          | exhausted => exact h.uncaught k _ after hexit nofun nofun
    | forLoop height name last step body =>
        have hround := h.keeps_forRound height name last step hadmits m (h.enter k m hm)
        refine Action.Meets.bind (Action.Meets.caught (hround.mono ?_ ?_))
        · intro round after hafter
          have hafter := h.leave k after hafter
          cases round with
          | finished => exact hafter
          | gave v => exact hafter
          | again => exact owed_task hadmits hafter
        · intro e after hexit
          cases e with
          | skip =>
              -- behind a skip the loop variable is moved on outside of the round
              have hafter := h.skipped k after hexit
              have hread : I.Keeps k (liftM (Eval.loopVariable height name)) :=
                (h.sturdy k).keeps_loopVariable height name
              refine Action.Meets.bind ((hread after hafter).mono ?_ fun e after h => h)
              intro current after hafter
              refine Action.Meets.bind ((h.keeps_moveOn height name current step after hafter).mono
                ?_ fun e after h => h)
              exact fun _ after hafter => owed_task hadmits hafter
          | stop => exact h.stopped k after hexit
          | fault f => exact h.uncaught k _ after hexit nofun nofun
          | exhausted => exact h.uncaught k _ after hexit nofun nofun

end Keeper

end BraceScript
