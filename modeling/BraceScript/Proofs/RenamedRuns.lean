import BraceScript.Proofs.Frame
import BraceScript.Proofs.Renaming
import BraceScript.Proofs.Values

/-! # Renamed runs — runs under other names

    A run compares names, and makes none up.  So a renamed program does on a renamed machine what
    the program did on the machine, step by step, if no two names become one and the names of
    types, which have default values, stay.

    * `performs_renamed`: every task, whatever it is and however it ends;
    * `interpret_rename`: every program. -/

namespace BraceScript

open Eval (perform)

variable {α β γ δ : Type}

/-- The names of the types. -/
def typeNames : List String := ["number", "string", "boolean"]

/-- Other names for all names: no two become one, and types keep theirs. -/
structure Renaming where
  map : String → String
  injective : Function.Injective map
  keeps : ∀ type ∈ typeNames, map type = type

/-! ## What is compared -/

/-- A task with its names renamed. -/
def Task.rename (f : String → String) : Task → Task
  | .eval node => .eval (node.rename f)
  | .whileLoop test body => .whileLoop (test.rename f) (body.rename f)
  | .forLoop height name last step body => .forLoop height (f name) last step (body.rename f)

/-- How a task goes on, with its names renamed. -/
def Action.Next.rename (f : String → String) : Action.Next → Action.Next
  | .value v => .value v
  | .task t => .task (t.rename f)

/-- An ending with its names renamed; `φ` renames what it completes with. -/
def Ending.rename (f : String → String) (φ : α → β) : Ending α → Ending β
  | .ok a m => .ok (φ a) (m.rename f)
  | .error e m => .error (e.rename f) (m.rename f)

/-- How something ends, with its names renamed. -/
def Exit.within (f : String → String) (φ : α → β) : Except Exit α → Except Exit β
  | .ok a => .ok (φ a)
  | .error e => .error (e.rename f)

section

variable (ρ : Renaming) (d : Nat)

/-- An action does on a renamed machine what another one does on the machine, when tasks run to a
    depth; `φ` renames what they complete with. -/
def Follows (φ : α → β) (x : Action α) (y : Action β) : Prop :=
  ∀ m : Machine, (y (m.rename ρ.map)).carryOut (perform d) =
    Ending.rename ρ.map φ ((x m).carryOut (perform d))

/-- Renamed tasks that run to a depth do what the tasks do. -/
def Performs : Prop :=
  ∀ (task : Task) (m : Machine), perform d (task.rename ρ.map) (m.rename ρ.map) =
    Ending.rename ρ.map id (perform d task m)

end

/-! ## Faults without names -/

/-- Faults that concern values have no names in them. -/
theorem Fault.OfValue.rename_eq {fault : Fault} (h : fault.OfValue) (f : String → String) :
    fault.rename f = fault := by
  cases fault <;> first | rfl | exact h.elim

theorem Fault.within_computes {P : α → Prop} {x : Except Fault α} (hx : Computes P x)
    (f : String → String) : Fault.within f id x = x := by
  cases hx with
  | ok _ => rfl
  | error h => exact congrArg Except.error (h.rename_eq f)

namespace Follows

variable {ρ : Renaming} {d : Nat} {φ : α → β} {ψ : γ → δ}

/-! ## Actions in sequence -/

theorem pure {a : α} {b : β} (h : φ a = b) :
    Follows ρ d φ (Pure.pure a : Action α) (Pure.pure b : Action β) := by
  subst h
  exact fun _ => rfl

theorem leave (e : Exit) :
    Follows ρ d φ (Action.leave e : Action α) (Action.leave (e.rename ρ.map) : Action β) :=
  fun _ => rfl

theorem bind {x : Action α} {y : Action β} {f : α → Action γ} {g : β → Action δ}
    (hx : Follows ρ d φ x y) (hf : ∀ a, Follows ρ d ψ (f a) (g (φ a))) :
    Follows ρ d ψ (x >>= f) (y >>= g) := by
  intro m
  show ((y (m.rename ρ.map)).bind g).carryOut _ = Ending.rename _ _ (((x m).bind f).carryOut _)
  rw [Work.carryOut_bind, Work.carryOut_bind, hx m]
  cases (x m).carryOut (perform d) with
  | ok a after => exact hf a after
  | error e after => rfl

/-- In sequence, where the first action completes with something that has no names. -/
theorem seq {x y : Action α} {f : α → Action γ} {g : α → Action δ} (hx : Follows ρ d id x y)
    (hf : ∀ a, Follows ρ d ψ (f a) (g a)) : Follows ρ d ψ (x >>= f) (y >>= g) := hx.bind hf

theorem ite {c c' : Prop} [Decidable c] [Decidable c'] (hc : c' ↔ c) {x x' : Action α}
    {y y' : Action β} (hx : Follows ρ d φ x y) (hy : Follows ρ d φ x' y') :
    Follows ρ d φ (if c then x else x') (if c' then y else y') := by
  by_cases h : c
  · rw [if_pos h, if_pos (hc.mpr h)]
    exact hx
  · rw [if_neg h, if_neg (mt hc.mp h)]
    exact hy

theorem caught {x : Action α} {y : Action β} (hx : Follows ρ d φ x y) :
    Follows ρ d (Exit.within ρ.map φ) (Action.caught x) (Action.caught y) := by
  intro m
  show (y (m.rename ρ.map)).caught.carryOut _ = Ending.rename _ _ ((x m).caught.carryOut _)
  rw [Work.carryOut_caught, Work.carryOut_caught, hx m]
  cases (x m).carryOut (perform d) <;> rfl

theorem ask (hrun : Performs ρ d) (task : Task) :
    Follows ρ d id (Action.ask task) (Action.ask (task.rename ρ.map)) := hrun task

theorem eval (hrun : Performs ρ d) (node : Node) :
    Follows ρ d id (Action.eval node) (Action.eval (node.rename ρ.map)) := hrun (.eval node)

/-! ## Outcomes -/

theorem fail {fault fault' : Fault} (h : fault.rename ρ.map = fault') :
    Follows ρ d φ (liftM (Eval.fail fault : Eval α) : Action α)
      (liftM (Eval.fail fault' : Eval β) : Action β) := by
  subst h
  exact fun _ => rfl

theorem attempt {x : Except Fault α} {y : Except Fault β} (h : y = Fault.within ρ.map φ x) :
    Follows ρ d φ (liftM (Eval.attempt x) : Action α) (liftM (Eval.attempt y)) := by
  subst h
  cases x with
  | ok a => exact .pure rfl
  | error fault => exact fail rfl

theorem computed {P : α → Prop} {x : Except Fault α} (hx : Computes P x) :
    Follows ρ d id (liftM (Eval.attempt x) : Action α) (liftM (Eval.attempt x)) :=
  attempt (Fault.within_computes hx ρ.map).symm

theorem name (node : Node) :
    Follows ρ d ρ.map (liftM (Eval.attempt node.namePart) : Action String)
      (liftM (Eval.attempt (node.rename ρ.map).namePart)) := attempt node.namePart_rename

end Follows

/-! ## Records -/

namespace Record

theorem set_rename (ρ : Renaming) (r : Record) (name : String) (v : Value) :
    (r.rename ρ.map).set (ρ.map name) v = (r.set name v).rename ρ.map := by
  have hmembers := r.members.insert_rename ρ.injective id name v
  simp only [set, rename]
  rw [← hmembers]
  rfl

theorem get?_rename (ρ : Renaming) (r : Record) (name : String) :
    (r.rename ρ.map).get? (ρ.map name) = r.get? name :=
  (r.members.get?_rename ρ.injective id name).trans (congrFun Option.map_id _)

theorem setAll_rename (ρ : Renaming) (r : Record) (names : List String) (values : List Value) :
    (r.rename ρ.map).setAll (names.map ρ.map) values = (r.setAll names values).rename ρ.map := by
  induction names generalizing r values with
  | nil => cases values <;> rfl
  | cons name names ih =>
      cases values with
      | nil => rfl
      | cons v values => rw [List.map_cons, setAll, setAll, set_rename, ih]

end Record

namespace CallStack

theorem setAt_rename (ρ : Renaming) (height : Nat) (name : String) (v : Value) (s : CallStack) :
    setAt height (ρ.map name) v (s.map (Record.rename ρ.map)) =
      (s.setAt height name v).map (Record.rename ρ.map) := by
  induction s with
  | nil => rfl
  | cons r rest ih =>
      rw [List.map_cons, setAt, setAt, List.length_map, ih, r.set_rename]
      split <;> rfl

theorem at?_rename (f : String → String) (height : Nat) (s : CallStack) :
    at? height (s.map (Record.rename f)) = (s.at? height).map (Record.rename f) := by
  induction s with
  | nil => rfl
  | cons r rest ih =>
      rw [List.map_cons, at?, at?, List.length_map, ih]
      split <;> rfl

end CallStack

theorem Eval.calleeRecord_rename (ρ : Renaming) {kind : RecordKind} (hkind : kind ≠ .program)
    (p : Routine) (arguments : List Value) (caller : Record) :
    calleeRecord kind (p.rename ρ.map) arguments (caller.rename ρ.map) =
      (calleeRecord kind p arguments caller).rename ρ.map := by
  have hnames : ((p.rename ρ.map).parameters.getD []).map Parameter.name =
      ((p.parameters.getD []).map Parameter.name).map ρ.map := by
    rw [p.parameters_rename, List.map_map, List.map_map]
    rfl
  have hrecord : Record.rename ρ.map ⟨p.name, kind, caller.level + 1, caller.members⟩ =
      ⟨ρ.map p.name, kind, caller.level + 1, (caller.rename ρ.map).members⟩ := by
    simp only [Record.rename, if_neg hkind]
  rw [calleeRecord, calleeRecord, hnames, ← Record.setAll_rename, hrecord]
  rfl

theorem Eval.defaultValue_rename (ρ : Renaming) (type : String) :
    defaultValue (ρ.map type) = Fault.within ρ.map id (defaultValue type) := by
  by_cases htype : type ∈ typeNames
  · rw [ρ.keeps type htype]
    simp only [typeNames, List.mem_cons, List.not_mem_nil, or_false] at htype
    rcases htype with rfl | rfl | rfl <;> rfl
  · -- a name that is no type's does not become one: the type has it already
    have hmap : ∀ name ∈ typeNames, ρ.map type ≠ name := by
      intro name hname heq
      exact htype (ρ.injective (heq.trans (ρ.keeps name hname).symm) ▸ hname)
    have hne : ∀ name ∈ typeNames, type ≠ name := fun name hname heq => htype (heq ▸ hname)
    simp only [typeNames, List.forall_mem_cons, List.not_mem_nil] at hmap hne
    simp only [defaultValue, hmap, hne, if_false]
    rfl

theorem Eval.functionResult_rename (f : String → String) (name : String) (v : Value) :
    functionResult (f name) v = Fault.within f id (functionResult name v) := by
  unfold functionResult
  split <;> rfl

theorem Eval.procedureResult_rename (f : String → String) (name : String) (v : Value) :
    procedureResult (f name) v = Fault.within f id (procedureResult name v) := by
  unfold procedureResult
  split <;> rfl

/-! ## Steps -/

namespace Follows

variable {ρ : Renaming} {d : Nat}

theorem top :
    Follows ρ d (Record.rename ρ.map) (liftM Eval.top : Action Record) (liftM Eval.top) := by
  rintro ⟨_ | ⟨r, rest⟩, functions, procedures, history⟩ <;> rfl

theorem topHeight :
    Follows ρ d id (liftM Eval.topHeight : Action Nat) (liftM Eval.topHeight) := by
  intro m
  show Eval.topHeight (m.rename ρ.map) = Ending.rename ρ.map id (Eval.topHeight m)
  cases hs : m.stack with
  | nil =>
      have hnil : (m.rename ρ.map).stack = [] := congrArg (List.map _) hs
      rw [Eval.topHeight_nil hs, Eval.topHeight_nil hnil]
      rfl
  | cons r rest =>
      have hcons : (m.rename ρ.map).stack = r.rename ρ.map :: rest.map (Record.rename ρ.map) :=
        congrArg (List.map _) hs
      rw [Eval.topHeight_cons hs, Eval.topHeight_cons hcons, List.length_map]
      rfl

theorem pop :
    Follows ρ d (Record.rename ρ.map) (liftM Eval.pop : Action Record) (liftM Eval.pop) := by
  rintro ⟨_ | ⟨r, rest⟩, functions, procedures, history⟩ <;> rfl

theorem push {r r' : Record} (h : r.rename ρ.map = r') :
    Follows ρ d id (liftM (Eval.push r) : Action Unit) (liftM (Eval.push r')) := by
  subst h
  exact fun m => rfl

theorem setTop (name : String) (v : Value) :
    Follows ρ d id (liftM (Eval.setTop name v) : Action Unit)
      (liftM (Eval.setTop (ρ.map name) v)) := by
  rintro ⟨_ | ⟨r, rest⟩, functions, procedures, history⟩
  · rfl
  · show EStateM.Result.ok () (Machine.mk ((r.rename ρ.map).set (ρ.map name) v :: _) _ _ _) = _
    rw [r.set_rename]
    rfl

theorem setAt (height : Nat) (name : String) (v : Value) :
    Follows ρ d id (liftM (Eval.setAt height name v) : Action Unit)
      (liftM (Eval.setAt height (ρ.map name) v)) := by
  intro m
  show EStateM.Result.ok () { m.rename ρ.map with
      stack := CallStack.setAt height (ρ.map name) v (m.stack.map (Record.rename ρ.map)) } = _
  rw [CallStack.setAt_rename]
  rfl

theorem getAt (height : Nat) (name : String) :
    Follows ρ d id (liftM (Eval.getAt height name) : Action (Option Value))
      (liftM (Eval.getAt height (ρ.map name))) := by
  intro m
  show EStateM.Result.ok ((CallStack.at? height (m.stack.map (Record.rename ρ.map))).bind
      (·.get? (ρ.map name))) (m.rename ρ.map) =
    EStateM.Result.ok ((m.stack.at? height).bind (·.get? name)) (m.rename ρ.map)
  rw [CallStack.at?_rename]
  cases m.stack.at? height with
  | none => rfl
  | some r => exact congrArg (EStateM.Result.ok · _) (r.get?_rename ρ name)

theorem display (v : Value) :
    Follows ρ d id (liftM (Eval.display v) : Action Unit) (liftM (Eval.display v)) := by
  unfold Eval.display
  rw [Action.liftM_bind]
  exact (computed v.writes_text).seq fun line m => rfl

theorem declareFunction (h : Function) :
    Follows ρ d id (liftM (Eval.declareFunction h) : Action Unit)
      (liftM (Eval.declareFunction (h.rename ρ.map))) := by
  intro m
  show EStateM.Result.ok () { m.rename ρ.map with functions :=
    (m.functions.rename ρ.map (Function.rename ρ.map)).insert (ρ.map h.name) (h.rename ρ.map) } = _
  rw [m.functions.insert_rename ρ.injective]
  rfl

theorem declareProcedure (p : Routine) :
    Follows ρ d id (liftM (Eval.declareProcedure p) : Action Unit)
      (liftM (Eval.declareProcedure (p.rename ρ.map))) := by
  intro m
  show EStateM.Result.ok () { m.rename ρ.map with procedures :=
    (m.procedures.rename ρ.map (Routine.rename ρ.map)).insert (ρ.map p.name) (p.rename ρ.map) } = _
  rw [m.procedures.insert_rename ρ.injective]
  rfl

theorem findFunction (name : String) :
    Follows ρ d (Option.map (Function.rename ρ.map))
      (liftM (Eval.findFunction name) : Action (Option Function))
      (liftM (Eval.findFunction (ρ.map name))) := fun m =>
  congrArg (EStateM.Result.ok · _)
    (m.functions.get?_rename ρ.injective (Function.rename ρ.map) name)

theorem findProcedure (name : String) :
    Follows ρ d (Option.map (Routine.rename ρ.map))
      (liftM (Eval.findProcedure name) : Action (Option Routine))
      (liftM (Eval.findProcedure (ρ.map name))) := fun m =>
  congrArg (EStateM.Result.ok · _)
    (m.procedures.get?_rename ρ.injective (Routine.rename ρ.map) name)

theorem enterCall {kind : RecordKind} (hkind : kind ≠ .program) (callee : Option Routine)
    (values : List Value) :
    Follows ρ d (Routine.rename ρ.map)
      (liftM (Eval.enterCall kind callee values) : Action Routine)
      (liftM (Eval.enterCall kind (callee.map (Routine.rename ρ.map)) values)) := by
  unfold Eval.enterCall
  rw [Action.liftM_bind, Action.liftM_bind]
  refine top.bind fun caller => ?_
  cases callee with
  | none => exact fail rfl
  | some p =>
      show Follows ρ d _ (liftM (Eval.push _ >>= fun _ => Pure.pure p))
        (liftM (Eval.push _ >>= fun _ => Pure.pure (p.rename ρ.map)))
      rw [Action.liftM_bind, Action.liftM_bind]
      refine (push ?_).seq fun _ => .pure rfl
      exact (Eval.calleeRecord_rename ρ hkind p values caller).symm

theorem requireReal (fault : String → Fault) (hfault : ∀ s, (fault s).rename ρ.map = fault s)
    (v : Value) :
    Follows ρ d id (liftM (Eval.requireReal fault v) : Action Unit)
      (liftM (Eval.requireReal fault v)) := by
  unfold Eval.requireReal
  split
  · exact .pure rfl
  · exact fail (hfault _)

theorem valueOf (name : String) :
    Follows ρ d id (liftM (Eval.valueOf name) : Action Value)
      (liftM (Eval.valueOf (ρ.map name))) := by
  unfold Eval.valueOf
  rw [Action.liftM_bind, Action.liftM_bind]
  refine top.bind fun r => ?_
  rw [r.get?_rename]
  split
  · exact fail rfl
  · exact fail rfl
  · exact .pure rfl

theorem loopVariable (height : Nat) (name : String) :
    Follows ρ d id (liftM (Eval.loopVariable height name) : Action Value)
      (liftM (Eval.loopVariable height (ρ.map name))) := by
  unfold Eval.loopVariable
  rw [Action.liftM_bind, Action.liftM_bind]
  refine (getAt height name).seq fun found => ?_
  split
  · split
    · exact .pure rfl
    · exact fail rfl
  · exact fail rfl

theorem moveOn (height : Nat) (name : String) (current step : Value) :
    Follows ρ d id (liftM (Eval.moveOn height name current step) : Action Unit)
      (liftM (Eval.moveOn height (ρ.map name) current step)) := by
  unfold Eval.moveOn
  rw [Action.liftM_bind, Action.liftM_bind]
  exact (computed (current.computes_add step)).seq fun v => setAt height name v

theorem setDefaults (height : Nat) (type : Node) (names : List Node) :
    Follows ρ d id (liftM (Eval.setDefaults height type names) : Action Unit)
      (liftM (Eval.setDefaults height (type.rename ρ.map) (names.map (Node.rename ρ.map)))) := by
  induction names with
  | nil => exact .pure rfl
  | cons name names ih =>
      rw [List.map_cons, Eval.setDefaults, Eval.setDefaults]
      simp only [Action.liftM_bind]
      refine (Follows.name type).bind fun spelled => ?_
      refine (attempt (Eval.defaultValue_rename ρ spelled)).seq fun v => ?_
      refine (Follows.name name).bind fun spelled => ?_
      exact (setAt height spelled v).seq fun _ => ih

theorem incomplete (lacking : Lacking) (parts : List Node) :
    Follows ρ d id (liftM (Eval.incomplete lacking parts) : Action Value)
      (liftM (Eval.incomplete lacking (parts.map (Node.rename ρ.map)))) := by
  cases lacking with
  | numberLexeme => exact fail rfl
  | stringLexeme => exact fail rfl
  | variableNames | constantNames =>
      rw [Eval.incomplete, Eval.incomplete, Action.liftM_bind]
      exact topHeight.seq fun _ => fail rfl
  | constantValues =>
      rw [Eval.incomplete, Eval.incomplete, Action.liftM_bind, Action.liftM_bind, List.length_map]
      refine topHeight.seq fun _ => ?_
      split
      · exact .pure rfl
      · exact fail rfl

/-! ## Tasks -/

section

variable (hrun : Performs ρ d)

include hrun

theorem block (statements : List Node) :
    Follows ρ d id (Action.block statements)
      (Action.block (statements.map (Node.rename ρ.map))) := by
  induction statements with
  | nil => exact .pure rfl
  | cons statement rest ih =>
      rw [List.map_cons, Action.block, Action.block]
      refine (eval hrun statement).seq fun v => ?_
      split
      · exact .pure rfl
      · exact ih

theorem evalAll (nodes : List Node) :
    Follows ρ d id (Action.evalAll nodes) (Action.evalAll (nodes.map (Node.rename ρ.map))) := by
  induction nodes with
  | nil => exact .pure rfl
  | cons node rest ih =>
      rw [List.map_cons, Action.evalAll, Action.evalAll]
      exact (eval hrun node).seq fun v => ih.seq fun values => .pure rfl

theorem setVariables (height : Nat) (type : Node) (names values : List Node) :
    Follows ρ d id (Action.setVariables height type names values)
      (Action.setVariables height (type.rename ρ.map) (names.map (Node.rename ρ.map))
        (values.map (Node.rename ρ.map))) := by
  induction values generalizing names with
  | nil =>
      rw [List.map_nil, Action.setVariables, Action.setVariables]
      exact setDefaults height type names
  | cons value values ih =>
      cases names with
      | nil => exact .pure rfl
      | cons name names =>
          rw [List.map_cons, List.map_cons, Action.setVariables, Action.setVariables]
          refine (eval hrun value).seq fun v => (Follows.name name).bind fun spelled => ?_
          exact (setAt height spelled v).seq fun _ => ih names

theorem setConstants (height : Nat) (names values : List Node) :
    Follows ρ d id (Action.setConstants height names values)
      (Action.setConstants height (names.map (Node.rename ρ.map))
        (values.map (Node.rename ρ.map))) := by
  induction values generalizing names with
  | nil =>
      cases names with
      | nil => exact .pure rfl
      | cons name names => exact fail rfl
  | cons value values ih =>
      cases names with
      | nil => exact .pure rfl
      | cons name names =>
          rw [List.map_cons, List.map_cons, Action.setConstants, Action.setConstants]
          refine (eval hrun value).seq fun v => (Follows.name name).bind fun spelled => ?_
          exact (setAt height spelled v).seq fun _ => ih names

theorem condition (node : Node) :
    Follows ρ d id (Action.condition node) (Action.condition (node.rename ρ.map)) := by
  refine (eval hrun node).seq fun v => ?_
  split
  · exact .pure rfl
  · exact fail rfl

theorem branches (elifs : List Node) (alternative : Node) :
    Follows ρ d id (Action.branches elifs alternative)
      (Action.branches (elifs.map (Node.rename ρ.map)) (alternative.rename ρ.map)) := by
  induction elifs with
  | nil =>
      rw [List.map_nil, Action.branches, Action.branches]
      refine ite (by simp) (.pure rfl) ?_
      exact (attempt alternative.blockPart_rename).bind fun body => eval hrun body
  | cons branch rest ih =>
      rw [List.map_cons, Action.branches, Action.branches]
      refine (attempt branch.conditionPart_rename).bind fun test => ?_
      refine (condition hrun test).seq fun b => ite Iff.rfl ?_ ih
      exact (attempt branch.blockPart_rename).bind fun body => eval hrun body

theorem whileRound (test body : Node) :
    Follows ρ d id (Action.whileRound test body)
      (Action.whileRound (test.rename ρ.map) (body.rename ρ.map)) := by
  refine (condition hrun test).seq fun b => ite Iff.rfl ?_ (.pure rfl)
  refine (eval hrun body).seq fun v => ?_
  split <;> exact .pure rfl

theorem stepValue (first last : Value) (step : Node) :
    Follows ρ d id (Action.stepValue first last step)
      (Action.stepValue first last (step.rename ρ.map)) := by
  refine ite (by simp) (computed (Eval.computes_impliedStep first last)) ?_
  refine (eval hrun step).seq fun v => ?_
  exact (requireReal .badStep (fun _ => rfl) v).seq fun _ => .pure rfl

theorem forRound (height : Nat) (name : String) (last step : Value) (body : Node) :
    Follows ρ d id (Action.forRound height name last step body)
      (Action.forRound height (ρ.map name) last step (body.rename ρ.map)) := by
  refine (loopVariable height name).seq fun current => ?_
  refine (computed (Eval.writes_isPast current last step)).seq fun past => ?_
  refine ite Iff.rfl (.pure rfl) ((eval hrun body).seq fun v => ?_)
  split
  · exact .pure rfl
  · exact (moveOn height name current step).seq fun _ => .pure rfl

theorem runBody (body : Node) :
    Follows ρ d id (Action.runBody body) (Action.runBody (body.rename ρ.map)) :=
  (eval hrun body).seq fun _ => pop.bind fun _ => .pure rfl

/-- A call, where the callee is renamed and so is what its result is blamed on. -/
theorem call {kind : RecordKind} (hkind : kind ≠ .program) (callee : Option Routine)
    (values : List Value) {result : String → Value → Except Fault Value}
    (hresult : ∀ name v, result (ρ.map name) v = Fault.within ρ.map id (result name v)) :
    let x : Option Routine → Action Value := fun callee => do
      let r ← liftM (Eval.enterCall kind callee values)
      let outcome ← Action.runBody r.body
      liftM (Eval.attempt (result r.name outcome))
    Follows ρ d id (x callee) (x (callee.map (Routine.rename ρ.map))) := by
  refine (enterCall hkind callee values).bind fun r => ?_
  exact (runBody hrun r.body).seq fun outcome => attempt (hresult r.name outcome)

theorem forLoop (initial termination step body : Node) :
    Follows ρ d id (Action.evaluate (.forLoop initial termination step body))
      (Action.evaluate (.forLoop (initial.rename ρ.map) (termination.rename ρ.map)
        (step.rename ρ.map) (body.rename ρ.map))) := by
  refine (attempt initial.expressionPart_rename).bind fun part => ?_
  refine (eval hrun part).seq fun first => ?_
  refine (requireReal .badInitial (fun _ => rfl) first).seq fun _ => ?_
  refine (eval hrun termination).seq fun last => ?_
  refine (requireReal .badTermination (fun _ => rfl) last).seq fun _ => ?_
  refine (stepValue hrun first last step).seq fun step => ?_
  refine (eval hrun initial).seq fun _ => topHeight.seq fun height => ?_
  refine (attempt initial.identifierPart_rename).bind fun target => ?_
  exact (Follows.name target).bind fun name => ask hrun (.forLoop height name last step body)

theorem evaluate (node : Node) :
    Follows ρ d id (Action.evaluate node) (Action.evaluate (node.rename ρ.map)) := by
  cases node <;> simp only [Node.rename, Node.renameAll_eq]
  case absent | bare | typeName | elif | otherwise | parameter => exact fail rfl
  case incomplete lacking parts => exact incomplete lacking parts
  case program body =>
      exact (push rfl).seq fun _ => (runBody hrun body).seq fun _ => .pure rfl
  case block statements => exact block hrun statements
  case variableDecl type names values =>
      refine topHeight.seq fun height => ?_
      exact (setVariables hrun height type names values).seq fun _ => .pure rfl
  case constantDecl type names values =>
      refine topHeight.seq fun height => ?_
      exact (setConstants hrun height names values).seq fun _ => .pure rfl
  case assignment target value =>
      refine (eval hrun value).seq fun v => top.bind fun _ => (Follows.name target).bind ?_
      exact fun spelled => (setTop spelled v).seq fun _ => .pure rfl
  case give value =>
      exact ite (by simp) (.pure rfl) ((eval hrun value).seq fun _ => .pure rfl)
  case display value => exact (eval hrun value).seq fun v => (display v).seq fun _ => .pure rfl
  case functionDecl name parameters type body =>
      refine (attempt (Parameter.ofNodes_rename parameters)).bind fun ps => ?_
      refine (Follows.name name).bind fun name => (Follows.name type).bind fun type => ?_
      exact (declareFunction ⟨⟨name, some ps, body⟩, type⟩).seq fun _ => .pure rfl
  case procedureDecl name parameters body =>
      refine (attempt (Parameter.ofNodes_rename parameters)).bind fun ps => ?_
      refine (Follows.name name).bind fun name => ?_
      exact (declareProcedure ⟨name, some ps, body⟩).seq fun _ => .pure rfl
  case functionCall callee arguments =>
      refine (Follows.name callee).bind fun name => (findFunction name).bind fun found => ?_
      refine (evalAll hrun arguments).seq fun values => ?_
      have hfound : (found.map (Function.rename ρ.map)).map Function.toRoutine =
          (found.map Function.toRoutine).map (Routine.rename ρ.map) := by
        cases found <;> rfl
      rw [hfound]
      exact call hrun (by decide) _ values (Eval.functionResult_rename ρ.map)
  case procedureCall callee arguments =>
      refine (Follows.name callee).bind fun name => (findProcedure name).bind fun found => ?_
      refine (evalAll hrun arguments).seq fun values => ?_
      exact call hrun (by decide) found values (Eval.procedureResult_rename ρ.map)
  case ifElse test body elifs alternative =>
      refine (condition hrun test).seq fun b => ?_
      exact ite Iff.rfl (eval hrun body) (branches hrun elifs alternative)
  case whileLoop test body => exact ask hrun (.whileLoop test body)
  case forLoop initial termination step body => exact forLoop hrun initial termination step body
  case skip => exact leave .skip
  case stop => exact leave .stop
  case identifier name => exact valueOf name
  case binary left operator right =>
      refine (eval hrun left).seq fun v => (eval hrun right).seq fun w => ?_
      exact computed (Value.computes_binaryBy operator v w)
  case unary operator operand =>
      exact (eval hrun operand).seq fun v => computed (Value.computes_unaryBy operator v)
  case logical left operator right =>
      refine ite Iff.rfl ?_ (ite Iff.rfl ?_ (fail rfl))
      · exact (condition hrun left).seq fun b =>
          ite Iff.rfl ((condition hrun right).seq fun _ => .pure rfl) (.pure rfl)
      · exact (condition hrun left).seq fun b =>
          ite Iff.rfl (.pure rfl) ((condition hrun right).seq fun _ => .pure rfl)
  case negation operator operand =>
      exact (condition hrun operand).seq fun b => ite Iff.rfl (.pure rfl) (fail rfl)
  case comparison left comparator right =>
      refine (eval hrun left).seq fun v => (eval hrun right).seq fun w => ?_
      exact (computed (Value.writes_compareBy comparator v w)).seq fun _ => .pure rfl
  case truth expression => exact (eval hrun expression).seq fun _ => .pure rfl
  case number lexeme => exact computed (Eval.computes_numberValue lexeme)
  case string lexeme => exact .pure rfl
  case boolean lexeme => exact .pure rfl

theorem step (task : Task) :
    Follows ρ d (Action.Next.rename ρ.map) (Action.step task)
      (Action.step (task.rename ρ.map)) := by
  cases task with
  | eval node => exact (evaluate hrun node).seq fun v => .pure rfl
  | whileLoop test body =>
      refine (caught (whileRound hrun test body)).bind fun round => ?_
      rcases round with e | _ | _ | v
      · cases e with
        | skip => exact .pure rfl
        | stop => exact .pure rfl
        | fault cause => exact leave (.fault cause)
        | exhausted => exact leave .exhausted
      · exact .pure rfl
      · exact .pure rfl
      · exact .pure rfl
  | forLoop height name last step body =>
      refine (caught (forRound hrun height name last step body)).bind fun round => ?_
      rcases round with e | _ | _ | v
      · cases e with
        | skip =>
            refine (loopVariable height name).seq fun current => ?_
            exact (moveOn height name current step).seq fun _ => .pure rfl
        | stop => exact .pure rfl
        | fault cause => exact leave (.fault cause)
        | exhausted => exact leave .exhausted
      · exact .pure rfl
      · exact .pure rfl
      · exact .pure rfl

end

end Follows

/-! ## Runs -/

/-- A renamed task does on a renamed machine what the task does. -/
theorem performs_renamed (ρ : Renaming) (d : Nat) : Performs ρ d := by
  induction d with
  | zero => exact fun task m => rfl
  | succ d ih =>
      intro task m
      -- induction on the depth: the step asks for tasks of the depth below, and so does going on
      have hstep := Follows.step ih task m
      rw [perform, perform, hstep]
      cases (Action.step task m).carryOut (perform d) with
      | error e after => rfl
      | ok next after =>
          cases next with
          | value v => rfl
          | task t => exact ih t after

/-- A renamed program runs as the program does. -/
theorem interpret_rename (ρ : Renaming) (depth : Nat) (tree : Node) :
    interpret depth (tree.rename ρ.map) = (interpret depth tree).rename ρ.map := by
  have hrun := performs_renamed ρ depth (.eval tree) Machine.initial
  change Eval.eval depth (tree.rename ρ.map) Machine.initial =
    Ending.rename ρ.map id (Eval.eval depth tree Machine.initial) at hrun
  rw [interpret, interpret, hrun]
  cases Eval.eval depth tree Machine.initial <;> rfl

end BraceScript
