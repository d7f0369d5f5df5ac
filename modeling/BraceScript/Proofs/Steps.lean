import BraceScript.Proofs.Parts
import BraceScript.Proofs.Routines

/-! # Steps — what a task does by itself

    The work of a task alternates: a stretch of its own steps, a task that it asks for, the next
    stretch, and so on.  Here is said, once for all tasks and all trees, what such a stretch can do
    to the call stack, what may be asked for between two of them, and by which exits a task ends of
    its own accord.

    * `Task.Leaves`: a stretch keeps the records and all variables that the task does not write;
    * `Task.Effect`: or, at a call, it pushes the record of the callee or pops a record;
    * `Task.Asks`: what is asked for is a part of the task, or the body of the routine called;
    * `step_does`: all tasks do just that, and only calls complain of what was given;
    * `visits_headers`: what a visit comes to runs on the records of that visit, or above them. -/

namespace BraceScript

open Eval (perform)

variable {α β : Type}

/-! ## Stretches of work -/

/-- An ending that, if it is an exit, is one of `X`. -/
def Ending.Within (X : Exit → Prop) : Ending α → Prop
  | .ok _ _ => True
  | .error e _ => X e

namespace Work

/-- From a machine on, each stretch of work changes the machine as `R` says, the tasks asked for
    are of `A`, and if these end as `T` says, the work exits only as `X` says. -/
def Does (R : Machine → Machine → Prop) (A : Task → Prop) (T : Task → Ending Value → Prop)
    (X : Exit → Prop) : Work α → Machine → Prop
  | .ended e, m => R m (Ending.machine e) ∧ Ending.Within X e
  | .ask task before next, m => R m before ∧ A task ∧
      ∀ answer, T task answer → (next answer).Does R A T X (Ending.machine answer)

variable {R S : Machine → Machine → Prop} {A : Task → Prop} {T : Task → Ending Value → Prop}
  {X : Exit → Prop} {l m : Machine}

/-- The first stretch may begin elsewhere, and more may be allowed. -/
theorem Does.restart {w : Work α} (hfirst : ∀ n, S m n → R l n) (hrest : ∀ m n, S m n → R m n)
    (hw : w.Does S A T X m) : w.Does R A T X l := by
  induction w generalizing l m with
  | ended e => exact ⟨hfirst _ hw.1, hw.2⟩
  | ask task before next ih =>
      refine ⟨hfirst _ hw.1, hw.2.1, fun answer hanswer => ?_⟩
      exact ih answer (hrest _) (hw.2.2 answer hanswer)

/-- Work in sequence: the last stretch of the first and the first of the second become one. -/
theorem Does.bind {w : Work α} {f : α → Action β} (hS : ∀ l m n, S l m → R m n → R l n)
    (hSR : ∀ m n, S m n → R m n) (hw : w.Does S A T X m)
    (hf : ∀ a after, (f a after).Does R A T X after) : (w.bind f).Does R A T X m := by
  induction w generalizing m with
  | ended e =>
      cases e with
      | ok a after => exact (hf a after).restart (hS _ _ · hw.1) fun _ _ h => h
      | error e after => exact ⟨hSR _ _ hw.1, hw.2⟩
  | ask task before next ih =>
      refine ⟨hSR _ _ hw.1, hw.2.1, fun answer hanswer => ?_⟩
      exact ih answer (hw.2.2 answer hanswer)

theorem Does.map {w : Work α} (g : α → β) (hw : w.Does R A T X m) :
    (w.bind fun a => (Pure.pure (g a) : Action β)).Does R A T X m := by
  induction w generalizing m with
  | ended e => cases e <;> exact hw
  | ask task before next ih =>
      exact ⟨hw.1, hw.2.1, fun answer hanswer => ih answer (hw.2.2 answer hanswer)⟩

/-- Work that goes on however its first part ends. -/
theorem Does.caught_bind {w : Work α} {f : Except Exit α → Action β}
    (hR : ∀ l m n, R l m → R m n → R l n) (hw : w.Does R A T X m)
    (hok : ∀ a after, (f (.ok a) after).Does R A T X after)
    (herr : ∀ e after, X e → (f (.error e) after).Does R A T X after) :
    (w.caught.bind f).Does R A T X m := by
  induction w generalizing m with
  | ended e =>
      cases e with
      | ok a after => exact (hok a after).restart (hR _ _ · hw.1) fun _ _ h => h
      | error e after => exact (herr e after hw.2).restart (hR _ _ · hw.1) fun _ _ h => h
  | ask task before next ih =>
      refine ⟨hw.1, hw.2.1, fun answer hanswer => ?_⟩
      exact ih answer (hw.2.2 answer hanswer)

/-- What holds from stretch to stretch, and is kept by what is asked for, holds when work is
    carried out: at each task that it comes to, and at its end. -/
theorem Does.carried {w : Work α} {J : Machine → Prop} (run : Task → Eval Value)
    (hw : w.Does R A T X m) (hm : J m) (hR : ∀ m n, R m n → J m → J n)
    (hrun : ∀ task n, (task, n) ∈ w.asked run → A task → J n →
      T task (run task n) ∧ J (Ending.machine (run task n))) :
    (∀ p ∈ w.asked run, A p.1 ∧ J p.2) ∧
      Ending.Within X (w.carryOut run) ∧ J (Ending.machine (w.carryOut run)) := by
  induction w generalizing m with
  | ended e => exact ⟨fun p hp => absurd hp List.not_mem_nil, hw.2, hR _ _ hw.1 hm⟩
  | ask task before next ih =>
      obtain ⟨hfirst, htask, hnext⟩ := hw
      have hbefore : J before := hR _ _ hfirst hm
      obtain ⟨htrust, hafter⟩ := hrun task before List.mem_cons_self htask hbefore
      obtain ⟨hasked, hend⟩ := ih _ (hnext _ htrust) hafter
        fun task n hn => hrun task n (List.mem_cons_of_mem _ hn)
      refine ⟨fun p hp => ?_, hend⟩
      rcases List.mem_cons.mp hp with rfl | hp
      · exact ⟨htask, hbefore⟩
      · exact hasked p hp

end Work

/-- Stretches of an action, from any machine on. -/
abbrev Action.Does (R : Machine → Machine → Prop) (A : Task → Prop)
    (T : Task → Ending Value → Prop) (X : Exit → Prop) (x : Action α) : Prop :=
  ∀ m, (x m).Does R A T X m

/-! ## Faults of giving -/

/-- A fault of what a routine gave. -/
def Fault.OfGiving : Fault → Prop
  | .emptyGive _ | .notGiving _ | .procedureGave _ => True
  | _ => False

theorem Fault.OfValue.not_giving {f : Fault} (h : f.OfValue) : ¬ f.OfGiving := by
  cases f <;> first
    | exact fun h => h
    | exact absurd h fun h => h

theorem Fault.OfTree.not_giving {f : Fault} (h : f.OfTree) : ¬ f.OfGiving := by
  cases f <;> first
    | exact fun h => h
    | exact absurd h fun h => h

theorem Eval.yields_default (type : String) :
    Yields (fun f => ¬ f.OfGiving) (fun _ => True) (Eval.defaultValue type) := by
  unfold Eval.defaultValue
  split
  · exact .ok trivial
  · split
    · exact .ok trivial
    · split
      · exact .ok trivial
      · exact .error fun h => h

/-! ## Actions that change the machine little -/

/-- Exits that allow those of what is asked for, and every fault but those of giving. -/
structure Permits (T : Task → Ending Value → Prop) (X : Exit → Prop) : Prop where
  answer : ∀ task e, T task e → Ending.Within X e
  fault : ∀ f, ¬ f.OfGiving → X (.fault f)
  skip : X .skip
  stop : X .stop

/-- A relation between the two ends of a stretch that allows to do nothing to the stack. -/
structure Steady (R : Machine → Machine → Prop) (T : Task → Ending Value → Prop)
    (X : Exit → Prop) : Prop extends Permits T X where
  still : ∀ m n, n.stack = m.stack → R m n
  trans : ∀ l m n, R l m → R m n → R l n

/-- A relation that allows to set a variable, in any record. -/
def AllowsSet (R : Machine → Machine → Prop) (name : String) : Prop :=
  ∀ m height v, R m { m with stack := m.stack.setAt height name v }

namespace Steady

variable {R : Machine → Machine → Prop} {A : Task → Prop} {T : Task → Ending Value → Prop}
  {X : Exit → Prop} (h : Steady R T X)

include h

theorem does_pure {a : α} : Action.Does R A T X (Pure.pure a) := fun m => ⟨h.still m m rfl, trivial⟩

theorem does_bind {x : Action α} {f : α → Action β} (hx : Action.Does R A T X x)
    (hf : ∀ a, Action.Does R A T X (f a)) : Action.Does R A T X (x >>= f) :=
  fun m => (hx m).bind h.trans (fun _ _ h => h) hf

omit h in
theorem does_ite {c : Prop} [Decidable c] {x y : Action α} (hx : Action.Does R A T X x)
    (hy : Action.Does R A T X y) : Action.Does R A T X (if c then x else y) := by
  split
  · exact hx
  · exact hy

theorem does_ask {task : Task} (htask : A task) : Action.Does R A T X (Action.ask task) := by
  refine fun m => ⟨h.still m m rfl, htask, fun answer hanswer => ?_⟩
  exact ⟨h.still _ _ rfl, h.answer task answer hanswer⟩

theorem does_fail {f : Fault} (hf : ¬ f.OfGiving) :
    Action.Does R A T X (liftM (Eval.fail f : Eval α) : Action α) :=
  fun m => ⟨h.still m m rfl, h.fault f hf⟩

theorem does_attempt_bind {F : Fault → Prop} {Q : α → Prop} {x : Except Fault α}
    (hx : Yields F Q x) (hF : ∀ f, F f → ¬ f.OfGiving) {f : α → Action β}
    (hf : ∀ a, Q a → Action.Does R A T X (f a)) :
    Action.Does R A T X (liftM (Eval.attempt x) >>= f) := by
  intro m
  cases hx with
  | ok ha => exact hf _ ha m
  | error hg => exact ⟨h.still m m rfl, h.fault _ (hF _ hg)⟩

theorem does_attempt {F : Fault → Prop} {Q : α → Prop} {x : Except Fault α} (hx : Yields F Q x)
    (hF : ∀ f, F f → ¬ f.OfGiving) : Action.Does R A T X (liftM (Eval.attempt x) : Action α) := by
  cases hx with
  | ok _ => exact h.does_pure
  | error hf => exact h.does_fail (hF _ hf)

/-- A value is computed from values. -/
theorem does_computed {Q : α → Prop} {x : Except Fault α} (hx : Computes Q x) :
    Action.Does R A T X (liftM (Eval.attempt x) : Action α) :=
  h.does_attempt hx fun _ => Fault.OfValue.not_giving

/-- A part of the tree is looked at. -/
theorem does_part {x : Except Fault α} {Q : α → Prop} (hx : Yields Fault.OfTree Q x)
    {f : α → Action β} (hf : ∀ part, Q part → Action.Does R A T X (f part)) :
    Action.Does R A T X (liftM (Eval.attempt x) >>= f) :=
  h.does_attempt_bind hx (fun _ => Fault.OfTree.not_giving) hf

theorem does_namePart (node : Node) {f : String → Action β}
    (hf : ∀ name, node.namePart = .ok name → Action.Does R A T X (f name)) :
    Action.Does R A T X (liftM (Eval.attempt node.namePart) >>= f) :=
  h.does_part node.yields_namePart.named hf

/-! ### Steps -/

theorem does_top : Action.Does R A T X (liftM Eval.top : Action Record) := by
  intro m
  show (Work.ended (Eval.top m)).Does _ _ _ _ _
  cases hs : m.stack with
  | nil => rw [Eval.top_nil hs]; exact ⟨h.still m m rfl, h.fault _ fun h => h⟩
  | cons r rest => rw [Eval.top_cons hs]; exact ⟨h.still m m rfl, trivial⟩

theorem does_topHeight : Action.Does R A T X (liftM Eval.topHeight : Action Nat) := by
  intro m
  show (Work.ended (Eval.topHeight m)).Does _ _ _ _ _
  cases hs : m.stack with
  | nil => rw [Eval.topHeight_nil hs]; exact ⟨h.still m m rfl, h.fault _ fun h => h⟩
  | cons r rest => rw [Eval.topHeight_cons hs]; exact ⟨h.still m m rfl, trivial⟩

theorem does_valueOf (name : String) :
    Action.Does R A T X (liftM (Eval.valueOf name) : Action Value) := by
  unfold Eval.valueOf
  rw [Action.liftM_bind]
  refine h.does_bind h.does_top fun r => ?_
  split
  · exact h.does_fail fun h => h
  · exact h.does_fail fun h => h
  · exact h.does_pure

theorem does_requireReal (fault : String → Fault) (hf : ∀ s, ¬ (fault s).OfGiving) (v : Value) :
    Action.Does R A T X (liftM (Eval.requireReal fault v) : Action Unit) := by
  unfold Eval.requireReal
  split
  · exact h.does_pure
  · exact h.does_fail (hf _)

theorem does_loopVariable (height : Nat) (name : String) :
    Action.Does R A T X (liftM (Eval.loopVariable height name) : Action Value) := by
  unfold Eval.loopVariable
  rw [Action.liftM_bind]
  refine h.does_bind (fun m => ⟨h.still _ _ rfl, trivial⟩) fun found => ?_
  split
  · split
    · exact h.does_pure
    · exact h.does_fail fun h => h
  · exact h.does_fail fun h => h

theorem does_incomplete (lacking : Lacking) (parts : List Node) :
    Action.Does R A T X (liftM (Eval.incomplete lacking parts) : Action Value) := by
  cases lacking with
  | numberLexeme | stringLexeme => exact h.does_fail fun h => h
  | variableNames | constantNames =>
      rw [Eval.incomplete, Action.liftM_bind]
      exact h.does_bind h.does_topHeight fun _ => h.does_fail fun h => h
  | constantValues =>
      rw [Eval.incomplete, Action.liftM_bind]
      refine h.does_bind h.does_topHeight fun _ => ?_
      split
      · exact h.does_pure
      · exact h.does_fail fun h => h

theorem does_display (v : Value) : Action.Does R A T X (liftM (Eval.display v)) := by
  unfold Eval.display
  rw [Action.liftM_bind]
  refine h.does_attempt_bind v.writes_text (fun _ => Fault.OfValue.not_giving) fun line _ m => ?_
  exact ⟨h.still _ _ rfl, trivial⟩

/-! ### Setting variables -/

omit h in
theorem does_setAt (height : Nat) {name : String} (hset : AllowsSet R name) (v : Value) :
    Action.Does R A T X (liftM (Eval.setAt height name v) : Action Unit) :=
  fun m => ⟨hset m height v, trivial⟩

theorem does_setTop {name : String} (hset : AllowsSet R name) (v : Value) :
    Action.Does R A T X (liftM (Eval.setTop name v) : Action Unit) := by
  intro m
  show (Work.ended (Eval.setTop name v m)).Does _ _ _ _ _
  cases hs : m.stack with
  | nil => rw [Eval.setTop_nil hs]; exact ⟨h.still m m rfl, h.fault _ fun h => h⟩
  | cons r rest =>
      -- the top record is the one at its own height
      have htop := hset m (rest.length + 1) v
      rw [hs, CallStack.setAt, if_pos rfl] at htop
      rw [Eval.setTop_cons hs]
      exact ⟨htop, trivial⟩

theorem does_moveOn (height : Nat) {name : String} (hset : AllowsSet R name)
    (current step : Value) :
    Action.Does R A T X (liftM (Eval.moveOn height name current step) : Action Unit) := by
  unfold Eval.moveOn
  rw [Action.liftM_bind]
  refine h.does_attempt_bind (current.computes_add step) (fun _ => Fault.OfValue.not_giving) ?_
  exact fun v _ => does_setAt height hset v

theorem does_setDefaults (height : Nat) (type : Node) {names : List Node}
    (hset : ∀ node ∈ names, ∀ name, node.namePart = .ok name → AllowsSet R name) :
    Action.Does R A T X (liftM (Eval.setDefaults height type names) : Action Unit) := by
  induction names with
  | nil => exact h.does_pure
  | cons name names ih =>
      rw [Eval.setDefaults]
      simp only [Action.liftM_bind]
      refine h.does_namePart type fun spelled _ => ?_
      refine h.does_attempt_bind (Eval.yields_default spelled) (fun _ h => h) fun v _ => ?_
      refine h.does_namePart name fun spelled hspelled => ?_
      refine h.does_bind (does_setAt height (hset name List.mem_cons_self _ hspelled) v) fun _ => ?_
      exact ih fun node hnode => hset node (List.mem_cons_of_mem _ hnode)

theorem does_setVariables (height : Nat) (type : Node) {names values : List Node}
    (hset : ∀ node ∈ names, ∀ name, node.namePart = .ok name → AllowsSet R name)
    (hvalues : ∀ v ∈ values, Action.Does R A T X (Action.eval v)) :
    Action.Does R A T X (Action.setVariables height type names values) := by
  induction values generalizing names with
  | nil => rw [Action.setVariables]; exact h.does_setDefaults height type hset
  | cons value values ih =>
      cases names with
      | nil => exact h.does_pure
      | cons name names =>
          rw [Action.setVariables]
          refine h.does_bind (hvalues _ List.mem_cons_self) fun v => ?_
          refine h.does_namePart name fun spelled hspelled => ?_
          refine h.does_bind (does_setAt height (hset name List.mem_cons_self _ hspelled) v)
            fun _ => ?_
          exact ih (fun node hnode => hset node (List.mem_cons_of_mem _ hnode))
            fun v hv => hvalues v (List.mem_cons_of_mem _ hv)

theorem does_setConstants (height : Nat) {names values : List Node}
    (hset : ∀ node ∈ names, ∀ name, node.namePart = .ok name → AllowsSet R name)
    (hvalues : ∀ v ∈ values, Action.Does R A T X (Action.eval v)) :
    Action.Does R A T X (Action.setConstants height names values) := by
  induction values generalizing names with
  | nil =>
      cases names with
      | nil => exact h.does_pure
      | cons name names => exact h.does_fail fun h => h
  | cons value values ih =>
      cases names with
      | nil => exact h.does_pure
      | cons name names =>
          rw [Action.setConstants]
          refine h.does_bind (hvalues _ List.mem_cons_self) fun v => ?_
          refine h.does_namePart name fun spelled hspelled => ?_
          refine h.does_bind (does_setAt height (hset name List.mem_cons_self _ hspelled) v)
            fun _ => ?_
          exact ih (fun node hnode => hset node (List.mem_cons_of_mem _ hnode))
            fun v hv => hvalues v (List.mem_cons_of_mem _ hv)

/-! ### Parts of tasks -/

theorem does_block {statements : List Node}
    (hparts : ∀ s ∈ statements, Action.Does R A T X (Action.eval s)) :
    Action.Does R A T X (Action.block statements) := by
  induction statements with
  | nil => exact h.does_pure
  | cons statement rest ih =>
      rw [Action.block]
      refine h.does_bind (hparts _ List.mem_cons_self) fun v => ?_
      split
      · exact h.does_pure
      · exact ih fun s hs => hparts s (List.mem_cons_of_mem _ hs)

theorem does_evalAll {nodes : List Node}
    (hparts : ∀ node ∈ nodes, Action.Does R A T X (Action.eval node)) :
    Action.Does R A T X (Action.evalAll nodes) := by
  induction nodes with
  | nil => exact h.does_pure
  | cons node rest ih =>
      rw [Action.evalAll]
      refine h.does_bind (hparts _ List.mem_cons_self) fun v => ?_
      exact h.does_bind (ih fun node hnode => hparts node (List.mem_cons_of_mem _ hnode))
        fun _ => h.does_pure

theorem does_condition {node : Node} (hpart : Action.Does R A T X (Action.eval node)) :
    Action.Does R A T X (Action.condition node) := by
  refine h.does_bind hpart fun v => ?_
  split
  · exact h.does_pure
  · exact h.does_fail fun h => h

theorem does_branches {elifs : List Node} {alternative : Node}
    (harms : ∀ arm ∈ alternative :: elifs, ∀ part, arm.Has part →
      Action.Does R A T X (Action.eval part)) :
    Action.Does R A T X (Action.branches elifs alternative) := by
  induction elifs with
  | nil =>
      rw [Action.branches]
      refine does_ite h.does_pure (h.does_part alternative.yields_blockPart ?_)
      exact harms alternative List.mem_cons_self
  | cons branch rest ih =>
      have hbranch := harms branch (by simp)
      rw [Action.branches]
      refine h.does_part branch.yields_conditionPart fun test htest => ?_
      refine h.does_bind (h.does_condition (hbranch test htest)) fun b => does_ite ?_ ?_
      · exact h.does_part branch.yields_blockPart hbranch
      · refine ih fun arm harm => harms arm ?_
        rcases List.mem_cons.mp harm with rfl | harm
        · exact List.mem_cons_self
        · exact List.mem_cons_of_mem _ (List.mem_cons_of_mem _ harm)

theorem does_whileRound {test body : Node} (htest : Action.Does R A T X (Action.eval test))
    (hbody : Action.Does R A T X (Action.eval body)) :
    Action.Does R A T X (Action.whileRound test body) := by
  refine h.does_bind (h.does_condition htest) fun b => does_ite ?_ h.does_pure
  refine h.does_bind hbody fun v => ?_
  split <;> exact h.does_pure

theorem does_stepValue (first last : Value) {step : Node}
    (hstep : Action.Does R A T X (Action.eval step)) :
    Action.Does R A T X (Action.stepValue first last step) := by
  refine does_ite (h.does_computed (Eval.computes_impliedStep first last)) ?_
  refine h.does_bind hstep fun v => ?_
  exact h.does_bind (h.does_requireReal .badStep (fun _ h => h) v) fun _ => h.does_pure

theorem does_forRound (height : Nat) {name : String} (hset : AllowsSet R name) (last step : Value)
    {body : Node} (hbody : Action.Does R A T X (Action.eval body)) :
    Action.Does R A T X (Action.forRound height name last step body) := by
  refine h.does_bind (h.does_loopVariable height name) fun current => ?_
  refine h.does_attempt_bind (Eval.writes_isPast current last step)
    (fun _ => Fault.OfValue.not_giving) fun past _ => does_ite h.does_pure ?_
  refine h.does_bind hbody fun v => ?_
  split
  · exact h.does_pure
  · exact h.does_bind (h.does_moveOn height hset current step) fun _ => h.does_pure

theorem does_operation {node : Node} (hnode : node.IsOperation)
    (hparts : ∀ part ∈ node.operands, Action.Does R A T X (Action.eval part)) :
    Action.Does R A T X (Action.evaluate node) := by
  cases node with
  | number lexeme => exact h.does_computed (Eval.computes_numberValue lexeme)
  | string lexeme | boolean lexeme => exact h.does_pure
  | binary left operator right =>
      refine h.does_bind (hparts left (by simp [Node.operands])) fun v => ?_
      refine h.does_bind (hparts right (by simp [Node.operands])) fun w => ?_
      exact h.does_computed (v.computes_binaryBy operator w)
  | unary operator operand =>
      refine h.does_bind (hparts operand (by simp [Node.operands])) fun v => ?_
      exact h.does_computed (v.computes_unaryBy operator)
  | logical left operator right =>
      have hleft := h.does_condition (hparts left (by simp [Node.operands]))
      have hright := h.does_condition (hparts right (by simp [Node.operands]))
      refine does_ite ?_ (does_ite ?_ (h.does_fail fun h => h))
      · refine h.does_bind hleft fun b => does_ite ?_ h.does_pure
        exact h.does_bind hright fun _ => h.does_pure
      · refine h.does_bind hleft fun b => does_ite h.does_pure ?_
        exact h.does_bind hright fun _ => h.does_pure
  | negation operator operand =>
      have hoperand := h.does_condition (hparts operand (by simp [Node.operands]))
      exact h.does_bind hoperand fun b => does_ite h.does_pure (h.does_fail fun h => h)
  | comparison left comparator right =>
      refine h.does_bind (hparts left (by simp [Node.operands])) fun v => ?_
      refine h.does_bind (hparts right (by simp [Node.operands])) fun w => ?_
      exact h.does_attempt_bind (v.writes_compareBy comparator w)
        (fun _ => Fault.OfValue.not_giving) fun _ _ => h.does_pure
  | truth expression =>
      exact h.does_bind (hparts expression (by simp [Node.operands])) fun _ => h.does_pure
  | _ => exact hnode.elim

end Steady

/-! ## What tasks write, ask for and do to the stack -/

/-- The call that a part is: what kind of routine it calls, by which name, with which arguments. -/
def Node.call? : Node → Option (RecordKind × Node × List Node)
  | .functionCall callee arguments => some (.function, callee, arguments)
  | .procedureCall callee arguments => some (.procedure, callee, arguments)
  | _ => none

/-- The names that the writing part of a declaration or an assignment stands for. -/
def Node.targets : Node → List Node
  | .variableDecl _ names _ | .constantDecl _ names _ => names
  | .assignment target _ => [target]
  | _ => []

namespace Task

/-- The variables that a task sets by itself. -/
def Writes : Task → String → Prop
  | .eval node, name => ∃ target ∈ node.targets, target.namePart = .ok name
  | .forLoop _ looped _ _ _, name => looped = name
  | .whileLoop _ _, _ => False

/-- What a task may ask for, on a machine on which it began. -/
inductive Asks : Task → Machine → Task → Prop where
  | child {node part : Node} {m : Machine} (hown : node.declaresRoutine = false)
      (hcall : node.call? = none) (h : part ∈ node.proper) : Asks (.eval node) m (.eval part)
  | argument {node callee argument : Node} {arguments : List Node} {m : Machine}
      {kind : RecordKind} (hcall : node.call? = some (kind, callee, arguments))
      (h : argument ∈ arguments) : Asks (.eval node) m (.eval argument)
  | arm {test body alternative arm part : Node} {elifs : List Node} {m : Machine}
      (harm : arm ∈ alternative :: elifs) (h : arm.Has part) :
      Asks (.eval (.ifElse test body elifs alternative)) m (.eval part)
  | initial {initial termination stepPart body part : Node} {m : Machine} (h : initial.Has part) :
      Asks (.eval (.forLoop initial termination stepPart body)) m (.eval part)
  | body {node callee : Node} {arguments : List Node} {m : Machine} {kind : RecordKind}
      {name : String} {p : Routine} (hcall : node.call? = some (kind, callee, arguments))
      (hname : callee.namePart = .ok name) (h : m.routine? kind name = some p) :
      Asks (.eval node) m (.eval p.body)
  | whileLoop {test body : Node} {m : Machine} :
      Asks (.eval (.whileLoop test body)) m (.whileLoop test body)
  | forLoop {initial termination stepPart body target : Node} {name : String} {m : Machine}
      {height : Nat} {last step : Value} (htarget : initial.identifierPart = .ok target)
      (hname : target.namePart = .ok name) :
      Asks (.eval (.forLoop initial termination stepPart body)) m
        (.forLoop height name last step body)
  | test {test body : Node} {m : Machine} : Asks (.whileLoop test body) m (.eval test)
  | round {test body : Node} {m : Machine} : Asks (.whileLoop test body) m (.eval body)
  | forRound {height : Nat} {name : String} {last step : Value} {body : Node} {m : Machine} :
      Asks (.forLoop height name last step body) m (.eval body)

end Task

namespace Machine

/-- The value of a variable in each record of the stack, the top one first. -/
def cells (m : Machine) (name : String) : List (Option Value) := m.stack.map (·.get? name)

theorem cells_eq {m n : Machine} (h : n.stack = m.stack) (name : String) :
    n.cells name = m.cells name := by
  rw [cells, cells, h]

theorem length_cells (m : Machine) (name : String) : (m.cells name).length = m.stack.length :=
  List.length_map _

end Machine

theorem CallStack.map_get?_setAt {name other : String} (h : name ≠ other) (height : Nat)
    (v : Value) (s : CallStack) :
    (s.setAt height name v).map (·.get? other) = s.map (·.get? other) := by
  induction s with
  | nil => rfl
  | cons r rest ih =>
      unfold CallStack.setAt
      split
      · rw [List.map_cons, List.map_cons]
        exact congrArg (· :: _) (Table.get?_insert_of_ne r.members v h)
      · rw [List.map_cons, List.map_cons, ih]

namespace Task

/-- The records stay, and so does every variable that the task does not set. -/
structure Leaves (task : Task) (m n : Machine) : Prop where
  headers : n.headers = m.headers
  cells : ∀ name, ¬ task.Writes name → n.cells name = m.cells name

theorem Leaves.still {task : Task} {m n : Machine} (h : n.stack = m.stack) : task.Leaves m n :=
  ⟨congrArg (List.map Record.header) h, fun name _ => Machine.cells_eq h name⟩

theorem Leaves.trans {task : Task} {l m n : Machine} (h : task.Leaves l m) (h' : task.Leaves m n) :
    task.Leaves l n :=
  ⟨h'.headers.trans h.headers, fun name hname => (h'.cells name hname).trans (h.cells name hname)⟩

theorem allowsSet {task : Task} {name : String} (h : task.Writes name) :
    AllowsSet task.Leaves name := by
  refine fun m height v => ⟨CallStack.map_header_setAt height name v m.stack, ?_⟩
  intro other hother
  refine CallStack.map_get?_setAt ?_ height v m.stack
  rintro rfl
  exact hother h

theorem steady (task : Task) {T : Task → Ending Value → Prop} {X : Exit → Prop}
    (h : Permits T X) : Steady task.Leaves T X where
  toPermits := h
  still _ _ hstack := .still hstack
  trans _ _ _ h h' := h.trans h'

/-- What a stretch of a task, begun on the machine `start`, does to the stack: it leaves the
    records, or pushes or pops one around a body. -/
inductive Effect : Task → Machine → Machine → Machine → Prop where
  | leaves {task : Task} {start m n : Machine} (h : task.Leaves m n) : Effect task start m n
  | program {body : Node} {start m n : Machine} (h : n.stack = Record.program :: m.stack) :
      Effect (.eval (.program body)) start m n
  | push {node callee : Node} {arguments : List Node} {start m n : Machine} {kind : RecordKind}
      {name : String} {p : Routine} {values : List Value} {caller : Record}
      (hcall : node.call? = some (kind, callee, arguments)) (hname : callee.namePart = .ok name)
      (hroutine : start.routine? kind name = some p) (hcaller : m.stack.head? = some caller)
      (h : n.stack = Eval.calleeRecord kind p values caller :: m.stack) :
      Effect (.eval node) start m n
  | pop {node : Node} {start m n : Machine} {r : Record} (h : m.stack = r :: n.stack) :
      Effect (.eval node) start m n

end Task

/-- A stretch that does nothing to the stack. -/
def Machine.Still (m n : Machine) : Prop := n.stack = m.stack

theorem Machine.Still.steady {T : Task → Ending Value → Prop} {X : Exit → Prop}
    (h : Permits T X) : Steady Machine.Still T X where
  toPermits := h
  still _ _ hstack := hstack
  trans _ _ _ h h' := Eq.trans h' h

theorem Task.Effect.behind {task : Task} {start l m n : Machine} (h : Machine.Still l m)
    (h' : task.Effect start m n) : task.Effect start l n := by
  have hstack : m.stack = l.stack := h
  cases h' with
  | leaves h' => exact .leaves ((Task.Leaves.still h).trans h')
  | program h' => exact .program (hstack ▸ h')
  | push hcall hname hroutine hcaller h' =>
      exact .push hcall hname hroutine (hstack ▸ hcaller) (hstack ▸ h')
  | pop h' => exact .pop (hstack ▸ h')

/-! ## All tasks -/

namespace Action

/-- What a call comes to, by the kind of routine that it calls. -/
def result : RecordKind → String → Value → Except Fault Value
  | .function => Eval.functionResult
  | _ => Eval.procedureResult

/-- Looks a routine up in the table of its kind. -/
def find (kind : RecordKind) (name : String) : Eval (Option Routine) := fun m =>
  .ok (m.routine? kind name) m

/-- A call, once its arguments have been evaluated. -/
def call (kind : RecordKind) (callee : Option Routine) (values : List Value) : Action Value := do
  let r ← Eval.enterCall kind callee values
  let outcome ← runBody r.body
  Eval.attempt (result kind r.name outcome)

/-- Calls of functions and of procedures do the same with the tables they look at. -/
theorem evaluate_call {node callee : Node} {arguments : List Node} {kind : RecordKind}
    (h : node.call? = some (kind, callee, arguments)) :
    evaluate node = (do
      let name ← Eval.attempt callee.namePart
      let found ← find kind name
      let values ← evalAll arguments
      call kind found values) := by
  cases node with
  | functionCall _ _ | procedureCall _ _ => cases h; rfl
  | _ => cases h

end Action

section

variable {A : Task → Prop} {T : Task → Ending Value → Prop} {X : Exit → Prop} {start : Machine}

/-- A record is pushed for a body, and popped if the body completes. -/
theorem does_runBody {node body : Node} (h : Permits T X) (hbody : A (.eval body))
    {f : Value → Action β}
    (hf : ∀ v after, T (.eval body) (.ok v after) → Action.Does Machine.Still A T X (f v))
    {m n : Machine} (hn : (Task.eval node).Effect start m n) :
    ((Action.runBody body n).bind f).Does ((Task.eval node).Effect start) A T X m := by
  refine ⟨hn, hbody, fun answer hanswer => ?_⟩
  cases answer with
  | error e after => exact ⟨.leaves (.still rfl), h.answer _ _ hanswer⟩
  | ok v after =>
      show (Work.bind (Work.bind (Work.ended (Eval.pop after)) fun _ => Pure.pure v) f).Does
        _ _ _ _ _
      cases hs : after.stack with
      | nil =>
          rw [Eval.pop_nil hs]
          exact ⟨.leaves (.still rfl), h.fault _ fun h => h⟩
      | cons r rest =>
          rw [Eval.pop_cons hs]
          refine (hf v after hanswer _).restart (fun last hlast => .pop (r := r) ?_)
            fun _ _ hstill => .leaves (.still hstill)
          have hlast : last.stack = rest := hlast
          rw [Ending.machine_ok, hs, hlast]

/-- A call; it may complain of what the body gave. -/
theorem does_call {node callee : Node} {arguments : List Node} {kind : RecordKind}
    (h : Permits T X) (hcall : node.call? = some (kind, callee, arguments))
    (hresult : ∀ name p v after f, callee.namePart = .ok name → start.routine? kind name = some p →
      T (.eval p.body) (.ok v after) → Action.result kind p.name v = .error f → X (.fault f)) :
    (Action.evaluate node start).Does ((Task.eval node).Effect start)
      ((Task.eval node).Asks start) T X start := by
  have hstill : Steady Machine.Still T X := Machine.Still.steady h
  rw [Action.evaluate_call hcall]
  cases hname : callee.namePart with
  | error f =>
      have htree := callee.yields_namePart.fault hname
      exact ⟨.leaves (.still rfl), h.fault _ htree.not_giving⟩
  | ok name =>
      show (Work.bind (Action.evalAll arguments start) _).Does _ _ _ _ _
      have hargs : Action.Does Machine.Still ((Task.eval node).Asks start) T X
          (Action.evalAll arguments) :=
        hstill.does_evalAll fun a ha => hstill.does_ask (.argument hcall ha)
      refine (hargs start).bind (fun _ _ _ => .behind) (fun _ _ hm => .leaves (.still hm)) ?_
      intro values m
      show (Work.bind (Work.ended (Eval.enterCall kind _ values m)) _).Does _ _ _ _ _
      cases hs : m.stack with
      | nil =>
          simp only [Eval.enterCall, bind, EStateM.bind, Eval.top_nil hs]
          exact ⟨.leaves (.still rfl), h.fault _ fun h => h⟩
      | cons caller rest =>
          cases hroutine : start.routine? kind name with
          | none =>
              simp only [Eval.enterCall, bind, EStateM.bind, Eval.top_cons hs]
              exact ⟨.leaves (.still rfl), h.fault _ fun h => h⟩
          | some p =>
              rw [Eval.enterCall_cons hs, ← hs]
              refine does_runBody h (.body hcall hname hroutine) (fun v after hv n => ?_)
                (.push hcall hname hroutine (by rw [hs]; rfl) rfl)
              cases hvalue : Action.result kind p.name v with
              | ok _ => exact ⟨rfl, trivial⟩
              | error f => exact ⟨rfl, hresult name p v after f hname hroutine hv hvalue⟩

theorem does_program {body : Node} (h : Permits T X) :
    (Action.evaluate (.program body) start).Does ((Task.eval (.program body)).Effect start)
      ((Task.eval (.program body)).Asks start) T X start := by
  show ((Action.runBody body _).bind fun _ => (Pure.pure Value.nothing : Action Value)).Does
    _ _ _ _ _
  refine does_runBody h (.child rfl rfl List.mem_cons_self) (fun v _ _ n => ?_) (.program rfl)
  exact ⟨rfl, trivial⟩

/-- A part that is no call and no program. -/
theorem does_evaluate {node : Node} (h : Steady (Task.eval node).Leaves T X)
    (hcall : node.call? = none) (hprogram : ∀ body, node ≠ .program body) :
    Action.Does (Task.eval node).Leaves ((Task.eval node).Asks start) T X
      (Action.evaluate node) := by
  have part : node.declaresRoutine = false → ∀ part ∈ node.proper,
      Action.Does (Task.eval node).Leaves ((Task.eval node).Asks start) T X (Action.eval part) :=
    fun hown part hpart => h.does_ask (.child hown hcall hpart)
  cases node with
  | absent | bare _ | typeName _ | elif _ _ | otherwise _ | parameter _ _ =>
      exact h.does_fail fun h => h
  | incomplete lacking parts => exact h.does_incomplete lacking parts
  | program body => exact absurd rfl (hprogram body)
  | block statements => exact h.does_block (part rfl)
  | variableDecl type names values =>
      refine h.does_bind h.does_topHeight fun height => ?_
      refine h.does_bind (h.does_setVariables height type ?_ ?_) fun _ => h.does_pure
      · exact fun target htarget name hname => Task.allowsSet ⟨target, htarget, hname⟩
      · exact fun v hv => part rfl v hv
  | constantDecl type names values =>
      refine h.does_bind h.does_topHeight fun height => ?_
      refine h.does_bind (h.does_setConstants height ?_ ?_) fun _ => h.does_pure
      · exact fun target htarget name hname => Task.allowsSet ⟨target, htarget, hname⟩
      · exact fun v hv => part rfl v hv
  | assignment target value =>
      refine h.does_bind (part rfl value (by simp [Node.proper])) fun v => ?_
      refine h.does_bind h.does_top fun _ => h.does_namePart target fun name hname => ?_
      refine h.does_bind (h.does_setTop (Task.allowsSet ?_) v) fun _ => h.does_pure
      exact ⟨target, List.mem_cons_self, hname⟩
  | give value =>
      refine Steady.does_ite h.does_pure ?_
      exact h.does_bind (part rfl value (by simp [Node.proper, Node.children])) fun _ => h.does_pure
  | display value =>
      refine h.does_bind (part rfl value (by simp [Node.proper, Node.children])) fun v => ?_
      exact h.does_bind (h.does_display v) fun _ => h.does_pure
  | functionDecl name parameters type body =>
      refine h.does_part (Parameter.yields_ofNodes parameters) fun ps _ => ?_
      refine h.does_namePart name fun spelled _ => h.does_namePart type fun spelledType _ m => ?_
      exact ⟨.still rfl, trivial⟩
  | procedureDecl name parameters body =>
      refine h.does_part (Parameter.yields_ofNodes parameters) fun ps _ => ?_
      exact h.does_namePart name fun spelled _ m => ⟨.still rfl, trivial⟩
  | functionCall _ _ | procedureCall _ _ => cases hcall
  | ifElse test body elifs alternative =>
      have htest := part rfl test (by simp [Node.proper, Node.children])
      have hbody := part rfl body (by simp [Node.proper, Node.children])
      refine h.does_bind (h.does_condition htest) fun b => Steady.does_ite hbody ?_
      exact h.does_branches fun arm harm part hpart => h.does_ask (.arm harm hpart)
  | whileLoop test body => exact h.does_ask .whileLoop
  | forLoop initial termination step body =>
      refine h.does_part initial.yields_expressionPart fun value hvalue => ?_
      refine h.does_bind (h.does_ask (.initial hvalue)) fun first => ?_
      refine h.does_bind (h.does_requireReal .badInitial (fun _ h => h) first) fun _ => ?_
      refine h.does_bind (part rfl termination (by simp [Node.proper, Node.children]))
        fun last => ?_
      refine h.does_bind (h.does_requireReal .badTermination (fun _ h => h) last) fun _ => ?_
      have hstep := part rfl step (by simp [Node.proper, Node.children])
      refine h.does_bind (h.does_stepValue first last hstep) fun step => ?_
      refine h.does_bind (part rfl initial (by simp [Node.proper, Node.children])) fun _ => ?_
      refine h.does_bind h.does_topHeight fun height => ?_
      refine h.does_part initial.yields_identifierPart.named fun target htarget => ?_
      exact h.does_namePart target fun name hname => h.does_ask (.forLoop htarget hname)
  | skip => exact fun m => ⟨.still rfl, h.skip⟩
  | stop => exact fun m => ⟨.still rfl, h.stop⟩
  | identifier name => exact h.does_valueOf name
  | number _ | string _ | boolean _ | binary _ _ _ | unary _ _ | logical _ _ _ | negation _ _
  | comparison _ _ _ | truth _ =>
      exact h.does_operation trivial fun operand hoperand =>
        part rfl operand (Node.operands_subset _ hoperand)

/-- A loop, one round after another. -/
theorem does_whileLoop {test body : Node} (h : Steady (Task.whileLoop test body).Leaves T X) :
    Action.Does (Task.whileLoop test body).Leaves ((Task.whileLoop test body).Asks start) T X
      (Action.step (.whileLoop test body)) := by
  intro m
  refine Work.Does.caught_bind h.trans (h.does_whileRound (h.does_ask .test)
    (h.does_ask .round) m) ?_ ?_
  · intro round after
    cases round <;> exact h.does_pure after
  · intro e after he
    cases e with
    | skip | stop => exact h.does_pure after
    | fault f => exact ⟨.still rfl, he⟩
    | exhausted => exact ⟨.still rfl, he⟩

theorem does_forLoop {height : Nat} {name : String} {last step : Value} {body : Node}
    (h : Steady (Task.forLoop height name last step body).Leaves T X) :
    Action.Does (Task.forLoop height name last step body).Leaves
      ((Task.forLoop height name last step body).Asks start) T X
      (Action.step (.forLoop height name last step body)) := by
  intro m
  have hset : AllowsSet (Task.forLoop height name last step body).Leaves name :=
    Task.allowsSet rfl
  refine Work.Does.caught_bind h.trans (h.does_forRound height hset last step
    (h.does_ask .forRound) m) ?_ ?_
  · intro round after
    cases round <;> exact h.does_pure after
  · intro e after he
    cases e with
    | skip =>
        refine h.does_bind (h.does_loopVariable height name) (fun current => ?_) after
        exact h.does_bind (h.does_moveOn height hset current step) fun _ => h.does_pure
    | stop => exact h.does_pure after
    | fault f => exact ⟨.still rfl, he⟩
    | exhausted => exact ⟨.still rfl, he⟩

end

/-- A task that calls a routine or runs a program, and so pushes a record. -/
def Task.Pushes : Task → Prop
  | .eval (.program _) | .eval (.functionCall _ _) | .eval (.procedureCall _ _) => True
  | _ => False

/-- What a task does by itself, unless it pushes a record. -/
theorem step_leaves {task : Task} (hpushes : ¬ task.Pushes) {T : Task → Ending Value → Prop}
    {X : Exit → Prop} (h : Permits T X) (start : Machine) :
    Action.Does task.Leaves (task.Asks start) T X (Action.step task) := by
  have h := task.steady h
  cases task with
  | eval node =>
      refine h.does_bind (does_evaluate h ?_ ?_) fun _ => h.does_pure
      · cases node <;> first | rfl | exact absurd trivial hpushes
      · rintro body rfl
        exact hpushes trivial
  | whileLoop test body => exact does_whileLoop h
  | forLoop height name last step body => exact does_forLoop h

/-- What a task does by itself. -/
theorem step_does {T : Task → Ending Value → Prop} {X : Exit → Prop} (h : Permits T X) (task : Task)
    (start : Machine)
    (hresult : ∀ node kind callee arguments name p v after f, task = .eval node →
      node.call? = some (kind, callee, arguments) → callee.namePart = .ok name →
      start.routine? kind name = some p → T (.eval p.body) (.ok v after) →
      Action.result kind p.name v = .error f → X (.fault f)) :
    (Action.step task start).Does (task.Effect start) (task.Asks start) T X start := by
  by_cases hpushes : task.Pushes
  · cases task with
    | eval node =>
        refine Work.Does.map Action.Next.value ?_
        cases node with
        | program body => exact does_program h
        | functionCall callee arguments | procedureCall callee arguments =>
            exact does_call h rfl fun name p v after f => hresult _ _ _ _ name p v after f rfl rfl
        | _ => exact hpushes.elim
    | _ => exact hpushes.elim
  · exact (step_leaves hpushes h start start).restart (fun _ => .leaves) fun _ _ => .leaves

/-- Every answer, and every exit. -/
theorem Permits.any : Permits (fun _ _ => True) fun _ => True where
  answer _ e _ := by cases e <;> trivial
  fault _ _ := trivial
  skip := trivial
  stop := trivial

/-! ## Visits -/

/-- A task that goes on as a task goes on as itself. -/
theorem step_again (task : Task) (m : Machine) :
    (Action.step task m).Meets Contract.free
      (fun next _ => ∀ again, next = .task again → again = task) fun _ _ => True := by
  cases task with
  | eval node =>
      refine Action.Meets.bind ((Work.meets_free _).mono ?_ fun _ _ h => h)
      intro v after _ again h
      cases h
  | whileLoop test body =>
      refine Action.Meets.bind (Action.Meets.caught ((Work.meets_free _).mono ?_ ?_))
      · intro round after _
        cases round <;> intro again h <;> cases h
        rfl
      · intro e after _
        cases e with
        | skip => intro again h; cases h; rfl
        | stop => intro again h; cases h
        | fault _ | exhausted => trivial
  | forLoop height name last step body =>
      refine Action.Meets.bind (Action.Meets.caught ((Work.meets_free _).mono ?_ ?_))
      · intro round after _
        cases round <;> intro again h <;> cases h
        rfl
      · intro e after _
        cases e with
        | skip =>
            refine Action.Meets.bind ((Work.meets_free _).mono (fun current moved _ => ?_)
              fun _ _ h => h)
            refine Action.Meets.bind ((Work.meets_free _).mono (fun _ moved _ => ?_) fun _ _ h => h)
            intro again h
            cases h
            rfl
        | stop => intro again h; cases h
        | fault _ | exhausted => trivial

/-- How the run of a task ends: as its work does, or as a further round. -/
theorem perform_cases (d : Nat) (task : Task) (m : Machine) :
    (∃ v after, (Action.step task m).carryOut (perform d) = .ok (.value v) after ∧
      perform (d + 1) task m = .ok v after) ∨
    (∃ e after, (Action.step task m).carryOut (perform d) = .error e after ∧
      perform (d + 1) task m = .error e after) ∨
    ∃ after, (Action.step task m).carryOut (perform d) = .ok (.task task) after ∧
      perform (d + 1) task m = perform d task after := by
  have hagain := (step_again task m).carryOut (d := d) fun _ _ _ _ => trivial
  rw [perform]
  generalize (Action.step task m).carryOut (perform d) = e at hagain
  cases e with
  | error e after => exact .inr (.inl ⟨e, after, rfl, rfl⟩)
  | ok next after =>
      cases next with
      | value v => exact .inl ⟨v, after, rfl, rfl⟩
      | task next =>
          obtain rfl : next = task := hagain next rfl
          exact .inr (.inr ⟨after, rfl, rfl⟩)

namespace Visit

/-- How the run of a visit ends. -/
def outcome (v : Visit) : Ending Value := perform v.depth v.task v.machine

/-- The visits of the run of a visit, in order. -/
def run (v : Visit) : List Visit := visits v.depth v.task v.machine

/-- The visits that a visit asks for, in order. -/
def asks (v : Visit) : List Visit :=
  match v.depth with
  | 0 => []
  | d + 1 => ((Action.step v.task v.machine).asked (perform d)).map fun p => ⟨d, p.1, p.2⟩

theorem self_mem_run (v : Visit) : v ∈ v.run := by
  obtain ⟨depth, task, m⟩ := v
  cases depth with
  | zero => exact List.mem_singleton.mpr rfl
  | succ d => exact List.mem_cons_self

/-- The visits of a run: the first one, those of what it asks for, and those of a further round. -/
theorem mem_run_succ {d : Nat} {task : Task} {m : Machine} {u : Visit} :
    u ∈ run ⟨d + 1, task, m⟩ ↔ u = ⟨d + 1, task, m⟩ ∨ (∃ a ∈ asks ⟨d + 1, task, m⟩, u ∈ a.run) ∨
      ∃ after, (Action.step task m).carryOut (perform d) = .ok (.task task) after ∧
        u ∈ run ⟨d, task, after⟩ := by
  have hbelow : (u ∈ ((Action.step task m).asked (perform d)).flatMap fun p => visits d p.1 p.2) ↔
      ∃ a ∈ asks ⟨d + 1, task, m⟩, u ∈ a.run := by
    simp only [asks, List.mem_flatMap, List.mem_map, run]
    constructor
    · rintro ⟨p, hp, hu⟩
      exact ⟨_, ⟨p, hp, rfl⟩, hu⟩
    · rintro ⟨a, ⟨p, hp, rfl⟩, hu⟩
      exact ⟨p, hp, hu⟩
  show u ∈ visits (d + 1) task m ↔ _
  rw [visits, List.mem_cons, List.mem_append, hbelow]
  refine or_congr_right (or_congr_right ?_)
  rcases perform_cases d task m with ⟨v, after, h, -⟩ | ⟨e, after, h, -⟩ | ⟨after, h, -⟩
  · rw [h]
    refine ⟨fun hu => absurd hu List.not_mem_nil, ?_⟩
    rintro ⟨after', h', -⟩
    cases h'
  · rw [h]
    refine ⟨fun hu => absurd hu List.not_mem_nil, ?_⟩
    rintro ⟨after', h', -⟩
    cases h'
  · rw [h]
    refine ⟨fun hu => ⟨after, rfl, hu⟩, ?_⟩
    rintro ⟨after', h', hu⟩
    cases h'
    exact hu

/-- What is visited within a visit of a run is visited in the run. -/
theorem mem_run_trans {v u w : Visit} (hu : u ∈ v.run) (hw : w ∈ u.run) : w ∈ v.run := by
  obtain ⟨depth, task, m⟩ := v
  induction depth generalizing task m with
  | zero =>
      obtain rfl := List.mem_singleton.mp hu
      exact hw
  | succ d ih =>
      rcases mem_run_succ.mp hu with rfl | ⟨a, ha, hu⟩ | ⟨after, hafter, hu⟩
      · exact hw
      · obtain ⟨p, -, rfl⟩ := List.mem_map.mp ha
        exact mem_run_succ.mpr (.inr (.inl ⟨_, ha, ih _ _ hu⟩))
      · exact mem_run_succ.mpr (.inr (.inr ⟨after, hafter, ih _ _ hu⟩))

theorem asks_subset_run {v a : Visit} (ha : a ∈ v.asks) : a ∈ v.run := by
  obtain ⟨depth, task, m⟩ := v
  cases depth with
  | zero => exact absurd ha List.not_mem_nil
  | succ d => exact mem_run_succ.mpr (.inr (.inl ⟨a, ha, a.self_mem_run⟩))

/-- A visit asks for what its task may ask for. -/
theorem task_asks {v a : Visit} (ha : a ∈ v.asks) : v.task.Asks v.machine a.task := by
  obtain ⟨depth, task, m⟩ := v
  cases depth with
  | zero => exact absurd ha List.not_mem_nil
  | succ d =>
      obtain ⟨p, hp, rfl⟩ := List.mem_map.mp ha
      have hdoes := step_does .any task m fun _ _ _ _ _ _ _ _ _ _ _ _ _ _ _ => trivial
      have hcarried := hdoes.carried (J := fun _ => True) (perform d) trivial
        (fun _ _ _ _ => trivial) fun _ _ _ _ _ => ⟨trivial, trivial⟩
      exact (hcarried.1 p hp).1

/-- What holds of the first task of a run and goes over to what is asked for holds of every task. -/
theorem forall_run (root : Visit) {P : Task → Prop} (hroot : P root.task)
    (hasks : ∀ v ∈ root.run, P v.task → ∀ a ∈ v.asks, P a.task) : ∀ v ∈ root.run, P v.task := by
  have hbelow : ∀ depth task m, ⟨depth, task, m⟩ ∈ root.run → P task →
      ∀ u ∈ run ⟨depth, task, m⟩, P u.task := by
    intro depth
    induction depth with
    | zero =>
        intro task m _ htask u hu
        obtain rfl := List.mem_singleton.mp hu
        exact htask
    | succ d ih =>
        intro task m hv htask u hu
        rcases mem_run_succ.mp hu with rfl | ⟨a, ha, hu⟩ | ⟨after, hafter, hu⟩
        · exact htask
        · have hmem := mem_run_trans hv (asks_subset_run ha)
          have hasked := hasks _ hv htask a ha
          obtain ⟨p, -, rfl⟩ := List.mem_map.mp ha
          exact ih _ _ hmem hasked u hu
        · refine ih task after (mem_run_trans hv ?_) htask u hu
          exact mem_run_succ.mpr (.inr (.inr ⟨after, hafter, self_mem_run _⟩))
  exact hbelow root.depth root.task root.machine root.self_mem_run hroot

/-- If calls complain of what bodies give only as `X` says, then all visits of a run exit as `X`
    says. -/
theorem outcome_within {root : Visit} {X : Exit → Prop} (hfault : ∀ f, ¬ f.OfGiving → X (.fault f))
    (hskip : X .skip) (hstop : X .stop) (hexhausted : X .exhausted)
    (hresult : ∀ u ∈ root.run, ∀ node kind callee arguments name p d n v after f,
      u.task = .eval node → node.call? = some (kind, callee, arguments) →
      callee.namePart = .ok name → u.machine.routine? kind name = some p →
      perform d (.eval p.body) n = .ok v after → Action.result kind p.name v = .error f →
      X (.fault f)) :
    ∀ u ∈ root.run, Ending.Within X u.outcome := by
  -- the induction is on the depth that is left: what a visit asks for has one less
  rintro ⟨depth, task, m⟩ hu
  induction depth generalizing task m with
  | zero => exact hexhausted
  | succ d ih =>
      let T (task : Task) (e : Ending Value) : Prop :=
        Ending.Within X e ∧ ∃ d n, perform d task n = e
      have hpermits : Permits T X := ⟨fun _ _ h => h.1, hfault, hskip, hstop⟩
      have hdoes : (Action.step task m).Does (task.Effect m) (task.Asks m) T X m := by
        refine step_does hpermits task m fun node kind callee arguments name p v after f htask hcall
          hname hp hbody hvalue => ?_
        obtain ⟨-, d', n, hrun⟩ := hbody
        exact hresult _ hu node kind callee arguments name p d' n v after f htask hcall hname hp
          hrun hvalue
      obtain ⟨-, hwithin, -⟩ := hdoes.carried (J := fun _ => True) (perform d) trivial
        (fun _ _ _ _ => trivial) fun t n ht _ _ =>
          ⟨⟨ih t n (mem_run_trans hu (asks_subset_run (List.mem_map.mpr ⟨(t, n), ht, rfl⟩))), d, n,
            rfl⟩, trivial⟩
      show Ending.Within X (perform (d + 1) task m)
      rcases perform_cases d task m with ⟨v, after, -, h⟩ | ⟨e, after, hstep, h⟩ | ⟨after, hstep, h⟩
      · rw [h]
        trivial
      · rw [h]
        rw [hstep] at hwithin
        exact hwithin
      · rw [h]
        refine ih task after (mem_run_trans hu (mem_run_succ.mpr (.inr (.inr ⟨after, hstep, ?_⟩))))
        exact self_mem_run _

end Visit

/-! ## Runs inside a visit -/

theorem step_eval (node : Node) (m : Machine) :
    Action.step (.eval node) m = (Action.evaluate node m).bind fun v => Pure.pure (.value v) := rfl

/-- A part runs once and comes to a value. -/
theorem perform_eval (d : Nat) (node : Node) (m : Machine) :
    perform (d + 1) (.eval node) m = (Action.evaluate node m).carryOut (perform d) := by
  rw [perform, step_eval, Work.carryOut_bind]
  cases (Action.evaluate node m).carryOut (perform d) <;> rfl

theorem machine_step_eval (run : Task → Eval Value) (node : Node) (m : Machine) :
    Ending.machine ((Action.step (.eval node) m).carryOut run) =
      Ending.machine ((Action.evaluate node m).carryOut run) := by
  rw [step_eval, Work.carryOut_bind]
  cases (Action.evaluate node m).carryOut run <;> rfl

theorem asked_eval (run : Task → Eval Value) (node : Node) (m : Machine) :
    (Action.step (.eval node) m).asked run = (Action.evaluate node m).asked run := by
  rw [step_eval, Work.asked_bind]
  cases (Action.evaluate node m).carryOut run <;> exact List.append_nil _

theorem Visit.asks_eval (d : Nat) (node : Node) (m : Machine) :
    asks ⟨d + 1, .eval node, m⟩ =
      ((Action.evaluate node m).asked (perform d)).map fun p => ⟨d, p.1, p.2⟩ :=
  congrArg (List.map _) (asked_eval (perform d) node m)

/-- A part does not go on as a task. -/
theorem eval_not_again {run : Task → Eval Value} {node : Node} {m after : Machine} {task : Task} :
    (Action.step (.eval node) m).carryOut run ≠ .ok (.task task) after := by
  rw [step_eval, Work.carryOut_bind]
  cases (Action.evaluate node m).carryOut run <;> intro h <;> cases h

/-- A call asks for what its arguments ask for, and for the body of a routine on a record of its
    own. -/
theorem asked_call {node callee : Node} {arguments : List Node} {kind : RecordKind}
    (hcall : node.call? = some (kind, callee, arguments)) {run : Task → Eval Value} {m : Machine}
    {p : Task × Machine} (hp : p ∈ (Action.step (.eval node) m).asked run) :
    p ∈ (Action.evalAll arguments m).asked run ∨ ∃ values n r caller,
      (Action.evalAll arguments m).carryOut run = .ok values n ∧
        p = (.eval r.body, n.called kind r values caller) := by
  rw [asked_eval, Action.evaluate_call hcall] at hp
  cases hname : callee.namePart with
  | error f =>
      rw [hname] at hp
      exact absurd hp List.not_mem_nil
  | ok name =>
      rw [hname] at hp
      change p ∈ ((Action.evalAll arguments m).bind (Action.call kind (m.routine? kind name))).asked
        run at hp
      rw [Work.asked_bind] at hp
      rcases List.mem_append.mp hp with hp | hp
      · exact .inl hp
      cases hvalues : (Action.evalAll arguments m).carryOut run with
      | error e n =>
          rw [hvalues] at hp
          exact absurd hp List.not_mem_nil
      | ok values n =>
          rw [hvalues] at hp
          change p ∈ ((Work.ended
            (Eval.enterCall kind (m.routine? kind name) values n)).bind _).asked run at hp
          cases hs : n.stack with
          | nil =>
              simp only [Eval.enterCall, bind, EStateM.bind, Eval.top_nil hs] at hp
              exact absurd hp List.not_mem_nil
          | cons caller rest =>
              cases hroutine : m.routine? kind name with
              | none =>
                  rw [hroutine] at hp
                  simp only [Eval.enterCall, bind, EStateM.bind, Eval.top_cons hs] at hp
                  exact absurd hp List.not_mem_nil
              | some r =>
                  rw [hroutine, Eval.enterCall_cons hs, ← hs] at hp
                  change p ∈
                    ((Action.runBody r.body (n.called kind r values caller)).bind _).asked run at hp
                  rw [Work.asked_bind, Action.asked_runBody] at hp
                  refine .inr ⟨values, n, r, caller, rfl, ?_⟩
                  rcases List.mem_append.mp hp with hp | hp
                  · exact List.mem_singleton.mp hp
                  -- behind the body nothing is asked for
                  · cases hbody : (Action.runBody r.body _).carryOut run <;> rw [hbody] at hp
                    · exact absurd hp List.not_mem_nil
                    · exact absurd hp List.not_mem_nil

theorem Machine.Still.headers {m n : Machine} (h : m.Still n) : n.headers = m.headers :=
  congrArg (List.map Record.header) h

/-- What a task asks for runs on the records that the task found, or above them; and so does a
    further round of a loop. -/
theorem step_above (d : Nat) (task : Task) {m : Machine} (hm : m.stack ≠ []) :
    (∀ p ∈ (Action.step task m).asked (perform d), m.headers <:+ p.2.headers) ∧
      ∀ after, (Action.step task m).carryOut (perform d) = .ok (.task task) after →
        m.headers <:+ after.headers := by
  have hheaders : m.headers ≠ [] := mt Machine.headers_eq_nil.mp hm
  have hrun : ∀ task n, m.headers <:+ n.headers →
      m.headers <:+ (Ending.machine (perform d task n)).headers := fun task n hn =>
    hn.trans (perform_headers d task (Machine.stack_ne_nil hheaders hn))
  by_cases hpushes : task.Pushes
  · cases task with
    | eval node =>
        refine ⟨fun p hp => ?_, fun after hafter => absurd hafter eval_not_again⟩
        cases hcall : node.call? with
        | some call =>
            obtain ⟨kind, callee, arguments⟩ := call
            have hstill : Steady Machine.Still (fun _ _ => True) fun _ => True :=
              Machine.Still.steady .any
            have hdoes : Action.Does Machine.Still (fun _ => True) (fun _ _ => True) (fun _ => True)
                (Action.evalAll arguments) :=
              hstill.does_evalAll fun _ _ => hstill.does_ask trivial
            obtain ⟨hasked, -, hend⟩ := (hdoes m).carried (J := fun n => m.headers <:+ n.headers)
              (perform d) List.suffix_rfl
              (fun l n hn hl => by rw [hn.headers]; exact hl)
              fun task n _ _ hn => ⟨trivial, hrun task n hn⟩
            rcases asked_call hcall hp with hp | ⟨values, n, r, caller, hvalues, rfl⟩
            · exact (hasked p hp).2
            · rw [hvalues] at hend
              exact hend.trans (List.suffix_cons _ _)
        | none =>
            cases node with
            | program body =>
                rw [asked_eval] at hp
                change p ∈ ((Action.runBody body _).bind _).asked _ at hp
                rw [Work.asked_bind, Action.asked_runBody] at hp
                rcases List.mem_append.mp hp with hp | hp
                · obtain rfl := List.mem_singleton.mp hp
                  exact List.suffix_cons _ _
                · cases hbody : (Action.runBody body _).carryOut (perform d) <;> rw [hbody] at hp
                  · exact absurd hp List.not_mem_nil
                  · exact absurd hp List.not_mem_nil
            | functionCall _ _ | procedureCall _ _ => cases hcall
            | _ => exact hpushes.elim
    | _ => exact hpushes.elim
  · have hdoes := step_leaves hpushes .any m m
    obtain ⟨hasked, -, hend⟩ := hdoes.carried (J := fun n => m.headers <:+ n.headers)
      (perform d) List.suffix_rfl (fun l n hn hl => by rw [hn.headers]; exact hl)
      fun task n _ _ hn => ⟨trivial, hrun task n hn⟩
    refine ⟨fun p hp => (hasked p hp).2, fun after hafter => ?_⟩
    rw [hafter] at hend
    exact hend

/-- What a visit comes to runs on the records of the visit, or above them. -/
theorem visits_headers (d : Nat) (task : Task) {m : Machine} (hm : m.stack ≠ []) :
    ∀ u ∈ visits d task m, m.headers <:+ u.machine.headers := by
  have hheaders : m.headers ≠ [] := mt Machine.headers_eq_nil.mp hm
  induction d generalizing task m with
  | zero =>
      intro u hu
      obtain rfl := List.mem_singleton.mp hu
      exact List.suffix_rfl
  | succ d ih =>
      intro u hu
      obtain ⟨hasked, hround⟩ := step_above d task hm
      rcases Visit.mem_run_succ.mp hu with rfl | ⟨a, ha, hu⟩ | ⟨after, hafter, hu⟩
      · exact List.suffix_rfl
      · obtain ⟨p, hp, rfl⟩ := List.mem_map.mp ha
        have hsuffix := hasked p hp
        have hne := Machine.stack_ne_nil hheaders hsuffix
        exact hsuffix.trans (ih p.1 hne (mt Machine.headers_eq_nil.mp hne) u hu)
      · have hsuffix := hround after hafter
        have hne := Machine.stack_ne_nil hheaders hsuffix
        exact hsuffix.trans (ih task hne (mt Machine.headers_eq_nil.mp hne) u hu)

end BraceScript
