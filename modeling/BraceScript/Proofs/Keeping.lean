import BraceScript.Proofs.Contract
import BraceScript.Proofs.Grammar
import BraceScript.Proofs.Values

/-! # Keeping — steps that leave a property of the machine as it is

    Most of what a task does does not change the machine by itself: it looks at trees and values,
    asks for other tasks, and may fail.  If a property of the machine survives faults and what the
    task asks for, it survives all of that.

    * `Sturdy`: a property that holds of machines, and what holds when a run exits there;
    * `Sturdy.keeps_expression`: expressions keep what their names, operands and calls keep. -/

namespace BraceScript

open Eval (perform)

variable {α β κ : Type}

/-! ## Faults of trees and of stacks -/

/-- A fault of an empty call stack. -/
def Fault.IsUnderflow : Fault → Prop
  | .noRecord | .nothingToPop => True
  | _ => False

/-- A fault of a tree that lacks a part. -/
def Fault.OfTree : Fault → Prop
  | .noPart _ _ => True
  | _ => False

/-- A fault that any program can run into: none of the stack, none of the tree, and no name
    without a value. -/
def Fault.IsOrdinary : Fault → Prop
  | .noRecord | .nothingToPop | .noPart _ _ | .undefined _ => False
  | _ => True

theorem Fault.OfValue.ordinary {f : Fault} (h : f.OfValue) : f.IsOrdinary := by
  cases f <;> first
    | exact trivial
    | exact absurd h fun h => h

theorem Fault.OfTree.not_underflow {f : Fault} (h : f.OfTree) : ¬ f.IsUnderflow := by
  cases f <;> first
    | exact fun h => h
    | exact absurd h fun h => h

theorem Fault.IsOrdinary.not_underflow {f : Fault} (h : f.IsOrdinary) : ¬ f.IsUnderflow := by
  cases f <;> first
    | exact fun h => h
    | exact absurd h fun h => h

namespace Node

/-- A part whose own parts run in contexts of their own: a loop, a routine or a program. -/
def IsContext : Node → Prop
  | .whileLoop _ _ | .forLoop _ _ _ _ | .functionDecl _ _ _ _ | .procedureDecl _ _ _
  | .program _ => True
  | _ => False

/-- A node has a part as its expression, its condition or its block. -/
def Has (node part : Node) : Prop :=
  node.expressionPart = .ok part ∨ node.conditionPart = .ok part ∨ node.blockPart = .ok part

end Node

namespace Node

theorem yields_namePart (node : Node) :
    Yields Fault.OfTree (fun _ => True) node.namePart := by
  cases node <;> first
    | exact .ok trivial
    | exact .error trivial

theorem yields_identifierPart (node : Node) :
    Yields Fault.OfTree (fun _ => True) node.identifierPart := by
  cases node <;> first
    | exact .error trivial
    | exact .ok trivial

theorem yields_typePart (node : Node) :
    Yields Fault.OfTree (fun _ => True) node.typePart := by
  cases node <;> first
    | exact .error trivial
    | exact .ok trivial

theorem yields_expressionPart (node : Node) :
    Yields Fault.OfTree node.Has node.expressionPart := by
  cases node <;> first
    | exact .error trivial
    | exact .ok (.inl rfl)

theorem yields_conditionPart (node : Node) :
    Yields Fault.OfTree node.Has node.conditionPart := by
  cases node <;> first
    | exact .error trivial
    | exact .ok (.inr (.inl rfl))

theorem yields_blockPart (node : Node) :
    Yields Fault.OfTree node.Has node.blockPart := by
  cases node <;> first
    | exact .error trivial
    | exact .ok (.inr (.inr rfl))

theorem Has.mem_children {node part : Node} (h : node.Has part) : part ∈ node.children := by
  rcases h with h | h | h <;> cases node <;> cases h <;> simp [children]

end Node

theorem Parameter.yields_ofNodes (nodes : List Node) :
    Yields Fault.OfTree (fun _ => True) (Parameter.ofNodes nodes) := by
  induction nodes with
  | nil => exact .ok trivial
  | cons node rest ih =>
      rw [Parameter.ofNodes]
      refine node.yields_identifierPart.bind fun name _ => ?_
      refine name.yields_namePart.bind fun spelled _ => ?_
      refine node.yields_typePart.bind fun type _ => ?_
      refine type.yields_namePart.bind fun typeSpelled _ => ?_
      exact ih.map fun _ _ => trivial

/-- A default is something, if there is one. -/
theorem Eval.yields_defaultValue (type : String) :
    Yields Fault.IsOrdinary (· ≠ .nothing) (Eval.defaultValue type) := by
  unfold Eval.defaultValue
  split
  · exact .ok nofun
  · split
    · exact .ok nofun
    · split
      · exact .ok nofun
      · exact .error trivial

theorem Eval.yields_functionResult (name : String) (outcome : Value) :
    Yields Fault.IsOrdinary (fun _ => True) (Eval.functionResult name outcome) := by
  unfold Eval.functionResult
  split
  · exact .error trivial
  · exact .ok trivial
  · exact .error trivial

theorem Eval.yields_procedureResult (name : String) (outcome : Value) :
    Yields Fault.IsOrdinary (fun _ => True) (Eval.procedureResult name outcome) := by
  unfold Eval.procedureResult
  split
  · exact .ok trivial
  · exact .error trivial
  · exact .ok trivial

/-! ## Actions -/

/-- An action keeps `P`, if what it asks for does, and exits as `X` says. -/
def Keeps (C : Contract κ) (P : Machine → Prop) (X : Exit → Machine → Prop) (x : Action α) : Prop :=
  ∀ m, P m → Action.Meets C x m (fun _ after => P after) X

/-- A property survives faults: where it holds, an ordinary fault may end the run. -/
structure Sturdy (P : Machine → Prop) (X : Exit → Machine → Prop) : Prop where
  fault : ∀ m f, P m → f.IsOrdinary → X (.fault f) m
  empty : ∀ m, P m → m.stack = [] → X (.fault .noRecord) m

variable {C : Contract κ} {P : Machine → Prop} {X : Exit → Machine → Prop}

namespace Keeps

theorem pure {a : α} : Keeps C P X (Pure.pure a) := fun _ hm => hm

theorem bind {x : Action α} {f : α → Action β} (hx : Keeps C P X x)
    (hf : ∀ a, Keeps C P X (f a)) : Keeps C P X (x >>= f) := by
  intro m hm
  refine Action.Meets.bind ((hx m hm).mono ?_ fun e after h => h)
  intro a after hafter
  exact hf a after hafter

/-- A part of a tree that is known. -/
theorem known {x : Except Fault α} {a : α} {f : α → Action β} (hx : x = .ok a)
    (hf : Keeps C P X (f a)) : Keeps C P X (liftM (Eval.attempt x) >>= f) := by
  subst hx
  exact hf

theorem ite {c : Prop} [Decidable c] {x y : Action α} (hx : Keeps C P X x)
    (hy : Keeps C P X y) : Keeps C P X (if c then x else y) := by
  split
  · exact hx
  · exact hy

theorem block {statements : List Node} (hN : ∀ s ∈ statements, Keeps C P X (Action.eval s)) :
    Keeps C P X (Action.block statements) := by
  induction statements with
  | nil => exact Keeps.pure
  | cons statement rest ih =>
      rw [Action.block]
      refine (hN _ List.mem_cons_self).bind fun v => ?_
      split
      · exact Keeps.pure
      · exact ih fun s hs => hN s (List.mem_cons_of_mem _ hs)

theorem evalAll {nodes : List Node} (hN : ∀ n ∈ nodes, Keeps C P X (Action.eval n)) :
    Keeps C P X (Action.evalAll nodes) := by
  induction nodes with
  | nil => exact Keeps.pure
  | cons node rest ih =>
      rw [Action.evalAll]
      refine (hN _ List.mem_cons_self).bind fun v => ?_
      exact (ih fun n hn => hN n (List.mem_cons_of_mem _ hn)).bind fun _ => Keeps.pure

end Keeps

namespace Sturdy

variable (h : Sturdy P X)

include h

/-! ### Steps -/

theorem keeps_fail {f : Fault} (hf : f.IsOrdinary) :
    Keeps C P X (liftM (Eval.fail f : Eval α) : Action α) := fun m hm => h.fault m f hm hf

/-- An outcome that may be a fault. -/
theorem keeps_attempt {F : Fault → Prop} {Q : α → Prop} {x : Except Fault α} (hx : Yields F Q x)
    (hF : ∀ f, F f → f.IsOrdinary) : Keeps C P X (liftM (Eval.attempt x) : Action α) := by
  cases hx with
  | ok _ => exact Keeps.pure
  | error hf => exact h.keeps_fail (hF _ hf)

/-- An outcome that may be a fault, and what is done with it. -/
theorem keeps_attempt_bind {F : Fault → Prop} {Q : α → Prop} {x : Except Fault α}
    (hx : Yields F Q x) (hF : ∀ f, F f → f.IsOrdinary) {f : α → Action β}
    (hf : ∀ a, Q a → Keeps C P X (f a)) : Keeps C P X (liftM (Eval.attempt x) >>= f) := by
  intro m hm
  cases hx with
  | ok ha => exact hf _ ha m hm
  | error hg => exact h.fault m _ hm (hF _ hg)

/-- A value is computed from values. -/
theorem keeps_computed {Q : α → Prop} {x : Except Fault α} (hx : Computes Q x) :
    Keeps C P X (liftM (Eval.attempt x) : Action α) :=
  h.keeps_attempt hx fun _ => Fault.OfValue.ordinary

theorem keeps_computed_bind {Q : α → Prop} {x : Except Fault α} (hx : Computes Q x)
    {f : α → Action β} (hf : ∀ a, Q a → Keeps C P X (f a)) :
    Keeps C P X (liftM (Eval.attempt x) >>= f) :=
  h.keeps_attempt_bind hx (fun _ => Fault.OfValue.ordinary) hf

theorem keeps_top : Keeps C P X (liftM Eval.top : Action Record) := by
  intro m hm
  show (Work.ended (Eval.top m)).Meets _ _ _
  cases hs : m.stack with
  | nil => rw [Eval.top_nil hs]; exact h.empty m hm hs
  | cons r rest => rw [Eval.top_cons hs]; exact hm

theorem keeps_topHeight : Keeps C P X (liftM Eval.topHeight : Action Nat) := by
  intro m hm
  show (Work.ended (Eval.topHeight m)).Meets _ _ _
  cases hs : m.stack with
  | nil => rw [Eval.topHeight_nil hs]; exact h.empty m hm hs
  | cons r rest => rw [Eval.topHeight_cons hs]; exact hm

theorem keeps_requireReal (fault : String → Fault) (hf : ∀ s, (fault s).IsOrdinary)
    (v : Value) : Keeps C P X (liftM (Eval.requireReal fault v) : Action Unit) := by
  unfold Eval.requireReal
  split
  · exact Keeps.pure
  · exact h.keeps_fail (hf _)

theorem keeps_loopVariable (height : Nat) (name : String) :
    Keeps C P X (liftM (Eval.loopVariable height name) : Action Value) := by
  unfold Eval.loopVariable
  rw [Action.liftM_bind]
  refine Keeps.bind (fun m hm => hm) fun found => ?_
  split
  · split
    · exact Keeps.pure
    · exact h.keeps_fail trivial
  · exact h.keeps_fail trivial

theorem keeps_defaultValue (type : String) :
    Keeps C P X (liftM (Eval.attempt (Eval.defaultValue type)) : Action Value) :=
  h.keeps_attempt (Eval.yields_defaultValue type) fun _ hf => hf

theorem keeps_incomplete (lacking : Lacking) (parts : List Node) :
    Keeps C P X (liftM (Eval.incomplete lacking parts) : Action Value) := by
  cases lacking with
  | numberLexeme => exact h.keeps_fail trivial
  | stringLexeme => exact h.keeps_fail trivial
  | variableNames | constantNames =>
      rw [Eval.incomplete, Action.liftM_bind]
      exact h.keeps_topHeight.bind fun _ => h.keeps_fail trivial
  | constantValues =>
      rw [Eval.incomplete, Action.liftM_bind]
      refine h.keeps_topHeight.bind fun _ => ?_
      split
      · exact Keeps.pure
      · exact h.keeps_fail trivial

/-! ### Parts of tasks -/

theorem keeps_condition {node : Node} (hN : Keeps C P X (Action.eval node)) :
    Keeps C P X (Action.condition node) := by
  refine hN.bind fun v => ?_
  split
  · exact Keeps.pure
  · exact h.keeps_fail trivial

theorem keeps_whileRound {test body : Node} (ht : Keeps C P X (Action.eval test))
    (hb : Keeps C P X (Action.eval body)) :
    Keeps C P X (Action.whileRound test body) := by
  unfold Action.whileRound
  refine (h.keeps_condition ht).bind fun b => Keeps.ite ?_ Keeps.pure
  refine hb.bind fun v => ?_
  split <;> exact Keeps.pure

theorem keeps_display (v : Value)
    (hshown : ∀ m line, P m → P { m with history := .shown line :: m.history }) :
    Keeps C P X (liftM (Eval.display v)) := by
  unfold Eval.display
  rw [Action.liftM_bind]
  exact h.keeps_computed_bind v.writes_text fun line _ m hm => hshown m line hm

theorem keeps_forRound (height : Nat) (name : String) (last step : Value) {body : Node}
    (hb : Keeps C P X (Action.eval body))
    (hmove : ∀ current, Keeps C P X (liftM (Eval.moveOn height name current step))) :
    Keeps C P X (Action.forRound height name last step body) := by
  unfold Action.forRound
  refine (h.keeps_loopVariable height name).bind fun current => ?_
  refine h.keeps_computed_bind (Eval.writes_isPast current last step) fun past _ => ?_
  refine Keeps.ite Keeps.pure (hb.bind fun v => ?_)
  split
  · exact Keeps.pure
  · exact (hmove current).bind fun _ => Keeps.pure

theorem keeps_stepValue (first last : Value) {step : Node} (hs : Keeps C P X (Action.eval step)) :
    Keeps C P X (Action.stepValue first last step) := by
  unfold Action.stepValue
  refine Keeps.ite (h.keeps_computed (Eval.computes_impliedStep first last)) ?_
  refine hs.bind fun v => ?_
  exact (h.keeps_requireReal .badStep (fun _ => trivial) v).bind fun _ => Keeps.pure

theorem keeps_logical {left right : Node} (operator : String) (hl : Keeps C P X (Action.eval left))
    (hr : Keeps C P X (Action.eval right)) :
    Keeps C P X (Action.evaluate (.logical left operator right)) := by
  refine Keeps.ite ?_ (Keeps.ite ?_ (h.keeps_fail trivial))
  · refine (h.keeps_condition hl).bind fun b => Keeps.ite ?_ Keeps.pure
    exact (h.keeps_condition hr).bind fun _ => Keeps.pure
  · refine (h.keeps_condition hl).bind fun b => Keeps.ite Keeps.pure ?_
    exact (h.keeps_condition hr).bind fun _ => Keeps.pure

/-- Operations keep what their operands keep. -/
theorem keeps_operation {node : Node} (hnode : node.IsOperation)
    (hparts : ∀ part ∈ node.operands, Keeps C P X (Action.eval part)) :
    Keeps C P X (Action.evaluate node) := by
  cases node with
  | number lexeme => exact h.keeps_computed (Eval.computes_numberValue lexeme)
  | string lexeme | boolean lexeme => exact Keeps.pure
  | binary left operator right =>
      refine (hparts left (by simp [Node.operands])).bind fun v => ?_
      refine (hparts right (by simp [Node.operands])).bind fun w => ?_
      exact h.keeps_computed (v.computes_binaryBy operator w)
  | unary operator operand =>
      refine (hparts operand (by simp [Node.operands])).bind fun v => ?_
      exact h.keeps_computed (v.computes_unaryBy operator)
  | logical left operator right =>
      exact h.keeps_logical operator (hparts left (by simp [Node.operands]))
        (hparts right (by simp [Node.operands]))
  | negation operator operand =>
      have hcondition := h.keeps_condition (hparts operand (by simp [Node.operands]))
      exact hcondition.bind fun b => Keeps.ite Keeps.pure (h.keeps_fail trivial)
  | comparison left comparator right =>
      refine (hparts left (by simp [Node.operands])).bind fun v => ?_
      refine (hparts right (by simp [Node.operands])).bind fun w => ?_
      exact h.keeps_computed_bind (v.writes_compareBy comparator w) fun _ _ => Keeps.pure
  | truth expression =>
      exact (hparts expression (by simp [Node.operands])).bind fun _ => Keeps.pure
  | _ => exact hnode.elim

/-- An expression keeps what its names, operands and calls keep. -/
theorem keeps_expression {W : String → Prop} {node : Node} (hnode : Formed W .expression node)
    (hparts : ∀ part ∈ node.operands, Keeps C P X (Action.eval part))
    (hname : ∀ name, node = .identifier name → Keeps C P X (Action.evaluate node))
    (hcall : ∀ callee arguments, node = .functionCall callee arguments →
      Keeps C P X (Action.evaluate node)) :
    Keeps C P X (Action.evaluate node) := by
  cases hnode with
  | identifier _ => exact hname _ rfl
  | functionCall _ _ => exact hcall _ _ rfl
  | _ => exact h.keeps_operation trivial hparts

end Sturdy

/-! ## Where every exit will do -/

namespace Keeps

variable (hX : ∀ e m, P m → X e m)

include hX

theorem sturdy : Sturdy P X where
  fault _ _ hm _ := hX _ _ hm
  empty _ hm _ := hX _ _ hm

theorem attempt (x : Except Fault α) : Keeps C P X (liftM (Eval.attempt x) : Action α) := by
  cases x with
  | ok a => exact Keeps.pure
  | error f => exact fun _ hm => hX _ _ hm

theorem valueOf (name : String) : Keeps C P X (liftM (Eval.valueOf name) : Action Value) := by
  unfold Eval.valueOf
  rw [Action.liftM_bind]
  refine (sturdy hX).keeps_top.bind fun r => ?_
  split
  · exact fun _ hm => hX _ _ hm
  · exact fun _ hm => hX _ _ hm
  · exact Keeps.pure

end Keeps

end BraceScript
