import Mathlib
import BraceScript.Proofs.Iteration

/-! # For headers — what runs before the first round of a for loop

    A for statement evaluates its first value, its last value and its step, in this order, and
    checks each of them.  Then it assigns to its variable, and the assignment evaluates the first
    value once more: this second value is the one that the loop begins with, and nothing checks it.

    * `perform_still`: an expression that calls nothing changes nothing;
    * `ForHeader`: the evaluations that lead from a machine to a loop;
    * `ForHeader.asks_forOver`: what a for statement asks for, with such a header;
    * `exists_forHeader`: a for statement that comes to its loop has such a header;
    * `ForHeader.bound_eq_first`: where the second value is the first one;
    * `for_header_evaluated`: all of it together, with what is shown on the way. -/

namespace BraceScript

open Eval (perform)

variable {α β : Type}

/-! ## Expressions that change nothing -/

/-- No part of a node is a call. -/
def Node.CallsNothing (node : Node) : Prop := ∀ part ∈ node.parts, part.call? = none

theorem Node.CallsNothing.child {node part : Node} (h : node.CallsNothing)
    (hpart : part ∈ node.children) : part.CallsNothing :=
  fun inner hinner => h inner (mem_parts.mpr (.inr ⟨part, hpart, hinner⟩))

/-- An expression leaves a machine as it is if it calls nothing, or if there is no record that it
    could call from. -/
def Contract.still : Contract Machine where
  pre k task m := ∃ node, task = .eval node ∧ node.IsExpression ∧
    (node.CallsNothing ∨ k.stack = []) ∧ m = k
  post k _ _ e := Ending.machine e = k

namespace Still

variable {k : Machine}

/-- An action leaves the machine `k` as it is. -/
abbrev Stays (k : Machine) (x : Action α) : Prop :=
  Keeps Contract.still (· = k) (fun _ m => m = k) x

theorem stays_eval {node : Node} (h : node.IsExpression)
    (hstill : node.CallsNothing ∨ k.stack = []) : Stays k (Action.eval node) := by
  intro m hm
  refine Action.Meets.ask k ⟨node, rfl, h, hstill, hm⟩ ?_ ?_
  · exact fun _ _ _ _ hpost => hpost
  · exact fun _ _ _ _ hpost => hpost

/-- Without a record there is none to call from. -/
theorem stays_functionCall {callee : Node} {arguments : List Node} (hk : k.stack = [])
    (h : ∀ a ∈ arguments, a.IsExpression) :
    Stays k (Action.evaluate (.functionCall callee arguments)) := by
  refine (Keeps.attempt (fun _ _ hm => hm) _).bind fun name => ?_
  refine Keeps.bind (fun _ hm => hm) fun found => ?_
  refine (Keeps.evalAll fun a ha => stays_eval (h a ha) (.inr hk)).bind fun values => ?_
  intro m hm
  refine Action.Meets.bind ?_
  show (Work.ended (Eval.enterCall .function _ values m)).Meets _ _ _
  rw [hm]
  simp only [Eval.enterCall, bind, EStateM.bind, Eval.top_nil hk]
  rfl

theorem stays_expression {node : Node} (h : node.IsExpression)
    (hstill : node.CallsNothing ∨ k.stack = []) : Stays k (Action.evaluate node) := by
  refine (Keeps.sturdy fun _ _ hm => hm).keeps_expression h (fun part hpart => ?_) ?_ ?_
  · refine stays_eval (h.operand hpart) (hstill.imp_left fun hcalls => ?_)
    exact hcalls.child (node.operands_subset hpart)
  · rintro name rfl
    exact Keeps.valueOf (fun _ _ hm => hm) name
  · rintro callee arguments rfl
    rcases hstill with hcalls | hk
    · cases hcalls _ (Node.self_mem_parts _)
    · cases h with
      | functionCall _ harguments => exact stays_functionCall hk harguments

theorem kept : Contract.still.Kept where
  step := by
    rintro k task m ⟨node, rfl, h, hstill, hm⟩
    refine Action.Meets.bind ((stays_expression h hstill m hm).mono ?_ fun _ _ hafter => hafter)
    exact fun _ _ hafter => hafter
  exhausted := fun k task m ⟨_, _, _, _, hm⟩ => hm

end Still

/-- An expression that calls nothing changes nothing, and without a record no expression does. -/
theorem perform_still (d : Nat) {node : Node} {m : Machine} (h : node.IsExpression)
    (hstill : node.CallsNothing ∨ m.stack = []) :
    Ending.machine (perform d (.eval node) m) = m :=
  Contract.fulfilled Still.kept d m (.eval node) m ⟨node, rfl, h, hstill, rfl⟩

/-! ## What a visit shows -/

/-- What is shown while a visit runs. -/
def Visit.text (u : Visit) : String :=
  (Ending.machine (perform u.depth u.task { u.machine with history := [] })).output

theorem Machine.output_over (S : CallStack) (H : List Event) (m : Machine) :
    (m.over S H).output =
      String.join ((H.reverse.filterMap lineOf).map (· ++ "\n")) ++ m.output := by
  rw [output, output, events, events, Machine.over, List.reverse_append, List.filterMap_append,
    List.map_append, String.join_append]

section

variable {m n : Machine} {r : Record} {S T : CallStack}

/-- A part runs over the records below as it does on the top record alone. -/
theorem perform_alone_over (d : Nat) (node : Node) (hs : m.stack = r :: S) :
    perform d (.eval node) m = Ending.over S m.history
      (perform d (.eval node) ⟨[r], m.functions, m.procedures, []⟩) := by
  have hover := eval_over d node S m.history (m := ⟨[r], m.functions, m.procedures, []⟩) nofun
  rwa [Machine.over_alone hs] at hover

theorem Visit.text_alone (d : Nat) (node : Node) (hs : m.stack = r :: S) :
    Visit.text ⟨d, .eval node, m⟩ =
      (Ending.machine (perform d (.eval node) ⟨[r], m.functions, m.procedures, []⟩)).output := by
  rw [Visit.text, perform_alone_over d node (m := { m with history := [] }) hs,
    Ending.machine_over, Machine.output_over]
  exact String.empty_append

/-- Behind a part the output is that from before, with what the part shows. -/
theorem output_behind {d : Nat} {node : Node} {v : Value} (hm : m.stack ≠ [])
    (hrun : perform d (.eval node) m = .ok v n) :
    n.output = m.output ++ Visit.text ⟨d, .eval node, m⟩ := by
  obtain ⟨r, S, hs⟩ := List.exists_cons_of_ne_nil hm
  have hafter := congrArg Ending.machine hrun
  rw [perform_alone_over d node hs, Ending.machine_over, Ending.machine_ok] at hafter
  rw [← hafter, Machine.output_over, Visit.text_alone d node hs]
  rfl

/-- What a part comes to and shows hangs on the top record and the tables alone, at every depth at
    which it completes. -/
theorem perform_alike {d d' : Nat} {node : Node} {v : Value} {after : Machine} (hd : d ≤ d')
    (hm : m.stack ≠ []) (htop : n.stack.head? = m.stack.head?)
    (hfunctions : n.functions = m.functions) (hprocedures : n.procedures = m.procedures)
    (hrun : perform d (.eval node) n = .ok v after) :
    (∃ after', perform d' (.eval node) m = .ok v after') ∧
      Visit.text ⟨d, .eval node, n⟩ = Visit.text ⟨d', .eval node, m⟩ := by
  obtain ⟨r, S, hs⟩ := List.exists_cons_of_ne_nil hm
  rw [hs, List.head?_cons] at htop
  obtain ⟨T, ht⟩ := List.head?_eq_some_iff.mp htop
  rw [perform_alone_over d node ht, hfunctions, hprocedures] at hrun
  rw [Visit.text_alone d node ht, Visit.text_alone d' node hs, perform_alone_over d' node hs,
    hfunctions, hprocedures]
  -- both are the run on that record alone, which is not cut off
  cases halone : perform d (.eval node) ⟨[r], m.functions, m.procedures, []⟩ with
  | error e alone =>
      rw [halone] at hrun
      cases hrun
  | ok w alone =>
      have hdeeper : perform d' (.eval node) ⟨[r], m.functions, m.procedures, []⟩ =
          .ok w alone := by
        rw [perform_deeper hd, halone]
        rw [halone]
        rintro ⟨n, hn⟩
        cases hn
      rw [halone] at hrun
      cases hrun
      rw [hdeeper]
      exact ⟨⟨_, rfl⟩, rfl⟩

end

/-! ## What comes before something -/

theorem Eval.requireReal_eq_ok {fault : String → Fault} {v : Value} {m n : Machine}
    (h : Eval.requireReal fault v m = .ok () n) : v.isReal = true ∧ n = m := by
  rw [Eval.requireReal] at h
  split at h
  · cases h
    exact ⟨‹_›, rfl⟩
  · cases h

namespace Action

variable {run : Task → Eval Value} {m n : Machine} {a : α} {l l' : List (Task × Machine)}

/-- With tasks that run so, an action completes, and asks for a list of tasks on its way. -/
def Passes (run : Task → Eval Value) (x : Action α) (m : Machine) (a : α) (n : Machine)
    (l : List (Task × Machine)) : Prop :=
  (x m).carryOut run = .ok a n ∧ (x m).asked run = l

theorem Passes.pure : Passes run (Pure.pure a) m a m [] := ⟨rfl, rfl⟩

theorem Passes.lift {x : Eval α} (h : x m = .ok a n) : Passes run (liftM x) m a n [] := ⟨h, rfl⟩

theorem Passes.eval {node : Node} {v : Value} (h : run (.eval node) m = .ok v n) :
    Passes run (Action.eval node) m v n [(.eval node, m)] := ⟨h, rfl⟩

/-- What is behind an action that completes asks for its tasks behind those of the action. -/
theorem Passes.asked {x : Action α} {f : α → Action β} (hx : Passes run x m a n l)
    (hf : (f a n).asked run = l') : ((x >>= f) m).asked run = l ++ l' := by
  show ((x m).bind f).asked run = _
  rw [Work.asked_bind, hx.1, hx.2, ← hf]

theorem Passes.bind {x : Action α} {f : α → Action β} {b : β} {n' : Machine}
    (hx : Passes run x m a n l) (hf : Passes run (f a) n b n' l') :
    Passes run (x >>= f) m b n' (l ++ l') := by
  refine ⟨?_, hx.asked hf.2⟩
  show ((x m).bind f).carryOut run = _
  rw [Work.carryOut_bind, hx.1]
  exact hf.1

section

variable {p : Task × Machine}

/-- Steps that ask for nothing. -/
theorem loop_behind_lift {x : Eval α} {f : α → Action β}
    (hp : p ∈ ((liftM x >>= f : Action β) m).asked run) :
    ∃ a n, x m = .ok a n ∧ p ∈ (f a n).asked run :=
  (Work.mem_asked_bind.mp hp).resolve_left List.not_mem_nil

theorem loop_behind_eval {node : Node} {f : Value → Action β} (hloop : p.1.isLoop = true)
    (hp : p ∈ ((Action.eval node >>= f) m).asked run) :
    ∃ v n, run (.eval node) m = .ok v n ∧ p ∈ (f v n).asked run := by
  refine (Work.mem_asked_bind.mp hp).resolve_left fun hnode => ?_
  obtain rfl := List.mem_singleton.mp hnode
  cases hloop

theorem loop_behind_requireReal {fault : String → Fault} {v : Value} {f : Unit → Action β}
    (hp : p ∈ ((liftM (Eval.requireReal fault v) >>= f : Action β) m).asked run) :
    v.isReal = true ∧ p ∈ (f () m).asked run := by
  obtain ⟨⟨⟩, n, hrun, hbehind⟩ := loop_behind_lift hp
  obtain ⟨hreal, rfl⟩ := Eval.requireReal_eq_ok hrun
  exact ⟨hreal, hbehind⟩

end

theorem Passes.requireReal {fault : String → Fault} {v : Value} (h : v.isReal = true) :
    Passes run (liftM (Eval.requireReal fault v)) m () m [] := by
  refine .lift ?_
  rw [Eval.requireReal, if_pos h]
  rfl

end Action

/-! ## Headers -/

/-- The evaluations that lead from a machine to a for loop, where tasks run to the depth `d + 1`.
    The step is that of its part for it, or is chosen by the first value and the last one.  Behind
    it the first value is evaluated again, one level further down. -/
structure ForHeader (d : Nat) (value termination step : Node) (m : Machine) where
  first : Value
  last : Value
  stride : Value
  bound : Value
  afterFirst : Machine
  afterLast : Machine
  afterStep : Machine
  afterBound : Machine
  top : Record
  below : CallStack
  first_run : perform (d + 1) (.eval value) m = .ok first afterFirst
  first_real : first.isReal = true
  last_run : perform (d + 1) (.eval termination) afterFirst = .ok last afterLast
  last_real : last.isReal = true
  step_run : if step.isAbsent then Eval.impliedStep first last = .ok stride ∧ afterStep = afterLast
    else perform (d + 1) (.eval step) afterLast = .ok stride afterStep ∧ stride.isReal = true
  bound_run : perform d (.eval value) afterStep = .ok bound afterBound
  stack_eq : afterBound.stack = top :: below

namespace ForHeader

variable {d : Nat} {value termination step : Node} {m : Machine}

section

variable (h : ForHeader d value termination step m)

/-- The step is evaluated if there is a part for it. -/
def stepVisits : List Visit :=
  if step.isAbsent then [] else [⟨d + 1, .eval step, h.afterLast⟩]

/-- The values that are checked are evaluated in order. -/
def evaluations : List Visit :=
  ⟨d + 1, .eval value, m⟩ :: ⟨d + 1, .eval termination, h.afterFirst⟩ :: h.stepVisits

/-- The variable is assigned to. -/
def assigning (name : String) : Visit :=
  ⟨d + 1, .eval (.assignment (.identifier name) value), h.afterStep⟩

/-- The first value is evaluated again. -/
def again : Visit := ⟨d, .eval value, h.afterStep⟩

/-- The loop begins with the second value. -/
def loop (name : String) (body : Node) : Visit :=
  ⟨d + 1, .forLoop (h.below.length + 1) name h.last h.stride body,
    { h.afterBound with stack := h.top.set name h.bound :: h.below }⟩

/-- None of the evaluations is a loop. -/
theorem isLoop_of_mem_evaluations {u : Visit} (hu : u ∈ h.evaluations) :
    u.task.isLoop = false := by
  rw [evaluations, stepVisits] at hu
  split at hu <;> simp only [List.mem_cons, List.not_mem_nil, or_false] at hu
  · rcases hu with rfl | rfl <;> rfl
  · rcases hu with rfl | rfl | rfl <;> rfl

theorem passes_stepValue : ∃ l, l.map (fun p => ⟨d + 1, p.1, p.2⟩) = h.stepVisits ∧
    Action.Passes (perform (d + 1)) (Action.stepValue h.first h.last step) h.afterLast h.stride
      h.afterStep l := by
  have hstep := h.step_run
  rw [stepVisits, Action.stepValue]
  by_cases habsent : step.isAbsent = true
  · rw [if_pos habsent] at hstep ⊢
    rw [if_pos habsent, hstep.2, hstep.1]
    exact ⟨[], rfl, .lift rfl⟩
  · rw [if_neg habsent] at hstep ⊢
    rw [if_neg habsent]
    exact ⟨_, rfl, .bind (.eval hstep.1) (.bind (.requireReal hstep.2) .pure)⟩

theorem passes_assignment (name : String) :
    Action.Passes (perform d) (Action.evaluate (.assignment (.identifier name) value)) h.afterStep
      .nothing (h.loop name value).machine [(.eval value, h.afterStep)] :=
  .bind (.eval h.bound_run) (.bind (.lift (Eval.top_cons h.stack_eq)) (.bind (.lift rfl)
    (.bind (.lift (Eval.setTop_cons h.stack_eq name h.bound)) .pure)))

/-- The assignment evaluates the first value again, and asks for nothing else. -/
theorem asks_assigning (name : String) : (h.assigning name).asks = [h.again] := by
  rw [assigning, Visit.asks_eval, (h.passes_assignment name).2]
  rfl

/-- What a for statement asks for: the values that it checks, the assignment, and its loop. -/
theorem asks_forOver (name : String) (body : Node) :
    Visit.asks ⟨d + 2, .eval (forOver name value termination step body), m⟩ =
      h.evaluations ++ [h.assigning name, h.loop name body] := by
  obtain ⟨l, hl, hstep⟩ := h.passes_stepValue
  have hassigned : perform (d + 1) (.eval (.assignment (.identifier name) value)) h.afterStep =
      .ok .nothing (h.loop name body).machine := by
    rw [perform_eval]
    exact (h.passes_assignment name).1
  have hasked : (Action.evaluate (forOver name value termination step body) m).asked
      (perform (d + 1)) =
        (.eval value, m) :: (.eval termination, h.afterFirst) :: (l ++
          [(.eval (.assignment (.identifier name) value), h.afterStep),
          ((h.loop name body).task, (h.loop name body).machine)]) := by
    refine Eq.trans (Action.Passes.asked (.lift rfl)
      (Action.Passes.asked (.eval h.first_run)
      (Action.Passes.asked (.requireReal h.first_real)
      (Action.Passes.asked (.eval h.last_run)
      (Action.Passes.asked (.requireReal h.last_real)
      (hstep.asked
      (Action.Passes.asked (.eval hassigned)
      (Action.Passes.asked (.lift (Eval.topHeight_cons rfl))
      (Action.Passes.asked (.lift rfl) (Action.Passes.asked (.lift rfl) rfl)))))))))) ?_
    rfl
  rw [Visit.asks_eval, hasked, evaluations, ← hl]
  simp only [List.map_cons, List.map_append, List.map_nil, List.cons_append]
  rfl

end

/-! ### What a header leaves -/

section

variable (hvalue : value.IsExpression) (htermination : termination.IsExpression)
  (hstep : Formed (fun _ => True) .optional step) (h : ForHeader d value termination step m)

include hstep in
/-- The part for the step is evaluated as an expression, if there is one. -/
theorem step_cases : (h.stepVisits = [] ∧ h.afterStep = h.afterLast) ∨
    (h.stepVisits = [⟨d + 1, .eval step, h.afterLast⟩] ∧ step.IsExpression ∧
      perform (d + 1) (.eval step) h.afterLast = .ok h.stride h.afterStep) := by
  have hrun := h.step_run
  rw [stepVisits]
  by_cases habsent : step.isAbsent = true
  · rw [if_pos habsent] at hrun ⊢
    exact .inl ⟨rfl, hrun.2⟩
  · rw [if_neg habsent] at hrun ⊢
    cases hstep with
    | absent => exact absurd rfl habsent
    | present hstep => exact .inr ⟨rfl, hstep, hrun.1⟩

/-- A header without a step, whose values are known. -/
theorem afterStep_eq_of_absent (habsent : step.isAbsent = true) {v w : Value} {n n' : Machine}
    (hfirst : perform (d + 1) (.eval value) m = .ok v n)
    (hlast : perform (d + 1) (.eval termination) n = .ok w n') : h.afterStep = n' := by
  have hstep := h.step_run
  rw [if_pos habsent] at hstep
  have hfirst' := h.first_run
  rw [hfirst] at hfirst'
  injection hfirst' with _ hn
  have hlast' := h.last_run
  rw [← hn, hlast] at hlast'
  injection hlast' with _ hn'
  rw [hstep.2, hn']

include hvalue htermination hstep in
/-- A header all of whose parts are still leaves the machine as it is. -/
theorem afterBound_eq (hstill : (value.CallsNothing ∧ termination.CallsNothing ∧
    step.CallsNothing) ∨ m.stack = []) : h.afterStep = m ∧ h.afterBound = m := by
  have hkept : ∀ {d : Nat} {node : Node} {v : Value} {after : Machine}, node.IsExpression →
      (node.CallsNothing ∨ m.stack = []) → perform d (.eval node) m = .ok v after → after = m := by
    intro d node v after hnode hcalls hrun
    have hmachine := perform_still d hnode hcalls
    rwa [hrun] at hmachine
  have hfirst := hkept hvalue (hstill.imp_left fun hcalls => hcalls.1) h.first_run
  have hlast := h.last_run
  rw [hfirst] at hlast
  have hlast := hkept htermination (hstill.imp_left fun hcalls => hcalls.2.1) hlast
  have hafter : h.afterStep = m := by
    rcases h.step_cases hstep with ⟨-, hsame⟩ | ⟨-, hexpression, hrun⟩
    · rw [hsame, hlast]
    · rw [hlast] at hrun
      exact hkept hexpression (hstill.imp_left fun hcalls => hcalls.2.2) hrun
  have hbound := h.bound_run
  rw [hafter] at hbound
  exact ⟨hafter, hkept hvalue (hstill.imp_left fun hcalls => hcalls.1) hbound⟩

include hvalue htermination hstep h in
/-- There is a record, or the assignment would not have found one. -/
theorem stack_ne_nil : m.stack ≠ [] := by
  intro hm
  have hstack := h.stack_eq
  rw [(h.afterBound_eq hvalue htermination hstep (.inr hm)).2, hm] at hstack
  cases hstack

include hvalue htermination hstep in
/-- Before the first round the texts of the four evaluations have been shown, in order. -/
theorem output_loop (name : String) (body : Node) : (h.loop name body).machine.output =
    m.output ++ String.join ((h.evaluations ++ [h.again]).map Visit.text) := by
  have hbehind : ∀ {d : Nat} {node : Node} {v : Value} {n n' : Machine}, n.stack ≠ [] →
      perform d (.eval node) n = .ok v n' →
      n'.stack ≠ [] ∧ n'.output = n.output ++ Visit.text ⟨d, .eval node, n⟩ := by
    intro d node v n n' hn hrun
    have hheaders := perform_headers d (.eval node) hn
    rw [hrun] at hheaders
    exact ⟨Machine.stack_ne_nil (mt Machine.headers_eq_nil.mp hn) hheaders, output_behind hn hrun⟩
  obtain ⟨hfirst, hfirstOut⟩ := hbehind (h.stack_ne_nil hvalue htermination hstep) h.first_run
  obtain ⟨hlast, hlastOut⟩ := hbehind hfirst h.last_run
  have hstepOut : h.afterStep.stack ≠ [] ∧
      h.afterStep.output = h.afterLast.output ++ String.join (h.stepVisits.map Visit.text) := by
    rcases h.step_cases hstep with ⟨hvisits, hsame⟩ | ⟨hvisits, -, hrun⟩
    · rw [hvisits, hsame]
      exact ⟨hlast, String.append_empty.symm⟩
    · obtain ⟨hne, hout⟩ := hbehind hlast hrun
      rw [hvisits]
      exact ⟨hne, by simpa using hout⟩
  have hboundOut := (hbehind hstepOut.1 h.bound_run).2
  show h.afterBound.output = _
  rw [hboundOut, hstepOut.2, hlastOut, hfirstOut, evaluations, again]
  simp [String.append_assoc]

include hvalue htermination hstep in
/-- If the top record and the tables are as they were when the first value is evaluated again, it is
    the same one. -/
theorem bound_eq_first (htop : h.afterStep.stack.head? = m.stack.head?)
    (hfunctions : h.afterStep.functions = m.functions)
    (hprocedures : h.afterStep.procedures = m.procedures) :
    h.bound = h.first ∧ h.again.text = Visit.text ⟨d + 1, .eval value, m⟩ := by
  obtain ⟨⟨after, hrun⟩, htext⟩ := perform_alike (Nat.le_succ d)
    (h.stack_ne_nil hvalue htermination hstep) htop hfunctions hprocedures h.bound_run
  rw [h.first_run] at hrun
  injection hrun with hvalues
  exact ⟨hvalues.symm, htext⟩

end

end ForHeader

/-! ## From a loop back to its header -/

section

variable {d : Nat} {name : String} {value termination step body : Node} {m n : Machine}

/-- An assignment that completes has set the variable to what its value came to. -/
theorem assignment_inv {v : Value}
    (hrun : perform (d + 1) (.eval (.assignment (.identifier name) value)) m = .ok v n) :
    ∃ w after r rest, perform d (.eval value) m = .ok w after ∧ after.stack = r :: rest := by
  rw [perform_eval] at hrun
  obtain ⟨w, after, hvalue, hrest⟩ := Work.carryOut_bind_eq_ok.mp hrun
  obtain ⟨r, after', htop, -⟩ := Work.carryOut_bind_eq_ok.mp hrest
  cases hs : after.stack with
  | cons r rest => exact ⟨w, after, r, rest, hvalue, hs⟩
  | nil =>
      change Eval.top after = .ok r after' at htop
      rw [Eval.top_nil hs] at htop
      cases htop

/-- The step of a loop is evaluated and checked, or chosen. -/
theorem loop_behind_stepValue {first last : Value} {f : Value → Action β} {p : Task × Machine}
    (hloop : p.1.isLoop = true)
    (hp : p ∈ ((Action.stepValue first last step >>= f) m).asked (perform d)) :
    ∃ stride n, (if step.isAbsent then Eval.impliedStep first last = .ok stride ∧ n = m
        else perform d (.eval step) m = .ok stride n ∧ stride.isReal = true) ∧
      p ∈ (f stride n).asked (perform d) := by
  rw [Action.stepValue] at hp
  by_cases habsent : step.isAbsent = true
  · rw [if_pos habsent] at hp
    obtain ⟨stride, n, hrun, hp⟩ := Action.loop_behind_lift hp
    refine ⟨stride, n, ?_, hp⟩
    rw [if_pos habsent]
    cases himplied : Eval.impliedStep first last with
    | error f =>
        rw [himplied] at hrun
        cases hrun
    | ok s =>
        rw [himplied] at hrun
        cases hrun
        exact ⟨rfl, rfl⟩
  · rw [if_neg habsent] at hp
    rcases Work.mem_asked_bind.mp hp with hinner | ⟨stride, n, hrun, hp⟩
    · -- the step asks for nothing but its part
      obtain ⟨v, n, -, hinner⟩ := Action.loop_behind_eval hloop hinner
      cases (Action.loop_behind_requireReal hinner).2
    · obtain ⟨v, after, hstep, hrest⟩ := Work.carryOut_bind_eq_ok.mp hrun
      obtain ⟨⟨⟩, after', hcheck, hpure⟩ := Work.carryOut_bind_eq_ok.mp hrest
      obtain ⟨hreal, rfl⟩ := Eval.requireReal_eq_ok hcheck
      cases hpure
      refine ⟨stride, n, ?_, hp⟩
      rw [if_neg habsent]
      exact ⟨hstep, hreal⟩

/-- A for statement that comes to its loop has evaluated a header. -/
theorem exists_forHeader {depth : Nat} {loop : Visit}
    (hloop : loop ∈ Visit.asks ⟨depth, .eval (forOver name value termination step body), m⟩)
    (hkind : loop.task.isLoop = true) :
    ∃ d, depth = d + 2 ∧ Nonempty (ForHeader d value termination step m) := by
  cases depth with
  | zero => cases hloop
  | succ depth =>
      rw [Visit.asks_eval] at hloop
      obtain ⟨p, hp, rfl⟩ := List.mem_map.mp hloop
      obtain ⟨_, _, hpart, hp⟩ := Action.loop_behind_lift hp
      cases hpart
      obtain ⟨first, m₁, hfirst, hp⟩ := Action.loop_behind_eval hkind hp
      obtain ⟨hfirstReal, hp⟩ := Action.loop_behind_requireReal hp
      obtain ⟨last, m₂, hlast, hp⟩ := Action.loop_behind_eval hkind hp
      obtain ⟨hlastReal, hp⟩ := Action.loop_behind_requireReal hp
      obtain ⟨stride, m₃, hstep, hp⟩ := loop_behind_stepValue hkind hp
      obtain ⟨_, m₄, hassigned, -⟩ := Action.loop_behind_eval hkind hp
      cases depth with
      | zero => cases hfirst
      | succ d =>
          obtain ⟨bound, m₅, r, rest, hbound, hs⟩ := assignment_inv hassigned
          exact ⟨d, rfl, ⟨first, last, stride, bound, m₁, m₂, m₃, m₅, r, rest, hfirst, hfirstReal,
            hlast, hlastReal, hstep, hbound, hs⟩⟩

end

/-! ## For statements -/

/-- A for statement that comes to its loop has evaluated its first value, its last value and its
    step if there is one, each of them once, and then the first value again, by an assignment.  The
    texts of these evaluations are what is shown before the first round, and the loop begins with
    the second value.  That is the first one again if the top record and the tables have not changed
    in between, and the header has changed nothing at all if it calls nothing. -/
theorem for_header_evaluated {W : String → Prop} {name : String}
    {value termination step body : Node}
    (hfor : Formed W .statement (forOver name value termination step body)) {depth : Nat}
    {m : Machine} {loop : Visit}
    (hloop : loop ∈ Visit.asks ⟨depth, .eval (forOver name value termination step body), m⟩)
    (hkind : loop.task.isLoop = true) :
    ∃ d, depth = d + 2 ∧ ∃ h : ForHeader d value termination step m,
      Visit.asks ⟨depth, .eval (forOver name value termination step body), m⟩ =
        h.evaluations ++ [h.assigning name, loop] ∧
      (h.assigning name).asks = [h.again] ∧ loop = h.loop name body ∧
      loop.machine.output =
        m.output ++ String.join ((h.evaluations ++ [h.again]).map Visit.text) ∧
      (h.afterStep.stack.head? = m.stack.head? → h.afterStep.functions = m.functions →
        h.afterStep.procedures = m.procedures →
        h.bound = h.first ∧ h.again.text = Visit.text ⟨d + 1, .eval value, m⟩) ∧
      (value.CallsNothing → termination.CallsNothing → step.CallsNothing →
        h.bound = h.first ∧ h.afterBound = m) := by
  have hparts : value.IsExpression ∧ termination.IsExpression ∧
      Formed (fun _ => True) .optional step := by
    cases hfor with
    | forLoop _ hvalue htermination hstep _ =>
        exact ⟨hvalue.mono fun _ _ => trivial, htermination.mono fun _ _ => trivial,
          hstep.mono fun _ _ => trivial⟩
  obtain ⟨hvalue, htermination, hstep⟩ := hparts
  obtain ⟨d, rfl, ⟨h⟩⟩ := exists_forHeader hloop hkind
  have hasks := h.asks_forOver name body
  -- of what is asked for, only the last is a loop
  have hlast : loop = h.loop name body := by
    rw [hasks] at hloop
    rcases List.mem_append.mp hloop with hevaluated | hlast
    · rw [h.isLoop_of_mem_evaluations hevaluated] at hkind
      cases hkind
    · simp only [List.mem_cons, List.not_mem_nil, or_false] at hlast
      rcases hlast with rfl | hlast
      · cases hkind
      · exact hlast
  have halike := h.bound_eq_first hvalue htermination hstep
  refine ⟨d, rfl, h, by rw [hasks, hlast], h.asks_assigning name, hlast, ?_, halike, ?_⟩
  · rw [hlast]
    exact h.output_loop hvalue htermination hstep name body
  · intro hcalls hcalls' hcalls''
    obtain ⟨hafter, hbound⟩ :=
      h.afterBound_eq hvalue htermination hstep (.inl ⟨hcalls, hcalls', hcalls''⟩)
    exact ⟨(halike (by rw [hafter]) (by rw [hafter]) (by rw [hafter])).1, hbound⟩

/-- A header that calls a function, whose text is shown twice. -/
theorem for_header_evaluated_call :
    ∃ (value body : Node) (m : Machine) (loop : Visit),
      Formed (fun _ => True) .statement (forOver "i" value (.number "1") .absent body) ∧
      loop ∈ Visit.asks ⟨12, .eval (forOver "i" value (.number "1") .absent body), m⟩ ∧
      loop.task.isLoop = true ∧ m.output = "" ∧ loop.machine.output = "f\nf\n" ∧
      ∃ h : ForHeader 10 value (.number "1") .absent m, h.bound = h.first ∧
        loop.machine.output =
          m.output ++ String.join ((h.evaluations ++ [h.again]).map Visit.text) := by
  let value : Node := .functionCall (.identifier "f") []
  let body : Node := .block [.display (.string "'b'")]
  let f : Function :=
    ⟨⟨"f", some [], .block [.display (.string "'f'"), .give (.number "1")]⟩, "number"⟩
  let callee : Record := ⟨"f", .function, 2, []⟩
  let m : Machine := ⟨[Record.program], [("f", f)], [], []⟩
  let shown : List Event := [.popped callee, .shown "f", .pushed callee]
  let loop : Visit := ⟨11, .forLoop 1 "i" (.int 1) (.int 1) body,
    ⟨[Record.program.set "i" (.int 1)], [("f", f)], [], shown ++ shown⟩⟩
  have hfor : Formed (fun _ => True) .statement (forOver "i" value (.number "1") .absent body) := by
    refine .forLoop (.name trivial) (.functionCall (.name trivial) fun _ h => by cases h)
      (.number _) .absent (.block fun statement hstatement => ?_)
    obtain rfl := List.mem_singleton.mp hstatement
    exact .display (.string _)
  have hasked : (Visit.asks ⟨12, .eval (forOver "i" value (.number "1") .absent body), m⟩)[3]? =
      some loop := by cbv
  have hloop := List.mem_of_getElem? hasked
  obtain ⟨d, hd, h, -, -, -, houtput, halike, -⟩ := for_header_evaluated hfor hloop rfl
  cases hd
  -- the call has left nothing but its events
  have hafter : h.afterStep = { m with history := shown } :=
    h.afterStep_eq_of_absent rfl (v := .int 1) (w := .int 1) (by cbv) (by cbv)
  refine ⟨value, body, m, loop, hfor, hloop, rfl, by cbv, by cbv, h, ?_, houtput⟩
  exact (halike (by rw [hafter]) (by rw [hafter]) (by rw [hafter])).1

set_option maxRecDepth 1000 in
/-- A function gives a number when it is called first and a text when it is called again: the number
    is checked, the loop begins with the text, and fails. -/
theorem for_header_rebinds :
    ∃ source tree body, parse source = .ok tree ∧ (analyze tree).1 = none ∧
      (∃ u ∈ visits 16 (.eval tree) Machine.initial,
        u.task =
          .eval (forOver "i" (.functionCall (.identifier "f") []) (.number "1") .absent body) ∧
        ∃ h : ForHeader 12 (.functionCall (.identifier "f") []) (.number "1") .absent u.machine,
          h.first = .int 1 ∧ h.bound = .text "a") ∧
      (interpret 16 tree).exit = some (.fault .assertion) ∧
      (interpret 16 tree).machine.output = "f\ng\n" := by
  let inner : Node := .block [.display (.string "'g'"), .give (.string "'a'")]
  let outer : Node := .block
    [.display (.string "'f'"), .functionDecl (.identifier "f") [] (.typeName "string") inner,
    .give (.number "1")]
  let value : Node := .functionCall (.identifier "f") []
  let body : Node := .block [.display (.string "'b'")]
  let tree : Node := .program (.block
    [.functionDecl (.identifier "f") [] (.typeName "number") outer,
    .variableDecl (.typeName "number") [.identifier "i"] [.number "0"],
    forOver "i" value (.number "1") .absent body])
  have hparse : parse ("\x7b\nfunc f() -> number \x7b\nshow 'f'\nfunc f() -> string \x7b\n"
      ++ "show 'g'\ngive 'a'\n\x7d\ngive 1\n\x7d\nlet number i = 0\nfor i = f() to 1 \x7b\n"
      ++ "show 'b'\n\x7d\n\x7d") = .ok tree := by cbv
  have haccepted : (analyze tree).1 = none := by cbv
  let program : Record := ⟨"program", .program, 1, [("i", .int 0)]⟩
  let callee : Record := ⟨"f", .function, 2, [("i", .int 0)]⟩
  let called (line : String) : List Event := [.popped callee, .shown line, .pushed callee]
  let m : Machine :=
    ⟨[program], [("f", ⟨⟨"f", some [], outer⟩, "number"⟩)], [], [.pushed Record.program]⟩
  let again : Machine := { m with
    functions := [("f", ⟨⟨"f", some [], inner⟩, "string"⟩)], history := called "f" ++ m.history }
  let last : Machine := { again with history := called "g" ++ again.history }
  have hfirst : perform 13 (.eval value) m = .ok (.int 1) again := by cbv
  have hone : perform 13 (.eval (.number "1")) again = .ok (.int 1) again := by cbv
  have hbound : perform 12 (.eval value) again = .ok (.text "a") last := by cbv
  let h : ForHeader 12 value (.number "1") .absent m :=
    ⟨.int 1, .int 1, .int 1, .text "a", again, again, again, last, program, [], hfirst, rfl, hone,
      rfl, ⟨rfl, rfl⟩, hbound, rfl⟩
  let statement : Visit := ⟨14, .eval (forOver "i" value (.number "1") .absent body), m⟩
  have hvisit : (visits 16 (.eval tree) Machine.initial)[5]? = some statement := by cbv
  refine ⟨_, tree, body, hparse, haccepted,
    ⟨statement, List.mem_of_getElem? hvisit, rfl, h, rfl, rfl⟩, ?_, ?_⟩ <;> cbv

end BraceScript
