import BraceScript.Proofs.Endings

/-! # Deepening — a run that has ended needs no more depth

    A run is cut off where it comes to the bound on its depth.  No task has an answer of its own to
    that: what has asked for a run that is cut off is cut off as well.  So a run that ends in any
    other way has not come to its bound, and it ends in this way under every greater one.

    * `Work.Candid`: work that is cut off where a run it asks for is;
    * `step_candid`: the work of every task is such work;
    * `perform_deeper`: what is not cut off goes the same at every greater depth;
    * `Action.Ends.bind_inv`: a sequence ends as its parts do, and in no other way;
    * `Action.Ends.perform_eq`: at a smaller depth it may be cut off, and nothing else. -/

namespace BraceScript

open Eval (perform)

variable {α β : Type}

/-- An ending by the bound on the depth. -/
def Ending.IsCut (e : Ending α) : Prop := ∃ m, e = .error .exhausted m

/-! ## Work that is cut off with what it asks for -/

namespace Work

/-- Work that ends, as it stands, where a run that it has asked for is cut off. -/
def Candid : Work α → Prop
  | .ended _ => True
  | .ask _ _ next =>
      (∀ m, next (.error .exhausted m) = .ended (.error .exhausted m)) ∧
        ∀ answer, (next answer).Candid

theorem Candid.bind {w : Work α} {f : α → Action β} (hw : w.Candid)
    (hf : ∀ a m, (f a m).Candid) : (w.bind f).Candid := by
  induction w with
  | ended e =>
      cases e with
      | ok a m => exact hf a m
      | error e m => trivial
  | ask task m next ih =>
      refine ⟨fun n => ?_, fun answer => ih answer (hw.2 answer)⟩
      show (next (.error .exhausted n)).bind f = _
      rw [hw.1 n]
      rfl

/-- Catching how work ends does no harm, if being cut off is passed on. -/
theorem Candid.caught_bind {w : Work α} {f : Except Exit α → Action β} (hw : w.Candid)
    (hcut : ∀ m, f (.error .exhausted) m = .ended (.error .exhausted m))
    (hf : ∀ r m, (f r m).Candid) : (w.caught.bind f).Candid := by
  induction w with
  | ended e =>
      cases e with
      | ok a m => exact hf (.ok a) m
      | error e m => exact hf (.error e) m
  | ask task m next ih =>
      refine ⟨fun n => ?_, fun answer => ih answer (hw.2 answer)⟩
      show ((next (.error .exhausted n)).caught).bind f = _
      rw [hw.1 n]
      exact hcut n

/-- Runs that differ only where the first ones are cut off make no difference to work that is not
    cut off itself. -/
theorem Candid.carryOut_eq {w : Work α} (hw : w.Candid) {run run' : Task → Eval Value}
    (hrun : ∀ task m, ¬ Ending.IsCut (run task m) → run' task m = run task m)
    (hcut : ¬ Ending.IsCut (w.carryOut run)) : w.carryOut run' = w.carryOut run := by
  induction w with
  | ended e => rfl
  | ask task m next ih =>
      have hask : ¬ Ending.IsCut (run task m) := by
        rintro ⟨n, hn⟩
        apply hcut
        show Ending.IsCut ((next (run task m)).carryOut run)
        rw [hn, hw.1 n]
        exact ⟨n, rfl⟩
      show (next (run' task m)).carryOut run' = (next (run task m)).carryOut run
      rw [hrun task m hask]
      exact ih _ (hw.2 _) hcut

end Work

/-! ## All tasks -/

namespace Action

/-- The work of an action is candid, on every machine. -/
def Candid (x : Action α) : Prop := ∀ m, (x m).Candid

namespace Candid

theorem pure {a : α} : Candid (Pure.pure a) := fun _ => trivial

theorem lift (x : Eval α) : Candid (liftM x) := fun _ => trivial

theorem leave (e : Exit) : Candid (Action.leave e : Action α) := fun _ => trivial

theorem ask (task : Task) : Candid (Action.ask task) := fun _ => ⟨fun _ => rfl, fun _ => trivial⟩

theorem eval (node : Node) : Candid (Action.eval node) := ask (.eval node)

theorem bind {x : Action α} {f : α → Action β} (hx : Candid x) (hf : ∀ a, Candid (f a)) :
    Candid (x >>= f) := fun m => (hx m).bind hf

theorem ite {c : Prop} [Decidable c] {x y : Action α} (hx : Candid x) (hy : Candid y) :
    Candid (if c then x else y) := by
  split
  · exact hx
  · exact hy

/-- An action that asks for nothing comes first. -/
theorem behind {x : Eval α} {f : α → Action β} (hf : ∀ a, Candid (f a)) :
    Candid (liftM x >>= f) := (lift x).bind hf

/-- A part is evaluated first. -/
theorem evaluating {node : Node} {f : Value → Action β} (hf : ∀ v, Candid (f v)) :
    Candid (Action.eval node >>= f) := (eval node).bind hf

/-! ### Parts of tasks -/

theorem block (statements : List Node) : Candid (Action.block statements) := by
  induction statements with
  | nil => exact pure
  | cons statement rest ih =>
      refine evaluating fun v => ?_
      split
      · exact pure
      · exact ih

theorem evalAll (nodes : List Node) : Candid (Action.evalAll nodes) := by
  induction nodes with
  | nil => exact pure
  | cons node rest ih => exact evaluating fun v => ih.bind fun values => pure

theorem setVariables (height : Nat) (type : Node) (names values : List Node) :
    Candid (Action.setVariables height type names values) := by
  induction values generalizing names with
  | nil =>
      rw [Action.setVariables]
      exact lift _
  | cons value values ih =>
      cases names with
      | nil => exact pure
      | cons name names => exact evaluating fun v => behind fun _ => behind fun _ => ih names

theorem setConstants (height : Nat) (names values : List Node) :
    Candid (Action.setConstants height names values) := by
  induction values generalizing names with
  | nil =>
      cases names with
      | nil => exact pure
      | cons name names => exact lift _
  | cons value values ih =>
      cases names with
      | nil => exact pure
      | cons name names => exact evaluating fun v => behind fun _ => behind fun _ => ih names

theorem condition (node : Node) : Candid (Action.condition node) := by
  refine evaluating fun v => ?_
  split
  · exact pure
  · exact lift _

theorem branches (elifs : List Node) (alternative : Node) :
    Candid (Action.branches elifs alternative) := by
  induction elifs with
  | nil => exact ite pure (behind fun body => eval body)
  | cons branch rest ih =>
      refine behind fun test => (condition test).bind fun b => ite ?_ ih
      exact behind fun body => eval body

theorem whileRound (test body : Node) : Candid (Action.whileRound test body) := by
  refine (condition test).bind fun b => ite (evaluating fun v => ?_) pure
  split <;> exact pure

theorem stepValue (first last : Value) (step : Node) : Candid (Action.stepValue first last step) :=
  ite (lift _) (evaluating fun _ => behind fun _ => pure)

theorem forRound (height : Nat) (name : String) (last step : Value) (body : Node) :
    Candid (Action.forRound height name last step body) := by
  refine behind fun current => behind fun past => ite pure (evaluating fun v => ?_)
  split
  · exact pure
  · exact behind fun _ => pure

theorem runBody (body : Node) : Candid (Action.runBody body) :=
  evaluating fun _ => behind fun _ => pure

/-! ### Tasks -/

theorem evaluate (node : Node) : Candid (Action.evaluate node) := by
  cases node with
  | absent | bare _ | incomplete _ _ | typeName _ | elif _ _ | otherwise _ | parameter _ _
  | identifier _ | number _ => exact lift _
  | skip | stop => exact leave _
  | string _ | boolean _ => exact pure
  | program body => exact behind fun _ => (runBody body).bind fun _ => pure
  | block statements => exact block statements
  | variableDecl type names values =>
      exact behind fun height => (setVariables height type names values).bind fun _ => pure
  | constantDecl type names values =>
      exact behind fun height => (setConstants height names values).bind fun _ => pure
  | assignment target value =>
      exact evaluating fun _ => behind fun _ => behind fun _ => behind fun _ => pure
  | give value => exact ite pure (evaluating fun _ => pure)
  | display value => exact evaluating fun _ => behind fun _ => pure
  | functionDecl _ _ _ _ =>
      exact behind fun _ => behind fun _ => behind fun _ => behind fun _ => pure
  | procedureDecl _ _ _ => exact behind fun _ => behind fun _ => behind fun _ => pure
  | functionCall callee arguments | procedureCall callee arguments =>
      refine behind fun _ => behind fun _ => (evalAll arguments).bind fun _ => behind fun r => ?_
      exact (runBody r.body).bind fun _ => lift _
  | ifElse test body elifs alternative =>
      exact (condition test).bind fun _ => ite (eval body) (branches elifs alternative)
  | whileLoop test body => exact ask _
  | forLoop initial termination step body =>
      refine behind fun value => evaluating fun first => behind fun _ => evaluating fun last => ?_
      refine behind fun _ => (stepValue first last step).bind fun step => evaluating fun _ => ?_
      exact behind fun height => behind fun target => behind fun name => ask _
  | binary left operator right =>
      exact evaluating fun _ => evaluating fun _ => lift _
  | unary operator operand => exact evaluating fun _ => lift _
  | logical left operator right =>
      refine ite ?_ (ite ?_ (lift _))
      · exact (condition left).bind fun _ => ite ((condition right).bind fun _ => pure) pure
      · exact (condition left).bind fun _ => ite pure ((condition right).bind fun _ => pure)
  | negation operator operand => exact (condition operand).bind fun _ => ite pure (lift _)
  | comparison left comparator right =>
      exact evaluating fun _ => evaluating fun _ => behind fun _ => pure
  | truth expression => exact evaluating fun _ => pure

end Candid

end Action

/-- The work of every task is cut off where a run that it asks for is. -/
theorem step_candid (task : Task) : Action.Candid (Action.step task) := by
  cases task with
  | eval node => exact (Action.Candid.evaluate node).bind fun _ => .pure
  | whileLoop test body =>
      intro m
      refine (Action.Candid.whileRound test body m).caught_bind (fun _ => rfl) fun r n => ?_
      cases r with
      | ok round => cases round <;> trivial
      | error e => cases e <;> trivial
  | forLoop height name last step body =>
      intro m
      refine (Action.Candid.forRound height name last step body m).caught_bind (fun _ => rfl) ?_
      intro r n
      cases r with
      | ok round => cases round <;> trivial
      | error e =>
          cases e with
          | skip => exact Action.Candid.behind (fun _ => .behind fun _ => .pure) n
          | stop | fault _ | exhausted => trivial

/-! ## Runs -/

/-- One step more of depth: it makes no difference to what is asked for, so none to the work, and
    none to the rounds behind. -/
theorem perform_succ {d : Nat} {task : Task} {m : Machine} (h : ¬ Ending.IsCut (perform d task m)) :
    perform (d + 1) task m = perform d task m := by
  induction d generalizing task m with
  | zero => exact absurd ⟨m, rfl⟩ h
  | succ d ih =>
      have hwork : (Action.step task m).carryOut (perform (d + 1)) =
          (Action.step task m).carryOut (perform d) := by
        refine (step_candid task m).carryOut_eq (fun asked n => ih) ?_
        rintro ⟨n, hn⟩
        apply h
        rw [perform, hn]
        exact ⟨n, rfl⟩
      rcases perform_cases d task m with ⟨v, after, hstep, hrun⟩ | ⟨e, after, hstep, hrun⟩ |
        ⟨after, hstep, hrun⟩
      · rw [perform, hwork, hstep, hrun]
      · rw [perform, hwork, hstep, hrun]
      · rw [hrun] at h ⊢
        rw [perform, hwork, hstep]
        exact ih h

/-- What is not cut off goes the same at every greater depth. -/
theorem perform_deeper {d d' : Nat} {task : Task} {m : Machine} (hd : d ≤ d')
    (h : ¬ Ending.IsCut (perform d task m)) : perform d' task m = perform d task m := by
  induction hd with
  | refl => rfl
  | step _ ih => rw [perform_succ (by rw [ih]; exact h), ih]

namespace Action.Ends

variable {m : Machine}

/-- A part that is asked for ends as it does by itself, and in no other way. -/
theorem eval_iff {node : Node} {e : Ending Value} :
    Ends (Action.eval node) m e ↔ Ends (evaluate node) m e := by
  refine ⟨?_, Ends.eval⟩
  rintro ⟨D, hD⟩
  refine ⟨D, fun d hd => ?_⟩
  have hdeeper := hD (d + 1) (by omega)
  rwa [Work.carryOut_eval, perform_eval] at hdeeper

/-- A sequence ends as what is behind its first action does, or as the first action does if that
    does not complete. -/
theorem bind_inv {x : Action α} {f : α → Action β} {e : Ending β} (hx : x.Candid)
    (h : Ends (x >>= f) m e) :
    (∃ a m', Ends x m (.ok a m') ∧ Ends (f a) m' e) ∨
      ∃ exit m', Ends x m (.error exit m') ∧ e = .error exit m' := by
  obtain ⟨D, hD⟩ := h
  have hwhole : ∀ d, D ≤ d → ((x m).bind f).carryOut (perform d) = e := hD
  simp only [Work.carryOut_bind] at hwhole
  by_cases hends : ∃ d, D ≤ d ∧ ¬ Ending.IsCut ((x m).carryOut (perform d))
  · obtain ⟨d, hd, hcut⟩ := hends
    have hsame : ∀ d', d ≤ d' → (x m).carryOut (perform d') = (x m).carryOut (perform d) :=
      fun d' hd' => (hx m).carryOut_eq (fun _ _ => perform_deeper hd') hcut
    cases hrun : (x m).carryOut (perform d) with
    | ok a m' =>
        rw [hrun] at hsame
        refine .inl ⟨a, m', ⟨d, hsame⟩, d, fun d' hd' => ?_⟩
        have hrest := hwhole d' (hd.trans hd')
        rwa [hsame d' hd'] at hrest
    | error exit m' =>
        rw [hrun] at hsame
        have hrest := hwhole d hd
        rw [hrun] at hrest
        exact .inr ⟨exit, m', ⟨d, hsame⟩, hrest.symm⟩
  · -- the first action is cut off at every depth, and always at the same machine
    have hcuts : ∀ d, D ≤ d → ∃ n, (x m).carryOut (perform d) = .error .exhausted n ∧
        e = .error .exhausted n := by
      intro d hd
      obtain ⟨n, hn⟩ := not_not.mp fun hcut => hends ⟨d, hd, hcut⟩
      have hrest := hwhole d hd
      rw [hn] at hrest
      exact ⟨n, hn, hrest.symm⟩
    obtain ⟨n, -, he⟩ := hcuts D le_rfl
    refine .inr ⟨.exhausted, n, ⟨D, fun d hd => ?_⟩, he⟩
    obtain ⟨n', hn', he'⟩ := hcuts d hd
    rw [hn']
    rw [he] at he'
    cases he'
    rfl

/-- Sequences whose first action is the same end alike if what is behind does. -/
theorem bind_congr {x : Action α} {f g : α → Action β} {e : Ending β} (hx : x.Candid)
    (hf : ∀ a m, Ends (f a) m e ↔ Ends (g a) m e) : Ends (x >>= f) m e ↔ Ends (x >>= g) m e := by
  constructor
  · intro h
    rcases bind_inv hx h with ⟨a, m', hfirst, hrest⟩ | ⟨exit, m', hfirst, rfl⟩
    · exact hfirst.bind ((hf a m').mp hrest)
    · exact hfirst.cut
  · intro h
    rcases bind_inv hx h with ⟨a, m', hfirst, hrest⟩ | ⟨exit, m', hfirst, rfl⟩
    · exact hfirst.bind ((hf a m').mpr hrest)
    · exact hfirst.cut

end Action.Ends

/-- A part that ends in one way does so at every depth, or is cut off. -/
theorem Action.Ends.perform_eq {m : Machine} {node : Node} {e : Ending Value}
    (h : Action.Ends (Action.eval node) m e) (d : Nat) :
    perform d (.eval node) m = e ∨ Ending.IsCut (perform d (.eval node) m) := by
  by_cases hcut : Ending.IsCut (perform d (.eval node) m)
  · exact .inr hcut
  · obtain ⟨D, hD⟩ := h
    have henough := hD (max D d) (le_max_left D d)
    rw [Work.carryOut_eval, perform_deeper (le_max_right D d) hcut] at henough
    exact .inl henough

end BraceScript
