import BraceScript.Proofs.Locality
import BraceScript.Proofs.Steps

/-! # Endings — how a run ends that may go as deep as it needs

    The bound on the depth of a run is there to make it finite.  An action that ends in one way
    under every bound from some depth on is said to end so, and the endings of the parts of a
    program make up the ending of the whole, rule by rule.

    * `Action.Ends`: how an action ends;
    * `Ends.bind`, `Ends.cut`, `Ends.eval`: endings in sequence, and of what is asked for;
    * `Ends.call`: a call ends with what its body gives, and leaves the stack as it was;
    * `Ends.interpret`: the run of a program ends as its body does. -/

namespace BraceScript

open Eval (perform)

variable {α β : Type}

namespace Action

/-- An action ends in one way, whatever the bound on the depth is, if it is enough. -/
def Ends (x : Action α) (m : Machine) (e : Ending α) : Prop :=
  ∃ enough, ∀ d, enough ≤ d → (x m).carryOut (perform d) = e

namespace Ends

variable {m m' : Machine}

/-! ## Sequences -/

/-- What asks for nothing needs no depth. -/
theorem lift {x : Eval α} {e : Ending α} (h : x m = e) : Ends (liftM x) m e :=
  ⟨0, fun _ _ => h⟩

theorem pure {a : α} : Ends (Pure.pure a) m (.ok a m) := ⟨0, fun _ _ => rfl⟩

/-- What is behind an action that completes begins where it ends. -/
theorem bind {x : Action α} {f : α → Action β} {a : α} {e : Ending β} (hx : Ends x m (.ok a m'))
    (hf : Ends (f a) m' e) : Ends (x >>= f) m e := by
  obtain ⟨D, hD⟩ := hx
  obtain ⟨D', hD'⟩ := hf
  refine ⟨max D D', fun d hd => ?_⟩
  show ((x m).bind f).carryOut (perform d) = e
  rw [Work.carryOut_bind, hD d (le_trans (le_max_left D D') hd)]
  exact hD' d (le_trans (le_max_right D D') hd)

/-- What is behind an action that does not complete is not run. -/
theorem cut {x : Action α} {f : α → Action β} {exit : Exit} (hx : Ends x m (.error exit m')) :
    Ends (x >>= f) m (.error exit m') := by
  obtain ⟨D, hD⟩ := hx
  refine ⟨D, fun d hd => ?_⟩
  show ((x m).bind f).carryOut (perform d) = .error exit m'
  rw [Work.carryOut_bind, hD d hd]

/-- A part that is asked for ends as it does by itself, one step deeper. -/
theorem eval {node : Node} {e : Ending Value} (h : Ends (evaluate node) m e) :
    Ends (Action.eval node) m e := by
  obtain ⟨D, hD⟩ := h
  refine ⟨D + 1, fun d hd => ?_⟩
  obtain ⟨d, rfl⟩ : ∃ d', d = d' + 1 := ⟨d - 1, by omega⟩
  rw [Work.carryOut_eval, perform_eval]
  exact hD d (by omega)

/-- A part that has found a record on the stack leaves one there. -/
theorem stack_ne_nil {node : Node} {v : Value} (h : Ends (Action.eval node) m (.ok v m'))
    (hm : m.stack ≠ []) : m'.stack ≠ [] := by
  obtain ⟨D, hD⟩ := h
  have hheaders := perform_headers D (.eval node) hm
  have hrun : perform D (.eval node) m = .ok v m' := hD D le_rfl
  rw [hrun] at hheaders
  exact Machine.stack_ne_nil (mt Machine.headers_eq_nil.mp hm) hheaders

/-! ## Expressions -/

theorem number {lexeme : String} {v : Value} (h : Eval.numberValue lexeme = .ok v) :
    Ends (Action.eval (.number lexeme)) m (.ok v m) := by
  refine eval (lift ?_)
  rw [h]
  rfl

/-- A variable is read from the top record. -/
theorem name {r : Record} {rest : CallStack} {name : String} {n : Int} (hs : m.stack = r :: rest)
    (h : r.get? name = some (.int n)) :
    Ends (Action.eval (.identifier name)) m (.ok (.int n) m) := by
  refine eval (lift ?_)
  show EStateM.bind Eval.top _ m = _
  rw [EStateM.bind, Eval.top_cons hs]
  simp only [h]
  rfl

theorem binary {left right : Node} {operator : String} {v w u : Value} {m₁ m₂ : Machine}
    (hleft : Ends (Action.eval left) m (.ok v m₁)) (hright : Ends (Action.eval right) m₁ (.ok w m₂))
    (h : v.binaryBy operator w = .ok u) :
    Ends (Action.eval (.binary left operator right)) m (.ok u m₂) := by
  refine eval (hleft.bind (hright.bind (lift ?_)))
  rw [h]
  rfl

/-- A comparison is a condition. -/
theorem comparison {left right : Node} {comparator : String} {v w : Value} {b : Bool}
    {m₁ m₂ : Machine} (hleft : Ends (Action.eval left) m (.ok v m₁))
    (hright : Ends (Action.eval right) m₁ (.ok w m₂)) (h : v.compareBy comparator w = .ok b) :
    Ends (condition (.comparison left comparator right)) m (.ok b m₂) := by
  have hvalue : Ends (Action.eval (.comparison left comparator right)) m (.ok (.bool b) m₂) := by
    refine eval (hleft.bind (hright.bind (bind (lift ?_) pure)))
    rw [h]
    rfl
  exact hvalue.bind pure

/-- A function that is called with one argument gives what its body gives, and its record is taken
    from the stack again. -/
theorem call {name : String} {argument : Node} {f : Function} {v w : Value} {m₁ m₂ : Machine}
    {caller r : Record} {rest rest' : CallStack} (hfound : m.functions.get? name = some f)
    (hargument : Ends (Action.eval argument) m (.ok v m₁)) (hcaller : m₁.stack = caller :: rest)
    (hbody : Ends (Action.eval f.body) (m₁.called .function f.toRoutine [v] caller)
      (.ok (.given w) m₂))
    (hpop : m₂.stack = r :: rest') (hw : Eval.functionResult f.name (.given w) = .ok w) :
    Ends (Action.eval (.functionCall (.identifier name) [argument])) m
      (.ok w { m₂ with stack := rest', history := .popped r :: m₂.history }) := by
  have hfind : Eval.findFunction name m = .ok (some f) m := by rw [Eval.findFunction, hfound]
  have hvalues : Ends (evalAll [argument]) m (.ok [v] m₁) := hargument.bind (bind pure pure)
  have henter : Eval.enterCall .function (some f.toRoutine) [v] m₁ =
      .ok f.toRoutine (m₁.called .function f.toRoutine [v] caller) := by
    rw [Eval.enterCall_cons hcaller, Machine.called, hcaller]
  have hrun : Ends (runBody f.body) (m₁.called .function f.toRoutine [v] caller)
      (.ok (.given w) { m₂ with stack := rest', history := .popped r :: m₂.history }) :=
    hbody.bind (bind (lift (Eval.pop_cons hpop)) pure)
  refine eval (bind (lift rfl) (bind (lift hfind) (hvalues.bind (bind (lift henter) ?_))))
  refine hrun.bind (lift ?_)
  rw [hw]
  rfl

/-! ## Statements -/

/-- A statement that gives ends its block. -/
theorem block_given {statement : Node} {rest : List Node} {v : Value}
    (h : Ends (Action.eval statement) m (.ok (.given v) m')) :
    Ends (block (statement :: rest)) m (.ok (.given v) m') := h.bind pure

/-- A statement that does not complete ends its block too. -/
theorem block_cut {statement : Node} {rest : List Node} {exit : Exit}
    (h : Ends (Action.eval statement) m (.error exit m')) :
    Ends (block (statement :: rest)) m (.error exit m') := h.cut

/-- A statement that completes is followed by the next one. -/
theorem block_next {statement : Node} {rest : List Node} {e : Ending Value}
    (h : Ends (Action.eval statement) m (.ok .nothing m')) (hrest : Ends (block rest) m' e) :
    Ends (block (statement :: rest)) m e := h.bind hrest

theorem give {value : Node} {v : Value} (hvalue : value.isAbsent = false)
    (h : Ends (Action.eval value) m (.ok v m')) :
    Ends (Action.eval (.give value)) m (.ok (.given v) m') := by
  refine eval ?_
  show Ends (if value.isAbsent then _ else _) m _
  rw [hvalue]
  exact h.bind pure

theorem ifTrue {test body alternative : Node} {elifs : List Node} {e : Ending Value}
    (htest : Ends (condition test) m (.ok true m')) (hbody : Ends (Action.eval body) m' e) :
    Ends (Action.eval (.ifElse test body elifs alternative)) m e := eval (htest.bind hbody)

/-- Without another branch nothing is done where a condition does not hold. -/
theorem ifFalse {test body : Node} (htest : Ends (condition test) m (.ok false m')) :
    Ends (Action.eval (.ifElse test body [] .absent)) m (.ok .nothing m') :=
  eval (htest.bind pure)

/-- A variable that is declared with a value is set in the top record. -/
theorem declare {type : Node} {name : String} {value : Node} {v : Value} {m₁ : Machine} {r : Record}
    (hs : m.stack = [r]) (hvalue : Ends (Action.eval value) m (.ok v m₁)) (hs₁ : m₁.stack = [r]) :
    Ends (Action.eval (.variableDecl type [.identifier name] [value])) m
      (.ok .nothing { m₁ with stack := [r.set name v] }) := by
  have hset : Eval.setAt 1 name v m₁ = .ok () { m₁ with stack := [r.set name v] } := by
    show EStateM.Result.ok () { m₁ with stack := m₁.stack.setAt 1 name v } = _
    rw [hs₁]
    rfl
  have hvariables : Ends (setVariables 1 type [.identifier name] [value]) m
      (.ok () { m₁ with stack := [r.set name v] }) :=
    hvalue.bind (bind (lift rfl) (bind (lift hset) (lift rfl)))
  exact eval (bind (lift (Eval.topHeight_cons hs)) (hvariables.bind pure))

/-- A variable that is assigned to is set in the top record. -/
theorem assign {name : String} {value : Node} {v : Value} {m₁ : Machine} {r : Record}
    {rest : CallStack} (hvalue : Ends (Action.eval value) m (.ok v m₁))
    (hs₁ : m₁.stack = r :: rest) :
    Ends (Action.eval (.assignment (.identifier name) value)) m
      (.ok .nothing { m₁ with stack := r.set name v :: rest }) := by
  have hset : Eval.setTop name v m₁ = .ok () { m₁ with stack := r.set name v :: rest } := by
    rw [Eval.setTop, hs₁]
  refine eval (hvalue.bind (bind (lift (Eval.top_cons hs₁)) ?_))
  exact bind (lift rfl) (bind (lift hset) pure)

/-- A value that can be written is shown. -/
theorem display {value : Node} {v : Value} {line : String}
    (hvalue : Ends (Action.eval value) m (.ok v m')) (hline : v.text? = .ok line) :
    Ends (Action.eval (.display value)) m
      (.ok .nothing { m' with history := .shown line :: m'.history }) := by
  have hshown : Eval.display v m' = .ok () { m' with history := .shown line :: m'.history } := by
    rw [Eval.display, hline]
    rfl
  exact eval (hvalue.bind (bind (lift hshown) pure))

theorem display_cut {value : Node} {v : Value} {f : Fault}
    (hvalue : Ends (Action.eval value) m (.ok v m')) (hline : v.text? = .error f) :
    Ends (Action.eval (.display value)) m (.error (.fault f) m') := by
  have hshown : Eval.display v m' = .error (.fault f) m' := by
    rw [Eval.display, hline]
    rfl
  exact eval (hvalue.bind (cut (lift hshown)))

/-! ## Programs -/

/-- A program whose body completes ends with the record of the program taken from the stack. -/
theorem interpret {body : Node} {v : Value} {m : Machine} {r : Record} {rest : CallStack}
    (h : Ends (Action.eval body) Machine.started (.ok v m)) (hs : m.stack = r :: rest) :
    ∃ enough, ∀ d, enough ≤ d → BraceScript.interpret d (.program body) =
      ⟨none, { m with stack := rest, history := .popped r :: m.history }⟩ := by
  have hbody : Ends (runBody body) Machine.started
      (.ok v { m with stack := rest, history := .popped r :: m.history }) :=
    h.bind (bind (lift (Eval.pop_cons hs)) pure)
  obtain ⟨D, hD⟩ := hbody
  refine ⟨D + 1, fun d hd => ?_⟩
  obtain ⟨d, rfl⟩ : ∃ d', d = d' + 1 := ⟨d - 1, by omega⟩
  rw [interpret_program, hD d (by omega)]

/-- A program whose body does not complete ends as that does. -/
theorem interpret_cut {body : Node} {exit : Exit} {m : Machine}
    (h : Ends (Action.eval body) Machine.started (.error exit m)) :
    ∃ enough, ∀ d, enough ≤ d → BraceScript.interpret d (.program body) = ⟨some exit, m⟩ := by
  have hbody : Ends (runBody body) Machine.started (.error exit m) := h.cut
  obtain ⟨D, hD⟩ := hbody
  refine ⟨D + 1, fun d hd => ?_⟩
  obtain ⟨d, rfl⟩ : ∃ d', d = d' + 1 := ⟨d - 1, by omega⟩
  rw [interpret_program, hD d (by omega)]

end Ends

end Action

end BraceScript
