import Mathlib
import BraceScript.Program
import BraceScript.Proofs.Shapes
import BraceScript.Proofs.Steps

/-! # Safety — programs do not meet the failures of the interpreter itself

    The interpreter has failures that are not errors of a program: a part that it does not handle,
    an operator or a type that it does not know, a condition that is not a truth value, a key or an
    item that is not there.  Whatever is parsed runs without them, analyzed or not, since the trees
    of programs are `Shaped` and a run computes with plain values only.

    * `Machine.Sound`: every variable is plain, and every routine has the shape of one;
    * `Contract.sound`: a phrase comes to a value of its kind, and fails as programs may;
    * `parsed_programs_safe`: no run of a parsed program ends in an internal failure. -/

namespace BraceScript

open Eval (perform)

variable {α β : Type}

/-! ## Internal failures -/

namespace Fault

/-- A failure of the interpreter itself: a part that is not handled, a key or an item that is not
    there, or an operation that the language does not have. -/
def isInternal : Fault → Bool
  | .unhandled _ _ => true
  | .noDefault _ | .template (.missingKey _) => true
  | .noRecord | .nothingToPop | .noValue => true
  | f => f.coded?.any fun coded => coded.1 = .invalidOperation

/-- No internal failure, but perhaps that of an empty call stack. -/
def IsFair (f : Fault) : Prop := f.isInternal = true → f.IsUnderflow

theorem OfReckoning.fair {f : Fault} (h : f.OfReckoning) : f.IsFair := by
  intro hinternal
  cases f with
  | template fault =>
      cases fault with
      | missingKey _ => exact absurd trivial h
      | _ => cases hinternal
  | noRecord | nothingToPop => exact trivial
  | unhandled _ _ | noDefault _ | noValue | unknownBinary _ | unknownUnary _ | unknownLogical _
  | unknownNegation _ | unknownComparison _ | notBoolean _ => exact h.elim
  | _ => cases hinternal

theorem OfTree.fair {f : Fault} (h : f.OfTree) : f.IsFair := by
  cases f with
  | noPart _ _ => exact fun hinternal => by cases hinternal
  | _ => exact h.elim

end Fault

/-- A step that does not complete fails as programs may. -/
def Exit.IsFair : Exit → Prop
  | .fault f => f.IsFair
  | _ => True

/-! ## Sound machines -/

/-- Every variable has a plain value. -/
def Record.Plain (r : Record) : Prop := ∀ name v, r.get? name = some v → v.IsPlain

namespace Record.Plain

theorem make (name : String) (kind : RecordKind) (level : Int) :
    (Record.make name kind level).Plain :=
  fun _ _ h => by cases h

theorem set {r : Record} (h : r.Plain) (name : String) {v : Value} (hv : v.IsPlain) :
    (r.set name v).Plain := by
  intro key w hw
  rcases Table.get?_insert hw with ⟨-, rfl⟩ | hw
  · exact hv
  · exact h key w hw

theorem setAll {r : Record} (h : r.Plain) (names : List String) {values : List Value}
    (hvalues : ∀ v ∈ values, v.IsPlain) : (r.setAll names values).Plain := by
  induction names generalizing r values with
  | nil => exact h
  | cons name names ih =>
      cases values with
      | nil => exact h
      | cons v values =>
          obtain ⟨hv, hvalues⟩ := List.forall_mem_cons.mp hvalues
          exact ih (h.set name hv) hvalues

/-- The record of a callee has the variables of the caller and the arguments. -/
theorem callee {caller : Record} (h : caller.Plain) (kind : RecordKind) (r : Routine)
    {values : List Value} (hvalues : ∀ v ∈ values, v.IsPlain) :
    (Eval.calleeRecord kind r values caller).Plain :=
  setAll (r := ⟨r.name, kind, caller.level + 1, caller.members⟩) h _ hvalues

end Record.Plain

theorem CallStack.plain_setAt (height : Nat) (name : String) {v : Value} (hv : v.IsPlain)
    {s : CallStack} (h : ∀ r ∈ s, r.Plain) : ∀ r ∈ s.setAt height name v, r.Plain := by
  induction s with
  | nil => exact h
  | cons r rest ih =>
      obtain ⟨hr, hrest⟩ := List.forall_mem_cons.mp h
      rw [CallStack.setAt]
      split
      · exact List.forall_mem_cons.mpr ⟨hr.set name hv, hrest⟩
      · exact List.forall_mem_cons.mpr ⟨hr, ih hrest⟩

/-- What a run of a shaped tree can have made of a machine. -/
structure Machine.Sound (m : Machine) : Prop where
  records : ∀ r ∈ m.stack, r.Plain
  functions : ∀ name f, m.functions.get? name = some f → Shaped .block f.body
  procedures : ∀ name p, m.procedures.get? name = some p → Shaped .block p.body

namespace Machine.Sound

variable {m : Machine}

theorem initial : Machine.initial.Sound where
  records _ hr := by cases hr
  functions _ _ hf := by cases hf
  procedures _ _ hp := by cases hp

/-- The records of a stack that was sound are replaced by others. -/
theorem withStack (h : m.Sound) {stack : CallStack} (hstack : ∀ r ∈ stack, r.Plain)
    (history : List Event) : Machine.Sound { m with stack := stack, history := history } :=
  ⟨hstack, h.functions, h.procedures⟩

theorem setAt (h : m.Sound) (height : Nat) (name : String) {v : Value} (hv : v.IsPlain) :
    Machine.Sound { m with stack := m.stack.setAt height name v } :=
  h.withStack (CallStack.plain_setAt height name hv h.records) m.history

end Machine.Sound

/-! ## What phrases come to -/

/-- What statements come to: nothing, or something given. -/
def Value.IsOutcome (v : Value) : Prop :=
  v = .nothing ∨ ∃ w, v = .given w ∧ (w = .nothing ∨ w.IsPlain)

/-- A truth value. -/
def Value.IsTruth (v : Value) : Prop := ∃ b, v = .bool b

/-- What a phrase comes to, where it is run. -/
def Phrase.Results : Phrase → Value → Prop
  | .arithmetic, v | .value, v => v.IsPlain
  | .boolean, v => v.IsTruth
  | _, v => v.IsOutcome

/-- A task that runs a phrase. -/
inductive Task.Runs : Phrase → Task → Prop
  | arithmetic {node : Node} (h : Shaped .arithmetic node) : Task.Runs .arithmetic (.eval node)
  | boolean {node : Node} (h : Shaped .boolean node) : Task.Runs .boolean (.eval node)
  | value {node : Node} (h : Shaped .value node) : Task.Runs .value (.eval node)
  | statement {node : Node} (h : Shaped .statement node) : Task.Runs .statement (.eval node)
  | block {node : Node} (h : Shaped .block node) : Task.Runs .block (.eval node)
  | whileLoop {test body : Node} (htest : Shaped .boolean test) (hbody : Shaped .block body) :
      Task.Runs .statement (.whileLoop test body)
  | forLoop {body : Node} (height : Nat) (name : String) (last step : Value)
      (hbody : Shaped .block body) : Task.Runs .statement (.forLoop height name last step body)

/-- A step ends on a sound machine: with what `Q` says, or by failing as programs may. -/
def Ending.Sound (Q : α → Prop) : Ending α → Prop
  | .ok a m => m.Sound ∧ Q a
  | .error e m => m.Sound ∧ e.IsFair

/-- Phrases that run on a sound machine end on one, and come to values of their kind. -/
def Contract.sound : Contract Phrase where
  pre p task m := task.Runs p ∧ m.Sound
  post p _ _ e := Ending.Sound p.Results e

/-- An action comes to what `Q` says, if it is carried out on a sound machine. -/
abbrev ComesTo (Q : α → Prop) (x : Action α) : Prop :=
  ∀ m, m.Sound → Action.Meets Contract.sound x m (fun a after => after.Sound ∧ Q a)
    fun e after => after.Sound ∧ e.IsFair

namespace ComesTo

variable {Q : α → Prop} {R : β → Prop}

theorem pure {a : α} (h : Q a) : ComesTo Q (Pure.pure a) := fun _ hm => ⟨hm, h⟩

theorem fail {f : Fault} (h : f.IsFair) : ComesTo Q (liftM (Eval.fail f : Eval α) : Action α) :=
  fun _ hm => ⟨hm, h⟩

theorem bind {x : Action α} {f : α → Action β} (hx : ComesTo Q x)
    (hf : ∀ a, Q a → ComesTo R (f a)) : ComesTo R (x >>= f) := by
  intro m hm
  refine Action.Meets.bind ((hx m hm).mono ?_ fun _ _ h => h)
  intro a after hafter
  exact hf a hafter.2 after hafter.1

theorem mono {P : α → Prop} {x : Action α} (hx : ComesTo Q x) (h : ∀ a, Q a → P a) :
    ComesTo P x := by
  intro m hm
  exact (hx m hm).mono (fun a after hafter => ⟨hafter.1, h a hafter.2⟩) fun _ _ h => h

theorem ite {c : Prop} [Decidable c] {x y : Action α} (hx : ComesTo Q x) (hy : ComesTo Q y) :
    ComesTo Q (if c then x else y) := by
  split
  · exact hx
  · exact hy

/-- An outcome that may be a fault. -/
theorem attempt {F : Fault → Prop} {x : Except Fault α} (hx : Yields F Q x)
    (hF : ∀ f, F f → f.IsFair) : ComesTo Q (liftM (Eval.attempt x) : Action α) := by
  cases hx with
  | ok h => exact pure h
  | error h => exact fail (hF _ h)

theorem reckon {x : Except Fault α} (hx : Reckons Q x) :
    ComesTo Q (liftM (Eval.attempt x) : Action α) := attempt hx fun _ => Fault.OfReckoning.fair

theorem part {x : Except Fault α} (hx : Yields Fault.OfTree Q x) :
    ComesTo Q (liftM (Eval.attempt x) : Action α) := attempt hx fun _ => Fault.OfTree.fair

/-- A part of a tree that is known. -/
theorem known {x : Except Fault α} {a : α} {f : α → Action β} (hx : x = .ok a)
    (hf : ComesTo R (f a)) : ComesTo R (liftM (Eval.attempt x) >>= f) := by
  subst hx
  exact hf

theorem ask {p : Phrase} {task : Task} (h : task.Runs p) : ComesTo p.Results (Action.ask task) := by
  intro m hm
  refine Action.Meets.ask p ⟨h, hm⟩ ?_ ?_
  · exact fun d v after _ hpost => hpost
  · exact fun d e after _ hpost => hpost

/-! ### The machine -/

theorem top : ComesTo Record.Plain (liftM Eval.top : Action Record) := by
  intro m hm
  show (Work.ended (Eval.top m)).Meets _ _ _
  cases hs : m.stack with
  | nil =>
      rw [Eval.top_nil hs]
      exact ⟨hm, fun _ => trivial⟩
  | cons r rest =>
      rw [Eval.top_cons hs]
      exact ⟨hm, hm.records r (hs ▸ List.mem_cons_self)⟩

theorem topHeight : ComesTo (fun _ => True) (liftM Eval.topHeight : Action Nat) := by
  intro m hm
  show (Work.ended (Eval.topHeight m)).Meets _ _ _
  cases hs : m.stack with
  | nil =>
      rw [Eval.topHeight_nil hs]
      exact ⟨hm, fun _ => trivial⟩
  | cons r rest =>
      rw [Eval.topHeight_cons hs]
      exact ⟨hm, trivial⟩

theorem setAt (height : Nat) (name : String) {v : Value} (hv : v.IsPlain) :
    ComesTo (fun _ => True) (liftM (Eval.setAt height name v) : Action Unit) :=
  fun _ hm => ⟨hm.setAt height name hv, trivial⟩

theorem setTop (name : String) {v : Value} (hv : v.IsPlain) :
    ComesTo (fun _ => True) (liftM (Eval.setTop name v) : Action Unit) := by
  intro m hm
  show (Work.ended (Eval.setTop name v m)).Meets _ _ _
  cases hs : m.stack with
  | nil =>
      rw [Eval.setTop_nil hs]
      exact ⟨hm, fun _ => trivial⟩
  | cons r rest =>
      rw [Eval.setTop_cons hs]
      obtain ⟨hr, hrest⟩ := List.forall_mem_cons.mp (hs ▸ hm.records)
      exact ⟨hm.withStack (List.forall_mem_cons.mpr ⟨hr.set name hv, hrest⟩) m.history, trivial⟩

theorem valueOf (name : String) :
    ComesTo Value.IsPlain (liftM (Eval.valueOf name) : Action Value) := by
  unfold Eval.valueOf
  rw [Action.liftM_bind]
  refine top.bind fun r hr => ?_
  split
  · exact fail fun h => by cases h
  · exact fail fun h => by cases h
  · next hv => exact pure (hr name _ hv)

theorem requireReal {fault : String → Fault} (hf : ∀ s, (fault s).IsFair) (v : Value) :
    ComesTo (fun _ => True) (liftM (Eval.requireReal fault v) : Action Unit) := by
  unfold Eval.requireReal
  split
  · exact pure trivial
  · exact fail (hf _)

theorem loopVariable (height : Nat) (name : String) :
    ComesTo (fun _ => True) (liftM (Eval.loopVariable height name) : Action Value) := by
  unfold Eval.loopVariable
  rw [Action.liftM_bind]
  refine ComesTo.bind (Q := fun _ => True) (fun m hm => ⟨hm, trivial⟩) fun found _ => ?_
  split
  · split
    · exact pure trivial
    · exact fail fun h => by cases h
  · exact fail fun h => by cases h

theorem moveOn (height : Nat) (name : String) (current step : Value) :
    ComesTo (fun _ => True) (liftM (Eval.moveOn height name current step) : Action Unit) := by
  unfold Eval.moveOn
  rw [Action.liftM_bind]
  exact (reckon (current.measures_add step).reckons).bind fun v hv => setAt height name hv

/-! ### Parts of tasks -/

theorem eval_value {node : Node} (h : Shaped .value node) :
    ComesTo Value.IsPlain (Action.eval node) :=
  ask (.value h)

theorem eval_arithmetic {node : Node} (h : Shaped .arithmetic node) :
    ComesTo Value.IsPlain (Action.eval node) := ask (.arithmetic h)

theorem eval_block {node : Node} (h : Shaped .block node) :
    ComesTo Value.IsOutcome (Action.eval node) := ask (.block h)

/-- A condition is a truth value. -/
theorem condition {node : Node} (h : Shaped .boolean node) :
    ComesTo (fun _ => True) (Action.condition node) := by
  refine (ask (.boolean h)).bind fun v hv => ?_
  obtain ⟨b, rfl⟩ := hv
  exact pure trivial

theorem evalAll {nodes : List Node} (h : ∀ n ∈ nodes, Shaped .value n) :
    ComesTo (fun values => ∀ v ∈ values, v.IsPlain) (Action.evalAll nodes) := by
  induction nodes with
  | nil => exact pure fun v hv => by cases hv
  | cons node rest ih =>
      obtain ⟨hnode, hrest⟩ := List.forall_mem_cons.mp h
      rw [Action.evalAll]
      refine (eval_value hnode).bind fun v hv => (ih hrest).bind fun values hvalues => ?_
      exact pure (List.forall_mem_cons.mpr ⟨hv, hvalues⟩)

/-- Every type of the language has a default. -/
theorem yields_default {k : Kind} (hk : k.isType = true) :
    Yields Fault.OfTree Value.IsPlain (Eval.defaultValue k.text) := by
  cases k with
  | numberType | stringType | booleanType => exact .ok trivial
  | _ => cases hk

theorem setDefaults (height : Nat) {type : Node} (htype : Shaped .type type) (names : List Node) :
    ComesTo (fun _ => True) (liftM (Eval.setDefaults height type names) : Action Unit) := by
  induction names with
  | nil => exact pure trivial
  | cons name names ih =>
      cases htype with
      | type hk =>
          rw [Eval.setDefaults]
          simp only [Action.liftM_bind]
          refine known rfl ?_
          refine (part (yields_default hk)).bind fun v hv => ?_
          refine (part name.yields_namePart).bind fun name _ => ?_
          exact (setAt height name hv).bind fun _ _ => ih

theorem setVariables (height : Nat) {type : Node} (htype : Shaped .type type)
    {names values : List Node} (hvalues : ∀ v ∈ values, Shaped .value v) :
    ComesTo (fun _ => True) (Action.setVariables height type names values) := by
  induction values generalizing names with
  | nil =>
      rw [Action.setVariables]
      exact setDefaults height htype names
  | cons value values ih =>
      obtain ⟨hvalue, hvalues⟩ := List.forall_mem_cons.mp hvalues
      cases names with
      | nil => exact pure trivial
      | cons name names =>
          rw [Action.setVariables]
          refine (eval_value hvalue).bind fun v hv => ?_
          refine (part name.yields_namePart).bind fun spelled _ => ?_
          exact (setAt height spelled hv).bind fun _ _ => ih hvalues

/-- There is a value for every constant. -/
theorem setConstants (height : Nat) {names values : List Node}
    (hvalues : ∀ v ∈ values, Shaped .value v) (hlength : names.length = values.length) :
    ComesTo (fun _ => True) (Action.setConstants height names values) := by
  induction values generalizing names with
  | nil =>
      obtain rfl := List.length_eq_zero_iff.mp hlength
      exact pure trivial
  | cons value values ih =>
      obtain ⟨hvalue, hvalues⟩ := List.forall_mem_cons.mp hvalues
      cases names with
      | nil => cases hlength
      | cons name names =>
          rw [Action.setConstants]
          refine (eval_value hvalue).bind fun v hv => ?_
          refine (part name.yields_namePart).bind fun spelled _ => ?_
          exact (setAt height spelled hv).bind fun _ _ => ih hvalues (Nat.succ.inj hlength)

theorem block {statements : List Node} (h : ∀ s ∈ statements, Shaped .statement s) :
    ComesTo Value.IsOutcome (Action.block statements) := by
  induction statements with
  | nil => exact pure (.inl rfl)
  | cons statement rest ih =>
      obtain ⟨hstatement, hrest⟩ := List.forall_mem_cons.mp h
      rw [Action.block]
      refine (ask (.statement hstatement)).bind fun v hv => ?_
      split
      · exact pure hv
      · exact ih hrest

theorem branches {elifs : List Node} {alternative : Node} (helifs : ∀ e ∈ elifs, Shaped .elif e)
    (halternative : Shaped .alternative alternative) :
    ComesTo Value.IsOutcome (Action.branches elifs alternative) := by
  induction elifs with
  | nil =>
      cases halternative with
      | noAlternative => exact pure (.inl rfl)
      | otherwise hbody => exact known rfl (eval_block hbody)
  | cons branch rest ih =>
      obtain ⟨hbranch, hrest⟩ := List.forall_mem_cons.mp helifs
      cases hbranch with
      | elif htest hbody =>
          rw [Action.branches]
          refine known rfl ((condition htest).bind fun b _ => ite ?_ (ih hrest))
          exact known rfl (eval_block hbody)

/-- How a round of a loop ends: what it gave was given. -/
def RoundResults : Eval.Round → Prop
  | .gave v => v = .nothing ∨ v.IsPlain
  | _ => True

theorem whileRound {test body : Node} (htest : Shaped .boolean test) (hbody : Shaped .block body) :
    ComesTo RoundResults (Action.whileRound test body) := by
  unfold Action.whileRound
  refine (condition htest).bind fun b _ => ite ?_ (pure trivial)
  refine (eval_block hbody).bind fun v hv => ?_
  split
  · rcases hv with hv | ⟨w, hv, hw⟩
    · cases hv
    · cases hv
      exact pure hw
  · exact pure trivial

theorem forRound (height : Nat) (name : String) (last step : Value) {body : Node}
    (hbody : Shaped .block body) :
    ComesTo RoundResults (Action.forRound height name last step body) := by
  unfold Action.forRound
  refine (loopVariable height name).bind fun current _ => ?_
  refine (reckon (Eval.measures_isPast current last step).reckons).bind fun past _ => ?_
  refine ite (pure trivial) ?_
  refine (eval_block hbody).bind fun v hv => ?_
  split
  · rcases hv with hv | ⟨w, hv, hw⟩
    · cases hv
    · cases hv
      exact pure hw
  · exact (moveOn height name current step).bind fun _ _ => pure trivial

theorem stepValue (first last : Value) {step : Node} (hstep : Shaped .step step) :
    ComesTo (fun _ => True) (Action.stepValue first last step) := by
  unfold Action.stepValue
  cases hstep with
  | noStep =>
      rw [if_pos (show Node.absent.isAbsent = true from rfl)]
      exact (reckon (Eval.measures_impliedStep first last).reckons).mono fun _ _ => trivial
  | step h =>
      rw [(Shaped.ofArithmetic h).present]
      refine (eval_arithmetic h).bind fun v _ => ?_
      exact (requireReal (fun _ h => by cases h) v).bind fun _ _ => pure trivial

/-! ### Calls and declarations -/

theorem pop : ComesTo (fun _ => True) (liftM Eval.pop : Action Record) := by
  intro m hm
  show (Work.ended (Eval.pop m)).Meets _ _ _
  cases hs : m.stack with
  | nil =>
      rw [Eval.pop_nil hs]
      exact ⟨hm, fun _ => trivial⟩
  | cons r rest =>
      rw [Eval.pop_cons hs]
      exact ⟨hm.withStack (List.forall_mem_cons.mp (hs ▸ hm.records)).2 _, trivial⟩

theorem runBody {body : Node} (h : Shaped .block body) :
    ComesTo Value.IsOutcome (Action.runBody body) :=
  (eval_block h).bind fun _ hv => pop.bind fun _ _ => pure hv

theorem enterCall (kind : RecordKind) (callee : Option Routine) {values : List Value}
    (hvalues : ∀ v ∈ values, v.IsPlain) :
    ComesTo (fun r => callee = some r)
      (liftM (Eval.enterCall kind callee values) : Action Routine) := by
  intro m hm
  show (Work.ended (Eval.enterCall kind callee values m)).Meets _ _ _
  cases hs : m.stack with
  | nil =>
      simp only [Eval.enterCall, Bind.bind, EStateM.bind, Eval.top_nil hs]
      exact ⟨hm, fun _ => trivial⟩
  | cons r rest =>
      cases callee with
      | none =>
          simp only [Eval.enterCall, Bind.bind, EStateM.bind, Eval.top_cons hs]
          exact ⟨hm, fun h => by cases h⟩
      | some p =>
          rw [Eval.enterCall_cons hs, ← hs]
          have hr : r.Plain := hm.records r (hs ▸ List.mem_cons_self)
          refine ⟨hm.withStack ?_ _, rfl⟩
          exact List.forall_mem_cons.mpr ⟨hr.callee kind p hvalues, hm.records⟩

/-- A call, once its arguments have been evaluated. -/
theorem call {Q : Value → Prop} (kind : RecordKind) {callee : Option Routine} {values : List Value}
    (hcallee : ∀ p, callee = some p → Shaped .block p.body) (hvalues : ∀ v ∈ values, v.IsPlain)
    {result : String → Value → Except Fault Value}
    (hresult : ∀ name v, v.IsOutcome → Yields Fault.IsFair Q (result name v)) :
    ComesTo Q (do
      let r ← liftM (Eval.enterCall kind callee values)
      let outcome ← Action.runBody r.body
      liftM (Eval.attempt (result r.name outcome))) := by
  refine (enterCall kind callee hvalues).bind fun r hr => ?_
  refine (runBody (hcallee r hr)).bind fun outcome houtcome => ?_
  exact attempt (hresult r.name outcome houtcome) fun _ h => h

theorem functionResult (name : String) (v : Value) (hv : v.IsOutcome) :
    Yields Fault.IsFair Value.IsPlain (Eval.functionResult name v) := by
  rcases hv with rfl | ⟨w, rfl, rfl | hw⟩
  · exact .error fun h => by cases h
  · exact .error fun h => by cases h
  · cases w with
    | nothing => exact hw.elim
    | _ => exact .ok hw

theorem procedureResult (name : String) (v : Value) (hv : v.IsOutcome) :
    Yields Fault.IsFair Value.IsOutcome (Eval.procedureResult name v) := by
  rcases hv with rfl | ⟨w, rfl, rfl | hw⟩
  · exact .ok (.inl rfl)
  · exact .ok (.inl rfl)
  · cases w with
    | nothing => exact hw.elim
    | _ => exact .error fun h => by cases h

theorem functionCall (callee : Node) {arguments : List Node}
    (h : ∀ a ∈ arguments, Shaped .value a) :
    ComesTo Value.IsPlain (Action.evaluate (.functionCall callee arguments)) := by
  refine (part callee.yields_namePart).bind fun name _ m hm => ?_
  refine ComesTo.bind (evalAll h) (fun values hvalues => ?_) m hm
  refine call .function ?_ hvalues functionResult
  intro p hp
  obtain ⟨f, hf, rfl⟩ := Option.map_eq_some_iff.mp hp
  exact hm.functions name f hf

theorem procedureCall (callee : Node) {arguments : List Node}
    (h : ∀ a ∈ arguments, Shaped .value a) :
    ComesTo Value.IsOutcome (Action.evaluate (.procedureCall callee arguments)) := by
  refine (part callee.yields_namePart).bind fun name _ m hm => ?_
  refine ComesTo.bind (evalAll h) (fun values hvalues => ?_) m hm
  exact call .procedure (hm.procedures name) hvalues procedureResult

theorem functionDecl (name type : Node) (parameters : List Node) {body : Node}
    (hbody : Shaped .block body) :
    ComesTo Value.IsOutcome (Action.evaluate (.functionDecl name parameters type body)) := by
  refine (part (Parameter.yields_ofNodes parameters)).bind fun ps _ => ?_
  refine (part name.yields_namePart).bind fun spelled _ => ?_
  refine (part type.yields_namePart).bind fun spelledType _ m hm => ?_
  refine ⟨⟨hm.records, ?_, hm.procedures⟩, .inl rfl⟩
  intro key f hf
  rcases Table.get?_insert hf with ⟨-, rfl⟩ | hf
  · exact hbody
  · exact hm.functions key f hf

theorem procedureDecl (name : Node) (parameters : List Node) {body : Node}
    (hbody : Shaped .block body) :
    ComesTo Value.IsOutcome (Action.evaluate (.procedureDecl name parameters body)) := by
  refine (part (Parameter.yields_ofNodes parameters)).bind fun ps _ => ?_
  refine (part name.yields_namePart).bind fun spelled _ m hm => ?_
  refine ⟨⟨hm.records, hm.functions, ?_⟩, .inl rfl⟩
  intro key p hp
  rcases Table.get?_insert hp with ⟨-, rfl⟩ | hp
  · exact hbody
  · exact hm.procedures key p hp

theorem display (v : Value) : ComesTo (fun _ => True) (liftM (Eval.display v) : Action Unit) := by
  unfold Eval.display
  rw [Action.liftM_bind]
  refine (reckon v.measures_text.reckons).bind fun line _ m hm => ⟨?_, trivial⟩
  exact hm.withStack hm.records _

/-! ### Phrases -/

theorem arithmetic {node : Node} (h : Shaped .arithmetic node) :
    ComesTo Value.IsPlain (Action.evaluate node) := by
  cases h with
  | identifier h =>
      cases h
      exact valueOf _
  | @number lexeme _ => exact reckon (Eval.measures_numberValue lexeme).reckons
  | string _ => exact pure trivial
  | functionCall _ harguments => exact functionCall _ harguments
  | binary hk hleft hright =>
      refine (eval_arithmetic hleft).bind fun v _ => (eval_arithmetic hright).bind fun w hw => ?_
      exact reckon (Value.reckons_binaryBy hk v hw)
  | unary hk hoperand =>
      exact (eval_arithmetic hoperand).bind fun v _ =>
        reckon (Value.measures_unaryBy hk v).reckons

theorem logical {left right : Node} {k : Kind} (hk : k.isLogical = true)
    (hleft : Shaped .boolean left) (hright : Shaped .boolean right) :
    ComesTo Value.IsTruth (Action.evaluate (.logical left k.text right)) := by
  have hpure : ∀ b : Bool, ComesTo Value.IsTruth (Pure.pure (.bool b)) := fun b => pure ⟨b, rfl⟩
  have hsecond := (condition hright).bind fun b _ => hpure b
  cases k with
  | andWord => exact (condition hleft).bind fun b _ => ite hsecond (hpure false)
  | orWord => exact (condition hleft).bind fun b _ => ite (hpure true) hsecond
  | _ => cases hk

theorem boolean {node : Node} (h : Shaped .boolean node) :
    ComesTo Value.IsTruth (Action.evaluate node) := by
  cases h with
  | boolean _ => exact pure ⟨_, rfl⟩
  | logical hk hleft hright => exact logical hk hleft hright
  | negation hoperand => exact (condition hoperand).bind fun b _ => pure ⟨!b, rfl⟩
  | comparison hk hleft hright _ =>
      refine (eval_arithmetic hleft).bind fun v _ => (eval_arithmetic hright).bind fun w _ => ?_
      exact (reckon (Value.measures_compareBy hk v w).reckons).bind fun b _ => pure ⟨b, rfl⟩
  | truth h _ => exact (eval_arithmetic h).bind fun v _ => pure ⟨v.truth, rfl⟩

theorem give {value : Node} (h : Shaped .value value) :
    ComesTo Value.IsOutcome (Action.evaluate (.give value)) := by
  rw [Action.evaluate, h.present]
  exact (eval_value h).bind fun v hv => pure (.inr ⟨v, rfl, .inr hv⟩)

theorem assignment (target : Node) {value : Node} (h : Shaped .value value) :
    ComesTo Value.IsOutcome (Action.evaluate (.assignment target value)) := by
  refine (eval_value h).bind fun v hv => top.bind fun _ _ => ?_
  refine (part target.yields_namePart).bind fun name _ => ?_
  exact (setTop name hv).bind fun _ _ => pure (.inl rfl)

theorem forLoop {target value termination step body : Node} (htarget : Shaped .name target)
    (hvalue : Shaped .value value) (htermination : Shaped .arithmetic termination)
    (hstep : Shaped .step step) (hbody : Shaped .block body) :
    ComesTo Value.IsOutcome
      (Action.evaluate (.forLoop (.assignment target value) termination step body)) := by
  refine known rfl ((eval_value hvalue).bind fun first _ => ?_)
  refine (requireReal (fun _ h => by cases h) first).bind fun _ _ => ?_
  refine (eval_arithmetic htermination).bind fun last _ => ?_
  refine (requireReal (fun _ h => by cases h) last).bind fun _ _ => ?_
  refine (stepValue first last hstep).bind fun step _ => ?_
  refine (ask (.statement (.assignment htarget hvalue))).bind fun _ _ => ?_
  refine topHeight.bind fun height _ => known rfl ?_
  refine (part target.yields_namePart).bind fun name _ => ?_
  exact ask (.forLoop height name last step hbody)

theorem statement {node : Node} (h : Shaped .statement node) :
    ComesTo Value.IsOutcome (Action.evaluate node) := by
  cases h with
  | variableDecl htype _ _ hvalues _ =>
      refine topHeight.bind fun height _ => ?_
      exact (setVariables height htype hvalues).bind fun _ _ => pure (.inl rfl)
  | constantDecl _ _ _ hvalues hlength =>
      refine topHeight.bind fun height _ => ?_
      exact (setConstants height hvalues hlength).bind fun _ _ => pure (.inl rfl)
  | assignment _ hvalue => exact assignment _ hvalue
  | giveNothing => exact pure (.inr ⟨_, rfl, .inl rfl⟩)
  | give h => exact give h
  | display h =>
      exact (eval_value h).bind fun v _ => (display v).bind fun _ _ => pure (.inl rfl)
  | functionDecl _ _ _ hbody => exact functionDecl _ _ _ hbody
  | procedureDecl _ _ hbody => exact procedureDecl _ _ hbody
  | procedureCall _ harguments => exact procedureCall _ harguments
  | ifElse htest hbody helifs halternative =>
      exact (condition htest).bind fun b _ => ite (eval_block hbody) (branches helifs halternative)
  | whileLoop htest hbody => exact ask (.whileLoop htest hbody)
  | forLoop htarget hvalue htermination hstep hbody =>
      exact forLoop htarget hvalue htermination hstep hbody
  | skip => exact fun _ hm => ⟨hm, trivial⟩
  | stop => exact fun _ hm => ⟨hm, trivial⟩

theorem value {node : Node} (h : Shaped .value node) :
    ComesTo Value.IsPlain (Action.evaluate node) := by
  cases h with
  | ofArithmetic h => exact arithmetic h
  | ofBoolean h _ =>
      refine (boolean h).mono fun v hv => ?_
      obtain ⟨b, rfl⟩ := hv
      exact trivial

end ComesTo

/-! ## Runs -/

namespace Contract

variable {p : Phrase} {m after : Machine}

/-- A part owes what its own work comes to. -/
theorem sound_eval {node : Node} (h : ComesTo p.Results (Action.evaluate node)) (hm : m.Sound) :
    (Action.step (.eval node) m).Meets sound (sound.owed p (.eval node) m)
      fun e after => sound.post p (.eval node) m (.error e after) :=
  Action.Meets.bind ((h m hm).mono (fun _ _ hafter => hafter) fun _ _ hafter => hafter)

/-- A loop goes on as it began. -/
theorem sound_again {task : Task} (h : task.Runs p) (hafter : after.Sound) :
    sound.owed p task m (.task task) after := ⟨p, ⟨h, hafter⟩, fun _ hpost => hpost⟩

theorem sound_kept : sound.Kept where
  exhausted p task m hpre := ⟨hpre.2, trivial⟩
  step p task m hpre := by
    obtain ⟨hruns, hm⟩ := hpre
    cases hruns with
    | arithmetic h => exact sound_eval (p := .arithmetic) (.arithmetic h) hm
    | boolean h => exact sound_eval (p := .boolean) (.boolean h) hm
    | value h => exact sound_eval (p := .value) (.value h) hm
    | statement h => exact sound_eval (p := .statement) (.statement h) hm
    | block h =>
        cases h with
        | block h => exact sound_eval (p := .block) (.block h) hm
    | whileLoop htest hbody =>
        have hround := ComesTo.whileRound htest hbody m hm
        refine Action.Meets.bind (Action.Meets.caught (hround.mono ?_ ?_))
        · intro round after hafter
          cases round with
          | finished => exact ⟨hafter.1, .inl rfl⟩
          | gave v => exact ⟨hafter.1, .inr ⟨v, rfl, hafter.2⟩⟩
          | again => exact sound_again (.whileLoop htest hbody) hafter.1
        · intro e after hafter
          cases e with
          | skip => exact sound_again (.whileLoop htest hbody) hafter.1
          | stop => exact ⟨hafter.1, .inl rfl⟩
          | fault _ | exhausted => exact hafter
    | forLoop height name last step hbody =>
        have hround := ComesTo.forRound height name last step hbody m hm
        refine Action.Meets.bind (Action.Meets.caught (hround.mono ?_ ?_))
        · intro round after hafter
          cases round with
          | finished => exact ⟨hafter.1, .inl rfl⟩
          | gave v => exact ⟨hafter.1, .inr ⟨v, rfl, hafter.2⟩⟩
          | again => exact sound_again (.forLoop height name last step hbody) hafter.1
        · intro e after hafter
          cases e with
          | skip =>
              -- behind a skip the loop variable is moved on outside of the round
              have hread := ComesTo.loopVariable height name after hafter.1
              refine Action.Meets.bind (hread.mono (fun current after hafter => ?_) fun _ _ h => h)
              have hmove := ComesTo.moveOn height name current step after hafter.1
              refine Action.Meets.bind (hmove.mono (fun _ after hafter => ?_) fun _ _ h => h)
              exact sound_again (.forLoop height name last step hbody) hafter.1
          | stop => exact ⟨hafter.1, .inl rfl⟩
          | fault _ | exhausted => exact hafter

end Contract

theorem Machine.Sound.started : Machine.started.Sound :=
  Machine.Sound.initial.withStack (List.forall_mem_singleton.mpr (.make _ _ _)) _

/-- A run of a phrase on a stack with records fails only as programs may. -/
theorem perform_not_internal {p : Phrase} {task : Task} {m after : Machine} {d : Nat} {f : Fault}
    (hruns : task.Runs p) (hm : m.Sound) (hstack : m.stack ≠ [])
    (hrun : perform d task m = .error (.fault f) after) : f.isInternal = false := by
  have hend := Contract.fulfilled Contract.sound_kept d p task m ⟨hruns, hm⟩
  rw [hrun] at hend
  have hfair : f.IsFair := hend.2
  refine Bool.eq_false_iff.mpr fun hinternal => ?_
  exact perform_not_underflow hstack hrun (hfair hinternal)

theorem interpret_not_internal {body : Node} (hbody : Shaped .block body) {depth : Nat} {f : Fault}
    (h : (interpret depth (.program body)).exit = some (.fault f)) : f.isInternal = false := by
  rcases exit_program h with hexhausted | ⟨d, after, hrun⟩
  · cases hexhausted
  · exact perform_not_internal (.block hbody) .started Machine.started_ne_nil hrun

theorem visits_not_internal {body : Node} (hbody : Shaped .block body) {depth : Nat} {v : Visit}
    (hv : v ∈ visits depth (.eval (.program body)) Machine.initial) {f : Fault} {after : Machine}
    (h : v.outcome = .error (.fault f) after) : f.isInternal = false := by
  cases depth with
  | zero =>
      obtain rfl := List.mem_singleton.mp hv
      cases h
  | succ d =>
      rw [visits_program] at hv
      rcases List.mem_cons.mp hv with rfl | hv
      · have hexit : (interpret (d + 1) (.program body)).exit = some (.fault f) := by
          rw [interpret, show Eval.eval (d + 1) (.program body) Machine.initial = _ from h]
        exact interpret_not_internal hbody hexit
      -- the record of the program lies under whatever the run of its body comes to
      · obtain ⟨p, hruns, hm⟩ :=
          Contract.visited Contract.sound_kept d .block _ _ ⟨.block hbody, .started⟩ v hv
        have hheaders := visits_headers d _ Machine.started_ne_nil v hv
        refine perform_not_internal hruns hm ?_ h
        exact Machine.stack_ne_nil (mt Machine.headers_eq_nil.mp Machine.started_ne_nil) hheaders

/-- No run of a parsed program ends in a failure of the interpreter itself, nor does any part of
    such a run; whether the program was analyzed before makes no difference. -/
theorem parsed_programs_safe {source : String} {tree : Node} (h : parse source = .ok tree) :
    (∀ depth f, (interpret depth tree).exit = some (.fault f) → f.isInternal = false) ∧
    (∀ depth, ∀ v ∈ visits depth (.eval tree) Machine.initial, ∀ f after,
      v.outcome = .error (.fault f) after → f.isInternal = false) ∧
    ∀ analyzed run f, Program.run analyzed source = .ran run → run.exit = some (.fault f) →
      f.isInternal = false := by
  cases parse_shaped h with
  | program hbody =>
      refine ⟨fun _ _ => interpret_not_internal hbody,
        fun _ _ hv _ _ => visits_not_internal hbody hv, ?_⟩
      intro analyzed run f hrun hf
      simp only [Program.run, h] at hrun
      split at hrun
      · cases hrun
      · cases hrun
        exact interpret_not_internal hbody hf

/-- A template of a loop takes a remainder by a variable that has its default: the run fails, for
    the reason that the program has given. -/
theorem parsed_programs_safe_in_loop :
    ∃ source tree, parse source = .ok tree ∧
      (interpret 12 tree).exit = some (.fault .moduloByZero) ∧
      Fault.moduloByZero.isInternal = false := by
  let test := Node.logical (.negation "not" (.truth (.identifier "b"))) "and" (.boolean "true")
  let body := Node.block [.display (.binary (.string "'x'") "%" (.identifier "b"))]
  let tree := Node.program (.block
    [.variableDecl (.typeName "boolean") [.identifier "b"] [], .whileLoop test body])
  have hparse : parse ("\x7b\nlet boolean b\nwhile not b and true \x7b\nshow 'x' % b\n\x7d\n\x7d") =
      .ok tree := by cbv
  have hexit : (interpret 12 tree).exit = some (.fault .moduloByZero) := by cbv
  exact ⟨_, tree, hparse, hexit, (parsed_programs_safe hparse).1 12 _ hexit⟩

end BraceScript
