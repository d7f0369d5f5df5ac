import BraceScript.Proofs.Steps

/-! # Relaying — where the faults of zero come from

    No task answers to a fault: what has asked for a run that ends with one ends with it as well.
    And no task has a fault of zero of its own, except an operation with its two operands.  So a run
    ends with a fault of zero exactly if it comes to an operation that has this fault.

    * `Work.Relays`: work that passes faults on, and has no fault of zero of its own;
    * `Action.Relays.evaluate`: all parts of programs but operations are such work;
    * `perform_ofZero_iff`: the runs that end with a fault of zero. -/

namespace BraceScript

open Eval (perform)

variable {α β : Type}

/-! ## Work that passes faults on -/

/-- An ending that is no fault of zero. -/
def Ending.Spared : Ending α → Prop
  | .error (.fault f) _ => ¬ f.OfZero
  | _ => True

namespace Work

/-- Work that ends, as it stands, with a fault of what it has asked for, and that ends with a fault
    of zero in no other way. -/
def Relays : Work α → Prop
  | .ended e => Ending.Spared e
  | .ask _ _ next =>
      (∀ f m, next (.error (.fault f) m) = .ended (.error (.fault f) m)) ∧
        ∀ answer, Ending.Spared answer → (next answer).Relays

theorem Relays.bind {w : Work α} {f : α → Action β} (hw : w.Relays)
    (hf : ∀ a m, (f a m).Relays) : (w.bind f).Relays := by
  induction w with
  | ended e =>
      cases e with
      | ok a m => exact hf a m
      | error e m =>
          cases e with
          | fault g => exact hw
          | _ => trivial
  | ask task m next ih =>
      refine ⟨fun g n => ?_, fun answer hanswer => ih answer (hw.2 answer hanswer)⟩
      show (next (.error (.fault g) n)).bind f = _
      rw [hw.1 g n]
      rfl

/-- Catching how work ends does no harm, if faults are passed on. -/
theorem Relays.caught_bind {w : Work α} {f : Except Exit α → Action β} (hw : w.Relays)
    (hfault : ∀ g m, f (.error (.fault g)) m = .ended (.error (.fault g) m))
    (hok : ∀ a m, (f (.ok a) m).Relays)
    (hexit : ∀ e m, (∀ g, e ≠ .fault g) → (f (.error e) m).Relays) : (w.caught.bind f).Relays := by
  induction w with
  | ended e =>
      cases e with
      | ok a m => exact hok a m
      | error e m =>
          cases e with
          | fault g =>
              show (f (.error (.fault g)) m).Relays
              rw [hfault]
              exact hw
          | skip | stop | exhausted => exact hexit _ m fun g h => by cases h
  | ask task m next ih =>
      refine ⟨fun g n => ?_, fun answer hanswer => ih answer (hw.2 answer hanswer)⟩
      show ((next (.error (.fault g) n)).caught).bind f = _
      rw [hw.1 g n]
      exact hfault g n

/-- Such work ends with a fault of zero exactly if something that it asks for does. -/
theorem Relays.carryOut_iff {w : Work α} (hw : w.Relays) {f : Fault} (hf : f.OfZero)
    (run : Task → Eval Value) :
    (∃ m, w.carryOut run = .error (.fault f) m) ↔
      ∃ p ∈ w.asked run, ∃ m, run p.1 p.2 = .error (.fault f) m := by
  induction w with
  | ended e =>
      constructor
      · rintro ⟨m, rfl⟩
        exact absurd hf hw
      · rintro ⟨p, hp, -⟩
        cases hp
  | ask task m next ih =>
      show (∃ n, (next (run task m)).carryOut run = .error (.fault f) n) ↔
        ∃ p ∈ (task, m) :: (next (run task m)).asked run, _
      by_cases hanswer : ∃ g n, run task m = .error (.fault g) n
      · -- the work ends here, with this fault
        obtain ⟨g, n, hrun⟩ := hanswer
        simp only [hrun, hw.1 g n, carryOut, asked, List.mem_singleton, exists_eq_left]
        constructor <;> rintro ⟨n', h⟩ <;> cases h <;> exact ⟨n, rfl⟩
      · have hspared : Ending.Spared (run task m) := by
          cases hrun : run task m with
          | ok v n => trivial
          | error e n =>
              cases e with
              | fault g => exact absurd ⟨g, n, hrun⟩ hanswer
              | skip | stop | exhausted => trivial
        rw [ih _ (hw.2 _ hspared)]
        constructor
        · rintro ⟨p, hp, hrun⟩
          exact ⟨p, List.mem_cons_of_mem _ hp, hrun⟩
        · rintro ⟨p, hp, n, hrun⟩
          rcases List.mem_cons.mp hp with rfl | hp
          · exact absurd ⟨f, n, hrun⟩ hanswer
          · exact ⟨p, hp, n, hrun⟩

end Work

/-! ## Steps without a fault of zero -/

theorem Fault.OfTree.not_ofZero {f : Fault} (h : f.OfTree) : ¬ f.OfZero := by
  cases f <;> first
    | exact fun h => h
    | exact absurd h fun h => h

/-- A step that ends with no fault of zero. -/
def Eval.Spared (x : Eval α) : Prop := ∀ m, Ending.Spared (x m)

namespace Eval.Spared

theorem pure {a : α} : Spared (Pure.pure a) := fun _ => trivial

theorem fail {f : Fault} (hf : ¬ f.OfZero) : Spared (Eval.fail f : Eval α) := fun _ => hf

theorem bind {x : Eval α} {f : α → Eval β} (hx : Spared x) (hf : ∀ a, Spared (f a)) :
    Spared (x >>= f) := by
  intro m
  have hfirst := hx m
  show Ending.Spared (EStateM.bind x f m)
  rw [EStateM.bind]
  cases hrun : x m with
  | ok a n => exact hf a n
  | error e n =>
      rw [hrun] at hfirst
      cases e with
      | fault g => exact hfirst
      | skip | stop | exhausted => trivial

theorem attempt {F : Fault → Prop} {Q : α → Prop} {x : Except Fault α} (hx : Yields F Q x)
    (hF : ∀ f, F f → ¬ f.OfZero) : Spared (Eval.attempt x) := by
  cases hx with
  | ok _ => exact pure
  | error h => exact fail (hF _ h)

/-- A part of the tree is looked at. -/
theorem part {Q : α → Prop} {x : Except Fault α} (hx : Yields Fault.OfTree Q x) :
    Spared (Eval.attempt x) := attempt hx fun _ => Fault.OfTree.not_ofZero

/-- A value is measured. -/
theorem measure {Q : α → Prop} {x : Except Fault α} (hx : Measures Q x) :
    Spared (Eval.attempt x) := attempt hx fun _ => Fault.OfMeasure.not_ofZero

theorem top : Spared Eval.top := by
  intro m
  cases hs : m.stack with
  | nil => rw [Eval.top_nil hs]; exact fun h => h
  | cons r rest => rw [Eval.top_cons hs]; trivial

theorem topHeight : Spared Eval.topHeight := top.bind fun _ => fun _ => trivial

theorem pop : Spared Eval.pop := by
  intro m
  cases hs : m.stack with
  | nil => rw [Eval.pop_nil hs]; exact fun h => h
  | cons r rest => rw [Eval.pop_cons hs]; trivial

theorem setTop (name : String) (v : Value) : Spared (Eval.setTop name v) := by
  intro m
  cases hs : m.stack with
  | nil => rw [Eval.setTop_nil hs]; exact fun h => h
  | cons r rest => rw [Eval.setTop_cons hs]; trivial

theorem valueOf (name : String) : Spared (Eval.valueOf name) := by
  refine top.bind fun r => ?_
  split
  · exact fail fun h => h
  · exact fail fun h => h
  · exact pure

theorem requireReal (fault : String → Fault) (hf : ∀ s, ¬ (fault s).OfZero) (v : Value) :
    Spared (Eval.requireReal fault v) := by
  unfold Eval.requireReal
  split
  · exact pure
  · exact fail (hf _)

theorem loopVariable (height : Nat) (name : String) : Spared (Eval.loopVariable height name) := by
  refine bind (fun _ => trivial) fun found => ?_
  split
  · split
    · exact pure
    · exact fail fun h => h
  · exact fail fun h => h

theorem moveOn (height : Nat) (name : String) (current step : Value) :
    Spared (Eval.moveOn height name current step) :=
  (measure (current.measures_add step)).bind fun _ => fun _ => trivial

theorem display (v : Value) : Spared (Eval.display v) :=
  (measure v.measures_text).bind fun _ => fun _ => trivial

theorem setDefaults (height : Nat) (type : Node) (names : List Node) :
    Spared (Eval.setDefaults height type names) := by
  have hdefault : ∀ spelled, Yields (fun f => ¬ f.OfZero) (fun _ => True)
      (Eval.defaultValue spelled) := by
    intro spelled
    unfold Eval.defaultValue
    repeat' split
    all_goals first
      | exact .ok trivial
      | exact .error fun h => h
  induction names with
  | nil => exact pure
  | cons name names ih =>
      refine (part type.yields_namePart).bind fun spelled => ?_
      refine (attempt (hdefault spelled) fun _ hf => hf).bind fun v => ?_
      refine (part name.yields_namePart).bind fun spelled => ?_
      exact bind (fun _ => trivial) fun _ => ih

theorem enterCall (kind : RecordKind) (callee : Option Routine) (arguments : List Value) :
    Spared (Eval.enterCall kind callee arguments) := by
  refine top.bind fun caller => ?_
  cases callee with
  | none => exact fail fun h => h
  | some r => exact fun _ => trivial

theorem incomplete (lacking : Lacking) (parts : List Node) :
    Spared (Eval.incomplete lacking parts) := by
  cases lacking with
  | numberLexeme | stringLexeme => exact fail fun h => h
  | variableNames | constantNames => exact topHeight.bind fun _ => fail fun h => h
  | constantValues =>
      refine topHeight.bind fun _ => ?_
      split
      · exact pure
      · exact fail fun h => h

theorem functionResult (name : String) (outcome : Value) :
    Spared (Eval.attempt (Eval.functionResult name outcome)) := by
  unfold Eval.functionResult
  split
  · exact fail fun h => h
  · exact pure
  · exact fail fun h => h

theorem procedureResult (name : String) (outcome : Value) :
    Spared (Eval.attempt (Eval.procedureResult name outcome)) := by
  unfold Eval.procedureResult
  split
  · exact pure
  · exact fail fun h => h
  · exact pure

end Eval.Spared

/-! ## All tasks -/

namespace Action

/-- The work of an action relays, on every machine. -/
def Relays (x : Action α) : Prop := ∀ m, (x m).Relays

namespace Relays

theorem pure {a : α} : Relays (Pure.pure a) := fun _ => trivial

theorem lift {x : Eval α} (hx : x.Spared) : Relays (liftM x) := hx

theorem fail {f : Fault} (hf : ¬ f.OfZero) : Relays (liftM (Eval.fail f : Eval α)) :=
  lift (.fail hf)

theorem ask (task : Task) : Relays (Action.ask task) :=
  fun _ => ⟨fun _ _ => rfl, fun _ hanswer => hanswer⟩

theorem eval (node : Node) : Relays (Action.eval node) := ask (.eval node)

theorem bind {x : Action α} {f : α → Action β} (hx : Relays x) (hf : ∀ a, Relays (f a)) :
    Relays (x >>= f) := fun m => (hx m).bind hf

theorem ite {c : Prop} [Decidable c] {x y : Action α} (hx : Relays x) (hy : Relays y) :
    Relays (if c then x else y) := by
  split
  · exact hx
  · exact hy

/-- An action that asks for nothing comes first. -/
theorem behind {x : Eval α} {f : α → Action β} (hx : x.Spared) (hf : ∀ a, Relays (f a)) :
    Relays (liftM x >>= f) := (lift hx).bind hf

/-- A part is evaluated first. -/
theorem evaluating {node : Node} {f : Value → Action β} (hf : ∀ v, Relays (f v)) :
    Relays (Action.eval node >>= f) := (eval node).bind hf

/-- A part of the tree is looked at first. -/
theorem looking {Q : α → Prop} {x : Except Fault α} (hx : Yields Fault.OfTree Q x)
    {f : α → Action β} (hf : ∀ a, Relays (f a)) : Relays (liftM (Eval.attempt x) >>= f) :=
  behind (.part hx) hf

/-! ### Parts of tasks -/

theorem block (statements : List Node) : Relays (Action.block statements) := by
  induction statements with
  | nil => exact pure
  | cons statement rest ih =>
      refine evaluating fun v => ?_
      split
      · exact pure
      · exact ih

theorem evalAll (nodes : List Node) : Relays (Action.evalAll nodes) := by
  induction nodes with
  | nil => exact pure
  | cons node rest ih => exact evaluating fun v => ih.bind fun values => pure

theorem setVariables (height : Nat) (type : Node) (names values : List Node) :
    Relays (Action.setVariables height type names values) := by
  induction values generalizing names with
  | nil =>
      rw [Action.setVariables]
      exact lift (.setDefaults height type names)
  | cons value values ih =>
      cases names with
      | nil => exact pure
      | cons name names =>
          refine evaluating fun v => looking name.yields_namePart fun spelled => ?_
          exact behind (fun _ => trivial) fun _ => ih names

theorem setConstants (height : Nat) (names values : List Node) :
    Relays (Action.setConstants height names values) := by
  induction values generalizing names with
  | nil =>
      cases names with
      | nil => exact pure
      | cons name names => exact fail fun h => h
  | cons value values ih =>
      cases names with
      | nil => exact pure
      | cons name names =>
          refine evaluating fun v => looking name.yields_namePart fun spelled => ?_
          exact behind (fun _ => trivial) fun _ => ih names

theorem condition (node : Node) : Relays (Action.condition node) := by
  refine evaluating fun v => ?_
  split
  · exact pure
  · exact fail fun h => h

theorem branches (elifs : List Node) (alternative : Node) :
    Relays (Action.branches elifs alternative) := by
  induction elifs with
  | nil => exact ite pure (looking alternative.yields_blockPart fun body => eval body)
  | cons branch rest ih =>
      refine looking branch.yields_conditionPart fun test => (condition test).bind fun b => ?_
      exact ite (looking branch.yields_blockPart fun body => eval body) ih

theorem whileRound (test body : Node) : Relays (Action.whileRound test body) := by
  refine (condition test).bind fun b => ite (evaluating fun v => ?_) pure
  split <;> exact pure

theorem stepValue (first last : Value) (step : Node) :
    Relays (Action.stepValue first last step) := by
  refine ite (lift (.measure (Eval.measures_impliedStep first last))) (evaluating fun v => ?_)
  exact behind (.requireReal .badStep (fun _ h => h) v) fun _ => pure

theorem forRound (height : Nat) (name : String) (last step : Value) (body : Node) :
    Relays (Action.forRound height name last step body) := by
  refine behind (.loopVariable height name) fun current => ?_
  refine behind (.measure (Eval.measures_isPast current last step)) fun past => ?_
  refine ite pure (evaluating fun v => ?_)
  split
  · exact pure
  · exact behind (.moveOn height name current step) fun _ => pure

theorem runBody (body : Node) : Relays (Action.runBody body) :=
  evaluating fun _ => behind .pop fun _ => pure

/-! ### Tasks -/

/-- All parts but operations. -/
theorem evaluate {node : Node} (hnode : ∀ left operator right, node ≠ .binary left operator right) :
    Relays (Action.evaluate node) := by
  cases node with
  | absent | bare _ | typeName _ | elif _ _ | otherwise _ | parameter _ _ => exact fail fun h => h
  | incomplete lacking parts => exact lift (.incomplete lacking parts)
  | identifier name => exact lift (.valueOf name)
  | number lexeme => exact lift (.measure (Eval.measures_numberValue lexeme))
  | skip | stop => exact fun _ => trivial
  | string _ | boolean _ => exact pure
  | program body => exact behind (fun _ => trivial) fun _ => (runBody body).bind fun _ => pure
  | block statements => exact block statements
  | variableDecl type names values =>
      exact behind .topHeight fun height =>
        (setVariables height type names values).bind fun _ => pure
  | constantDecl type names values =>
      exact behind .topHeight fun height => (setConstants height names values).bind fun _ => pure
  | assignment target value =>
      refine evaluating fun v => behind .top fun _ => looking target.yields_namePart fun name => ?_
      exact behind (.setTop name v) fun _ => pure
  | give value => exact ite pure (evaluating fun _ => pure)
  | display value => exact evaluating fun v => behind (.display v) fun _ => pure
  | functionDecl name parameters type body =>
      refine looking (Parameter.yields_ofNodes parameters) fun ps => ?_
      refine looking name.yields_namePart fun spelled => looking type.yields_namePart fun _ => ?_
      exact behind (fun _ => trivial) fun _ => pure
  | procedureDecl name parameters body =>
      refine looking (Parameter.yields_ofNodes parameters) fun ps => ?_
      exact looking name.yields_namePart fun spelled => behind (fun _ => trivial) fun _ => pure
  | functionCall callee arguments =>
      refine looking callee.yields_namePart fun name => behind (fun _ => trivial) fun found => ?_
      refine (evalAll arguments).bind fun values => behind (.enterCall _ _ values) fun r => ?_
      exact (runBody r.body).bind fun outcome => lift (.functionResult r.name outcome)
  | procedureCall callee arguments =>
      refine looking callee.yields_namePart fun name => behind (fun _ => trivial) fun found => ?_
      refine (evalAll arguments).bind fun values => behind (.enterCall _ _ values) fun r => ?_
      exact (runBody r.body).bind fun outcome => lift (.procedureResult r.name outcome)
  | ifElse test body elifs alternative =>
      exact (condition test).bind fun _ => ite (eval body) (branches elifs alternative)
  | whileLoop test body => exact ask _
  | forLoop initial termination step body =>
      refine looking initial.yields_expressionPart fun value => evaluating fun first => ?_
      refine behind (.requireReal .badInitial (fun _ h => h) first) fun _ => ?_
      refine evaluating fun last => ?_
      refine behind (.requireReal .badTermination (fun _ h => h) last) fun _ => ?_
      refine (stepValue first last step).bind fun step => evaluating fun _ => ?_
      refine behind .topHeight fun height => looking initial.yields_identifierPart fun target => ?_
      exact looking target.yields_namePart fun name => ask _
  | binary left operator right => exact absurd rfl (hnode left operator right)
  | unary operator operand =>
      refine evaluating fun v => lift (.attempt (v.yields_unaryBy ?_ ?_) fun _ hf => hf)
      · exact fun _ => Fault.OfMeasure.not_ofZero
      · exact fun h => h
  | logical left operator right =>
      refine ite ?_ (ite ?_ (fail fun h => h))
      · exact (condition left).bind fun _ => ite ((condition right).bind fun _ => pure) pure
      · exact (condition left).bind fun _ => ite pure ((condition right).bind fun _ => pure)
  | negation operator operand =>
      exact (condition operand).bind fun _ => ite pure (fail fun h => h)
  | comparison left comparator right =>
      refine evaluating fun v => evaluating fun w => behind ?_ fun _ => pure
      refine .attempt (v.yields_compareBy ?_ ?_ w) fun _ hf => hf
      · exact fun _ => Fault.OfMeasure.not_ofZero
      · exact fun h => h
  | truth expression => exact evaluating fun _ => pure

end Relays

end Action

/-- Whether a task is an operation. -/
def Task.IsBinary : Task → Prop
  | .eval (.binary _ _ _) => True
  | _ => False

/-- The work of every task but an operation relays. -/
theorem step_relays {task : Task} (h : ¬ task.IsBinary) : Action.Relays (Action.step task) := by
  cases task with
  | eval node =>
      refine Action.Relays.bind (Action.Relays.evaluate ?_) fun _ => .pure
      rintro left operator right rfl
      exact h trivial
  | whileLoop test body =>
      intro m
      refine (Action.Relays.whileRound test body m).caught_bind (fun _ _ => rfl) ?_ ?_
      · intro round n
        cases round <;> trivial
      · intro e n he
        cases e with
        | fault g => exact absurd rfl (he g)
        | skip | stop | exhausted => trivial
  | forLoop height name last step body =>
      intro m
      refine (Action.Relays.forRound height name last step body m).caught_bind
        (fun _ _ => rfl) ?_ ?_
      · intro round n
        cases round <;> trivial
      · intro e n he
        cases e with
        | fault g => exact absurd rfl (he g)
        | skip =>
            refine Action.Relays.behind (.loopVariable height name) (fun current => ?_) n
            exact .behind (.moveOn height name current step) fun _ => .pure
        | stop | exhausted => trivial

/-! ## Operations -/

/-- A visit of an operation whose operands come to two values. -/
def Visit.Applies (u : Visit) (operator : String) (v w : Value) : Prop :=
  ∃ d left right m₁ m₂, u.depth = d + 1 ∧ u.task = .eval (.binary left operator right) ∧
    perform d (.eval left) u.machine = .ok v m₁ ∧ perform d (.eval right) m₁ = .ok w m₂

/-- A visit of an operation that has a fault, with the values that its operands come to. -/
def Visit.Faults (u : Visit) (f : Fault) : Prop :=
  ∃ operator v w, u.Applies operator v w ∧ v.binaryBy operator w = .error f

section

variable {d : Nat} {task : Task} {m : Machine} {f : Fault}

theorem Eval.attempt_eq_fault {x : Except Fault α} {n : Machine} :
    Eval.attempt x m = .error (.fault f) n ↔ x = .error f ∧ n = m := by
  cases x with
  | ok a =>
      constructor
      · intro h
        cases h
      · rintro ⟨h, -⟩
        cases h
  | error g =>
      constructor
      · intro h
        cases h
        exact ⟨rfl, rfl⟩
      · rintro ⟨h, rfl⟩
        cases h
        rfl

section

variable {left right : Node} {operator : String}

theorem faults_binary_iff : Visit.Faults ⟨d + 1, .eval (.binary left operator right), m⟩ f ↔
    ∃ v m₁, perform d (.eval left) m = .ok v m₁ ∧
      ∃ w m₂, perform d (.eval right) m₁ = .ok w m₂ ∧ v.binaryBy operator w = .error f := by
  constructor
  · rintro ⟨_, v, w, ⟨_, _, _, m₁, m₂, hd, htask, hleft, hright⟩, hfault⟩
    cases hd
    cases htask
    exact ⟨v, m₁, hleft, w, m₂, hright, hfault⟩
  · rintro ⟨v, m₁, hleft, w, m₂, hright, hfault⟩
    exact ⟨operator, v, w, ⟨d, left, right, m₁, m₂, rfl, rfl, hleft, hright⟩, hfault⟩

/-- An operation asks for its operands, for the second one if the first one completes. -/
theorem mem_asks_binary {a : Visit} :
    a ∈ Visit.asks ⟨d + 1, .eval (.binary left operator right), m⟩ ↔ a = ⟨d, .eval left, m⟩ ∨
      ∃ v m₁, perform d (.eval left) m = .ok v m₁ ∧ a = ⟨d, .eval right, m₁⟩ := by
  have hasked : ∀ p, p ∈ (Action.evaluate (.binary left operator right) m).asked (perform d) ↔
      p = (.eval left, m) ∨
        ∃ v m₁, perform d (.eval left) m = .ok v m₁ ∧ p = (.eval right, m₁) := by
    intro p
    refine Work.mem_asked_bind.trans (or_congr List.mem_singleton ?_)
    refine exists_congr fun v => exists_congr fun m₁ => and_congr_right fun _ => ?_
    refine Work.mem_asked_bind.trans ⟨?_, fun h => .inl (List.mem_singleton.mpr h)⟩
    rintro (h | ⟨w, m₂, -, h⟩)
    · exact List.mem_singleton.mp h
    · cases h
  rw [Visit.asks_eval, List.mem_map]
  constructor
  · rintro ⟨p, hp, rfl⟩
    rcases (hasked p).mp hp with rfl | ⟨v, m₁, hleft, rfl⟩
    · exact .inl rfl
    · exact .inr ⟨v, m₁, hleft, rfl⟩
  · rintro (rfl | ⟨v, m₁, hleft, rfl⟩)
    · exact ⟨_, (hasked _).mpr (.inl rfl), rfl⟩
    · exact ⟨_, (hasked _).mpr (.inr ⟨v, m₁, hleft, rfl⟩), rfl⟩

/-- An operation ends with a fault of its operands, or with its own. -/
theorem binary_fault_iff {n : Machine} :
    (Action.step (.eval (.binary left operator right)) m).carryOut (perform d) =
        .error (.fault f) n ↔
      perform d (.eval left) m = .error (.fault f) n ∨
      ∃ v m₁, perform d (.eval left) m = .ok v m₁ ∧
        (perform d (.eval right) m₁ = .error (.fault f) n ∨
        ∃ w m₂, perform d (.eval right) m₁ = .ok w m₂ ∧ v.binaryBy operator w = .error f ∧
          n = m₂) := by
  have hstep : (Action.step (.eval (.binary left operator right)) m).carryOut (perform d) =
      .error (.fault f) n ↔
        (Action.evaluate (.binary left operator right) m).carryOut (perform d) =
          .error (.fault f) n := by
    rw [step_eval]
    refine Work.carryOut_bind_eq_error.trans (or_iff_left ?_)
    rintro ⟨v, m', -, h⟩
    cases h
  refine hstep.trans (Work.carryOut_bind_eq_error.trans (or_congr Iff.rfl ?_))
  refine exists_congr fun v => exists_congr fun m₁ => and_congr_right fun _ => ?_
  refine Work.carryOut_bind_eq_error.trans (or_congr Iff.rfl ?_)
  exact exists_congr fun w => exists_congr fun m₂ => and_congr_right fun _ => Eval.attempt_eq_fault

end

/-- The work of a task ends with a fault of zero if something that it asks for does, or if it is an
    operation with this fault. -/
theorem step_fault_iff (hf : f.OfZero) :
    (∃ after, (Action.step task m).carryOut (perform d) = .error (.fault f) after) ↔
    (∃ a ∈ Visit.asks ⟨d + 1, task, m⟩, ∃ after, a.outcome = .error (.fault f) after) ∨
    Visit.Faults ⟨d + 1, task, m⟩ f := by
  by_cases htask : task.IsBinary
  · cases task with
    | eval node =>
        cases node with
        | binary left operator right =>
            simp only [binary_fault_iff, mem_asks_binary, faults_binary_iff]
            constructor
            · rintro ⟨n, hleft | ⟨v, m₁, hleft, hright | ⟨w, m₂, hright, hfault, -⟩⟩⟩
              · exact .inl ⟨_, .inl rfl, n, hleft⟩
              · exact .inl ⟨_, .inr ⟨v, m₁, hleft, rfl⟩, n, hright⟩
              · exact .inr ⟨v, m₁, hleft, w, m₂, hright, hfault⟩
            · rintro (⟨_, rfl | ⟨v, m₁, hleft, rfl⟩, n, hrun⟩ |
                ⟨v, m₁, hleft, w, m₂, hright, hfault⟩)
              · exact ⟨n, .inl hrun⟩
              · exact ⟨n, .inr ⟨v, m₁, hleft, .inl hrun⟩⟩
              · exact ⟨m₂, .inr ⟨v, m₁, hleft, .inr ⟨w, m₂, hright, hfault, rfl⟩⟩⟩
        | _ => exact htask.elim
    | _ => exact htask.elim
  · have hnot : ¬ Visit.Faults ⟨d + 1, task, m⟩ f := by
      rintro ⟨operator, v, w, ⟨d', left, right, m₁, m₂, -, heval, -⟩, -⟩
      obtain rfl : task = _ := heval
      exact htask trivial
    rw [(step_relays htask m).carryOut_iff hf, or_iff_left hnot]
    simp only [Visit.asks, List.mem_map]
    constructor
    · rintro ⟨p, hp, hrun⟩
      exact ⟨_, ⟨p, hp, rfl⟩, hrun⟩
    · rintro ⟨a, ⟨p, hp, rfl⟩, hrun⟩
      exact ⟨p, hp, hrun⟩

/-- How a run ends with a fault: its work does, or a further round of it. -/
theorem perform_fault_iff :
    (∃ after, perform (d + 1) task m = .error (.fault f) after) ↔
    (∃ after, (Action.step task m).carryOut (perform d) = .error (.fault f) after) ∨
    ∃ next, (Action.step task m).carryOut (perform d) = .ok (.task task) next ∧
      ∃ after, perform d task next = .error (.fault f) after := by
  rcases perform_cases d task m with ⟨v, n, hstep, hrun⟩ | ⟨e, n, hstep, hrun⟩ | ⟨n, hstep, hrun⟩
  · rw [hrun, hstep]
    simp
  · rw [hrun, hstep]
    simp
  · rw [hrun, hstep]
    simp

/-- A run ends with a fault of zero exactly if it comes to an operation that has this fault. -/
theorem perform_ofZero_iff (hf : f.OfZero) :
    (∃ after, perform d task m = .error (.fault f) after) ↔
      ∃ u ∈ visits d task m, u.Faults f := by
  induction d generalizing task m with
  | zero =>
      constructor
      · rintro ⟨after, h⟩
        cases h
      · rintro ⟨u, hu, operator, v, w, ⟨d, left, right, m₁, m₂, hd, -⟩, -⟩
        obtain rfl := List.mem_singleton.mp hu
        cases hd
  | succ d ih =>
      rw [perform_fault_iff, step_fault_iff hf]
      show _ ↔ ∃ u ∈ Visit.run ⟨d + 1, task, m⟩, u.Faults f
      have hbelow : ∀ a ∈ Visit.asks ⟨d + 1, task, m⟩,
          (∃ after, a.outcome = .error (.fault f) after) ↔ ∃ u ∈ a.run, u.Faults f := by
        intro a ha
        obtain ⟨p, -, rfl⟩ := List.mem_map.mp ha
        exact ih
      constructor
      · rintro ((⟨a, ha, hfault⟩ | hown) | ⟨next, hnext, hfault⟩)
        · obtain ⟨u, hu, hfault⟩ := (hbelow a ha).mp hfault
          exact ⟨u, Visit.mem_run_succ.mpr (.inr (.inl ⟨a, ha, hu⟩)), hfault⟩
        · exact ⟨_, Visit.self_mem_run _, hown⟩
        · obtain ⟨u, hu, hfault⟩ := ih.mp hfault
          exact ⟨u, Visit.mem_run_succ.mpr (.inr (.inr ⟨next, hnext, hu⟩)), hfault⟩
      · rintro ⟨u, hu, hfault⟩
        rcases Visit.mem_run_succ.mp hu with rfl | ⟨a, ha, hu⟩ | ⟨next, hnext, hu⟩
        · exact .inl (.inr hfault)
        · exact .inl (.inl ⟨a, ha, (hbelow a ha).mpr ⟨u, hu, hfault⟩⟩)
        · exact .inr ⟨next, hnext, ih.mpr ⟨u, hu, hfault⟩⟩

end

end BraceScript
