import BraceScript.Proofs.Invariant

/-! # Frames — what runs leave as it was

    A part of a program runs on the top record of the stack, and on records that it pushes itself.
    Whatever it is and however its run ends:

    * `perform_headers`: the records it was started on are still there behind it, with their names,
      kinds and levels;
    * `perform_not_underflow`: it never takes a record from an empty stack;
    * `eval_over`: the records below the top one do not matter to the run, and do not change.

    A loop or a declaration writes to a record that it found by its height before it ran anything
    else.  So the two runs that `eval_over` compares go through the same steps with heights that
    differ by the number of records below, and they are compared step by step. -/

namespace BraceScript

open Eval (perform)

variable {α β γ δ : Type}

/-! ## Headers -/

/-- No run takes away the records that it found, or changes their headers. -/
def Invariant.headers : Invariant (List Record.Header) where
  runs _ _ := True
  bodies _ := True
  loop hs := hs
  holds hs m := hs ≠ [] ∧ hs <:+ m.headers
  exits hs e m := (hs ≠ [] ∧ hs <:+ m.headers) ∧ ∀ f, e = .fault f → ¬ f.IsUnderflow

namespace Machine

theorem headers_eq_nil {m : Machine} : m.headers = [] ↔ m.stack = [] := List.map_eq_nil_iff

theorem headers_cons {m : Machine} {r : Record} {rest : CallStack} (h : m.stack = r :: rest) :
    m.headers = r.header :: rest.map Record.header := by
  rw [headers, h, List.map_cons]

/-- A stack that has a header has a record. -/
theorem stack_ne_nil {m : Machine} {hs : List Record.Header} (hne : hs ≠ [])
    (h : hs <:+ m.headers) : m.stack ≠ [] := by
  intro hs
  rw [headers_eq_nil.mpr hs] at h
  exact hne (List.suffix_nil.mp h)

end Machine

theorem Keeper.headers : Keeper Invariant.headers where
  children _ _ _ _ _ _ := trivial
  whileLoop _ _ _ _ := ⟨trivial, trivial⟩
  forLoop _ _ _ _ _ _ := ⟨fun _ _ => trivial, fun _ _ => trivial, trivial⟩
  branch _ _ _ _ _ _ _ _ _ _ := trivial
  program _ _ _ := trivial
  functionBody _ _ _ _ _ _ := trivial
  procedureBody _ _ _ _ _ _ := trivial
  stack hs m s hm hsame := ⟨hm.1, by rw [Machine.headers, hsame]; exact hm.2⟩
  shown _ _ _ hm := hm
  function _ _ _ _ _ _ _ hm _ _ _ _ := hm
  procedure _ _ _ _ _ _ hm _ _ _ _ := hm
  bracket hs m r body _ hm := by
    refine ⟨r.header :: m.headers, trivial, ⟨List.cons_ne_nil _ _, List.suffix_rfl⟩,
      fun n hn => ?_, ?_⟩
    · refine ⟨fun hempty => absurd hempty (Machine.stack_ne_nil hn.1 hn.2), fun r' rest hs => ?_⟩
      refine ⟨hm.1, hm.2.trans ?_⟩
      have hsuffix := hn.2
      rw [Machine.headers_cons hs] at hsuffix
      -- the record that is popped is the one that was pushed, or one that a call left above it
      rcases List.suffix_cons_iff.mp hsuffix with heq | hsuffix
      · rw [(List.cons.inj heq).2]
        exact List.suffix_rfl
      · exact (List.suffix_cons r.header m.headers).trans hsuffix
    · intro e n hn
      exact ⟨⟨hm.1, hm.2.trans ((List.suffix_cons r.header m.headers).trans hn.1.2)⟩, hn.2⟩
  enter _ _ hm := hm
  leave _ _ hm := hm
  skipped _ _ hexit := hexit.1
  stopped _ _ hexit := hexit.1
  uncaught _ _ _ hexit _ _ := hexit
  skip _ _ _ hm := ⟨hm, nofun⟩
  stop _ _ _ hm := ⟨hm, nofun⟩
  fault _ _ f hm hf := ⟨hm, fun g hg => by cases hg; exact hf⟩
  empty _ m hm hempty := absurd hempty (Machine.stack_ne_nil hm.1 hm.2)
  exhausted _ _ hm := ⟨hm, nofun⟩

theorem perform_settles_headers (d : Nat) (task : Task) {m : Machine} (hm : m.stack ≠ []) :
    Invariant.headers.settles m.headers (perform d task m) := by
  refine Contract.fulfilled Keeper.headers.kept d m.headers task m ⟨?_, ?_, List.suffix_rfl⟩
  · cases task <;> simp [Invariant.admits, Invariant.headers]
  · exact mt Machine.headers_eq_nil.mp hm

/-- The records that a run found are still there behind it. -/
theorem perform_headers (d : Nat) (task : Task) {m : Machine} (hm : m.stack ≠ []) :
    m.headers <:+ (Ending.machine (perform d task m)).headers := by
  have hend := perform_settles_headers d task hm
  cases hrun : perform d task m with
  | ok v after => rw [hrun] at hend; exact hend.2
  | error e after => rw [hrun] at hend; exact hend.1.2

/-- A run on a stack with a record never takes one from an empty stack. -/
theorem perform_not_underflow {d : Nat} {task : Task} {m after : Machine} {f : Fault}
    (hm : m.stack ≠ []) (hrun : perform d task m = .error (.fault f) after) :
    ¬ f.IsUnderflow := by
  have hend := perform_settles_headers d task hm
  rw [hrun] at hend
  exact hend.2 f rfl

/-! ## Two runs -/

section Over

variable (S : CallStack) (H : List Event)

/-- A machine over further records, behind further events. -/
def Machine.over (m : Machine) : Machine :=
  { m with stack := m.stack ++ S, history := m.history ++ H }

/-- A task with the heights it has over further records. -/
def Task.over : Task → Task
  | .forLoop height name last step body => .forLoop (height + S.length) name last step body
  | task => task

/-- Heights are counted from one. -/
def Task.Placed : Task → Prop
  | .forLoop height _ _ _ _ => 1 ≤ height
  | _ => True

/-- An ending over further records. -/
def Ending.over : Ending α → Ending α
  | .ok a m => .ok a (m.over S H)
  | .error e m => .error e (m.over S H)

/-- The same ending, once over further records, with values that `R` relates. -/
inductive Ending.Over (R : α → β → Prop) : Ending α → Ending β → Prop
  | ok {a : α} {b : β} {m : Machine} (h : R a b) (hm : m.stack ≠ []) :
      Over R (.ok a m) (.ok b (m.over S H))
  | error {e : Exit} {m : Machine} (hm : m.stack ≠ []) :
      Over R (.error e m) (.error e (m.over S H))

/-- Two actions do the same on a machine, the second one over further records, when tasks run to
    a depth. -/
def AgreeAt (d : Nat) (R : α → β → Prop) (x : Action α) (y : Action β) (m : Machine) : Prop :=
  Ending.Over S H R ((x m).carryOut (perform d)) ((y (m.over S H)).carryOut (perform d))

/-- Two actions do the same on every machine with a record. -/
def Agree (d : Nat) (R : α → β → Prop) (x : Action α) (y : Action β) : Prop :=
  ∀ m : Machine, m.stack ≠ [] → AgreeAt S H d R x y m

/-- Tasks that run to a depth do the same over further records. -/
def Framed (d : Nat) : Prop :=
  ∀ (task : Task) (m : Machine), task.Placed → m.stack ≠ [] →
    Ending.Over S H Eq (perform d task m) (perform d (task.over S) (m.over S H))

variable {S H}

theorem Ending.machine_over (e : Ending α) :
    Ending.machine (e.over S H) = (Ending.machine e).over S H := by
  cases e <;> rfl

theorem Ending.Over.eq {e e' : Ending α} (h : Ending.Over S H Eq e e') : e' = e.over S H := by
  cases h with
  | ok h _ => rw [h]; rfl
  | error _ => rfl

theorem Machine.over_stack_cons {m : Machine} {r : Record} {rest : CallStack}
    (h : m.stack = r :: rest) : (m.over S H).stack = r :: (rest ++ S) := by
  rw [Machine.over, h, List.cons_append]

end Over

/-! ### How work is carried out -/

namespace Work

theorem carryOut_bind (run : Task → Eval Value) (w : Work α) (f : α → Action β) :
    (w.bind f).carryOut run = match w.carryOut run with
      | .ok a m => (f a m).carryOut run
      | .error e m => .error e m := by
  induction w with
  | ended e => cases e <;> rfl
  | ask task m next ih => exact ih _

theorem carryOut_eval (run : Task → Eval Value) (node : Node) (m : Machine) :
    (Action.eval node m).carryOut run = run (.eval node) m := rfl

theorem carryOut_caught (run : Task → Eval Value) (w : Work α) :
    w.caught.carryOut run = match w.carryOut run with
      | .ok a m => .ok (.ok a) m
      | .error e m => .ok (.error e) m := by
  induction w with
  | ended e => cases e <;> rfl
  | ask task m next ih => exact ih _

end Work

theorem Action.carryOut_runBody (run : Task → Eval Value) (body : Node) (m : Machine) :
    (Action.runBody body m).carryOut run = match run (.eval body) m with
      | .ok v after => match Eval.pop after with
        | .ok _ popped => .ok v popped
        | .error e popped => .error e popped
      | .error e after => .error e after := by
  show (Work.bind (Action.eval body m) _).carryOut run = _
  rw [Work.carryOut_bind, Work.carryOut_eval]
  cases run (.eval body) m with
  | error e after => rfl
  | ok v after =>
      show (Work.bind (.ended (Eval.pop after)) _).carryOut run = _
      rw [Work.carryOut_bind]
      dsimp only
      cases Eval.pop after <;> rfl

namespace Agree

variable {S : CallStack} {H : List Event} {d : Nat} {R : α → β → Prop} {Q : γ → δ → Prop}

theorem pure {a : α} {b : β} (h : R a b) :
    Agree S H d R (Pure.pure a : Action α) (Pure.pure b : Action β) :=
  fun _ hm => .ok h hm

theorem leave (e : Exit) :
    Agree S H d R (Action.leave e : Action α) (Action.leave e : Action β) :=
  fun _ hm => .error hm

theorem bindAt {x : Action α} {y : Action β} {f : α → Action γ} {g : β → Action δ} {m : Machine}
    (hx : AgreeAt S H d R x y m) (hf : ∀ a b, R a b → Agree S H d Q (f a) (g b)) :
    AgreeAt S H d Q (x >>= f) (y >>= g) m := by
  show Ending.Over S H Q (((x m).bind f).carryOut _) (((y (m.over S H)).bind g).carryOut _)
  rw [Work.carryOut_bind, Work.carryOut_bind]
  unfold AgreeAt at hx
  generalize (x m).carryOut (perform d) = e, (y (m.over S H)).carryOut (perform d) = e' at hx ⊢
  cases hx with
  | ok h hafter => exact hf _ _ h _ hafter
  | error hafter => exact .error hafter

theorem bind {x : Action α} {y : Action β} {f : α → Action γ} {g : β → Action δ}
    (hx : Agree S H d R x y) (hf : ∀ a b, R a b → Agree S H d Q (f a) (g b)) :
    Agree S H d Q (x >>= f) (y >>= g) := fun m hm => bindAt (hx m hm) hf

/-- In sequence, where the first action is the same and gives the same. -/
theorem seq {x y : Action α} {f : α → Action γ} {g : α → Action δ} (hx : Agree S H d Eq x y)
    (hf : ∀ a, Agree S H d Q (f a) (g a)) : Agree S H d Q (x >>= f) (y >>= g) :=
  hx.bind fun a b h => by subst h; exact hf a

theorem ite {c : Prop} [Decidable c] {x x' : Action α} {y y' : Action β}
    (hx : Agree S H d R x y) (hy : Agree S H d R x' y') :
    Agree S H d R (if c then x else x') (if c then y else y') := by
  split
  · exact hx
  · exact hy

theorem caught {x y : Action α} (hx : Agree S H d Eq x y) :
    Agree S H d Eq (Action.caught x) (Action.caught y) := by
  intro m hm
  show Ending.Over S H Eq ((x m).caught.carryOut _) ((y (m.over S H)).caught.carryOut _)
  rw [Work.carryOut_caught, Work.carryOut_caught]
  have hover := hx m hm
  unfold AgreeAt at hover
  generalize (x m).carryOut (perform d) = e, (y (m.over S H)).carryOut (perform d) = e' at hover ⊢
  cases hover with
  | ok h hafter => exact .ok (congrArg Except.ok h) hafter
  | error hafter => exact .ok rfl hafter

theorem ask (hrun : Framed S H d) (task : Task) (h : task.Placed) :
    Agree S H d Eq (Action.ask task) (Action.ask (task.over S)) :=
  fun m hm => hrun task m h hm

theorem eval (hrun : Framed S H d) (node : Node) :
    Agree S H d Eq (Action.eval node) (Action.eval node) := ask hrun (.eval node) trivial

end Agree

/-! ### Records by height -/

namespace CallStack

theorem setAt_of_lt {height : Nat} {s : CallStack} (h : s.length < height) (name : String)
    (v : Value) : s.setAt height name v = s := by
  induction s with
  | nil => rfl
  | cons r rest ih =>
      rw [List.length_cons] at h
      rw [setAt, if_neg (by omega), ih (by omega)]

theorem setAt_append {height : Nat} (h : 1 ≤ height) (name : String) (v : Value)
    (s S : CallStack) :
    setAt (height + S.length) name v (s ++ S) = setAt height name v s ++ S := by
  induction s with
  | nil =>
      rw [List.nil_append]
      exact setAt_of_lt (by omega) name v
  | cons r rest ih =>
      rw [List.cons_append, setAt, setAt, List.length_append, ih]
      by_cases hr : rest.length + 1 = height
      · rw [if_pos hr, if_pos (by omega), List.cons_append]
      · rw [if_neg hr, if_neg (by omega), List.cons_append]

theorem setAt_ne_nil {s : CallStack} (h : s ≠ []) (height : Nat) (name : String) (v : Value) :
    s.setAt height name v ≠ [] := by
  intro hnil
  have := congrArg (List.map Record.header) hnil
  rw [map_header_setAt] at this
  exact h (List.map_eq_nil_iff.mp this)

theorem at?_of_lt {height : Nat} {s : CallStack} (h : s.length < height) : s.at? height = none := by
  induction s with
  | nil => rfl
  | cons r rest ih =>
      rw [List.length_cons] at h
      rw [at?, if_neg (by omega), ih (by omega)]

theorem at?_append {height : Nat} (h : 1 ≤ height) (s S : CallStack) :
    at? (height + S.length) (s ++ S) = at? height s := by
  induction s with
  | nil =>
      rw [List.nil_append]
      exact at?_of_lt (by omega)
  | cons r rest ih =>
      rw [List.cons_append, at?, at?, List.length_append, ih]
      by_cases hr : rest.length + 1 = height
      · rw [if_pos hr, if_pos (by omega)]
      · rw [if_neg hr, if_neg (by omega)]

end CallStack

/-! ### Steps over further records -/

namespace Agree

variable {S : CallStack} {H : List Event} {d : Nat}

/-- Heights of one record, alone and over further records. -/
def Heights (S : CallStack) (low high : Nat) : Prop := 1 ≤ low ∧ high = low + S.length

theorem fail (f : Fault) {R : α → β → Prop} :
    Agree S H d R (liftM (Eval.fail f : Eval α) : Action α)
      (liftM (Eval.fail f : Eval β) : Action β) :=
  fun _ hm => .error hm

theorem attempt (x : Except Fault α) :
    Agree S H d Eq (liftM (Eval.attempt x) : Action α) (liftM (Eval.attempt x)) := by
  cases x with
  | ok a => exact .pure rfl
  | error f => exact fail f

theorem top : Agree S H d Eq (liftM Eval.top : Action Record) (liftM Eval.top) := by
  intro m hm
  obtain ⟨r, rest, hs⟩ := List.exists_cons_of_ne_nil hm
  have hover := Machine.over_stack_cons (S := S) (H := H) hs
  show Ending.Over S H Eq (Eval.top m) (Eval.top (m.over S H))
  rw [Eval.top_cons hs, Eval.top_cons hover]
  exact .ok rfl hm

theorem topHeight :
    Agree S H d (Heights S) (liftM Eval.topHeight : Action Nat) (liftM Eval.topHeight) := by
  intro m hm
  obtain ⟨r, rest, hs⟩ := List.exists_cons_of_ne_nil hm
  have hover := Machine.over_stack_cons (S := S) (H := H) hs
  show Ending.Over S H (Heights S) (Eval.topHeight m) (Eval.topHeight (m.over S H))
  rw [Eval.topHeight_cons hs, Eval.topHeight_cons hover, List.length_append]
  exact .ok ⟨by omega, by omega⟩ hm

theorem setTop (name : String) (v : Value) :
    Agree S H d Eq (liftM (Eval.setTop name v) : Action Unit) (liftM (Eval.setTop name v)) := by
  intro m hm
  obtain ⟨r, rest, hs⟩ := List.exists_cons_of_ne_nil hm
  have hover := Machine.over_stack_cons (S := S) (H := H) hs
  show Ending.Over S H Eq (Eval.setTop name v m) (Eval.setTop name v (m.over S H))
  rw [Eval.setTop_cons hs, Eval.setTop_cons hover]
  exact .ok (m := { m with stack := r.set name v :: rest }) rfl nofun

theorem setAt {low high : Nat} (h : Heights S low high) (name : String) (v : Value) :
    Agree S H d Eq (liftM (Eval.setAt low name v) : Action Unit)
      (liftM (Eval.setAt high name v)) := by
  intro m hm
  obtain ⟨hlow, rfl⟩ := h
  have hset : Eval.setAt (low + S.length) name v (m.over S H)
      = .ok () (Machine.over S H { m with stack := m.stack.setAt low name v }) := by
    show EStateM.Result.ok () { m.over S H with
      stack := CallStack.setAt (low + S.length) name v (m.stack ++ S) } = _
    rw [CallStack.setAt_append hlow]
    rfl
  show Ending.Over S H Eq (Eval.setAt low name v m) (Eval.setAt (low + S.length) name v _)
  rw [hset]
  exact .ok rfl (CallStack.setAt_ne_nil hm low name v)

theorem getAt {low high : Nat} (h : Heights S low high) (name : String) :
    Agree S H d Eq (liftM (Eval.getAt low name) : Action (Option Value))
      (liftM (Eval.getAt high name)) := by
  intro m hm
  obtain ⟨hlow, rfl⟩ := h
  have hat : CallStack.at? (low + S.length) (m.over S H).stack = m.stack.at? low :=
    CallStack.at?_append hlow m.stack S
  show Ending.Over S H Eq (.ok ((m.stack.at? low).bind (·.get? name)) m)
    (.ok ((CallStack.at? (low + S.length) (m.over S H).stack).bind (·.get? name)) (m.over S H))
  rw [hat]
  exact .ok rfl hm

theorem display (v : Value) :
    Agree S H d Eq (liftM (Eval.display v) : Action Unit) (liftM (Eval.display v)) := by
  unfold Eval.display
  rw [Action.liftM_bind]
  refine (attempt _).seq fun line m hm => ?_
  exact .ok (m := { m with history := .shown line :: m.history }) rfl hm

theorem declareFunction (f : Function) :
    Agree S H d Eq (liftM (Eval.declareFunction f) : Action Unit)
      (liftM (Eval.declareFunction f)) :=
  fun m hm => .ok (m := { m with functions := m.functions.insert f.name f }) rfl hm

theorem declareProcedure (p : Routine) :
    Agree S H d Eq (liftM (Eval.declareProcedure p) : Action Unit)
      (liftM (Eval.declareProcedure p)) :=
  fun m hm => .ok (m := { m with procedures := m.procedures.insert p.name p }) rfl hm

theorem findFunction (name : String) :
    Agree S H d Eq (liftM (Eval.findFunction name) : Action (Option Function))
      (liftM (Eval.findFunction name)) :=
  fun _ hm => .ok rfl hm

theorem findProcedure (name : String) :
    Agree S H d Eq (liftM (Eval.findProcedure name) : Action (Option Routine))
      (liftM (Eval.findProcedure name)) :=
  fun _ hm => .ok rfl hm

theorem requireReal (fault : String → Fault) (v : Value) :
    Agree S H d Eq (liftM (Eval.requireReal fault v) : Action Unit)
      (liftM (Eval.requireReal fault v)) := by
  unfold Eval.requireReal
  split
  · exact .pure rfl
  · exact fail _

theorem valueOf (name : String) :
    Agree S H d Eq (liftM (Eval.valueOf name) : Action Value) (liftM (Eval.valueOf name)) := by
  unfold Eval.valueOf
  rw [Action.liftM_bind]
  refine top.seq fun r => ?_
  split
  · exact fail _
  · exact fail _
  · exact .pure rfl

theorem loopVariable {low high : Nat} (h : Heights S low high) (name : String) :
    Agree S H d Eq (liftM (Eval.loopVariable low name) : Action Value)
      (liftM (Eval.loopVariable high name)) := by
  unfold Eval.loopVariable
  rw [Action.liftM_bind, Action.liftM_bind]
  refine (getAt h name).seq fun found => ?_
  split
  · split
    · exact .pure rfl
    · exact fail _
  · exact fail _

theorem moveOn {low high : Nat} (h : Heights S low high) (name : String)
    (current step : Value) :
    Agree S H d Eq (liftM (Eval.moveOn low name current step) : Action Unit)
      (liftM (Eval.moveOn high name current step)) := by
  unfold Eval.moveOn
  rw [Action.liftM_bind, Action.liftM_bind]
  exact (attempt _).seq fun v => setAt h name v

theorem setDefaults {low high : Nat} (h : Heights S low high) (type : Node)
    (names : List Node) :
    Agree S H d Eq (liftM (Eval.setDefaults low type names) : Action Unit)
      (liftM (Eval.setDefaults high type names)) := by
  induction names with
  | nil => exact .pure rfl
  | cons name names ih =>
      rw [Eval.setDefaults, Eval.setDefaults]
      simp only [Action.liftM_bind]
      refine (attempt _).seq fun spelled => (attempt _).seq fun v => (attempt _).seq fun name => ?_
      exact (setAt h name v).seq fun _ => ih

theorem incomplete (lacking : Lacking) (parts : List Node) :
    Agree S H d Eq (liftM (Eval.incomplete lacking parts) : Action Value)
      (liftM (Eval.incomplete lacking parts)) := by
  cases lacking with
  | numberLexeme => exact fail _
  | stringLexeme => exact fail _
  | variableNames | constantNames =>
      rw [Eval.incomplete, Action.liftM_bind]
      exact topHeight.bind fun _ _ _ => fail _
  | constantValues =>
      rw [Eval.incomplete, Action.liftM_bind]
      refine topHeight.bind fun _ _ _ => ?_
      split
      · exact .pure rfl
      · exact fail _

/-! ### Tasks over further records -/

section

variable (hrun : Framed S H d)

include hrun

theorem block (statements : List Node) :
    Agree S H d Eq (Action.block statements) (Action.block statements) := by
  induction statements with
  | nil => exact .pure rfl
  | cons statement rest ih =>
      rw [Action.block]
      refine (eval hrun statement).seq fun v => ?_
      split
      · exact .pure rfl
      · exact ih

theorem evalAll (nodes : List Node) :
    Agree S H d Eq (Action.evalAll nodes) (Action.evalAll nodes) := by
  induction nodes with
  | nil => exact .pure rfl
  | cons node rest ih =>
      rw [Action.evalAll]
      exact (eval hrun node).seq fun v => ih.seq fun values => .pure rfl

theorem setVariables {low high : Nat} (h : Heights S low high) (type : Node)
    (names values : List Node) :
    Agree S H d Eq (Action.setVariables low type names values)
      (Action.setVariables high type names values) := by
  induction values generalizing names with
  | nil => rw [Action.setVariables, Action.setVariables]; exact setDefaults h type names
  | cons value values ih =>
      cases names with
      | nil => exact .pure rfl
      | cons name names =>
          rw [Action.setVariables, Action.setVariables]
          refine (eval hrun value).seq fun v => (attempt _).seq fun name => ?_
          exact (setAt h name v).seq fun _ => ih names

theorem setConstants {low high : Nat} (h : Heights S low high) (names values : List Node) :
    Agree S H d Eq (Action.setConstants low names values)
      (Action.setConstants high names values) := by
  induction values generalizing names with
  | nil =>
      cases names with
      | nil => exact .pure rfl
      | cons name names => exact fail _
  | cons value values ih =>
      cases names with
      | nil => exact .pure rfl
      | cons name names =>
          rw [Action.setConstants, Action.setConstants]
          refine (eval hrun value).seq fun v => (attempt _).seq fun name => ?_
          exact (setAt h name v).seq fun _ => ih names

theorem condition (node : Node) :
    Agree S H d Eq (Action.condition node) (Action.condition node) := by
  refine (eval hrun node).seq fun v => ?_
  split
  · exact .pure rfl
  · exact fail _

theorem branches (elifs : List Node) (alternative : Node) :
    Agree S H d Eq (Action.branches elifs alternative) (Action.branches elifs alternative) := by
  induction elifs with
  | nil =>
      rw [Action.branches]
      exact ite (.pure rfl) ((attempt _).seq fun body => eval hrun body)
  | cons branch rest ih =>
      rw [Action.branches]
      refine (attempt _).seq fun test => (condition hrun test).seq fun b => ite ?_ ih
      exact (attempt _).seq fun body => eval hrun body

theorem whileRound (test body : Node) :
    Agree S H d Eq (Action.whileRound test body) (Action.whileRound test body) := by
  refine (condition hrun test).seq fun b => ite ((eval hrun body).seq fun v => ?_) (.pure rfl)
  split <;> exact .pure rfl

theorem stepValue (first last : Value) (step : Node) :
    Agree S H d Eq (Action.stepValue first last step) (Action.stepValue first last step) := by
  refine ite (attempt _) ((eval hrun step).seq fun v => ?_)
  exact (requireReal _ v).seq fun _ => .pure rfl

theorem forRound {low high : Nat} (h : Heights S low high) (name : String) (last step : Value)
    (body : Node) :
    Agree S H d Eq (Action.forRound low name last step body)
      (Action.forRound high name last step body) := by
  refine (loopVariable h name).seq fun current => (attempt _).seq fun past => ?_
  refine ite (.pure rfl) ((eval hrun body).seq fun v => ?_)
  split
  · exact .pure rfl
  · exact (moveOn h name current step).seq fun _ => .pure rfl

/-- A body runs, and behind it a record is popped that is not the last one. -/
theorem runBody (body : Node) {m : Machine} (hm : 2 ≤ m.stack.length) :
    AgreeAt S H d Eq (Action.runBody body) (Action.runBody body) m := by
  have hne : m.stack ≠ [] := List.ne_nil_of_length_pos (by omega)
  have hover := hrun (.eval body) m trivial hne
  have hheads := (perform_headers d (.eval body) hne).length_le
  show Ending.Over S H Eq ((Work.bind _ _).carryOut _) ((Work.bind _ _).carryOut _)
  rw [Work.carryOut_bind, Work.carryOut_bind, Work.carryOut_eval, Work.carryOut_eval]
  rw [show Task.over S (.eval body) = .eval body from rfl] at hover
  generalize perform d (.eval body) m = e, perform d (.eval body) (m.over S H) = e'
    at hover hheads ⊢
  cases hover with
  | error hafter => exact .error hafter
  | @ok v _ after h hafter =>
      obtain ⟨r, rest, hs⟩ := List.exists_cons_of_ne_nil hafter
      have hrest : rest ≠ [] := by
        rintro rfl
        -- the two records that were there before the body still are, and only one is popped
        simp [Machine.headers, hs] at hheads
        omega
      show Ending.Over S H Eq ((Work.bind (.ended (Eval.pop after)) _).carryOut _)
        ((Work.bind (.ended (Eval.pop (after.over S H))) _).carryOut _)
      rw [Eval.pop_cons hs, Eval.pop_cons (Machine.over_stack_cons hs)]
      exact .ok (m := { after with stack := rest, history := .popped r :: after.history }) h hrest

theorem call (kind : RecordKind) (callee : Option Routine) (values : List Value)
    (result : String → Value → Except Fault Value) :
    let x : Action Value := do
      let r ← liftM (Eval.enterCall kind callee values)
      let outcome ← Action.runBody r.body
      liftM (Eval.attempt (result r.name outcome))
    Agree S H d Eq x x := by
  intro x m hm
  obtain ⟨r, rest, hs⟩ := List.exists_cons_of_ne_nil hm
  have hover := Machine.over_stack_cons (S := S) (H := H) hs
  show Ending.Over S H Eq
    ((Work.bind (.ended (Eval.enterCall kind callee values m)) _).carryOut _)
    ((Work.bind (.ended (Eval.enterCall kind callee values (m.over S H))) _).carryOut _)
  cases callee with
  | none =>
      simp only [Eval.enterCall, Bind.bind, EStateM.bind, Eval.top_cons hs, Eval.top_cons hover]
      exact .error hm
  | some p =>
      rw [Eval.enterCall_cons hs, Eval.enterCall_cons hover]
      generalize Eval.calleeRecord kind p values r = callee
      exact bindAt (m := { m with
          stack := callee :: r :: rest, history := .pushed callee :: m.history })
        (runBody hrun p.body (by simp)) fun a b h => by subst h; exact attempt _

theorem program (body : Node) :
    Agree S H d Eq (Action.evaluate (.program body)) (Action.evaluate (.program body)) := by
  intro m hm
  exact bindAt (m := { m with
      stack := Record.make "program" .program 1 :: m.stack
      history := .pushed (Record.make "program" .program 1) :: m.history })
    (runBody hrun body (Nat.succ_le_succ (List.length_pos_iff.mpr hm))) fun _ _ _ => .pure rfl

theorem evaluate (node : Node) :
    Agree S H d Eq (Action.evaluate node) (Action.evaluate node) := by
  cases node with
  | absent | bare _ | typeName _ | elif _ _ | otherwise _ | parameter _ _ => exact fail _
  | incomplete lacking parts => exact incomplete lacking parts
  | program body => exact program hrun body
  | block statements => exact block hrun statements
  | variableDecl type names values =>
      refine topHeight.bind fun low high h => ?_
      exact (setVariables hrun h type names values).seq fun _ => .pure rfl
  | constantDecl type names values =>
      refine topHeight.bind fun low high h => ?_
      exact (setConstants hrun h names values).seq fun _ => .pure rfl
  | assignment target value =>
      refine (eval hrun value).seq fun v => top.seq fun _ => (attempt _).seq fun name => ?_
      exact (setTop name v).seq fun _ => .pure rfl
  | give value => exact ite (.pure rfl) ((eval hrun value).seq fun _ => .pure rfl)
  | display value => exact (eval hrun value).seq fun v => (display v).seq fun _ => .pure rfl
  | functionDecl name parameters type body =>
      refine (attempt _).seq fun ps => (attempt _).seq fun name => (attempt _).seq fun type => ?_
      exact (declareFunction _).seq fun _ => .pure rfl
  | procedureDecl name parameters body =>
      refine (attempt _).seq fun ps => (attempt _).seq fun name => ?_
      exact (declareProcedure _).seq fun _ => .pure rfl
  | functionCall callee arguments =>
      refine (attempt _).seq fun name => (findFunction name).seq fun found => ?_
      exact (evalAll hrun arguments).seq fun values => call hrun _ _ values _
  | procedureCall callee arguments =>
      refine (attempt _).seq fun name => (findProcedure name).seq fun found => ?_
      exact (evalAll hrun arguments).seq fun values => call hrun _ _ values _
  | ifElse test body elifs alternative =>
      exact (condition hrun test).seq fun b => ite (eval hrun body)
        (branches hrun elifs alternative)
  | whileLoop test body => exact ask hrun (.whileLoop test body) trivial
  | forLoop initial termination step body =>
      refine (attempt _).seq fun part => (eval hrun part).seq fun first => ?_
      refine (requireReal _ first).seq fun _ => (eval hrun termination).seq fun last => ?_
      refine (requireReal _ last).seq fun _ => (stepValue hrun first last step).seq fun step => ?_
      refine (eval hrun initial).seq fun _ => topHeight.bind fun low high h => ?_
      refine (attempt _).seq fun target => (attempt _).seq fun name => ?_
      obtain ⟨hlow, rfl⟩ := h
      -- the loop keeps the height of its record, which is another one over further records
      exact ask hrun (.forLoop low name last step body) hlow
  | skip => exact leave .skip
  | stop => exact leave .stop
  | identifier name => exact valueOf name
  | binary left operator right =>
      exact (eval hrun left).seq fun v => (eval hrun right).seq fun w => attempt _
  | unary operator operand => exact (eval hrun operand).seq fun v => attempt _
  | logical left operator right =>
      refine ite ?_ (ite ?_ (fail _))
      · exact (condition hrun left).seq fun b =>
          ite ((condition hrun right).seq fun _ => .pure rfl) (.pure rfl)
      · exact (condition hrun left).seq fun b =>
          ite (.pure rfl) ((condition hrun right).seq fun _ => .pure rfl)
  | negation operator operand =>
      exact (condition hrun operand).seq fun b => ite (.pure rfl) (fail _)
  | comparison left comparator right =>
      refine (eval hrun left).seq fun v => (eval hrun right).seq fun w => ?_
      exact (attempt _).seq fun _ => .pure rfl
  | truth expression => exact (eval hrun expression).seq fun _ => .pure rfl
  | number lexeme => exact attempt _
  | string lexeme => exact .pure rfl
  | boolean lexeme => exact .pure rfl

/-- How tasks go on, alone and over further records. -/
inductive Onwards (S : CallStack) : Action.Next → Action.Next → Prop
  | value (v : Value) : Onwards S (.value v) (.value v)
  | task {t : Task} (h : t.Placed) : Onwards S (.task t) (.task (t.over S))

theorem step {task : Task} (h : task.Placed) :
    Agree S H d (Onwards S) (Action.step task) (Action.step (task.over S)) := by
  cases task with
  | eval node => exact (evaluate hrun node).seq fun v => .pure (.value v)
  | whileLoop test body =>
      refine (caught (whileRound hrun test body)).seq fun round => ?_
      rcases round with e | _ | _ | v
      · cases e with
        | skip => exact .pure (.task (t := .whileLoop test body) trivial)
        | stop => exact .pure (.value _)
        | fault f => exact leave _
        | exhausted => exact leave _
      · exact .pure (.value _)
      · exact .pure (.task (t := .whileLoop test body) trivial)
      · exact .pure (.value _)
  | forLoop low name last step body =>
      have hlow : Heights S low (low + S.length) := ⟨h, rfl⟩
      refine (caught (forRound hrun hlow name last step body)).seq fun round => ?_
      rcases round with e | _ | _ | v
      · cases e with
        | skip =>
            -- a skip moves the loop variable on, as the end of a round does
            refine (loopVariable hlow name).seq fun current => ?_
            refine (moveOn hlow name current step).seq fun _ => ?_
            exact .pure (.task (t := .forLoop low name last step body) h)
        | stop => exact .pure (.value _)
        | fault f => exact leave _
        | exhausted => exact leave _
      · exact .pure (.value _)
      · exact .pure (.task (t := .forLoop low name last step body) h)
      · exact .pure (.value _)

end

end Agree

/-- Every task does the same over further records. -/
theorem framed (S : CallStack) (H : List Event) (d : Nat) : Framed S H d := by
  induction d with
  | zero => exact fun task m _ hm => .error hm
  | succ d ih =>
      intro task m htask hm
      -- induction on the depth: the step asks for tasks of the depth below, and so does going on
      have hstep := Agree.step ih htask m hm
      unfold AgreeAt at hstep
      rw [perform, perform]
      generalize (Action.step task m).carryOut (perform d) = e,
        (Action.step (task.over S) (m.over S H)).carryOut (perform d) = e' at hstep ⊢
      cases hstep with
      | error hafter => exact .error hafter
      | ok h hafter =>
          cases h with
          | value v => exact .ok rfl hafter
          | task h => exact ih _ _ h hafter

/-- A part does the same over further records. -/
theorem eval_over (d : Nat) (node : Node) (S : CallStack) (H : List Event) {m : Machine}
    (hm : m.stack ≠ []) :
    Eval.eval d node (m.over S H) = Ending.over S H (Eval.eval d node m) :=
  (framed S H d (.eval node) m trivial hm).eq

end BraceScript
