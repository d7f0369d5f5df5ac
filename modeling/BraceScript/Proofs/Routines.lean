import BraceScript.Proofs.Locality
import BraceScript.Proofs.Scoping

/-! # Routines — what calls find

    The functions and the procedures of a machine are two tables.  What a call does with its own
    table is the same for both, so here the kind of a routine is a parameter.

    * `perform_grows`: a name that stands for a routine goes on standing for one, however a run
      ends;
    * `perform_something`: what an expression comes to is never `nothing`, since a call of a
      function that gives nothing fails. -/

namespace BraceScript

open Eval (perform)

/-! ## The two tables as one -/

namespace Machine

/-- The routine that a name stands for, called as one of a kind. -/
def routine? (m : Machine) : RecordKind → String → Option Routine
  | .function, name => (m.functions.get? name).map Function.toRoutine
  | .procedure, name => m.procedures.get? name
  | .program, _ => none

/-- The machine behind the declaration of a routine. -/
def declare (m : Machine) : Symbol → Machine
  | .function f => { m with functions := m.functions.insert f.name f }
  | .procedure p => { m with procedures := m.procedures.insert p.name p }
  | _ => m

@[simp] theorem declare_stack (m : Machine) (symbol : Symbol) :
    (m.declare symbol).stack = m.stack := by
  cases symbol <;> rfl

variable {m n : Machine}

theorem routine?_declare_self {symbol : Symbol} {kind : RecordKind} {r : Routine}
    (h : symbol.routine? kind = some r) :
    (m.declare symbol).routine? kind symbol.name = some r := by
  cases symbol <;> cases kind <;> cases h
  · show ((m.functions.insert _ _).get? _).map _ = _
    exact congrArg _ (Table.get?_insert_self _ _ _)
  · exact Table.get?_insert_self _ _ _

/-- What a name stands for behind a declaration: what is declared, or what it stood for. -/
theorem routine?_declare {symbol : Symbol} {kind : RecordKind} {name : String} {r : Routine}
    (h : (m.declare symbol).routine? kind name = some r) :
    (name = symbol.name ∧ symbol.routine? kind = some r) ∨ m.routine? kind name = some r := by
  cases symbol with
  | function f =>
      cases kind with
      | function =>
          obtain ⟨g, hg, rfl⟩ := Option.map_eq_some_iff.mp h
          rcases Table.get?_insert hg with ⟨rfl, rfl⟩ | hg
          · exact .inl ⟨rfl, rfl⟩
          · exact .inr (Option.map_eq_some_iff.mpr ⟨g, hg, rfl⟩)
      | procedure => exact .inr h
      | program => exact nomatch h
  | procedure p =>
      cases kind with
      | function => exact .inr h
      | procedure =>
          rcases Table.get?_insert h with ⟨rfl, rfl⟩ | h
          · exact .inl ⟨rfl, rfl⟩
          · exact .inr h
      | program => exact nomatch h
  | _ => exact .inr h

/-- Every name that stands for a routine still does. -/
def Grows (m n : Machine) : Prop :=
  ∀ kind name, (m.routine? kind name).isSome → (n.routine? kind name).isSome

theorem Grows.refl (m : Machine) : m.Grows m := fun _ _ h => h

theorem Grows.trans {l : Machine} (h : l.Grows m) (h' : m.Grows n) : l.Grows n :=
  fun kind name hsome => h' kind name (h kind name hsome)

theorem grows_declare (m : Machine) (symbol : Symbol) : m.Grows (m.declare symbol) := by
  intro kind name h
  cases symbol with
  | function f =>
      cases kind with
      | function =>
          show ((m.functions.insert f.name f).get? name |>.map Function.toRoutine).isSome
          rw [routine?, Option.isSome_map] at h
          rw [Option.isSome_map]
          exact Table.isSome_get?_insert f.name f h
      | procedure => exact h
      | program => exact h
  | procedure p =>
      cases kind with
      | function => exact h
      | procedure => exact Table.isSome_get?_insert p.name p h
      | program => exact h
  | _ => exact h

end Machine

/-- What a routine finds that is called on a machine with given arguments: the machine on which its
    body runs. -/
def Machine.called (m : Machine) (kind : RecordKind) (p : Routine) (values : List Value)
    (caller : Record) : Machine :=
  { m with
    stack := Eval.calleeRecord kind p values caller :: m.stack
    history := .pushed (Eval.calleeRecord kind p values caller) :: m.history }

/-- The tables of a run have the names that they had on a machine before. -/
def Invariant.grown : Invariant Machine where
  runs _ _ := True
  bodies _ := True
  loop m := m
  holds m n := m.Grows n
  exits m _ n := m.Grows n

theorem Keeper.grown : Keeper Invariant.grown where
  children _ _ _ _ _ _ := trivial
  whileLoop _ _ _ _ := ⟨trivial, trivial⟩
  forLoop _ _ _ _ _ _ := ⟨fun _ _ => trivial, fun _ _ => trivial, trivial⟩
  branch _ _ _ _ _ _ _ _ _ _ := trivial
  program _ _ _ := trivial
  functionBody _ _ _ _ _ _ := trivial
  procedureBody _ _ _ _ _ _ := trivial
  stack _ _ _ hm _ := hm
  shown _ _ _ hm := hm
  function _ m _ _ _ _ f hm _ _ _ _ := hm.trans (m.grows_declare (.function f))
  procedure _ m _ _ _ p hm _ _ _ _ := hm.trans (m.grows_declare (.procedure p))
  bracket k _ _ _ _ hm :=
    ⟨k, trivial, hm, fun _ hn => ⟨fun _ => hn, fun _ _ _ => hn⟩, fun _ _ hn => hn⟩
  enter _ _ hm := hm
  leave _ _ hm := hm
  skipped _ _ hexit := hexit
  stopped _ _ hexit := hexit
  uncaught _ _ _ hexit _ _ := hexit
  skip _ _ _ hm := hm
  stop _ _ _ hm := hm
  fault _ _ _ hm _ := hm
  empty _ _ hm _ := hm
  exhausted _ _ hm := hm

/-- A name that stands for a routine goes on standing for one. -/
theorem perform_grows (d : Nat) (node : Node) (m : Machine) :
    m.Grows (Ending.machine (perform d (.eval node) m)) := by
  have hend := Contract.fulfilled Keeper.grown.kept d m (.eval node) m ⟨trivial, .refl m⟩
  cases hrun : perform d (.eval node) m with
  | ok v after => rw [hrun] at hend; exact hend
  | error e after => rw [hrun] at hend; exact hend

/-! ## What expressions come to -/

/-- Nothing is asked of tasks, and nothing is promised. -/
def Contract.free : Contract Unit := ⟨fun _ _ _ => True, fun _ _ _ _ => True⟩

theorem Work.meets_free {α : Type} (w : Work α) :
    w.Meets Contract.free (fun _ _ => True) fun _ _ => True :=
  w.meets_any fun _ _ => ⟨(), trivial⟩

/-- An action whose outcome is something. -/
abbrev Finds (x : Action Value) : Prop :=
  ∀ m, Action.Meets Contract.free x m (fun v _ => v ≠ .nothing) fun _ _ => True

namespace Finds

variable {α : Type}

theorem pure {v : Value} (h : v ≠ .nothing) : Finds (Pure.pure v) := fun _ => h

theorem fail (f : Fault) : Finds (liftM (Eval.fail f : Eval Value)) := fun _ => trivial

/-- What comes before the last action does not matter. -/
theorem bind {x : Action α} {f : α → Action Value} (hf : ∀ a, Finds (f a)) :
    Finds (x >>= f) := by
  intro m
  refine Action.Meets.bind ((x m).meets_free.mono ?_ fun _ _ h => h)
  exact fun a after _ => hf a after

theorem ite {c : Prop} [Decidable c] {x y : Action Value} (hx : Finds x) (hy : Finds y) :
    Finds (if c then x else y) := by
  split
  · exact hx
  · exact hy

theorem attempt {x : Except Fault Value} (h : ∀ v, x = .ok v → v ≠ .nothing) :
    Finds (liftM (Eval.attempt x)) := by
  intro m
  cases x with
  | ok v => exact h v rfl
  | error f => trivial

theorem computes {x : Except Fault Value} (h : Computes Value.IsPlain x) :
    Finds (liftM (Eval.attempt x)) := by
  refine attempt fun v hv => ?_
  rintro rfl
  exact h.value hv

theorem valueOf (name : String) : Finds (liftM (Eval.valueOf name)) := by
  unfold Eval.valueOf
  rw [Action.liftM_bind]
  refine bind fun r => ?_
  split
  · exact fail _
  · exact fail _
  · next hnothing _ => exact pure fun h => hnothing h

theorem functionResult (name : String) (outcome : Value) :
    Finds (liftM (Eval.attempt (Eval.functionResult name outcome))) := by
  refine attempt fun v hv => ?_
  unfold Eval.functionResult at hv
  split at hv
  · exact nomatch hv
  · next hnothing =>
      obtain rfl := Except.ok.inj hv
      exact fun h => hnothing h
  · exact nomatch hv

theorem expression {node : Node} (h : node.IsExpression) : Finds (Action.evaluate node) := by
  cases h with
  | identifier _ => exact valueOf _
  | number lexeme => exact computes (Eval.computes_numberValue lexeme)
  | string _ | boolean _ => exact pure nofun
  | functionCall _ _ =>
      exact bind fun _ => bind fun _ => bind fun _ => bind fun r => bind fun outcome =>
        functionResult r.name outcome
  | binary operator _ _ =>
      exact bind fun v => bind fun w => computes (v.computes_binaryBy operator w)
  | unary operator _ => exact bind fun v => computes (v.computes_unaryBy operator)
  | logical operator _ _ =>
      refine ite ?_ (ite ?_ (fail _))
      · exact bind fun _ => ite (bind fun _ => pure nofun) (pure nofun)
      · exact bind fun _ => ite (pure nofun) (bind fun _ => pure nofun)
  | negation operator _ => exact bind fun _ => ite (pure nofun) (fail _)
  | comparison _ _ _ => exact bind fun _ => bind fun _ => bind fun _ => pure nofun
  | truth _ => exact bind fun _ => pure nofun

end Finds

/-- What an expression comes to is something. -/
theorem perform_something {d : Nat} {node : Node} {m after : Machine} {v : Value}
    (h : node.IsExpression) (hrun : perform d (.eval node) m = .ok v after) : v ≠ .nothing := by
  cases d with
  | zero => exact nomatch hrun
  | succ d =>
      -- the last step of an expression decides, so nothing is assumed of what it asks for
      have hmeets : (Action.step (.eval node) m).Meets Contract.free
          (fun next _ => ∃ w, next = .value w ∧ w ≠ .nothing) fun _ _ => True := by
        refine Action.Meets.bind ((Finds.expression h m).mono ?_ fun _ _ h => h)
        exact fun w _ hw => ⟨w, rfl, hw⟩
      have hend := hmeets.carryOut (d := d) fun _ _ _ _ => trivial
      rw [perform] at hrun
      generalize (Action.step (.eval node) m).carryOut (perform d) = e at hend hrun
      cases e with
      | error e _ => cases hrun
      | ok next _ =>
          obtain ⟨w, rfl, hw⟩ := hend
          cases hrun
          exact hw

end BraceScript
