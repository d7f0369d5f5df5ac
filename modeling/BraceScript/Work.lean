import BraceScript.Machine

/-! # Work — runs that ask for other runs

    What a part of a program does is work: it changes the machine, and it asks for other parts to be
    run and goes on with how they end.  Work itself does not run what it asks for, so it is finite,
    and it can be read off what a part asks for and in which order.  An action is work from any
    machine on; steps of a program that ask for nothing are actions too. -/

namespace BraceScript

/-- What can be asked for: to run a part of a program, or a loop from its next round on. -/
inductive Task where
  | eval (node : Node)
  | whileLoop (test body : Node)
  | forLoop (height : Nat) (name : String) (last step : Value) (body : Node)

/-- How something ends, and the machine behind it. -/
abbrev Ending (α : Type) := EStateM.Result Exit Machine α

/-- Work that has ended, or that asks for a task on a machine and goes on with how it ends. -/
inductive Work (α : Type) where
  | ended (e : Ending α)
  | ask (task : Task) (m : Machine) (next : Ending Value → Work α)

/-- Work that begins on any machine. -/
def Action (α : Type) : Type := Machine → Work α

namespace Work

variable {α β : Type}

/-- Goes on with an action where work completes. -/
def bind : Work α → (α → Action β) → Work β
  | .ended (.ok a m), f => f a m
  | .ended (.error e m), _ => .ended (.error e m)
  | .ask task m next, f => .ask task m fun e => (next e).bind f

/-- The same work, completing with the way it ends. -/
def caught : Work α → Work (Except Exit α)
  | .ended (.ok a m) => .ended (.ok (.ok a) m)
  | .ended (.error e m) => .ended (.ok (.error e) m)
  | .ask task m next => .ask task m fun e => (next e).caught

/-- Carries work out, given how tasks run. -/
def carryOut (run : Task → Eval Value) : Work α → Ending α
  | .ended e => e
  | .ask task m next => (next (run task m)).carryOut run

/-- What work asks for while it is carried out, in order. -/
def asked (run : Task → Eval Value) : Work α → List (Task × Machine)
  | .ended _ => []
  | .ask task m next => (task, m) :: (next (run task m)).asked run

end Work

namespace Action

instance : Monad Action where
  pure a := fun m => .ended (.ok a m)
  bind x f := fun m => (x m).bind f

/-- A step that asks for nothing. -/
instance : MonadLift Eval Action where
  monadLift x := fun m => .ended (x m)

/-- Asks for a task. -/
def ask (task : Task) : Action Value := fun m => .ask task m .ended

/-- Asks for the run of a part of a program. -/
def eval (node : Node) : Action Value := ask (.eval node)

/-- Ends without completing. -/
def leave {α : Type} (e : Exit) : Action α := fun m => .ended (.error e m)

/-- The same action, completing with the way it ends. -/
def caught {α : Type} (x : Action α) : Action (Except Exit α) := fun m => (x m).caught

end Action

end BraceScript
