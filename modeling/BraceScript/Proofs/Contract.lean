import BraceScript.Evaluation

/-! # Contracts — what tasks may rely on and what they promise

    A property of whole runs is proved one task at a time.  A contract says what a task finds when
    it is asked for, in some context, and what holds however it ends.  Work meets a contract when
    it asks only for tasks whose precondition holds and, trusting what those promise, ends as it
    has promised itself.

    * `Contract.fulfilled`: if the work of every task meets the contract, then every run, of any
      depth, ends as promised;
    * `Contract.visited`: and every task that a run comes to finds its precondition.

    Each property is then one case analysis of `Action.step`, with no induction of its own. -/

namespace BraceScript

open Eval (perform)

variable {α β κ : Type}

/-- The machine behind an ending. -/
def Ending.machine : Ending α → Machine
  | .ok _ m => m
  | .error _ m => m

@[simp] theorem Ending.machine_ok (a : α) (m : Machine) :
    Ending.machine (.ok a m : Ending α) = m := rfl

@[simp] theorem Ending.machine_error (e : Exit) (m : Machine) :
    Ending.machine (.error e m : Ending α) = m := rfl

/-- What tasks rely on and what they promise, in contexts of type `κ`. -/
structure Contract (κ : Type) where
  pre : κ → Task → Machine → Prop
  post : κ → Task → Machine → Ending Value → Prop

namespace Work

/-- Work asks only for what a contract allows and ends as `ok` and `err` say.  How a task it asks
    for ends is how some run of that task ends. -/
def Meets (C : Contract κ) (ok : α → Machine → Prop) (err : Exit → Machine → Prop) :
    Work α → Prop
  | .ended (.ok a m) => ok a m
  | .ended (.error e m) => err e m
  | .ask task m next => ∃ k, C.pre k task m ∧
      ∀ d, C.post k task m (perform d task m) → (next (perform d task m)).Meets C ok err

theorem Meets.mono {C : Contract κ} {ok ok' : α → Machine → Prop}
    {err err' : Exit → Machine → Prop} {w : Work α} (h : w.Meets C ok err)
    (hok : ∀ a m, ok a m → ok' a m) (herr : ∀ e m, err e m → err' e m) :
    w.Meets C ok' err' := by
  induction w with
  | ended e =>
      cases e with
      | ok a m => exact hok a m h
      | error e m => exact herr e m h
  | ask task m next ih =>
      obtain ⟨k, hpre, hnext⟩ := h
      exact ⟨k, hpre, fun d hpost => ih _ (hnext d hpost)⟩

theorem Meets.bind {C : Contract κ} {ok : β → Machine → Prop} {err : Exit → Machine → Prop}
    {w : Work α} {f : α → Action β} (h : w.Meets C (fun a m => (f a m).Meets C ok err) err) :
    (w.bind f).Meets C ok err := by
  induction w with
  | ended e =>
      cases e with
      | ok a m => exact h
      | error e m => exact h
  | ask task m next ih =>
      obtain ⟨k, hpre, hnext⟩ := h
      exact ⟨k, hpre, fun d hpost => ih _ (hnext d hpost)⟩

theorem Meets.caught {C : Contract κ} {ok : Except Exit α → Machine → Prop}
    {err : Exit → Machine → Prop} {w : Work α}
    (h : w.Meets C (fun a m => ok (.ok a) m) (fun e m => ok (.error e) m)) :
    w.caught.Meets C ok err := by
  induction w with
  | ended e =>
      cases e with
      | ok a m => exact h
      | error e m => exact h
  | ask task m next ih =>
      obtain ⟨k, hpre, hnext⟩ := h
      exact ⟨k, hpre, fun d hpost => ih _ (hnext d hpost)⟩

/-- Work meets a contract that nothing is asked of, if nothing is expected of the end. -/
theorem meets_any {C : Contract κ} (hpre : ∀ task m, ∃ k, C.pre k task m) (w : Work α) :
    w.Meets C (fun _ _ => True) fun _ _ => True := by
  induction w with
  | ended e => cases e <;> trivial
  | ask task m next ih =>
      obtain ⟨k, hk⟩ := hpre task m
      exact ⟨k, hk, fun d _ => ih _⟩

/-- Work that meets a contract ends as it says, if what it asks for does. -/
theorem Meets.carryOut {C : Contract κ} {ok : α → Machine → Prop}
    {err : Exit → Machine → Prop} {w : Work α} (h : w.Meets C ok err) {d : Nat}
    (hrun : ∀ k t m, C.pre k t m → C.post k t m (perform d t m)) :
    (Work.ended (w.carryOut (perform d))).Meets C ok err := by
  induction w with
  | ended e => exact h
  | ask task m next ih =>
      obtain ⟨k, hpre, hnext⟩ := h
      exact ih _ (hnext d (hrun k task m hpre))

/-- Whatever it asks for on the way finds its precondition. -/
theorem Meets.asked {C : Contract κ} {ok : α → Machine → Prop}
    {err : Exit → Machine → Prop} {w : Work α} (h : w.Meets C ok err) {d : Nat}
    (hrun : ∀ k t m, C.pre k t m → C.post k t m (perform d t m)) :
    ∀ p ∈ w.asked (perform d), ∃ k, C.pre k p.1 p.2 := by
  induction w with
  | ended e =>
      intro p hp
      exact nomatch hp
  | ask task m next ih =>
      obtain ⟨k, hpre, hnext⟩ := h
      intro p hp
      rcases List.mem_cons.mp hp with rfl | hp
      · exact ⟨k, hpre⟩
      · exact ih _ (hnext d (hrun k task m hpre)) p hp

end Work

namespace Contract

variable (C : Contract κ)

/-- What a task owes when its own work completes: its promise, or a task to go on as. -/
def owed (k : κ) (task : Task) (m : Machine) : Action.Next → Machine → Prop
  | .value v, after => C.post k task m (.ok v after)
  | .task next, after => ∃ k', C.pre k' next after ∧
      ∀ d, C.post k' next after (perform d next after) →
        C.post k task m (perform d next after)

/-- The work of every task meets the contract, and so does a run that is cut off at once. -/
structure Kept : Prop where
  step : ∀ k task m, C.pre k task m →
    (Action.step task m).Meets C (C.owed k task m) fun e after => C.post k task m (.error e after)
  exhausted : ∀ k task m, C.pre k task m → C.post k task m (.error .exhausted m)

variable {C}

/-- Every run ends as its task promises. -/
theorem fulfilled (h : C.Kept) :
    ∀ (d : Nat) (k : κ) (task : Task) (m : Machine), C.pre k task m →
      C.post k task m (perform d task m) := by
  intro d
  induction d with
  | zero => intro k task m hpre; exact h.exhausted k task m hpre
  | succ d ih =>
      intro k task m hpre
      -- what the work of the task asks for is one level below, where the induction applies
      have hend := (h.step k task m hpre).carryOut ih
      rw [perform]
      cases hw : (Action.step task m).carryOut (perform d) with
      | error e after => rw [hw] at hend; exact hend
      | ok next after =>
          rw [hw] at hend
          cases next with
          | value v => exact hend
          | task next =>
              -- a loop goes on as a task whose promise is enough for its own
              obtain ⟨k', hpre', hpost⟩ := hend
              exact hpost d (ih k' next after hpre')

/-- Every task that a run comes to finds its precondition. -/
theorem visited (h : C.Kept) :
    ∀ (d : Nat) (k : κ) (task : Task) (m : Machine), C.pre k task m →
      ∀ v ∈ visits d task m, ∃ k, C.pre k v.task v.machine := by
  intro d
  induction d with
  | zero =>
      intro k task m hpre v hv
      obtain rfl := List.mem_singleton.mp hv
      exact ⟨k, hpre⟩
  | succ d ih =>
      intro k task m hpre v hv
      have hmeets := h.step k task m hpre
      rw [visits, List.mem_cons, List.mem_append] at hv
      rcases hv with rfl | hbelow | hbehind
      · exact ⟨k, hpre⟩
      -- what the work of the task asks for
      · obtain ⟨p, hp, hv⟩ := List.mem_flatMap.mp hbelow
        obtain ⟨k', hpre'⟩ := hmeets.asked (fulfilled h d) p hp
        exact ih k' p.1 p.2 hpre' v hv
      -- what a loop goes on as
      · have hend := hmeets.carryOut (fulfilled h d)
        cases hw : (Action.step task m).carryOut (perform d) with
        | error e after => rw [hw] at hbehind; exact nomatch hbehind
        | ok next after =>
            rw [hw] at hend hbehind
            cases next with
            | value v => exact nomatch hbehind
            | task next =>
                obtain ⟨k', hpre', -⟩ := hend
                exact ih k' next after hpre' v hbehind

end Contract

/-! ## Actions that meet a contract -/

namespace Action

/-- Steps in sequence are actions in sequence. -/
theorem liftM_bind (x : Eval α) (f : α → Eval β) :
    (liftM (x >>= f) : Action β) = liftM x >>= fun a => liftM (f a) := by
  funext m
  show Work.ended ((x >>= f) m) = (Work.ended (x m)).bind fun a => liftM (f a)
  show Work.ended (EStateM.bind x f m) = _
  unfold EStateM.bind
  cases x m <;> rfl

variable {C : Contract κ} {m : Machine}

/-- The work of an action on a machine meets a contract. -/
abbrev Meets (C : Contract κ) (x : Action α) (m : Machine) (ok : α → Machine → Prop)
    (err : Exit → Machine → Prop) : Prop :=
  (x m).Meets C ok err

theorem Meets.pure {ok : α → Machine → Prop} {err : Exit → Machine → Prop} {a : α}
    (h : ok a m) : Meets C (Pure.pure a) m ok err := h

theorem Meets.bind {ok : β → Machine → Prop} {err : Exit → Machine → Prop} {x : Action α}
    {f : α → Action β} (h : Meets C x m (fun a after => Meets C (f a) after ok err) err) :
    Meets C (x >>= f) m ok err := Work.Meets.bind h

theorem Meets.caught {ok : Except Exit α → Machine → Prop} {err : Exit → Machine → Prop}
    {x : Action α} (h : Meets C x m (fun a after => ok (.ok a) after)
      (fun e after => ok (.error e) after)) :
    Meets C (Action.caught x) m ok err := Work.Meets.caught h

/-- Asking for a task: its precondition is due, and its promise can be relied on. -/
theorem Meets.ask {ok : Value → Machine → Prop} {err : Exit → Machine → Prop} {task : Task}
    (k : κ) (hpre : C.pre k task m)
    (hok : ∀ d v after, perform d task m = .ok v after → C.post k task m (.ok v after) →
      ok v after)
    (herr : ∀ d e after, perform d task m = .error e after →
      C.post k task m (.error e after) → err e after) :
    Meets C (Action.ask task) m ok err := by
  refine ⟨k, hpre, fun d hpost => ?_⟩
  cases hrun : perform d task m with
  | ok v after =>
      rw [hrun] at hpost
      exact hok d v after hrun hpost
  | error e after =>
      rw [hrun] at hpost
      exact herr d e after hrun hpost

/-- An outcome that may be a fault. -/
theorem Meets.attempt {ok : α → Machine → Prop} {err : Exit → Machine → Prop}
    {x : Except Fault α} (hok : ∀ a, x = .ok a → ok a m)
    (herr : ∀ f, x = .error f → err (.fault f) m) :
    Meets C (liftM (Eval.attempt x) : Action α) m ok err := by
  cases x with
  | ok a => exact hok a rfl
  | error f => exact herr f rfl

end Action

end BraceScript
