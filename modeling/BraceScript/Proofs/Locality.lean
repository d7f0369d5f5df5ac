import BraceScript.Proofs.Frame

/-! # Locality — what a run can change

    A run alone, on a single record, says everything about the run of the same part over other
    records.

    * `perform_below`: a part leaves the records below the top one;
    * `perform_leaves`: expressions and calls leave the top record, too, since bodies run on records
      of their own;
    * `eval_local`: all of it together, with the outcome of the run and what it shows. -/

namespace BraceScript

open Eval (perform)

variable {α β : Type}

/-! ## What is left behind -/

/-- The machine on which a part runs alone, over the records below. -/
theorem Machine.over_alone {m : Machine} {r : Record} {S : CallStack} (hs : m.stack = r :: S) :
    Machine.over S m.history ⟨[r], m.functions, m.procedures, []⟩ = m := by
  obtain ⟨stack, functions, procedures, history⟩ := m
  subst hs
  rfl

/-- A run on a single record leaves that record at the bottom of the stack. -/
theorem perform_alone (d : Nat) (task : Task) {m : Machine} {r : Record} (hs : m.stack = [r]) :
    ∃ T r', (Ending.machine (perform d task m)).stack = T ++ [r'] ∧ r'.header = r.header := by
  -- the headers behind the run end in that of `r`, so its record is the last one
  obtain ⟨front, hfront⟩ := perform_headers d task (m := m) (by rw [hs]; nofun)
  rw [Machine.headers_cons hs] at hfront
  obtain ⟨T, bottom, hstack, -, hbottom⟩ := List.map_eq_append_iff.mp hfront.symm
  obtain ⟨r', rfl, hr'⟩ := List.map_eq_singleton_iff.mp hbottom
  exact ⟨T, r', hstack, hr'⟩

/-- A part that runs leaves the records below the top one, and the header of that. -/
theorem perform_below (d : Nat) (node : Node) {m : Machine} {r : Record} {S : CallStack}
    (hs : m.stack = r :: S) :
    ∃ T r', (Ending.machine (perform d (.eval node) m)).stack = T ++ r' :: S ∧
      r'.header = r.header := by
  -- the same run on `r` alone says what stands on top of the records below
  have hover := eval_over d node S m.history (m := ⟨[r], m.functions, m.procedures, []⟩) nofun
  rw [Machine.over_alone hs] at hover
  obtain ⟨T, r', hstack, hheader⟩ := perform_alone d (.eval node)
    (m := ⟨[r], m.functions, m.procedures, []⟩) rfl
  refine ⟨T, r', ?_, hheader⟩
  show (Ending.machine (Eval.eval d node m)).stack = _
  rw [hover, Ending.machine_over]
  show (Ending.machine _).stack ++ S = _
  rw [Eval.eval, hstack, List.append_assoc, List.singleton_append]

/-- Behind a run, popping one record leaves those below the one that it found on top. -/
theorem suffix_of_append_eq_cons {T S rest : CallStack} {r r' : Record}
    (h : T ++ r' :: S = r :: rest) : S <:+ rest := by
  cases T with
  | nil =>
      obtain ⟨-, rfl⟩ := List.cons.inj h
      exact List.suffix_rfl
  | cons t T =>
      rw [← (List.cons.inj h).2]
      exact (List.suffix_cons r' S).trans (List.suffix_append T _)

/-- Expressions, and bodies on records of their own, leave the records that they found. -/
def Contract.above (W : String → Prop) : Contract CallStack where
  pre k task m := ∃ node, task = .eval node ∧
    ((Formed W .expression node ∧ k <:+ m.stack) ∨ ∃ r rest, m.stack = r :: rest ∧ k <:+ rest)
  post k _ _ e := k <:+ (Ending.machine e).stack

namespace Above

variable {W : String → Prop} {k : CallStack}

/-- An action leaves the records `k`. -/
abbrev Leaves (W : String → Prop) (k : CallStack) (x : Action α) : Prop :=
  Keeps (Contract.above W) (fun m => k <:+ m.stack) (fun _ m => k <:+ m.stack) x

theorem sturdy (k : CallStack) : Sturdy (fun m => k <:+ m.stack) (fun _ m => k <:+ m.stack) :=
  Keeps.sturdy fun _ _ hm => hm

theorem leaves_eval {node : Node} (h : Formed W .expression node) :
    Leaves W k (Action.eval node) := by
  intro m hm
  refine Action.Meets.ask k ⟨node, rfl, .inl ⟨h, hm⟩⟩ ?_ ?_
  · exact fun _ _ _ _ hpost => hpost
  · exact fun _ _ _ _ hpost => hpost

theorem leaves_attempt (x : Except Fault α) :
    Leaves W k (liftM (Eval.attempt x) : Action α) := .attempt (fun _ _ hm => hm) x

/-- A call pops a record, which is above those that it found. -/
theorem leaves_call (kind : RecordKind) (callee : Option Routine) (values : List Value)
    (result : String → Value → Except Fault Value) :
    Leaves W k (do
      let r ← liftM (Eval.enterCall kind callee values)
      let outcome ← Action.runBody r.body
      liftM (Eval.attempt (result r.name outcome))) := by
  intro m hm
  refine Action.Meets.bind ?_
  show (Work.ended (Eval.enterCall kind callee values m)).Meets _ _ _
  cases hs : m.stack with
  | nil =>
      simp only [Eval.enterCall, bind, EStateM.bind, Eval.top_nil hs]
      exact hm
  | cons r rest =>
      cases callee with
      | none =>
          simp only [Eval.enterCall, bind, EStateM.bind, Eval.top_cons hs]
          exact hm
      | some p =>
          rw [Eval.enterCall_cons hs, ← hs]
          refine Action.Meets.bind (Action.Meets.bind ?_)
          refine Action.Meets.ask k ⟨p.body, rfl, .inr ⟨_, m.stack, rfl, hm⟩⟩ ?_ ?_
          · intro d v after hrun _
            obtain ⟨T, r', hstack, -⟩ := perform_below d p.body (m := { m with
              stack := Eval.calleeRecord kind p values r :: m.stack
              history := .pushed (Eval.calleeRecord kind p values r) :: m.history }) rfl
            rw [hrun, Ending.machine_ok] at hstack
            refine Action.Meets.bind ?_
            show (Work.ended (Eval.pop after)).Meets _ _ _
            cases hafter : after.stack with
            | nil =>
                -- there is at least the record of the callee to pop
                rw [hafter] at hstack
                exact absurd (List.append_eq_nil_iff.mp hstack.symm).2 (List.cons_ne_nil _ _)
            | cons top rest =>
                rw [Eval.pop_cons hafter]
                have hrest := suffix_of_append_eq_cons (hstack.symm.trans hafter)
                exact leaves_attempt (result p.name v) _ (hm.trans hrest)
          · exact fun _ _ _ _ hpost => hpost

theorem leaves_functionCall {callee : Node} {arguments : List Node}
    (h : ∀ a ∈ arguments, Formed W .expression a) :
    Leaves W k (Action.evaluate (.functionCall callee arguments)) := by
  refine (leaves_attempt _).bind fun name => Keeps.bind (fun _ hm => hm) fun found => ?_
  refine (Keeps.evalAll fun a ha => leaves_eval (h a ha)).bind fun values => ?_
  exact leaves_call _ _ values _

theorem leaves_procedureCall {callee : Node} {arguments : List Node}
    (h : ∀ a ∈ arguments, Formed W .expression a) :
    Leaves W k (Action.evaluate (.procedureCall callee arguments)) := by
  refine (leaves_attempt _).bind fun name => Keeps.bind (fun _ hm => hm) fun found => ?_
  refine (Keeps.evalAll fun a ha => leaves_eval (h a ha)).bind fun values => ?_
  exact leaves_call _ _ values _

theorem leaves_expression {node : Node} (h : Formed W .expression node) :
    Leaves W k (Action.evaluate node) := by
  refine (sturdy k).keeps_expression h (fun _ hpart => leaves_eval (h.operand hpart)) ?_ ?_
  · rintro name rfl
    exact Keeps.valueOf (fun _ _ hm => hm) name
  · rintro callee arguments rfl
    cases h with
    | functionCall _ harguments => exact leaves_functionCall harguments

/-- What a part leaves that leaves the records which it found. -/
theorem perform_suffix {d : Nat} {node : Node} {m : Machine}
    (hrun : ∀ k t m, (Contract.above W).pre k t m → (Contract.above W).post k t m (perform d t m))
    (hnode : Leaves W m.stack (Action.evaluate node)) :
    m.stack <:+ (Ending.machine (perform (d + 1) (.eval node) m)).stack := by
  have hmeets : (Action.step (.eval node) m).Meets (Contract.above W)
      (fun next after => (∃ v, next = .value v) ∧ m.stack <:+ after.stack)
      (fun _ after => m.stack <:+ after.stack) := by
    refine Action.Meets.bind ((hnode m List.suffix_rfl).mono ?_ fun _ _ h => h)
    exact fun v after hafter => ⟨⟨v, rfl⟩, hafter⟩
  have hend := hmeets.carryOut hrun
  rw [perform]
  generalize (Action.step (.eval node) m).carryOut (perform d) = e at hend ⊢
  cases e with
  | error e after => exact hend
  | ok next after =>
      obtain ⟨⟨v, rfl⟩, hafter⟩ := hend
      exact hafter

theorem above_fulfilled (W : String → Prop) (d : Nat) :
    ∀ k t m, (Contract.above W).pre k t m → (Contract.above W).post k t m (perform d t m) := by
  induction d with
  | zero =>
      rintro k t m ⟨node, rfl, ⟨_, hm⟩ | ⟨r, rest, hs, hk⟩⟩
      · exact hm
      · show k <:+ m.stack
        rw [hs]
        exact hk.trans (List.suffix_cons r rest)
  | succ d ih =>
      rintro k t m ⟨node, rfl, ⟨hnode, hm⟩ | ⟨r, rest, hs, hk⟩⟩
      -- an expression leaves what its parts leave, and those are run to the depth below
      · exact hm.trans (perform_suffix ih (leaves_expression hnode))
      · -- a body on a record of its own may change that record, but not those below
        obtain ⟨T, r', hstack, -⟩ := perform_below (d + 1) node hs
        show k <:+ (Ending.machine (perform (d + 1) (.eval node) m)).stack
        rw [hstack]
        exact (hk.trans (List.suffix_cons r' rest)).trans (List.suffix_append T _)

end Above

/-- A part that changes no record it finds: an expression, or a call of a procedure. -/
def Node.LeavesRecords (node : Node) : Prop :=
  node.IsExpression ∨ ∃ callee arguments, node = .procedureCall callee arguments ∧
    ∀ a ∈ arguments, a.IsExpression

/-- Expressions and calls leave every record that they find. -/
theorem perform_leaves (d : Nat) {node : Node} (h : node.LeavesRecords) (m : Machine) :
    m.stack <:+ (Ending.machine (perform d (.eval node) m)).stack := by
  cases d with
  | zero => exact List.suffix_rfl
  | succ d =>
      refine Above.perform_suffix (Above.above_fulfilled (fun _ => True) d) ?_
      rcases h with h | ⟨callee, arguments, rfl, h⟩
      · exact Above.leaves_expression h
      · exact Above.leaves_procedureCall h

/-! ## Programs -/

/-- The record of a program. -/
abbrev Record.program : Record := Record.make "program" .program 1

/-- The machine on which the body of a program starts. -/
def Machine.started : Machine := ⟨[Record.program], [], [], [.pushed Record.program]⟩

theorem Machine.started_ne_nil : Machine.started.stack ≠ [] := List.cons_ne_nil _ _

theorem Work.asked_bind (run : Task → Eval Value) (w : Work α) (f : α → Action β) :
    (w.bind f).asked run = w.asked run ++
      match w.carryOut run with
      | .ok a m => (f a m).asked run
      | .error _ _ => [] := by
  induction w with
  | ended e => cases e <;> rfl
  | ask task m next ih =>
      show (task, m) :: ((next (run task m)).bind f).asked run = _
      rw [ih]
      rfl

section

variable {run : Task → Eval Value} {w : Work α} {f : α → Action β} {m n : Machine}

/-- A sequence completes behind its first part. -/
theorem Work.carryOut_bind_eq_ok {b : β} : (w.bind f).carryOut run = .ok b n ↔
    ∃ a m, w.carryOut run = .ok a m ∧ (f a m).carryOut run = .ok b n := by
  rw [Work.carryOut_bind]
  cases w.carryOut run <;> simp [and_assoc]

/-- A sequence exits with its first part, or behind it. -/
theorem Work.carryOut_bind_eq_error {e : Exit} : (w.bind f).carryOut run = .error e n ↔
    w.carryOut run = .error e n ∨
      ∃ a m, w.carryOut run = .ok a m ∧ (f a m).carryOut run = .error e n := by
  rw [Work.carryOut_bind]
  cases w.carryOut run <;> simp [and_assoc]

/-- What is asked for in a sequence is asked for in its first part, or behind it. -/
theorem Work.mem_asked_bind {p : Task × Machine} : p ∈ (w.bind f).asked run ↔
    p ∈ w.asked run ∨ ∃ a m, w.carryOut run = .ok a m ∧ p ∈ (f a m).asked run := by
  rw [Work.asked_bind, List.mem_append]
  cases w.carryOut run <;> simp [and_assoc]

end

/-- What a program does: its body runs on the record of the program, which is popped if the body
    completes. -/
theorem step_program (body : Node) :
    Action.step (.eval (.program body)) Machine.initial =
      ((Action.runBody body Machine.started).bind fun _ => Pure.pure Value.nothing).bind
        fun v => Pure.pure (.value v) := rfl

theorem carryOut_program (run : Task → Eval Value) (body : Node) :
    (Action.step (.eval (.program body)) Machine.initial).carryOut run =
      match (Action.runBody body Machine.started).carryOut run with
      | .ok _ m => .ok (.value .nothing) m
      | .error e m => .error e m := by
  rw [step_program, Work.carryOut_bind, Work.carryOut_bind]
  cases (Action.runBody body Machine.started).carryOut run <;> rfl

theorem Action.asked_runBody (run : Task → Eval Value) (body : Node) (m : Machine) :
    (Action.runBody body m).asked run = [(.eval body, m)] := by
  show (Work.bind (Action.eval body m) _).asked run = _
  rw [Work.asked_bind, Work.carryOut_eval]
  cases run (.eval body) m with
  | error e after => rfl
  | ok v after =>
      show [_] ++ (Work.bind (.ended (Eval.pop after)) _).asked run = _
      cases Eval.pop after <;> rfl

theorem asked_program (run : Task → Eval Value) (body : Node) :
    (Action.step (.eval (.program body)) Machine.initial).asked run =
      [(.eval body, Machine.started)] := by
  rw [step_program, Work.asked_bind, Work.asked_bind, Action.asked_runBody]
  rw [Work.carryOut_bind]
  cases (Action.runBody body Machine.started).carryOut run <;> rfl

/-- How the run of a program goes. -/
theorem interpret_program (d : Nat) (body : Node) :
    interpret (d + 1) (.program body) =
      match (Action.runBody body Machine.started).carryOut (perform d) with
      | .ok _ m => ⟨none, m⟩
      | .error e m => ⟨some e, m⟩ := by
  unfold interpret Eval.eval
  rw [perform, carryOut_program]
  cases (Action.runBody body Machine.started).carryOut (perform d) <;> rfl

/-- The run of a program comes to the program, and to what the run of its body comes to. -/
theorem visits_program (d : Nat) (body : Node) :
    visits (d + 1) (.eval (.program body)) Machine.initial =
      ⟨d + 1, .eval (.program body), Machine.initial⟩ :: visits d (.eval body) Machine.started := by
  rw [visits, asked_program, carryOut_program, List.flatMap_singleton]
  cases (Action.runBody body Machine.started).carryOut (perform d) <;>
    exact congrArg _ (List.append_nil _)

/-- A program that does not complete ends as its body does: there is a record to pop. -/
theorem exit_program {depth : Nat} {body : Node} {e : Exit}
    (h : (interpret depth (.program body)).exit = some e) :
    e = .exhausted ∨ ∃ d after, perform d (.eval body) Machine.started = .error e after := by
  cases depth with
  | zero => exact .inl (Option.some.inj h).symm
  | succ d =>
      rw [interpret_program, Action.carryOut_runBody] at h
      cases hrun : perform d (.eval body) Machine.started with
      | error e' after =>
          rw [hrun] at h
          obtain rfl := Option.some.inj h
          exact .inr ⟨d, after, hrun⟩
      | ok v after =>
          -- the record of the program is still there, so that popping does not fail
          have hheads := perform_headers d (.eval body) Machine.started_ne_nil
          rw [hrun] at hheads h
          have hafter : after.stack ≠ [] :=
            Machine.stack_ne_nil (mt Machine.headers_eq_nil.mp Machine.started_ne_nil) hheads
          obtain ⟨r, rest, hs⟩ := List.exists_cons_of_ne_nil hafter
          simp only [Eval.pop_cons hs] at h
          exact nomatch h

/-- No program takes a record from an empty stack. -/
theorem interpret_not_underflow (depth : Nat) (body : Node) (f : Fault)
    (h : (interpret depth (.program body)).exit = some (.fault f)) : ¬ f.IsUnderflow := by
  rcases exit_program h with hexhausted | ⟨d, after, hrun⟩
  · exact nomatch hexhausted
  · exact perform_not_underflow Machine.started_ne_nil hrun

/-- An outcome, with the machine behind it. -/
def Ending.of (outcome : Except Exit α) (m : Machine) : Ending α :=
  match outcome with
  | .ok a => .ok a m
  | .error e => .error e m

/-- How an ending came about, without the machine. -/
def Ending.outcome : Ending α → Except Exit α
  | .ok a _ => .ok a
  | .error e _ => .error e

theorem Ending.over_eq_of (S : CallStack) (H : List Event) (e : Ending α) :
    e.over S H = Ending.of e.outcome ((Ending.machine e).over S H) := by
  cases e <;> rfl

/-- What a part does depends on the top record and the tables alone.  It leaves every record below,
    and the header of the top one; expressions and calls leave that record, too.  No run takes a
    record from an empty stack. -/
theorem eval_local :
    (∀ (depth : Nat) (node : Node) (r : Record) (functions : Table Function)
      (procedures : Table Routine),
      ∃ (outcome : Except Exit Value) (T : CallStack) (r' : Record) (functions' : Table Function)
        (procedures' : Table Routine) (events : List Event),
        r'.header = r.header ∧ (node.LeavesRecords → r' = r) ∧
        (∀ f, outcome = .error (.fault f) → ¬ f.IsUnderflow) ∧
        ∀ (S : CallStack) (H : List Event),
          Eval.eval depth node ⟨r :: S, functions, procedures, H⟩ =
            Ending.of outcome ⟨T ++ r' :: S, functions', procedures', events ++ H⟩) ∧
    ∀ (depth : Nat) (body : Node) (f : Fault),
      (interpret depth (.program body)).exit = some (.fault f) → ¬ f.IsUnderflow := by
  refine ⟨?_, interpret_not_underflow⟩
  intro depth node r functions procedures
  -- the run on `r` alone gives all there is to say, also about runs over other records
  let alone : Machine := ⟨[r], functions, procedures, []⟩
  obtain ⟨T, r', hstack, hheader⟩ := perform_alone depth (.eval node) (m := alone) rfl
  change (Ending.machine (Eval.eval depth node alone)).stack = T ++ [r'] at hstack
  have hover := fun S H => eval_over depth node S H (m := alone) nofun
  have hleaves : node.LeavesRecords →
      [r] <:+ (Ending.machine (Eval.eval depth node alone)).stack :=
    fun h => perform_leaves depth h alone
  have hfault : ∀ f after, Eval.eval depth node alone = .error (.fault f) after →
      ¬ f.IsUnderflow := fun f after => perform_not_underflow nofun
  generalize Eval.eval depth node alone = e at hstack hover hleaves hfault
  refine ⟨Ending.outcome e, T, r', (Ending.machine e).functions, (Ending.machine e).procedures,
    (Ending.machine e).history, hheader, fun h => ?_, fun f hf => ?_, fun S H => ?_⟩
  -- the last record behind the run is `r'`, and it is `r` where no record changes
  · obtain ⟨front, hfront⟩ := hleaves h
    rw [hstack] at hfront
    exact (List.cons.inj (List.append_inj_right' hfront rfl)).1.symm
  · cases e with
    | ok v after => exact nomatch hf
    | error x after => cases hf; exact hfault f after rfl
  · refine (hover S H).trans ?_
    rw [Ending.over_eq_of, Machine.over, hstack, List.append_assoc, List.singleton_append]

end BraceScript
