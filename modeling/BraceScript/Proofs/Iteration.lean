import Mathlib
import BraceScript.Proofs.Deepening
import BraceScript.Proofs.Rounds

/-! # Iteration — how often a for loop runs its body

    A for loop over integers whose body completes in every round goes through the integers from its
    first one by its step, whatever the body does to the variable.  It does so in the record that
    was on top of the stack when it began, and calls in the body leave this record where it is.

    * `rounds`, `loopRounds`: what a loop asks for round by round;
    * `Eval.past_iff_count`: the integers of a loop, counted;
    * `loop_counts`: the rounds of a loop that comes to its end;
    * `loop_cut`: a loop that stands still is cut off at every depth;
    * `HeaderEnds.leadsTo`: from a for statement to its loop;
    * `for_iterates`: the runs of the body of a for statement. -/

namespace BraceScript

open Eval (perform Past)

variable {α β : Type}

/-! ## Rounds in sequence -/

/-- Whether a task is a loop, from its next round on. -/
def Task.isLoop : Task → Bool
  | .eval _ => false
  | .whileLoop _ _ | .forLoop _ _ _ _ _ => true

/-- The visits that a task asks for itself, in all its rounds. -/
def rounds : (depth : Nat) → Task → Machine → List Visit
  | 0, _, _ => []
  | depth + 1, task, m =>
      let behind := match (Action.step task m).carryOut (perform depth) with
        | .ok (.task next) after => rounds depth next after
        | _ => []
      Visit.asks ⟨depth + 1, task, m⟩ ++ behind

/-- The visits that the loops of a part of a program ask for, in all their rounds. -/
def loopRounds (depth : Nat) (node : Node) (m : Machine) : List Visit :=
  ((Visit.asks ⟨depth, .eval node, m⟩).filter (·.task.isLoop)).flatMap fun loop =>
    rounds loop.depth loop.task loop.machine

/-- What is asked for in a round is visited, and is what the task may ask for. -/
theorem mem_rounds {d : Nat} {task : Task} {m : Machine} {u : Visit} (hu : u ∈ rounds d task m) :
    u ∈ visits d task m ∧ ∃ n, task.Asks n u.task := by
  induction d generalizing m with
  | zero => exact absurd hu List.not_mem_nil
  | succ d ih =>
      rw [rounds] at hu
      rcases List.mem_append.mp hu with ha | hbehind
      · exact ⟨Visit.asks_subset_run ha, m, Visit.task_asks ha⟩
      · rcases perform_cases d task m with ⟨v, after, hstep, -⟩ | ⟨e, after, hstep, -⟩ |
          ⟨after, hstep, -⟩ <;> rw [hstep] at hbehind
        · exact absurd hbehind List.not_mem_nil
        · exact absurd hbehind List.not_mem_nil
        · obtain ⟨hvisits, hasks⟩ := ih hbehind
          exact ⟨Visit.mem_run_succ.mpr (.inr (.inr ⟨after, hstep, hvisits⟩)), hasks⟩

/-- A visit whose run completes, and gives nothing. -/
def Visit.Completes (u : Visit) : Prop :=
  ∃ v after, Action.Ends (Action.ask u.task) u.machine (.ok v after) ∧ v.given? = none

/-- With enough depth, all that the rounds of a task ask for completes. -/
def RoundsComplete (task : Task) (m : Machine) : Prop :=
  ∃ enough, ∀ d, enough ≤ d → ∀ u ∈ rounds d task m, u.Completes

/-- A loop that goes to an integer by an integer. -/
abbrev Task.counting (height : Nat) (name : String) (b s : Int) (body : Node) : Task :=
  .forLoop height name (.int b) (.int s) body

section

variable {height : Nat} {name : String} {b s c : Int} {body : Node} {m : Machine} {d : Nat}

theorem rounds_past (body : Node) (d : Nat) (h : m.cell name height = some (.int c))
    (hpast : Past c b s) :
    perform (d + 1) (.counting height name b s body) m = .ok .nothing m ∧
      rounds (d + 1) (.counting height name b s body) m = [] := by
  have hstep := step_past body h rfl (Eval.isPast_of_past hpast)
  constructor
  · rw [perform, hstep]
    rfl
  · rw [rounds, Visit.asks, hstep]
    rfl

/-- The body is run on the machine that the round finds. -/
theorem mem_rounds_within (h : m.cell name height = some (.int c)) (hwithin : ¬ Past c b s) :
    ⟨d, .eval body, m⟩ ∈ rounds (d + 1) (.counting height name b s body) m := by
  obtain ⟨next, hstep, -⟩ := step_within body h rfl (Eval.isPast_of_not_past hwithin)
  rw [rounds, Visit.asks, hstep]
  exact List.mem_append_left _ List.mem_cons_self

/-- A round whose body completes is followed by a round that finds the next integer. -/
theorem rounds_completed (h : m.cell name height = some (.int c)) (hwithin : ¬ Past c b s)
    {v : Value} {n : Machine} (hbody : perform d (.eval body) m = .ok v n) (hv : v.given? = none) :
    perform (d + 1) (.counting height name b s body) m =
        perform d (.counting height name b s body)
          (n.setAt height name (.int (c + s))) ∧
      rounds (d + 1) (.counting height name b s body) m =
        ⟨d, .eval body, m⟩ :: rounds d (.counting height name b s body)
          (n.setAt height name (.int (c + s))) := by
  obtain ⟨next, hstep, hcompleted, -⟩ := step_within body h rfl (Eval.isPast_of_not_past hwithin)
  have hnext := hcompleted v (.int (c + s)) n hv rfl
  constructor
  · rw [perform, hstep, Work.carryOut, hbody, hnext]
    rfl
  · rw [rounds, Visit.asks, hstep, Work.carryOut]
    show Visit.mk d (.eval body) m :: ((next (perform d (.eval body) m)).asked _).map _ ++ _ = _
    rw [hbody, hnext]
    rfl

/-- A round whose body is cut off is cut off. -/
theorem perform_cut_within (h : m.cell name height = some (.int c)) (hwithin : ¬ Past c b s)
    (hbody : Ending.IsCut (perform d (.eval body) m)) :
    Ending.IsCut (perform (d + 1) (.counting height name b s body) m) := by
  obtain ⟨next, hstep, -⟩ := step_within body h rfl (Eval.isPast_of_not_past hwithin)
  have hcandid := step_candid (.counting height name b s body) m
  rw [hstep] at hcandid
  obtain ⟨n, hn⟩ := hbody
  refine ⟨n, ?_⟩
  rw [perform, hstep, Work.carryOut, hn, hcandid.1 n]
  rfl

theorem cell_behind (h : m.cell name height = some (.int c)) {v : Value} {n : Machine}
    (hbody : perform d (.eval body) m = .ok v n) :
    (n.setAt height name (.int (c + s))).cell name height = some (.int (c + s)) := by
  have hheight := le_length_behind h d (.eval body)
  rw [hbody] at hheight
  exact Machine.cell_setAt (Machine.pos_of_cell h) hheight

end

/-! ## Counting -/

/-- A loop with a step is past its end from a certain round on. -/
theorem Eval.past_iff_count {a b s : Int} (hs : s ≠ 0) (k : Nat) :
    Past (a + k * s) b s ↔ (max 0 ((b - a).fdiv s + 1)).toNat ≤ k := by
  have hdiv : Past (a + k * s) b s ↔ (b - a).fdiv s < k := by
    rw [Past]
    rcases lt_or_gt_of_ne hs with hneg | hpos
    · rw [if_neg (by omega), ← Int.neg_fdiv_neg, Int.fdiv_eq_ediv_of_nonneg _ (by omega),
        Int.ediv_lt_iff_lt_mul (by omega)]
      constructor <;> intro h <;> linarith
    · rw [if_pos hpos, Int.fdiv_eq_ediv_of_nonneg _ hpos.le, Int.ediv_lt_iff_lt_mul hpos]
      constructor <;> intro h <;> linarith
  rw [hdiv]
  omega

/-! ## Loops -/

section

variable {height : Nat} {name : String} {b s : Int} {body : Node}

/-- The body completes where it is run by a loop that is not past its end. -/
theorem completes_within {c : Int} {m : Machine} (h : m.cell name height = some (.int c))
    (hwithin : ¬ Past c b s)
    (hbody : RoundsComplete (.counting height name b s body) m) :
    ∃ v n, Action.Ends (Action.eval body) m (.ok v n) ∧ v.given? = none ∧
      (n.setAt height name (.int (c + s))).cell name height = some (.int (c + s)) ∧
      RoundsComplete (.counting height name b s body) (n.setAt height name (.int (c + s))) := by
  obtain ⟨D, hD⟩ := hbody
  obtain ⟨v, n, hends, hv⟩ := hD (D + 1) (by omega) _ (mem_rounds_within h hwithin)
  obtain ⟨D', hD'⟩ := hends
  refine ⟨v, n, ⟨D', hD'⟩, hv, cell_behind h (hD' D' le_rfl), max D D', fun d hd u hu => ?_⟩
  have hrun := hD' d (le_trans (le_max_right D D') hd)
  refine hD (d + 1) (le_trans (le_max_left D D') (by omega)) u ?_
  rw [(rounds_completed h hwithin hrun hv).2]
  exact List.mem_cons_of_mem _ hu

/-- A loop that is past its end after a number of rounds runs its body as often, and finds the
    integers in turn. -/
theorem loop_counts (N : Nat) {c : Int} {m : Machine} (h : m.cell name height = some (.int c))
    (hcount : ∀ k : Nat, Past (c + k * s) b s ↔ N ≤ k)
    (hbody : RoundsComplete (.counting height name b s body) m) :
    ∃ after, after.cell name height = some (.int (c + N * s)) ∧ ∃ enough, ∀ d, enough ≤ d →
      perform d (.counting height name b s body) m = .ok .nothing after ∧
      (rounds d (.counting height name b s body) m).map
          (fun u => (u.task, u.machine.cell name height)) =
        (List.range N).map fun k => (.eval body, some (.int (c + k * s))) := by
  induction N generalizing c m with
  | zero =>
      have hpast : Past c b s := by simpa using (hcount 0).mpr le_rfl
      refine ⟨m, by simpa using h, 1, fun d hd => ?_⟩
      obtain ⟨d, rfl⟩ : ∃ d', d = d' + 1 := ⟨d - 1, by omega⟩
      obtain ⟨hperform, hrounds⟩ := rounds_past body d h hpast
      rw [hrounds]
      exact ⟨hperform, rfl⟩
  | succ N ih =>
      have hwithin : ¬ Past c b s := by
        intro hpast
        have hnone := (hcount 0).mp (by simpa using hpast)
        omega
      obtain ⟨v, n, ⟨D, hD⟩, hv, hcell, hrest⟩ := completes_within h hwithin hbody
      -- the rest of the loop begins one step further
      have hnext : ∀ k : Nat, c + s + k * s = c + (k + 1 : Nat) * s := by
        intro k
        push_cast
        ring
      have hcount' : ∀ k : Nat, Past (c + s + k * s) b s ↔ N ≤ k := by
        intro k
        rw [hnext, hcount]
        omega
      obtain ⟨after, hafter, D', hD'⟩ := ih hcell hcount' hrest
      refine ⟨after, by rw [hafter, hnext], max D D' + 1, fun d hd => ?_⟩
      obtain ⟨d, rfl⟩ : ∃ d', d = d' + 1 := ⟨d - 1, by omega⟩
      obtain ⟨hperform, hrounds⟩ := rounds_completed h hwithin (hD d (by omega)) hv
      obtain ⟨hperform', hrounds'⟩ := hD' d (by omega)
      rw [hperform, hrounds, List.map_cons, hrounds', List.range_succ_eq_map, List.map_cons, h]
      refine ⟨hperform', ?_⟩
      simp [hnext, Function.comp_def]

/-- A loop that moves on by nothing, and is not past its end, is cut off at every depth. -/
theorem loop_cut {c : Int} (hwithin : ¬ Past c b 0) (d : Nat) {m : Machine}
    (h : m.cell name height = some (.int c))
    (hbody : RoundsComplete (.counting height name b 0 body) m) :
    Ending.IsCut (perform d (.counting height name b 0 body) m) := by
  induction d generalizing m with
  | zero => exact ⟨m, rfl⟩
  | succ d ih =>
      obtain ⟨v, n, hends, hv, hcell, hrest⟩ := completes_within h hwithin hbody
      -- at this depth the body completes as it does with enough of it, or is cut off
      rcases hends.perform_eq d with hrun | hcut
      · rw [(rounds_completed h hwithin hrun hv).1]
        refine ih ?_ hrest
        rw [hcell, add_zero]
      · exact perform_cut_within h hwithin hcut

end

/-! ## From a statement to its loop -/

/-- What work asks for that is a loop. -/
def Work.loops (run : Task → Eval Value) (w : Work α) : List (Task × Machine) :=
  (w.asked run).filter (·.1.isLoop)

namespace Action

/-- With enough depth an action ends as another one does that begins on a later machine, and comes
    to the same loops. -/
def LeadsTo (x : Action α) (m : Machine) (y : Action α) (n : Machine) : Prop :=
  ∃ enough, ∀ d, enough ≤ d → (x m).carryOut (perform d) = (y n).carryOut (perform d) ∧
    (x m).loops (perform d) = (y n).loops (perform d)

namespace LeadsTo

variable {m m' n : Machine}

theorem refl {x : Action α} : LeadsTo x m x m := ⟨0, fun _ _ => ⟨rfl, rfl⟩⟩

theorem lift {x : Eval α} {a : α} (h : x m = .ok a m') :
    LeadsTo (liftM x) m (Pure.pure a) m' := ⟨0, fun _ _ => ⟨h, rfl⟩⟩

theorem eval {node : Node} {v : Value} (h : Ends (Action.eval node) m (.ok v m')) :
    LeadsTo (Action.eval node) m (Pure.pure v) m' := by
  obtain ⟨D, hD⟩ := h
  exact ⟨D, fun d hd => ⟨hD d hd, rfl⟩⟩

theorem bind {x : Action α} {f : α → Action β} {y : Action β} {a : α}
    (hx : LeadsTo x m (Pure.pure a) m') (hf : LeadsTo (f a) m' y n) :
    LeadsTo (x >>= f) m y n := by
  obtain ⟨D, hD⟩ := hx
  obtain ⟨D', hD'⟩ := hf
  refine ⟨max D D', fun d hd => ?_⟩
  obtain ⟨hcarried, hloops⟩ := hD d (le_trans (le_max_left D D') hd)
  obtain ⟨hcarried', hloops'⟩ := hD' d (le_trans (le_max_right D D') hd)
  change (x m).carryOut (perform d) = .ok a m' at hcarried
  change (x m).loops (perform d) = [] at hloops
  constructor
  · show ((x m).bind f).carryOut (perform d) = _
    rw [Work.carryOut_bind, hcarried]
    exact hcarried'
  · show (((x m).bind f).asked (perform d)).filter _ = _
    rw [Work.asked_bind, hcarried, List.filter_append]
    show (x m).loops (perform d) ++ (f a m').loops (perform d) = _
    rw [hloops, hloops']
    rfl

end LeadsTo

end Action

/-- The for statement over a variable. -/
abbrev forOver (name : String) (value termination step body : Node) : Node :=
  .forLoop (.assignment (.identifier name) value) termination step body

/-- The step of a for loop from `a` to `b`: that of its part for it, or one towards the end where
    this is missing. -/
def StepEnds (step : Node) (a b s : Int) (m m' : Machine) : Prop :=
  if step.isAbsent then s = (if a ≤ b then 1 else -1) ∧ m' = m
  else Action.Ends (Action.eval step) m (.ok (.int s) m')

/-- The header of a for loop is evaluated from a machine to a machine: the loop goes from `a` to `b`
    by `s`.  The first value is evaluated again behind the others. -/
def HeaderEnds (value termination step : Node) (a b s : Int) (m m' : Machine) : Prop :=
  ∃ m₁ m₂ m₃, Action.Ends (Action.eval value) m (.ok (.int a) m₁) ∧
    Action.Ends (Action.eval termination) m₁ (.ok (.int b) m₂) ∧ StepEnds step a b s m₂ m₃ ∧
    Action.Ends (Action.eval value) m₃ (.ok (.int a) m')

section

variable {value termination step : Node} {a b s : Int} {m m' : Machine}

theorem StepEnds.leadsTo (h : StepEnds step a b s m m') :
    Action.LeadsTo (Action.stepValue (.int a) (.int b) step) m (Pure.pure (.int s)) m' := by
  rw [StepEnds] at h
  show Action.LeadsTo (if step.isAbsent then _ else _) m _ m'
  by_cases habsent : step.isAbsent = true
  · rw [if_pos habsent] at h ⊢
    obtain ⟨rfl, rfl⟩ := h
    refine .lift ?_
    rw [Eval.impliedStep_int]
    rfl
  · rw [if_neg habsent] at h ⊢
    exact .bind (.eval h) (.bind (.lift rfl) .refl)

theorem HeaderEnds.leadsTo (name : String) (body : Node)
    (h : HeaderEnds value termination step a b s m m') {r : Record} {rest : CallStack}
    (hs : m'.stack = r :: rest) :
    Action.LeadsTo (Action.evaluate (forOver name value termination step body)) m
      (Action.ask (.counting (rest.length + 1) name b s body))
      { m' with stack := r.set name (.int a) :: rest } := by
  obtain ⟨m₁, m₂, m₃, hfirst, hlast, hstep, hagain⟩ := h
  refine .bind (.lift rfl) (.bind (.eval hfirst) (.bind (.lift rfl) (.bind (.eval hlast) ?_)))
  refine .bind (.lift rfl) (.bind hstep.leadsTo (.bind (.eval (hagain.assign hs)) ?_))
  exact .bind (.lift (Eval.topHeight_cons rfl)) (.bind (.lift rfl) (.bind (.lift rfl) .refl))

/-- The header of a for loop leaves a record on the stack. -/
theorem HeaderEnds.stack_ne_nil (h : HeaderEnds value termination step a b s m m')
    (hm : m.stack ≠ []) : m'.stack ≠ [] := by
  obtain ⟨m₁, m₂, m₃, hfirst, hlast, hstep, hagain⟩ := h
  refine hagain.stack_ne_nil ?_
  have hm₂ := hlast.stack_ne_nil (hfirst.stack_ne_nil hm)
  rw [StepEnds] at hstep
  split at hstep
  · obtain ⟨-, rfl⟩ := hstep
    exact hm₂
  · exact hstep.stack_ne_nil hm₂

/-- With enough depth a for statement ends as its loop does, and has the rounds of this loop. -/
theorem HeaderEnds.loop (name : String) (body : Node)
    (h : HeaderEnds value termination step a b s m m') (hm : m.stack ≠ []) :
    ∃ n, n.cell name m'.stack.length = some (.int a) ∧ ∃ enough, ∀ d, enough ≤ d →
      perform (d + 1) (.eval (forOver name value termination step body)) m =
        perform d (.counting m'.stack.length name b s body) n ∧
      loopRounds (d + 1) (forOver name value termination step body) m =
        rounds d (.counting m'.stack.length name b s body) n := by
  obtain ⟨r, rest, hs⟩ := List.exists_cons_of_ne_nil (h.stack_ne_nil hm)
  obtain ⟨D, hD⟩ := h.leadsTo name body hs
  let n : Machine := { m' with stack := r.set name (.int a) :: rest }
  have htop : n.cell name (rest.length + 1) = some (.int a) :=
    (Machine.cell_top n name).trans (Table.get?_insert_self r.members name (.int a))
  rw [hs, List.length_cons]
  refine ⟨n, htop, D, fun d hd => ?_⟩
  obtain ⟨hcarried, hloops⟩ := hD d hd
  constructor
  · rw [perform_eval, hcarried]
    rfl
  · rw [loopRounds, Visit.asks_eval, List.filter_map]
    show (((Action.evaluate _ m).loops (perform d)).map _).flatMap _ = _
    rw [hloops]
    exact List.append_nil _

end

/-- The loop of a for statement asks for the body, on a stack that has a record. -/
theorem mem_loopRounds {name : String} {value termination step body : Node} {m : Machine} {d : Nat}
    {u : Visit} (hm : m.stack ≠ [])
    (hu : u ∈ loopRounds d (forOver name value termination step body) m) :
    u.task = .eval body ∧ u.machine.stack ≠ [] := by
  obtain ⟨loop, hloop, hu⟩ := List.mem_flatMap.mp hu
  obtain ⟨hasked, hkind⟩ := List.mem_filter.mp hloop
  obtain ⟨hvisit, n, hasks⟩ := mem_rounds hu
  constructor
  · obtain ⟨depth, task, machine⟩ := loop
    have htask : (Task.eval (forOver name value termination step body)).Asks m task :=
      Visit.task_asks hasked
    cases htask with
    | forLoop _ _ =>
        obtain ⟨depth', task', machine'⟩ := u
        cases hasks
        rfl
    | _ => cases hkind
  · have hheaders := visits_headers d _ hm u
      (Visit.mem_run_trans (Visit.asks_subset_run hasked) hvisit)
    exact Machine.stack_ne_nil (mt Machine.headers_eq_nil.mp hm) hheaders

/-! ## Statements -/

/-- A for statement runs its body `N` times and completes: the `k`-th run finds the variable of the
    record at a height with `a + k * s`, and behind the last one it is `a + N * s`. -/
def Iterates (node body : Node) (m : Machine) (name : String) (height : Nat) (a s : Int)
    (N : Nat) : Prop :=
  ∃ after, Action.Ends (Action.eval node) m (.ok .nothing after) ∧
    after.cell name height = some (.int (a + N * s)) ∧
    ∃ enough, ∀ d, enough ≤ d →
      (loopRounds d node m).map (fun u => (u.task, u.machine.cell name height)) =
        (List.range N).map fun k => (.eval body, some (.int (a + k * s)))

/-- A for statement from `a` to `b` by `s`, all runs of whose body complete.  With a step it runs
    the body as often as steps from `a` do not pass `b`, counted by a floored quotient; without one
    it does not run the body if `a` is below `b`, and otherwise it never ends. -/
theorem for_iterates {name : String} {value termination step body : Node} {a b s : Int}
    {m m' : Machine} (hm : m.stack ≠ [])
    (hheader : HeaderEnds value termination step a b s m m')
    (hbody : ∃ enough, ∀ d, enough ≤ d →
      ∀ u ∈ loopRounds d (forOver name value termination step body) m, u.Completes) :
    (s ≠ 0 → Iterates (forOver name value termination step body) body m name m'.stack.length a s
      (max 0 ((b - a).fdiv s + 1)).toNat) ∧
    (s = 0 → a < b →
      Iterates (forOver name value termination step body) body m name m'.stack.length a s 0) ∧
    (s = 0 → ¬ a < b → ∀ d, ∃ after,
      perform d (.eval (forOver name value termination step body)) m =
        .error .exhausted after) := by
  obtain ⟨n, hn, D, hD⟩ := hheader.loop name body hm
  have hrounds : RoundsComplete (.counting m'.stack.length name b s body) n := by
    obtain ⟨D', hD'⟩ := hbody
    refine ⟨max D D', fun d hd u hu => hD' (d + 1) (by omega) u ?_⟩
    rw [(hD d (by omega)).2]
    exact hu
  have hiterates : ∀ N : Nat, (∀ k : Nat, Past (a + k * s) b s ↔ N ≤ k) →
      Iterates (forOver name value termination step body) body m name m'.stack.length a s N := by
    intro N hcount
    obtain ⟨after, hafter, D', hD'⟩ := loop_counts N hn hcount hrounds
    refine ⟨after, ⟨max D D' + 1, fun d hd => ?_⟩, hafter, max D D' + 1, fun d hd => ?_⟩ <;>
      obtain ⟨d, rfl⟩ : ∃ d', d = d' + 1 := ⟨d - 1, by omega⟩
    · rw [Work.carryOut_eval, (hD d (by omega)).1]
      exact (hD' d (by omega)).1
    · rw [(hD d (by omega)).2]
      exact (hD' d (by omega)).2
  refine ⟨fun hs => hiterates _ (Eval.past_iff_count hs), ?_, ?_⟩
  · rintro rfl hlt
    refine hiterates 0 fun k => ?_
    simp [Past, hlt]
  · rintro rfl hnot d
    have hwithin : ¬ Past a b 0 := by simpa [Past] using hnot
    by_contra hcut
    -- then it would end in this way where the loop itself is cut off
    have hdeep := perform_deeper (show d ≤ max d D + 1 by omega) hcut
    rw [(hD (max d D) (by omega)).1] at hdeep
    apply hcut
    rw [← hdeep]
    exact loop_cut hwithin (max d D) hn hrounds

/-- The body sets the variable itself.  The loop still finds 1, 3 and 5 on its way to 6, and it does
    not come from 6 to 1 by steps of zero. -/
theorem for_iterates_overwritten :
    ∃ body : Node, body = .block [.assignment (.identifier "i") (.number "10")] ∧
      Iterates (forOver "i" (.number "1") (.number "6") (.number "2") body) body Machine.started
        "i" 1 1 2 3 ∧
      ∀ d, ∃ after, perform d
        (.eval (forOver "i" (.number "6") (.number "1") (.number "0") body)) Machine.started =
          .error .exhausted after := by
  let body : Node := .block [.assignment (.identifier "i") (.number "10")]
  have hstarted := Machine.started_ne_nil
  have hbody : ∀ value termination step : Node, ∃ enough, ∀ d, enough ≤ d →
      ∀ u ∈ loopRounds d (forOver "i" value termination step body) Machine.started,
        u.Completes := by
    intro value termination step
    refine ⟨0, fun d _ u hu => ?_⟩
    obtain ⟨htask, hstack⟩ := mem_loopRounds hstarted hu
    obtain ⟨r, rest, hs⟩ := List.exists_cons_of_ne_nil hstack
    rw [Visit.Completes, htask]
    exact ⟨_, _, .eval (.block_next ((Action.Ends.number rfl).assign hs) .pure), rfl⟩
  have hup : HeaderEnds (.number "1") (.number "6") (.number "2") 1 6 2 Machine.started
      Machine.started := ⟨_, _, _, .number rfl, .number rfl, .number rfl, .number rfl⟩
  have hstill : HeaderEnds (.number "6") (.number "1") (.number "0") 6 1 0 Machine.started
      Machine.started := ⟨_, _, _, .number rfl, .number rfl, .number rfl, .number rfl⟩
  exact ⟨body, rfl, (for_iterates hstarted hup (hbody _ _ _)).1 (by decide),
    (for_iterates hstarted hstill (hbody _ _ _)).2.2 rfl (by decide)⟩

end BraceScript
