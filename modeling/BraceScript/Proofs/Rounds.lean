import Mathlib
import BraceScript.Proofs.Origins

/-! # Rounds — one round of a for loop

    A round of a for loop reads the variable of the loop, runs the body unless the variable is past
    the end, and moves the variable on.  It moves on from the value that it has read before the
    body, whatever the body did, if the body has completed; if the body has skipped the rest of the
    round, it moves on from what the variable is then.

    * `Machine.cell_eq_some_iff`: the variable of a record by its height and by the values below it;
    * `step_within`: what a round does that is not past the end, with the two ways on;
    * `round_moves_on`: a round with integers moves on by one step, when it was skipped only if the
      body has left the variable as it was; a body that does not set it does so;
    * `skipped_round_loses_steps`: a body that sets the variable and skips ends its loop early. -/

namespace BraceScript

open Eval (perform)

/-! ## The variable of a record -/

namespace Machine

variable {m : Machine} {x : String} {height : Nat} {v : Value}

/-- What a record holds is found by the number of records below. -/
theorem cell_eq_some_iff : m.cell x height = some v ↔
    ∃ below : List (Option Value), below.length + 1 = height ∧ some v :: below <:+ m.cells x := by
  obtain ⟨stack, functions, procedures, history⟩ := m
  show (stack.at? height).bind (·.get? x) = some v ↔ ∃ below : List (Option Value),
    below.length + 1 = height ∧ some v :: below <:+ stack.map (·.get? x)
  induction stack with
  | nil =>
      constructor
      · intro h
        cases h
      · rintro ⟨below, -, hsuffix⟩
        cases List.suffix_nil.mp hsuffix
  | cons r rest ih =>
      rw [CallStack.at?, List.map_cons]
      by_cases htop : rest.length + 1 = height
      · rw [if_pos htop]
        constructor
        · intro h
          have hr : r.get? x = some v := h
          refine ⟨rest.map (·.get? x), by rw [List.length_map, htop], ?_⟩
          rw [hr]
        · rintro ⟨below, hlength, hsuffix⟩
          -- as many records are below as the stack has below its top one
          have hall := hsuffix.eq_of_length (by simp; omega)
          exact (List.cons.inj hall).1.symm
      · rw [if_neg htop, ih]
        refine exists_congr fun below => and_congr_right fun hlength => ?_
        rw [List.suffix_cons_iff]
        constructor
        · exact .inr
        · rintro (hall | hsuffix)
          · have hlengths := congrArg List.length hall
            simp only [List.length_cons, List.length_map] at hlengths
            omega
          · exact hsuffix

theorem pos_of_cell (h : m.cell x height = some v) : 1 ≤ height := by
  obtain ⟨below, hlength, -⟩ := cell_eq_some_iff.mp h
  omega

/-- The machine with a variable of the record at a height set. -/
def setAt (m : Machine) (height : Nat) (name : String) (v : Value) : Machine :=
  { m with stack := m.stack.setAt height name v }

theorem cell_setAt (hpositive : 1 ≤ height) (hheight : height ≤ m.stack.length) :
    (m.setAt height x v).cell x height = some v :=
  cell_eq_some_iff.mpr (cells_setAt x v hpositive hheight)

end Machine

/-! ## Integers -/

/-- The summand of an integer sum is an integer, or a truth value that stands for one. -/
theorem Value.add_int_eq_iff {w : Value} {c s : Int} :
    w.isReal = true ∧ w.add (.int s) = .ok (.int (c + s)) ↔ w.quantity? = some (.int c) := by
  have hsum : ∀ n : Int, (Except.ok (.int (n + s)) : Except Fault Value) = .ok (.int (c + s)) ↔
      some (Quantity.int n) = some (.int c) := by
    intro n
    simp
  cases w with
  | int n => exact (and_iff_right rfl).trans (hsum n)
  | bool b => exact (and_iff_right rfl).trans (hsum _)
  | float x =>
      -- a sum with a binary64 number is one, or the integer is out of range
      constructor
      · rintro ⟨-, h⟩
        change (floatOfInt s >>= fun y => Except.ok (Value.float (x + y))) = _ at h
        cases hs : floatOfInt s <;> rw [hs] at h <;> cases h
      · intro h
        cases h
  | _ =>
      constructor
      · rintro ⟨h, -⟩
        cases h
      · intro h
        cases h

namespace Eval

/-- A loop that moves on by `s` is past its end `b`. -/
def Past (c b s : Int) : Prop := if 0 < s then b < c else c < b

instance (c b s : Int) : Decidable (Past c b s) :=
  inferInstanceAs (Decidable (if 0 < s then b < c else c < b))

theorem related_greater (c b : Int) :
    (Value.int c).related .greater (.int b) = .ok (decide (b < c)) := by
  show Except.ok (compare c b == .gt) = _
  congr 1
  rw [Bool.eq_iff_iff, beq_iff_eq, decide_eq_true_iff, compare_gt_iff_gt]

theorem related_less (c b : Int) :
    (Value.int c).related .less (.int b) = .ok (decide (c < b)) := by
  show Except.ok (compare c b == .lt) = _
  congr 1
  rw [Bool.eq_iff_iff, beq_iff_eq, decide_eq_true_iff, compare_lt_iff_lt]

theorem related_lessEqual (c b : Int) :
    (Value.int c).related .lessEqual (.int b) = .ok (decide (c ≤ b)) := by
  show Except.ok (compare c b != .gt) = _
  congr 1
  rw [Bool.eq_iff_iff, bne_iff_ne, decide_eq_true_iff, Ne, compare_gt_iff_gt, not_lt]

theorem impliedStep_int (a b : Int) :
    impliedStep (.int a) (.int b) = .ok (.int (if a ≤ b then 1 else -1)) := by
  rw [impliedStep, related_lessEqual]
  show (if decide (a ≤ b) = true then Except.ok (Value.int 1) else .ok (.int (-1))) = _
  by_cases h : a ≤ b
  · simp [h]
  · simp [h]

theorem isPast_int (c b s : Int) :
    isPast (.int c) (.int b) (.int s) = .ok (decide (Past c b s)) := by
  rw [isPast, related_greater, related_greater, related_less]
  show (if decide (0 < s) = true then Except.ok (decide (b < c)) else .ok (decide (c < b))) = _
  by_cases hs : 0 < s
  · simp [Past, hs]
  · simp [Past, hs]

theorem isPast_of_past {c b s : Int} (h : Past c b s) :
    isPast (.int c) (.int b) (.int s) = .ok true := by
  rw [isPast_int, decide_eq_true h]

theorem isPast_of_not_past {c b s : Int} (h : ¬ Past c b s) :
    isPast (.int c) (.int b) (.int s) = .ok false := by
  rw [isPast_int, decide_eq_false h]

theorem loopVariable_eq_ok_iff {m n : Machine} {name : String} {height : Nat} {v : Value} :
    loopVariable height name m = .ok v n ↔
      n = m ∧ m.cell name height = some v ∧ v.isReal = true := by
  have hget : getAt height name m = .ok (m.cell name height) m := rfl
  rw [loopVariable]
  show EStateM.bind (getAt height name) _ m = _ ↔ _
  rw [EStateM.bind, hget]
  cases m.cell name height with
  | none =>
      constructor
      · intro h
        cases h
      · rintro ⟨-, h, -⟩
        cases h
  | some w =>
      by_cases hw : w.isReal = true
      · simp only [hw]
        constructor
        · intro h
          cases h
          exact ⟨rfl, rfl, hw⟩
        · rintro ⟨rfl, h, -⟩
          cases h
          rfl
      · simp only [hw]
        constructor
        · intro h
          cases h
        · rintro ⟨-, h, hv⟩
          cases h
          exact absurd hv hw

theorem moveOn_eq_ok_iff {m n : Machine} {name : String} {height : Nat} {v step : Value} :
    moveOn height name v step m = .ok () n ↔
      ∃ u, v.add step = .ok u ∧ n = m.setAt height name u := by
  rw [moveOn]
  show EStateM.bind (attempt (v.add step)) _ m = _ ↔ _
  rw [EStateM.bind]
  cases v.add step with
  | error f =>
      constructor
      · intro h
        cases h
      · rintro ⟨u, h, -⟩
        cases h
  | ok u =>
      constructor
      · intro h
        cases h
        exact ⟨u, rfl, rfl⟩
      · rintro ⟨w, h, rfl⟩
        cases h
        rfl

end Eval

/-! ## The ways on -/

namespace Action

/-- What is left to do of a round that was skipped: it moves on from what the variable is then. -/
def skipped (height : Nat) (name : String) (step : Value) (loop : Task) : Action Next := do
  Eval.moveOn height name (← Eval.loopVariable height name) step
  return .task loop

variable {height : Nat} {name : String} {step : Value} {loop : Task} {m after : Machine}

theorem carryOut_skipped {run : Task → Eval Value} :
    (skipped height name step loop m).carryOut run = .ok (.task loop) after ↔
      ∃ w u, m.cell name height = some w ∧ w.isReal = true ∧ w.add step = .ok u ∧
        after = m.setAt height name u := by
  show (Work.bind (.ended (Eval.loopVariable height name m)) _).carryOut run = _ ↔ _
  constructor
  · intro h
    cases hvariable : Eval.loopVariable height name m with
    | error e n =>
        rw [hvariable] at h
        cases h
    | ok w n =>
        rw [hvariable] at h
        obtain ⟨rfl, hcell, hreal⟩ := Eval.loopVariable_eq_ok_iff.mp hvariable
        change (Work.bind (.ended (Eval.moveOn height name w step n)) _).carryOut run = _ at h
        cases hmove : Eval.moveOn height name w step n with
        | error e n' =>
            rw [hmove] at h
            cases h
        | ok _ n' =>
            rw [hmove] at h
            cases h
            obtain ⟨u, hu, rfl⟩ := Eval.moveOn_eq_ok_iff.mp hmove
            exact ⟨w, u, hcell, hreal, hu, rfl⟩
  · rintro ⟨w, u, hcell, hreal, hu, rfl⟩
    rw [Eval.loopVariable_eq_ok_iff.mpr ⟨rfl, hcell, hreal⟩]
    show (Work.bind (.ended (Eval.moveOn height name w step m)) _).carryOut run = _
    rw [Eval.moveOn_eq_ok_iff.mpr ⟨u, hu, rfl⟩]
    rfl

end Action

section

variable {height : Nat} {name : String} {last step v : Value} {body : Node} {m : Machine}

/-- A loop that is past its end has completed. -/
theorem step_past (body : Node) (h : m.cell name height = some v) (hv : v.isReal = true)
    (hpast : Eval.isPast v last step = .ok true) :
    Action.step (.forLoop height name last step body) m = .ended (.ok (.value .nothing) m) := by
  have hround : Action.forRound height name last step body m = .ended (.ok .finished m) := by
    show (Work.ended (Eval.loopVariable height name m)).bind _ = _
    rw [Eval.loopVariable_eq_ok_iff.mpr ⟨rfl, h, hv⟩]
    show (Work.ended (Eval.attempt (Eval.isPast v last step) m)).bind _ = _
    rw [hpast]
    rfl
  show (Action.forRound height name last step body m).caught.bind _ = _
  rw [hround]
  rfl

/-- A loop that is not past its end runs the body and then moves on, unless the body gives, stops
    the loop or fails: from the value that the round began with if the body has completed, and
    from what the variable is behind the body if that has skipped. -/
theorem step_within (body : Node) (h : m.cell name height = some v) (hv : v.isReal = true)
    (hwithin : Eval.isPast v last step = .ok false) :
    ∃ next, Action.step (.forLoop height name last step body) m = .ask (.eval body) m next ∧
      (∀ w u n, w.given? = none → v.add step = .ok u → next (.ok w n) = .ended
        (.ok (.task (.forLoop height name last step body)) (n.setAt height name u))) ∧
      ∀ n, next (.error .skip n) =
        Action.skipped height name step (.forLoop height name last step body) n := by
  refine ⟨?next, ?asks, ?completed, ?skipped⟩
  case asks =>
    show (Work.bind (.ended (Eval.loopVariable height name m)) _).caught.bind _ = _
    rw [Eval.loopVariable_eq_ok_iff.mpr ⟨rfl, h, hv⟩]
    show (Work.bind (.ended (Eval.attempt (Eval.isPast v last step) m)) _).caught.bind _ = _
    rw [hwithin]
    rfl
  case completed =>
    intro w u n hw hu
    have hmove : Eval.moveOn height name v step n = .ok () (n.setAt height name u) :=
      Eval.moveOn_eq_ok_iff.mpr ⟨u, hu, rfl⟩
    cases w with
    | given w => cases hw
    | _ =>
        show Work.bind (Work.caught (Work.bind (.ended (Eval.moveOn height name v step n)) _)) _ = _
        rw [hmove]
        rfl
  case skipped =>
    intro n
    rfl

/-- The record of a loop is there behind the body as well. -/
theorem le_length_behind (h : m.cell name height = some v) (d : Nat) (task : Task) :
    height ≤ (Ending.machine (perform d task m)).stack.length := by
  have hheight := Machine.le_of_cell h
  have hpositive := Machine.pos_of_cell h
  have hm : m.stack ≠ [] := by
    intro hnil
    rw [hnil, List.length_nil] at hheight
    omega
  have hlength := (perform_headers d task hm).length_le
  simp only [Machine.headers, List.length_map] at hlength
  omega

/-- A body that sets the variable nowhere in its own routine leaves it as it was. -/
theorem Node.Spares.cell_behind (hspares : body.Spares name) (h : m.cell name height = some v)
    (d : Nat) : (Ending.machine (perform d (.eval body) m)).cell name height = some v := by
  obtain ⟨below, hlength, hsuffix⟩ := Machine.cell_eq_some_iff.mp h
  have htask : (Task.eval body).Spares name := hspares
  exact Machine.cell_eq_some_iff.mpr ⟨below, hlength, (htask.kept d hsuffix).2⟩

/-! ## One step further -/

/-- A round of a loop is followed by another one, which finds the variable with a value. -/
def GoesOn (d : Nat) (loop : Task) (m : Machine) (name : String) (height : Nat) (u : Value) :
    Prop :=
  ∃ after, (Action.step loop m).carryOut (perform d) = .ok (.task loop) after ∧
    after.cell name height = some u

variable {d : Nat} {u : Value}

theorem goesOn_of_completed {w : Value} {n : Machine} (h : m.cell name height = some v)
    (hv : v.isReal = true) (hwithin : Eval.isPast v last step = .ok false) (hu : v.add step = .ok u)
    (hbody : perform d (.eval body) m = .ok w n) (hw : w.given? = none) :
    GoesOn d (.forLoop height name last step body) m name height u := by
  obtain ⟨next, hstep, hcompleted, -⟩ := step_within body h hv hwithin
  have hheight := le_length_behind h d (.eval body)
  rw [hbody] at hheight
  refine ⟨n.setAt height name u, ?_, Machine.cell_setAt (Machine.pos_of_cell h) hheight⟩
  rw [hstep, Work.carryOut, hbody, hcompleted w u n hw hu]
  rfl

theorem goesOn_iff_of_skipped {n : Machine} (h : m.cell name height = some v)
    (hv : v.isReal = true) (hwithin : Eval.isPast v last step = .ok false)
    (hbody : perform d (.eval body) m = .error .skip n) :
    GoesOn d (.forLoop height name last step body) m name height u ↔
      ∃ w, n.cell name height = some w ∧ w.isReal = true ∧ w.add step = .ok u := by
  obtain ⟨next, hstep, -, hskipped⟩ := step_within body h hv hwithin
  have hheight := le_length_behind h d (.eval body)
  rw [hbody] at hheight
  have hset : ∀ u, (n.setAt height name u).cell name height = some u :=
    fun u => Machine.cell_setAt (Machine.pos_of_cell h) hheight
  rw [GoesOn, hstep, Work.carryOut, hbody, hskipped]
  constructor
  · rintro ⟨after, hafter, hcell⟩
    obtain ⟨w, u', hw, hreal, hadd, rfl⟩ := Action.carryOut_skipped.mp hafter
    rw [hset] at hcell
    cases hcell
    exact ⟨w, hw, hreal, hadd⟩
  · rintro ⟨w, hw, hreal, hadd⟩
    exact ⟨_, Action.carryOut_skipped.mpr ⟨w, u, hw, hreal, hadd, rfl⟩, hset u⟩

/-- A round that is not past the end goes on to one that finds the variable one step further, if the
    body completes; and if it skips, exactly when the variable is then a number with the same sum.
    With integers that is the number that the round began with, and it is left by every body that
    does not set the variable. -/
theorem round_moves_on (h : m.cell name height = some v) (hv : v.isReal = true)
    (hwithin : Eval.isPast v last step = .ok false) (hu : v.add step = .ok u) :
    (∀ w n, perform d (.eval body) m = .ok w n → w.given? = none →
      GoesOn d (.forLoop height name last step body) m name height u) ∧
    ∀ n, perform d (.eval body) m = .error .skip n →
      (GoesOn d (.forLoop height name last step body) m name height u ↔
        ∃ w, n.cell name height = some w ∧ w.isReal = true ∧ w.add step = .ok u) ∧
      (∀ c s : Int, v = .int c → step = .int s →
        (GoesOn d (.forLoop height name last step body) m name height (.int (c + s)) ↔
          ∃ w, n.cell name height = some w ∧ w.quantity? = some (.int c))) ∧
      (body.Spares name → GoesOn d (.forLoop height name last step body) m name height u) := by
  refine ⟨fun w n => goesOn_of_completed h hv hwithin hu, fun n hbody => ?_⟩
  have hskipped : ∀ u, _ ↔ _ := fun u => goesOn_iff_of_skipped (u := u) h hv hwithin hbody
  refine ⟨hskipped u, ?_, ?_⟩
  · rintro c s rfl rfl
    rw [hskipped]
    refine exists_congr fun w => and_congr_right fun _ => ?_
    exact Value.add_int_eq_iff
  · intro hspares
    have hcell := hspares.cell_behind h d
    rw [hbody] at hcell
    exact (hskipped u).mpr ⟨v, hcell, hv, hu⟩

end

/-- A body that copies the variable, and skips inside an `if`. -/
theorem round_moves_on_nested_skip :
    ∃ (body : Node) (m n : Machine), m.cell "i" 1 = some (.int 1) ∧
      Eval.isPast (.int 1) (.int 3) (.int 1) = .ok false ∧
      perform 8 (.eval body) m = .error .skip n ∧ n.cell "j" 1 = some (.int 1) ∧
      body.Spares "i" ∧
      GoesOn 8 (.forLoop 1 "i" (.int 3) (.int 1) body) m "i" 1 (.int 2) := by
  let body : Node := .block
    [.assignment (.identifier "j") (.identifier "i"),
    .ifElse (.boolean "true") (.block [.skip]) [] .absent]
  let m : Machine := ⟨[⟨"program", .program, 1, [("i", .int 1)]⟩], [], [], []⟩
  let n : Machine := ⟨[⟨"program", .program, 1, [("i", .int 1), ("j", .int 1)]⟩], [], [], []⟩
  have hrun : perform 8 (.eval body) m = .error .skip n := by cbv
  have hformed : Formed (fun _ => True) .block body := by
    refine .block fun statement hstatement => ?_
    rcases List.mem_cons.mp hstatement with rfl | hstatement
    · exact .assignment (.name trivial) (.identifier trivial)
    · obtain rfl := List.mem_singleton.mp hstatement
      refine .ifElse (.boolean _) (.block fun inner hinner => ?_) (fun _ h => by cases h)
        .noAlternative
      obtain rfl := List.mem_singleton.mp hinner
      exact .skip
  have htargets : body.ownParts.flatMap Node.targets = [.identifier "j"] := by cbv
  have hspares : body.Spares "i" := by
    refine ⟨⟨.block, hformed, fun h => by cases h⟩, fun part hpart target htarget => ?_⟩
    have hmem := List.mem_flatMap.mpr ⟨part, hpart, htarget⟩
    rw [htargets] at hmem
    obtain rfl := List.mem_singleton.mp hmem
    decide
  have hmoves := @round_moves_on 1 "i" (.int 3) (.int 1) (.int 1) body m 8 (.int 2) rfl rfl rfl rfl
  exact ⟨body, m, n, rfl, rfl, hrun, rfl, hspares, (hmoves.2 n hrun).2.2 hspares⟩

/-- A round begins with 1, adds 10 to the variable and skips: the next round finds 12, and the loop
    that counts to 3 has run its body once. -/
theorem skipped_round_loses_steps :
    ∃ source tree body, parse source = .ok tree ∧ (analyze tree).1 = none ∧
      (∃ u ∈ visits 12 (.eval tree) Machine.initial, u.depth = 6 ∧
        u.task = .forLoop 1 "i" (.int 3) (.int 1) body ∧ u.machine.cell "i" 1 = some (.int 1) ∧
        (∃ n, perform 5 (.eval body) u.machine = .error .skip n) ∧
        GoesOn 5 u.task u.machine "i" 1 (.int 12)) ∧
      (interpret 12 tree).exit = none ∧ (interpret 12 tree).machine.output = "a\n" := by
  let body : Node := .block
    [.display (.string "'a'"),
    .assignment (.identifier "i") (.binary (.identifier "i") "+" (.number "10")), .skip]
  let tree : Node := .program (.block
    [.variableDecl (.typeName "number") [.identifier "i"] [.number "0"],
    .whileLoop (.boolean "true") (.block
      [.forLoop (.assignment (.identifier "i") (.number "1")) (.number "3") .absent body, .stop])])
  have hparse : parse ("\x7b\nlet number i = 0\nwhile true \x7b\nfor i = 1 to 3 \x7b\n"
      ++ "show 'a'\ni = i + 10\nskip\n\x7d\nstop\n\x7d\n\x7d") = .ok tree := by cbv
  have haccepted : (analyze tree).1 = none := by cbv
  let m (i : Int) (history : List Event) : Machine :=
    ⟨[⟨"program", .program, 1, [("i", .int i)]⟩], [], [], history⟩
  let u : Visit := ⟨6, .forLoop 1 "i" (.int 3) (.int 1) body, m 1 [.pushed Record.program]⟩
  have hvisit : (visits 12 (.eval tree) Machine.initial)[13]? = some u := by cbv
  have hbody : perform 5 (.eval body) u.machine =
      .error .skip (m 11 [.shown "a", .pushed Record.program]) := by cbv
  have hnext : GoesOn 5 u.task u.machine "i" 1 (.int 12) :=
    ⟨m 12 [.shown "a", .pushed Record.program], by cbv, rfl⟩
  refine ⟨_, tree, body, hparse, haccepted,
    ⟨u, List.mem_of_getElem? hvisit, rfl, rfl, rfl, ⟨_, hbody⟩, hnext⟩, ?_, ?_⟩ <;> cbv

end BraceScript
