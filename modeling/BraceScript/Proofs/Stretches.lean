import BraceScript.Proofs.Steps

/-! # Stretches — a run as one path of small changes

    A task works in stretches, and between two of them runs what it has asked for.  In the order of
    time the stretches of all the tasks of a run make one path, from the machine on which the run
    begins to the one on which it ends.

    * `stretches_linked`: every stretch begins where the one before it has ended;
    * `stretches_visited`: it is a stretch of a task that the run visits, and it does to the stack
      what that task can do. -/

namespace BraceScript

open Eval (perform)

variable {α : Type}

/-- A stretch of a run: the task at work, the machine on which this task began, and the machines on
    which the stretch begins and ends. -/
structure Stretch where
  task : Task
  start : Machine
  before : Machine
  after : Machine

/-- The stretches of work from a machine on, with those of what it asks for in their places. -/
def Work.stretches (run : Task → Eval Value) (below : Task → Machine → List Stretch) (task : Task)
    (start : Machine) : Work α → Machine → List Stretch
  | .ended e, m => [⟨task, start, m, Ending.machine e⟩]
  | .ask asked n next, m =>
      let answer := run asked n
      ⟨task, start, m, n⟩ :: (below asked n ++
        (next answer).stretches run below task start (Ending.machine answer))

/-- The stretches of a run, in order. -/
def stretches : (depth : Nat) → Task → Machine → List Stretch
  | 0, _, _ => []
  | depth + 1, task, m =>
      let work := Action.step task m
      let behind := match work.carryOut (perform depth) with
        | .ok (.task next) after => stretches depth next after
        | _ => []
      work.stretches (perform depth) (stretches depth) task m m ++ behind

/-! ## Paths -/

/-- Stretches that go from a machine to a machine, each from where the last one has ended. -/
inductive Linked : Machine → List Stretch → Machine → Prop
  | nil {m : Machine} : Linked m [] m
  | cons {s : Stretch} {rest : List Stretch} {n : Machine} (h : Linked s.after rest n) :
      Linked s.before (s :: rest) n

namespace Linked

variable {first rest : List Stretch} {l m n : Machine}

theorem append (h : Linked l first m) (h' : Linked m rest n) : Linked l (first ++ rest) n := by
  induction h with
  | nil => exact h'
  | cons _ ih => exact .cons (ih h')

theorem split (h : Linked l (first ++ rest) n) : ∃ m, Linked l first m ∧ Linked m rest n := by
  induction first generalizing l with
  | nil => exact ⟨l, .nil, h⟩
  | cons s first ih =>
      cases h with
      | cons h =>
          obtain ⟨m, hfirst, hrest⟩ := ih h
          exact ⟨m, .cons hfirst, hrest⟩

/-- The last stretch of a path begins where those before it lead to, and ends where the path
    ends. -/
theorem last {s : Stretch} (h : Linked l (first ++ [s]) n) :
    Linked l first s.before ∧ n = s.after := by
  obtain ⟨m, hfirst, hlast⟩ := h.split
  generalize hone : [s] = one at hlast
  cases hlast with
  | nil => cases hone
  | cons hend =>
      obtain ⟨rfl, rfl⟩ := List.cons.inj hone
      generalize s.after = after at hend
      cases hend
      exact ⟨hfirst, rfl⟩

/-- What comes before a stretch of a path leads to where this stretch begins. -/
theorem take (h : Linked l first n) {i : Nat} {s : Stretch} (hs : first[i]? = some s) :
    Linked l (first.take i) s.before := by
  obtain ⟨hi, rfl⟩ := List.getElem?_eq_some_iff.mp hs
  rw [← List.take_append_drop i first, List.drop_eq_getElem_cons hi] at h
  obtain ⟨m, hfirst, hrest⟩ := h.split
  cases hrest with
  | cons _ => exact hfirst

end Linked

theorem Work.stretches_linked {run : Task → Eval Value} {below : Task → Machine → List Stretch}
    (hbelow : ∀ task n, Linked n (below task n) (Ending.machine (run task n))) (task : Task)
    (start : Machine) (w : Work α) (m : Machine) :
    Linked m (w.stretches run below task start m) (Ending.machine (w.carryOut run)) := by
  induction w generalizing m with
  | ended e => exact Linked.cons (s := ⟨task, start, m, Ending.machine e⟩) .nil
  | ask asked n next ih =>
      have hrest := (hbelow asked n).append (ih (run asked n) (Ending.machine (run asked n)))
      exact Linked.cons (s := ⟨task, start, m, n⟩) hrest

/-- The stretches of a run lead from its first machine to its last one. -/
theorem stretches_linked (depth : Nat) (task : Task) (m : Machine) :
    Linked m (stretches depth task m) (Ending.machine (perform depth task m)) := by
  induction depth generalizing task m with
  | zero => exact .nil
  | succ d ih =>
      have hwork := Work.stretches_linked ih task m (Action.step task m) m
      rw [stretches]
      rcases perform_cases d task m with ⟨v, after, h, hrun⟩ | ⟨e, after, h, hrun⟩ |
        ⟨after, h, hrun⟩
      · rw [h] at hwork ⊢
        rw [hrun]
        exact hwork.append .nil
      · rw [h] at hwork ⊢
        rw [hrun]
        exact hwork.append .nil
      · rw [h] at hwork ⊢
        rw [hrun]
        exact hwork.append (ih task after)

/-! ## What stretches do -/

/-- A stretch of work is one of its own, or one of what it asks for. -/
theorem Work.Does.mem_stretches {R : Machine → Machine → Prop} {A : Task → Prop}
    {X : Exit → Prop} {run : Task → Eval Value} {below : Task → Machine → List Stretch}
    {task : Task} {start m : Machine} {w : Work α} {s : Stretch}
    (hw : w.Does R A (fun _ _ => True) X m) (hs : s ∈ w.stretches run below task start m) :
    (s.task = task ∧ s.start = start ∧ R s.before s.after) ∨
      ∃ p ∈ w.asked run, s ∈ below p.1 p.2 := by
  induction w generalizing m with
  | ended e =>
      obtain rfl := List.mem_singleton.mp hs
      exact .inl ⟨rfl, rfl, hw.1⟩
  | ask asked n next ih =>
      rcases List.mem_cons.mp hs with rfl | hs
      · exact .inl ⟨rfl, rfl, hw.1⟩
      rcases List.mem_append.mp hs with hs | hs
      · exact .inr ⟨(asked, n), List.mem_cons_self, hs⟩
      · rcases ih _ (hw.2.2 _ trivial) hs with hown | ⟨p, hp, hs⟩
        · exact .inl hown
        · exact .inr ⟨p, List.mem_cons_of_mem _ hp, hs⟩

/-- Every stretch of a run is one of a task that the run visits, and does what this task can do. -/
theorem stretches_visited {depth : Nat} {task : Task} {m : Machine} {s : Stretch}
    (hs : s ∈ stretches depth task m) :
    s.task.Effect s.start s.before s.after ∧
      ∃ v ∈ visits depth task m, v.task = s.task ∧ v.machine = s.start := by
  induction depth generalizing task m with
  | zero => exact absurd hs List.not_mem_nil
  | succ d ih =>
      rw [stretches] at hs
      rcases List.mem_append.mp hs with hs | hs
      · have hdoes := step_does .any task m fun _ _ _ _ _ _ _ _ _ _ _ _ _ _ _ => trivial
        rcases hdoes.mem_stretches hs with ⟨htask, hstart, heffect⟩ | ⟨p, hp, hs⟩
        · rw [htask, hstart]
          exact ⟨heffect, _, Visit.self_mem_run ⟨d + 1, task, m⟩, rfl, rfl⟩
        · obtain ⟨heffect, v, hv, hvisit⟩ := ih hs
          refine ⟨heffect, v, Visit.mem_run_succ.mpr (.inr (.inl ⟨⟨d, p.1, p.2⟩, ?_, hv⟩)), hvisit⟩
          exact List.mem_map.mpr ⟨p, hp, rfl⟩
      · rcases perform_cases d task m with ⟨v, after, h, -⟩ | ⟨e, after, h, -⟩ | ⟨after, h, -⟩
        · rw [h] at hs
          exact absurd hs List.not_mem_nil
        · rw [h] at hs
          exact absurd hs List.not_mem_nil
        · rw [h] at hs
          obtain ⟨heffect, v, hv, hvisit⟩ := ih hs
          exact ⟨heffect, v, Visit.mem_run_succ.mpr (.inr (.inr ⟨after, h, hv⟩)), hvisit⟩

end BraceScript
