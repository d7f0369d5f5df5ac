import Mathlib
import BraceScript.Proofs.Declarations

/-! # Constancy — a constant keeps its value while its block runs

    A constant is a variable of the record in which it was declared, and the analyzer sees to it
    that nothing is assigned to its name.  What a call does happens on records above.  So the value
    stays until the block of the declaration is left, as long as the routine does not declare the
    same name once more in a block further in: a record has no blocks, and there the two are one
    variable.

    * `Task.Spares.kept`: a task that sets a variable nowhere in its own routine leaves its value;
    * `Place.Passes.spares`: what the analyzer accepts behind the declaration of a constant sets it
      nowhere, unless it is declared again;
    * `constants_kept`: so every read of the constant yields its value;
    * `constant_changes`: a block further in that declares the name again changes it. -/

namespace BraceScript

open Eval (perform)

/-! ## Tasks that spare a variable -/

/-- A visit finds a variable with these values in the lowest records, or runs on records above. -/
def Visit.Sees (name : String) (k : List (Option Value)) (u : Visit) : Prop :=
  k <:+ u.machine.cells name ∨ k.length < u.machine.stack.length

/-- A part of a program that sets a variable nowhere in its own routine. -/
structure Node.Spares (name : String) (node : Node) : Prop where
  formed : ∃ c, Formed (fun _ => True) c node ∧ c ≠ .program
  targets : ∀ part ∈ node.ownParts, ∀ target ∈ part.targets, target.namePart ≠ .ok name

theorem Node.Spares.child {name : String} {node part : Node} (h : node.Spares name)
    (hown : node.declaresRoutine = false) (hpart : part ∈ node.children) : part.Spares name where
  formed := by
    obtain ⟨c, hformed, -⟩ := h.formed
    exact hformed.children hpart
  targets inner hinner := h.targets inner (Node.mem_ownParts_of_mem_children hown hpart hinner)

/-- A for loop begins with an assignment. -/
theorem Node.Spares.initial {name : String} {initial termination step body : Node}
    (h : (Node.forLoop initial termination step body).Spares name) :
    ∃ target value, initial = .assignment target value := by
  obtain ⟨c, hformed, -⟩ := h.formed
  cases hformed with
  | forLoop _ _ _ _ _ => exact ⟨_, _, rfl⟩
  | present hformed => cases hformed

/-- The arguments of a call are parts of it. -/
theorem Node.call?_inv {node callee : Node} {arguments : List Node} {kind : RecordKind}
    (h : node.call? = some (kind, callee, arguments)) :
    (Task.eval node).Pushes ∧ node.declaresRoutine = false ∧ arguments ⊆ node.children := by
  cases node with
  | functionCall _ _ | procedureCall _ _ =>
      cases h
      exact ⟨trivial, rfl, fun _ ha => by simp [children, ha]⟩
  | _ => cases h

/-- A call of a well-formed program leaves the records that it finds. -/
theorem Node.Spares.leaves {name : String} {node : Node} (h : node.Spares name)
    (hpushes : (Task.eval node).Pushes) :
    node.LeavesRecords ∧ ∃ kind callee arguments, node.call? = some (kind, callee, arguments) := by
  obtain ⟨c, hformed, hc⟩ := h.formed
  cases node with
  | program body =>
      cases hformed with
      | program _ => exact absurd rfl hc
      | present hformed => cases hformed
  | functionCall callee arguments =>
      refine ⟨.inl ?_, _, _, _, rfl⟩
      cases hformed with
      | functionCall hcallee harguments => exact .functionCall hcallee harguments
      | present hformed => exact hformed
  | procedureCall callee arguments =>
      refine ⟨.inr ⟨callee, arguments, rfl, ?_⟩, _, _, _, rfl⟩
      cases hformed with
      | procedureCall _ harguments => exact harguments
      | present hformed => cases hformed
  | _ => exact hpushes.elim

namespace Task

/-- A task that sets a variable nowhere in its own routine. -/
def Spares (name : String) : Task → Prop
  | .eval node => node.Spares name
  | .whileLoop test body => test.Spares name ∧ body.Spares name
  | .forLoop _ looped _ _ body => looped ≠ name ∧ body.Spares name

variable {name : String} {task : Task} {k : List (Option Value)}

theorem Spares.not_writes (h : task.Spares name) : ¬ task.Writes name := by
  cases task with
  | eval node =>
      rintro ⟨target, htarget, hname⟩
      exact h.targets node node.self_mem_ownParts target htarget hname
  | whileLoop test body => exact fun hwrites => hwrites
  | forLoop height looped last step body => exact h.1

/-- What such a task asks for is such a task, but for the body of a routine that it calls. -/
theorem Spares.asks {m : Machine} {asked : Task} (h : task.Spares name)
    (hasks : task.Asks m asked) : asked.Spares name ∨ task.Pushes := by
  cases hasks with
  | @child node _ _ hown _ hpart =>
      exact .inl (Node.Spares.child h hown (node.proper_subset hpart))
  | argument hcall _ | body hcall _ _ => exact .inr (Node.call?_inv hcall).1
  | @arm test body alternative arm part elifs _ harm hpart =>
      have hchild : arm ∈ (Node.ifElse test body elifs alternative).children := by
        simp only [Node.children, List.mem_cons, List.mem_append] at harm ⊢
        tauto
      have hown : arm.declaresRoutine = false := by
        obtain ⟨c, hformed, -⟩ := h.formed
        cases hformed with
        | ifElse _ _ helifs halternative =>
            rcases List.mem_cons.mp harm with rfl | harm
            · cases halternative <;> rfl
            · cases helifs arm harm
              rfl
        | present hformed => cases hformed
      exact .inl ((Node.Spares.child h rfl hchild).child hown hpart.mem_children)
  | initial hpart =>
      obtain ⟨target, value, rfl⟩ := h.initial
      exact .inl ((Node.Spares.child h rfl List.mem_cons_self).child rfl hpart.mem_children)
  | whileLoop =>
      exact .inl ⟨Node.Spares.child h rfl (by simp [Node.children]),
        Node.Spares.child h rfl (by simp [Node.children])⟩
  | forLoop htarget hname =>
      obtain ⟨target, value, rfl⟩ := h.initial
      cases htarget
      have hinitial := Node.Spares.child h rfl List.mem_cons_self
      refine .inl ⟨?_, Node.Spares.child h rfl (by simp [Node.children])⟩
      rintro rfl
      exact hinitial.targets _ (Node.self_mem_ownParts _) _ List.mem_cons_self hname
  | test => exact .inl h.1
  | round => exact .inl h.2
  | forRound => exact .inl h.2

/-- The step of `Spares.kept`, given that it holds of what is asked for. -/
theorem Spares.step_kept {d : Nat} {m : Machine} (h : task.Spares name) (hm : k <:+ m.cells name)
    (ih : ∀ {task m}, task.Spares name → k <:+ m.cells name →
      (∀ u ∈ visits d task m, u.Sees name k) ∧
        k <:+ (Ending.machine (perform d task m)).cells name) :
    (∀ a ∈ Visit.asks ⟨d + 1, task, m⟩, ∀ u ∈ a.run, u.Sees name k) ∧
      k <:+ (Ending.machine ((Action.step task m).carryOut (perform d))).cells name := by
  by_cases hpushes : task.Pushes
  · cases task with
    | eval node =>
        obtain ⟨hleaves, kind, callee, arguments, hcall⟩ := Node.Spares.leaves h hpushes
        obtain ⟨-, hown, hchildren⟩ := Node.call?_inv hcall
        have hstill : Steady Machine.Still (fun _ _ => True) fun _ => True :=
          Machine.Still.steady .any
        have hdoes : Action.Does Machine.Still (Task.Spares name) (fun _ _ => True) (fun _ => True)
            (Action.evalAll arguments) :=
          hstill.does_evalAll fun a ha => hstill.does_ask (Node.Spares.child h hown (hchildren ha))
        obtain ⟨hasked, -, hend⟩ := (hdoes m).carried (J := fun n => k <:+ n.cells name)
          (perform d) hm (fun l n hn hl => by rw [Machine.cells_eq hn]; exact hl)
          fun asked n _ hasked hn => ⟨trivial, (ih hasked hn).2⟩
        constructor
        · intro a ha u hu
          obtain ⟨p, hp, rfl⟩ := List.mem_map.mp ha
          rcases asked_call hcall hp with hp | ⟨values, n, r, caller, hvalues, rfl⟩
          · obtain ⟨hspares, hn⟩ := hasked p hp
            exact (ih hspares hn).1 u hu
          · -- the body runs on a record above those which the call found
            rw [hvalues] at hend
            have habove := (visits_headers d (.eval r.body) (List.cons_ne_nil _ _) u hu).length_le
            have hbelow := hend.length_le
            rw [Machine.length_cells] at hbelow
            simp only [Machine.headers, List.length_map, Machine.called, List.length_cons] at habove
            exact .inr (Nat.lt_of_le_of_lt hbelow habove)
        · have hsuffix := perform_leaves (d + 1) hleaves m
          rw [perform_eval] at hsuffix
          rw [machine_step_eval]
          exact hm.trans (hsuffix.map _)
    | _ => exact hpushes.elim
  · have hdoes := step_leaves hpushes .any m m
    obtain ⟨hasked, -, hend⟩ := hdoes.carried (J := fun n => k <:+ n.cells name) (perform d) hm
      (fun l n hn hl => by rw [hn.cells name h.not_writes]; exact hl)
      fun asked n _ hasks hn =>
        ⟨trivial, (ih ((h.asks hasks).resolve_right hpushes) hn).2⟩
    refine ⟨fun a ha u hu => ?_, hend⟩
    obtain ⟨p, hp, rfl⟩ := List.mem_map.mp ha
    obtain ⟨hasks, hn⟩ := hasked p hp
    exact (ih ((h.asks hasks).resolve_right hpushes) hn).1 u hu

/-- A task that sets a variable nowhere in its own routine leaves the values that it has in the
    records which the task found; what it comes to finds them, or runs on records above. -/
theorem Spares.kept (d : Nat) {m : Machine} (h : task.Spares name)
    (hm : k <:+ m.cells name) :
    (∀ u ∈ visits d task m, u.Sees name k) ∧
      k <:+ (Ending.machine (perform d task m)).cells name := by
  induction d generalizing task m with
  | zero =>
      refine ⟨fun u hu => ?_, hm⟩
      obtain rfl := List.mem_singleton.mp hu
      exact .inl hm
  | succ d ih =>
      obtain ⟨hasked, hend⟩ := h.step_kept hm ih
      constructor
      · intro u hu
        rcases Visit.mem_run_succ.mp hu with rfl | ⟨a, ha, hu⟩ | ⟨after, hafter, hu⟩
        · exact .inl hm
        · exact hasked a ha u hu
        · rw [hafter] at hend
          exact (ih h hend).1 u hu
      · rcases perform_cases d task m with ⟨v, after, hstep, hrun⟩ | ⟨e, after, hstep, hrun⟩ |
          ⟨after, hstep, hrun⟩ <;> rw [hrun] <;> rw [hstep] at hend
        · exact hend
        · exact hend
        · exact (ih h hend).2

end Task

/-! ## Behind a statement, and behind a value -/

section

variable {run : Task → Eval Value} {m after : Machine} {p : Task × Machine}

theorem asked_block_cons (run : Task → Eval Value) (statement : Node) (rest : List Node)
    (m : Machine) :
    ∃ behind, (Action.block (statement :: rest) m).asked run = (.eval statement, m) :: behind ∧
      (behind = [] ∨ ∃ v after, run (.eval statement) m = .ok v after ∧
        behind = (Action.block rest after).asked run) := by
  rw [Action.block]
  refine ⟨_, rfl, ?_⟩
  cases hrun : run (.eval statement) m with
  | error e after => exact .inl rfl
  | ok v after =>
      cases v with
      | given v => exact .inl rfl
      | _ => exact .inr ⟨_, _, rfl, rfl⟩

/-- What a block asks for behind one of its statements: what the statements behind that ask for, if
    it completes. -/
theorem asked_block {statements : List Node} {i : Nat}
    (h : ((Action.block statements m).asked run)[i]? = some p) :
    (∃ statement, statements[i]? = some statement ∧ p.1 = .eval statement) ∧
      (((Action.block statements m).asked run).drop (i + 1) = [] ∨
        ∃ v after, run p.1 p.2 = .ok v after ∧
          ((Action.block statements m).asked run).drop (i + 1) =
            (Action.block (statements.drop (i + 1)) after).asked run) := by
  induction i generalizing statements m with
  | zero =>
      cases statements with
      | nil => cases h
      | cons statement rest =>
          obtain ⟨behind, hasked, hbehind⟩ := asked_block_cons run statement rest m
          rw [hasked] at h ⊢
          obtain rfl := Option.some.inj h
          exact ⟨⟨statement, rfl, rfl⟩, hbehind⟩
  | succ i ih =>
      cases statements with
      | nil => cases h
      | cons statement rest =>
          obtain ⟨behind, hasked, hbehind⟩ := asked_block_cons run statement rest m
          rw [hasked] at h ⊢
          rcases hbehind with rfl | ⟨v, after, -, rfl⟩
          · cases h
          · exact ih h

/-- Constants are set one after the other, each behind its value. -/
theorem setConstants_cons (run : Task → Eval Value) (height : Nat) (name : Node) (names : List Node)
    (value : Node) (values : List Node) (m : Machine) :
    ∃ behind, (Action.setConstants height (name :: names) (value :: values) m).asked run =
        (.eval value, m) :: behind ∧
      (behind = [] ∧ (∀ v after spelled, run (.eval value) m = .ok v after →
          name.namePart ≠ .ok spelled) ∨
        ∃ v after spelled, run (.eval value) m = .ok v after ∧ name.namePart = .ok spelled ∧
          let rest := Action.setConstants height names values
            { after with stack := after.stack.setAt height spelled v }
          behind = rest.asked run ∧
            (Action.setConstants height (name :: names) (value :: values) m).carryOut run =
              rest.carryOut run) := by
  rw [Action.setConstants]
  refine ⟨_, rfl, ?_⟩
  show _ ∨ ∃ v after spelled, _ ∧ _ ∧ _ ∧ Work.carryOut run (Work.bind (.ended _) _) = _
  cases hrun : run (.eval value) m with
  | error e after => exact .inl ⟨rfl, fun _ _ _ h => by cases h⟩
  | ok v after =>
      cases hname : name.namePart with
      | error f => exact .inl ⟨rfl, fun _ _ _ _ h => by cases h⟩
      | ok spelled => exact .inr ⟨v, after, spelled, rfl, rfl, rfl, rfl⟩

/-- What a declaration of constants does behind the value of one of them: it sets the constant, and
    goes on with the others. -/
theorem asked_setConstants {height : Nat} {names values : List Node} {j : Nat} {c : String}
    {w : Value} (h : ((Action.setConstants height names values m).asked run)[j]? = some p)
    (hname : names[j]? = some (.identifier c)) (hrun : run p.1 p.2 = .ok w after) :
    let rest := Action.setConstants height (names.drop (j + 1)) (values.drop (j + 1))
      { after with stack := after.stack.setAt height c w }
    (∃ value ∈ values, p.1 = .eval value) ∧
      ((Action.setConstants height names values m).asked run).drop (j + 1) = rest.asked run ∧
      (Action.setConstants height names values m).carryOut run = rest.carryOut run := by
  induction j generalizing names values m with
  | zero =>
      cases names with
      | nil => cases hname
      | cons name names =>
          cases values with
          | nil => cases h
          | cons value values =>
              obtain rfl := Option.some.inj hname
              obtain ⟨behind, hasked, hbehind⟩ :=
                setConstants_cons run height (.identifier c) names value values m
              rw [hasked] at h ⊢
              obtain rfl := Option.some.inj h
              rcases hbehind with ⟨-, hnot⟩ | ⟨v, n, spelled, hvalue, hspelled, hbehind, hend⟩
              · exact absurd rfl (hnot w after c hrun)
              · cases hspelled
                cases hvalue.symm.trans hrun
                exact ⟨⟨value, List.mem_cons_self, rfl⟩, hbehind, hend⟩
  | succ j ih =>
      cases names with
      | nil => cases hname
      | cons name names =>
          cases values with
          | nil => cases h
          | cons value values =>
              obtain ⟨behind, hasked, hbehind⟩ :=
                setConstants_cons run height name names value values m
              rw [hasked] at h ⊢
              rcases hbehind with ⟨rfl, -⟩ | ⟨v, n, spelled, -, -, rfl, hend⟩
              · cases h
              · rw [hend]
                obtain ⟨⟨later, hlater, htask⟩, hrest⟩ := ih h hname
                exact ⟨⟨later, List.mem_cons_of_mem _ hlater, htask⟩, hrest⟩

end

/-- A declaration of constants sets them in the record that is on top when it begins. -/
theorem evaluate_constants {m : Machine} (type : Node) (names values : List Node)
    (hm : m.stack ≠ []) :
    Action.evaluate (.constantDecl type names values) m =
      (Action.setConstants m.stack.length names values m).bind fun _ => Pure.pure .nothing := by
  obtain ⟨r, rest, hs⟩ := List.exists_cons_of_ne_nil hm
  show (Work.ended (Eval.topHeight m)).bind _ = _
  rw [Eval.topHeight_cons hs, ← List.length_cons (a := r), ← hs]
  rfl

/-- The value of a variable behind the step that sets it: it stands at its height. -/
theorem Machine.cells_setAt {m : Machine} {height : Nat} (name : String) (v : Value)
    (hpositive : 1 ≤ height) (hheight : height ≤ m.stack.length) :
    ∃ below : List (Option Value), below.length + 1 = height ∧
      some v :: below <:+ Machine.cells { m with stack := m.stack.setAt height name v } name := by
  obtain ⟨stack, functions, procedures, history⟩ := m
  show ∃ below : List (Option Value), below.length + 1 = height ∧
    some v :: below <:+ (stack.setAt height name v).map (·.get? name)
  induction stack with
  | nil =>
      simp only [List.length_nil] at hheight
      omega
  | cons r rest ih =>
      unfold CallStack.setAt
      split
      · next htop =>
          refine ⟨rest.map (·.get? name), by rw [List.length_map, htop], ?_⟩
          have hself : (r.set name v).get? name = some v := Table.get?_insert_self r.members name v
          rw [List.map_cons, hself]
      · next hbelow =>
          simp only [List.length_cons] at hheight
          obtain ⟨below, hlength, hsuffix⟩ := ih (by show height ≤ rest.length; omega)
          exact ⟨below, hlength, hsuffix.trans (List.suffix_cons _ _)⟩

theorem Machine.steady_cells (name : String) {T : Task → Ending Value → Prop} {X : Exit → Prop}
    (h : Permits T X) : Steady (fun m n => n.cells name = m.cells name) T X where
  toPermits := h
  still _ _ hstack := cells_eq hstack name
  trans _ _ _ h h' := Eq.trans h' h

theorem Machine.allowsSet_cells {name other : String} (h : other ≠ name) :
    AllowsSet (fun m n => n.cells name = m.cells name) other :=
  fun m height v => CallStack.map_get?_setAt h height v m.stack

/-! ## What the analyzer accepts behind a constant -/

/-- The names that a part declares as variables or constants. -/
def Node.variables : Node → List String
  | .variableDecl _ names _ | .constantDecl _ names _ => names.filterMap (·.namePart.toOption)
  | _ => []

theorem Node.mem_filterMap_namePart {names : List Node} {target : Node} {name : String}
    (h : target ∈ names) (hname : target.namePart = .ok name) :
    name ∈ names.filterMap (·.namePart.toOption) :=
  List.mem_filterMap.mpr ⟨target, h, by rw [hname]; rfl⟩

theorem Analysis.variables_of_declare {it type name : Node} {what : Declared} {spelled : String}
    {W : String → Prop} {c : Category} (hformed : Formed W c it)
    (hphase : .declare what type name ∈ it.phases) (hname : name.namePart = .ok spelled) :
    spelled ∈ it.variables := by
  cases it with
  | variableDecl type names values | constantDecl type names values =>
      rcases phase_of_mem_namePhases hphase with ⟨_, hmem, h⟩ | ⟨_, h⟩ | ⟨_, _, h⟩ <;> cases h
      exact Node.mem_filterMap_namePart hmem hname
  | incomplete lacking parts => cases hformed with | present hformed => cases hformed
  | _ => grind [Node.phases, Node.presentPhase]

/-- A name that is looked up as a variable. -/
def Scopes.Varies (s : Scopes) (name : String) : Prop :=
  ∃ key type, s.lookup name = some (.variable key type)

theorem Scopes.varies_define {s : Scopes} {symbol : Symbol} {name : String}
    (h : (s.define symbol).Varies name) :
    (symbol.name = name ∧ ∃ key type, symbol = .variable key type) ∨ s.Varies name := by
  by_cases hname : symbol.name = name
  · subst hname
    obtain ⟨key, type, hfound⟩ := h
    rw [s.lookup_define_self] at hfound
    exact .inl ⟨rfl, key, type, Option.some.inj hfound⟩
  · obtain ⟨key, type, hfound⟩ := h
    rw [s.lookup_define_of_ne hname] at hfound
    exact .inr ⟨key, type, hfound⟩

theorem Scopes.varies_enter {s : Scopes} {name label : String} {kind : ScopeKind}
    (h : (s.enter label kind []).Varies name) : s.Varies name := by
  obtain ⟨key, type, hfound⟩ := h
  change findIn name (Scope.make label kind (s.current.level + 1) :: s.toList) = _ at hfound
  rw [findIn] at hfound
  cases hmake : (Scope.make label kind (s.current.level + 1)).find? name with
  | none =>
      rw [hmake] at hfound
      exact ⟨key, type, hfound⟩
  | some symbol =>
      -- a scope begins with built-in symbols at most
      rw [hmake] at hfound
      obtain rfl := Option.some.inj hfound
      obtain ⟨b, hb, hbuiltIn, -⟩ := Scope.find?_make hmake
      simp only [Scope.builtIns, List.mem_cons, List.not_mem_nil, or_false] at hb
      rcases hb with rfl | rfl | rfl <;> cases hbuiltIn

/-- In a routine that does not declare a name, no place makes a variable of what is none. -/
theorem Warden.fixed {fits : Symbol → Bool} (name : String) :
    Warden fits (fun r node => (∃ c, Formed (fun _ => True) c node) ∧
        (r = none → ∀ part ∈ node.ownParts, name ∉ part.variables))
      (fun r s => r = none → ¬ s.Varies name) fun _ => True where
  children r node part hnode hpart := by
    obtain ⟨⟨c, hformed⟩, hfree⟩ := hnode
    obtain ⟨c', hformed', -⟩ := hformed.children hpart
    refine ⟨⟨c', hformed'⟩, fun hr inner hinner => ?_⟩
    unfold Node.routineWithin at hr
    split at hr
    · cases hr
    · next hown =>
        exact hfree hr inner (Node.mem_ownParts_of_mem_children (by simpa using hown) hpart hinner)
  block r s label kind _ hs hr hvaries := hs hr (Scopes.varies_enter hvaries)
  name r s node what type target spelled typeSpelled hnode hphase hname _ _ hs hr hvaries := by
    obtain ⟨⟨c, hformed⟩, hfree⟩ := hnode
    rcases Scopes.varies_define hvaries with ⟨hsame, -⟩ | hvaries
    · have hmem := Analysis.variables_of_declare hformed hphase hname
      have hspelled : spelled = name := by
        cases what <;> exact hsame
      exact hfree hr node node.self_mem_ownParts (hspelled ▸ hmem)
    · exact hs hr hvaries
  routine r s node what kind target parameters symbol body spelled ps sym _ hphase hname hps hsym _
      hs := by
    refine ⟨fun hr hvaries => ?_, fun hr => nomatch hr⟩
    rcases Scopes.varies_define hvaries with ⟨-, key, type, rfl⟩ | hvaries
    · rcases (Analysis.defines_of_routine hphase hname hps hsym).1.routine with ⟨_, h⟩ | ⟨_, h⟩ <;>
        cases h
    · exact hs hr hvaries
  test _ _ _ _ _ _ _ _ _ _ := trivial
  plain _ _ := trivial

/-- Where a name is no variable and is not declared, the analyzer accepts no assignment to it. -/
theorem Place.Passes.spares {fits : Symbol → Bool} {s : Scopes} {c : Category} {name : String}
    {node : Node} (h : (Place.mk none s node).Passes fits)
    (hformed : Formed (fun _ => True) c node) (hs : ¬ s.Varies name)
    (hfree : ∀ part ∈ node.ownParts, name ∉ part.variables) :
    ∀ part ∈ node.ownParts, ∀ target ∈ part.targets, target.namePart ≠ .ok name := by
  intro part hpart target htarget hname
  cases part with
  | variableDecl _ names _ | constantDecl _ names _ =>
      exact hfree _ hpart (Node.mem_filterMap_namePart htarget hname)
  | assignment _ value =>
      obtain rfl := List.mem_singleton.mp htarget
      obtain ⟨q, hq, hnode, hroutine⟩ := h.ownPlaced hformed hpart fun h => h
      have hfixed := (((Warden.fixed name).kept node none s ⟨⟨c, hformed⟩, fun _ => hfree⟩
        fun _ => hs).1 q hq).2 hroutine
      obtain ⟨after, hruns⟩ := (h.all hq).runAll
      rw [hnode] at hruns
      obtain ⟨_, mid, hcheck, -⟩ := Analysis.bind_ok hruns
      obtain ⟨-, spelled, key, type, hspelled, hfound⟩ := Analysis.checkTarget_inv hcheck
      cases hspelled.symm.trans hname
      exact hfixed ⟨key, type, hfound⟩
  | _ => cases htarget

theorem Analysis.nodes_at {fits : Symbol → Bool} {parts : List Node} {i : Nat} {part : Node}
    {s s' : Scopes} {u : Unit} (h : Analysis.nodes fits parts s = .ok u s')
    (hi : parts[i]? = some part) :
    ∃ mid behind, Analysis.node fits part mid = .ok () behind ∧
      Analysis.nodes fits (parts.drop (i + 1)) behind = .ok u s' := by
  induction i generalizing parts s with
  | zero =>
      cases parts with
      | nil => cases hi
      | cons first rest =>
          obtain rfl := Option.some.inj hi
          rw [Analysis.nodes] at h
          obtain ⟨_, behind, hfirst, hrest⟩ := Analysis.bind_ok h
          exact ⟨s, behind, hfirst, hrest⟩
  | succ i ih =>
      cases parts with
      | nil => cases hi
      | cons first rest =>
          rw [Analysis.nodes] at h
          obtain ⟨_, behind, -, hrest⟩ := Analysis.bind_ok h
          exact ih hrest hi

namespace Scoped

variable {fits : Symbol → Bool} {s s' : Scopes} {type : Node} {names values : List Node}
  {c : String}

/-- Constants are not declared under a name that the current scope has. -/
theorem constants_new (h : Scoped fits .statement s (.constantDecl type names values) s')
    (hc : s.declares c = true) : s'.lookup c = s.lookup c ∧ .identifier c ∉ names := by
  induction names generalizing s values with
  | nil =>
      cases h with
      | noConstants => exact ⟨rfl, List.not_mem_nil⟩
  | cons name names ih =>
      cases h with
      | @setConstant _ _ type spelled value _ values hnew _ hrest =>
          have hne : spelled ≠ c := by
            rintro rfl
            rw [hc] at hnew
            cases hnew
          have hother : (Symbol.constant spelled type).name ≠ c := hne
          have hstays : (s.define (.constant spelled type)).declares c = true := by
            unfold Scopes.declares Scopes.define
            rw [s.current.find?_define_of_ne hother]
            exact hc
          obtain ⟨hlookup, hmem⟩ := ih hrest hstays
          rw [s.lookup_define_of_ne hother] at hlookup
          refine ⟨hlookup, fun hin => ?_⟩
          rcases List.mem_cons.mp hin with heq | hin
          · cases heq
            exact hne rfl
          · exact hmem hin

/-- Behind its declaration a constant is known as one, and it is declared there once. -/
theorem constant_known {j : Nat}
    (h : Scoped fits .statement s (.constantDecl type names values) s')
    (hj : names[j]? = some (.identifier c)) :
    ¬ s'.Varies c ∧ .identifier c ∉ names.drop (j + 1) := by
  induction names generalizing s values j with
  | nil => cases hj
  | cons name names ih =>
      cases h with
      | @setConstant _ _ type spelled value _ values hnew _ hrest =>
          cases j with
          | zero =>
              cases hj
              have hself : (s.define (.constant c type)).declares c = true :=
                congrArg Option.isSome (s.current.find?_define_self (.constant c type))
              obtain ⟨hlookup, hmem⟩ := hrest.constants_new hself
              have hconstant := hlookup.trans (s.lookup_define_self (.constant c type))
              refine ⟨?_, hmem⟩
              rintro ⟨key, type', hfound⟩
              cases hconstant.symm.trans hfound
          | succ j => exact ih hrest hj

end Scoped

/-- Expressions set no variables. -/
theorem Formed.no_targets {W : String → Prop} {c : Category} {node : Node} (h : Formed W c node)
    (hc : c = .expression ∨ c = .name) : ∀ part ∈ node.ownParts, part.targets = [] := by
  intro part hpart
  induction node using Node.children_induction generalizing c with
  | h node ih =>
      rcases Node.mem_ownParts.mp hpart with rfl | ⟨-, child, hchild, hpart⟩
      · cases h <;> first
          | rfl
          | exact absurd hc (by decide)
      · have hformed : Formed W .expression child ∨ Formed W .name child := by
          cases h <;> first
            | exact absurd hc (by decide)
            | grind [Node.children]
        rcases hformed with hformed | hformed
        · exact ih child hchild hformed (.inl rfl) hpart
        · exact ih child hchild hformed (.inr rfl) hpart

theorem Formed.expression_spares {W : String → Prop} {node : Node} (h : Formed W .expression node)
    (name : String) : node.Spares name where
  formed := ⟨.expression, h.mono fun _ _ => trivial, nofun⟩
  targets part hpart target htarget := by
    rw [h.no_targets (.inl rfl) part hpart] at htarget
    exact absurd htarget List.not_mem_nil

/-! ## Constants -/

/-- Behind a constant that the routine does not declare again, the statements of its block spare
    it. -/
theorem block_spares {statements names values : List Node} {type : Node} {i j : Nat} {c : String}
    {fits : Symbol → Bool} {p : Place} (hpasses : p.Passes fits)
    (hnode : p.node = .block statements) (hformed : Formed IsWord .block (.block statements))
    (hkeep : statements[i]? = some (.constantDecl type names values))
    (hname : names[j]? = some (.identifier c))
    (hsole : ∀ later ∈ statements.drop (i + 1), ∀ part ∈ later.ownParts, c ∉ part.variables) :
    .identifier c ∉ names.drop (j + 1) ∧ ∀ later ∈ statements.drop (i + 1), later.Spares c := by
  obtain ⟨after, hruns⟩ := hpasses
  rw [hnode, Analysis.node] at hruns
  have hstatements : ∀ s ∈ statements, Formed IsWord .statement s := by
    cases hformed with
    | block h => exact h
  obtain ⟨mid, behind, hdecl, hrest⟩ := Analysis.nodes_at hruns hkeep
  have hsound : Analysis.Sound fits .statement (.constantDecl type names values) :=
    (hstatements _ (List.mem_of_getElem? hkeep)).sound trivial
  have hscoped := hsound mid behind () hdecl
  obtain ⟨hconstant, honce⟩ := hscoped.constant_known hname
  refine ⟨honce, fun later hlater => ?_⟩
  -- the statements behind the declaration, as a block, pass where the constant is known
  have hpassed : (Place.mk none behind (.block (statements.drop (i + 1)))).Passes fits :=
    ⟨after, by rw [Analysis.node]; exact hrest⟩
  have hblock : Formed (fun _ => True) .block (.block (statements.drop (i + 1))) :=
    .block fun s hs => (hstatements s (List.mem_of_mem_drop hs)).mono fun _ _ => trivial
  have hfree : ∀ part ∈ (Node.block (statements.drop (i + 1))).ownParts, c ∉ part.variables := by
    intro part hpart
    rcases Node.mem_ownParts.mp hpart with rfl | ⟨-, child, hchild, hpart⟩
    · exact List.not_mem_nil
    · exact hsole child hchild part hpart
  have hspares := hpassed.spares hblock hconstant hfree
  have hparts : (Node.block (statements.drop (i + 1))).Spares c :=
    ⟨⟨.block, hblock, by intro h; cases h⟩, hspares⟩
  exact hparts.child rfl hlater

namespace Visit

variable {k : List (Option Value)} {c : String}

/-- A block asks for its statements. -/
theorem task_of_block {v decl : Visit} {statements : List Node} {i : Nat}
    (hblock : v.task = .eval (.block statements)) (hdecl : v.asks[i]? = some decl) :
    ∃ statement, statements[i]? = some statement ∧ decl.task = .eval statement := by
  obtain ⟨depth, task, m⟩ := v
  obtain rfl : task = .eval (.block statements) := hblock
  cases depth with
  | zero => cases hdecl
  | succ d =>
      rw [asks_eval, List.getElem?_map] at hdecl
      obtain ⟨p, hp, rfl⟩ := Option.map_eq_some_iff.mp hdecl
      exact (asked_block hp).1

/-- Behind a statement that leaves a variable in these values, the statements of a block that spare
    it find them. -/
theorem sees_behind_statement {v decl : Visit} {statements : List Node} {i : Nat}
    (hblock : v.task = .eval (.block statements)) (hdecl : v.asks[i]? = some decl)
    (hspares : ∀ later ∈ statements.drop (i + 1), later.Spares c)
    (hk : k <:+ (Ending.machine decl.outcome).cells c) :
    ∀ u ∈ (v.asks.drop (i + 1)).flatMap run, u.Sees c k := by
  obtain ⟨depth, task, m⟩ := v
  obtain rfl : task = .eval (.block statements) := hblock
  cases depth with
  | zero => cases hdecl
  | succ d =>
      rw [asks_eval] at hdecl ⊢
      rw [List.getElem?_map] at hdecl
      rw [← List.map_drop]
      obtain ⟨p, hp, rfl⟩ := Option.map_eq_some_iff.mp hdecl
      intro u hu
      change u ∈ ((((Action.block statements m).asked (perform d)).drop (i + 1)).map _).flatMap run
        at hu
      rcases (asked_block hp).2 with hnone | ⟨w, after, hrun, hrest⟩
      · rw [hnone] at hu
        exact absurd hu List.not_mem_nil
      · rw [hrest] at hu
        have hafter : k <:+ after.cells c := by
          change k <:+ (Ending.machine (perform d p.1 p.2)).cells c at hk
          rw [hrun] at hk
          exact hk
        have hstill : Steady Machine.Still (fun _ _ => True) fun _ => True :=
          Machine.Still.steady .any
        have hdoes : Action.Does Machine.Still (Task.Spares c) (fun _ _ => True) (fun _ => True)
            (Action.block (statements.drop (i + 1))) :=
          hstill.does_block fun later hlater => hstill.does_ask (hspares later hlater)
        obtain ⟨hasked, -⟩ := (hdoes after).carried (J := fun n => k <:+ n.cells c) (perform d)
          hafter (fun l n hn hl => by rw [Machine.cells_eq hn]; exact hl)
          fun task n _ htask hn => ⟨trivial, (htask.kept d hn).2⟩
        obtain ⟨a, ha, hu⟩ := List.mem_flatMap.mp hu
        obtain ⟨q, hq, rfl⟩ := List.mem_map.mp ha
        obtain ⟨htask, hn⟩ := hasked q hq
        exact (htask.kept d hn).1 u hu

/-- Behind the value of a constant, what its declaration comes to finds the constant with this value
    in its record, and the declaration leaves it there. -/
theorem sees_behind_value {decl e : Visit} {type : Node} {names values : List Node} {j : Nat}
    {w : Value} {after : Machine} (hdecl : decl.task = .eval (.constantDecl type names values))
    (hname : names[j]? = some (.identifier c)) (honce : .identifier c ∉ names.drop (j + 1))
    (hformed : Formed IsWord .statement (.constantDecl type names values))
    (he : decl.asks[j]? = some e) (hvalue : e.outcome = .ok w after) :
    w ≠ .nothing ∧ ∃ below : List (Option Value), below.length + 1 = decl.machine.stack.length ∧
      (∀ u ∈ (decl.asks.drop (j + 1)).flatMap run, u.Sees c (some w :: below)) ∧
      some w :: below <:+ (Ending.machine decl.outcome).cells c := by
  obtain ⟨depth, task, m⟩ := decl
  obtain rfl : task = .eval (.constantDecl type names values) := hdecl
  cases depth with
  | zero => cases he
  | succ d =>
      -- there is a record, or the declaration would have asked for nothing
      have hm : m.stack ≠ [] := by
        intro hs
        rw [asks_eval] at he
        change (List.map _ (((Work.ended (Eval.topHeight m)).bind _).asked _))[j]? = _ at he
        rw [Eval.topHeight_nil hs] at he
        cases he
      have hasks : asks ⟨d + 1, .eval (.constantDecl type names values), m⟩ =
          ((Action.setConstants m.stack.length names values m).asked (perform d)).map
            fun p => ⟨d, p.1, p.2⟩ := by
        rw [asks_eval, evaluate_constants type names values hm, Work.asked_bind]
        cases (Action.setConstants m.stack.length names values m).carryOut (perform d) <;>
          exact congrArg _ (List.append_nil _)
      have hend : Ending.machine (outcome ⟨d + 1, .eval (.constantDecl type names values), m⟩) =
          Ending.machine
            ((Action.setConstants m.stack.length names values m).carryOut (perform d)) := by
        show Ending.machine (perform (d + 1) (.eval (.constantDecl type names values)) m) = _
        rw [perform_eval, evaluate_constants type names values hm, Work.carryOut_bind]
        cases (Action.setConstants m.stack.length names values m).carryOut (perform d) <;> rfl
      have hheaders := visits_headers (d + 1) (.eval (.constantDecl type names values)) hm e
        (asks_subset_run (List.mem_of_getElem? he))
      rw [hasks, List.getElem?_map] at he
      rw [hasks, hend, ← List.map_drop]
      obtain ⟨p, hp, rfl⟩ := Option.map_eq_some_iff.mp he
      obtain ⟨⟨value, hmem, htask⟩, hdrop, hcarry⟩ := asked_setConstants hp hname hvalue
      rw [hdrop, hcarry]
      -- the record of the declaration is still there behind the value
      have hne : p.2.stack ≠ [] :=
        Machine.stack_ne_nil (mt Machine.headers_eq_nil.mp hm) hheaders
      have hlength : m.stack.length ≤ after.stack.length := by
        have hsuffix := hheaders.trans (perform_headers d p.1 hne)
        change perform d p.1 p.2 = _ at hvalue
        rw [hvalue] at hsuffix
        simpa only [Machine.headers, Ending.machine_ok, List.length_map] using hsuffix.length_le
      obtain ⟨below, hbelow, hset⟩ := Machine.cells_setAt (m := after) c w
        (List.length_pos_iff.mpr hm) hlength
      obtain ⟨hnames, hvalues⟩ : (∀ n ∈ names, Formed IsWord .name n) ∧
          ∀ v ∈ values, Formed IsWord .expression v := by
        cases hformed with
        | constantDecl _ hnames hvalues _ => exact ⟨hnames, hvalues⟩
      have hsomething : w ≠ .nothing := by
        change perform d p.1 p.2 = _ at hvalue
        rw [htask] at hvalue
        exact perform_something ((hvalues value hmem).mono fun _ _ => trivial) hvalue
      refine ⟨hsomething, below, hbelow, ?_⟩
      have hsteady := Machine.steady_cells c .any
      have hdoes : Action.Does (fun l n => n.cells c = l.cells c) (Task.Spares c) (fun _ _ => True)
          (fun _ => True)
          (Action.setConstants m.stack.length (names.drop (j + 1)) (values.drop (j + 1))) := by
        refine hsteady.does_setConstants _ (fun target htarget name hspelled => ?_) fun v hv => ?_
        · refine Machine.allowsSet_cells ?_
          rintro rfl
          cases hnames target (List.mem_of_mem_drop htarget) with
          | name _ =>
              cases hspelled
              exact honce htarget
        · exact hsteady.does_ask ((hvalues v (List.mem_of_mem_drop hv)).expression_spares c)
      obtain ⟨hasked, -, hleft⟩ := (hdoes _).carried (J := fun n => some w :: below <:+ n.cells c)
        (perform d) hset (fun l n hn hl => by rw [hn]; exact hl)
        fun task n _ htask hn => ⟨trivial, (htask.kept d hn).2⟩
      refine ⟨fun u hu => ?_, hleft⟩
      obtain ⟨a, ha, hu⟩ := List.mem_flatMap.mp hu
      obtain ⟨q, hq, rfl⟩ := List.mem_map.mp ha
      obtain ⟨htask, hn⟩ := hasked q hq
      exact (htask.kept d hn).1 u hu

/-- What a visit sees in its own record it reads there. -/
theorem Sees.read {u : Visit} {w : Value} {below : List (Option Value)}
    (h : u.Sees c (some w :: below)) (hw : w ≠ .nothing)
    (hlength : (some w :: below).length = u.machine.stack.length) :
    (∃ r, u.machine.stack.head? = some r ∧ r.get? c = some w) ∧
      (u.task = .eval (.identifier c) → u.depth ≠ 0 → u.outcome = .ok w u.machine) := by
  have hcells : u.machine.cells c = some w :: below := by
    rcases h with h | h
    · exact (h.eq_of_length (by rw [hlength, Machine.length_cells])).symm
    · omega
  obtain ⟨r, rest, hs, hr, -⟩ := List.map_eq_cons_iff.mp hcells
  refine ⟨⟨r, by rw [hs]; rfl, hr⟩, ?_⟩
  intro htask hdepth
  obtain ⟨depth, task, m⟩ := u
  obtain rfl : task = .eval (.identifier c) := htask
  cases depth with
  | zero => exact absurd rfl hdepth
  | succ d =>
      show perform (d + 1) (.eval (.identifier c)) m = .ok w m
      rw [perform_eval]
      show Eval.valueOf c m = .ok w m
      simp only [Eval.valueOf, bind, EStateM.bind, Eval.top_cons hs, hr]
      cases w with
      | nothing => exact absurd rfl hw
      | _ => rfl

end Visit

/-- In an accepted program, let a block run to a declaration of constants, and that to the value of
    the constant `c`.  If the statements behind the declaration do not declare `c` again in the same
    routine, then until the block is left `c` has this value in the record of the declaration
    whenever something runs on that record, and every read of `c` there yields it.

    A call that is cut short by a skip or a stop leaves its record on the stack, and what follows in
    the block then runs above that record.  Nothing is said here of such a stretch. -/
theorem constants_kept {source : String} {tree : Node} (hparse : parse source = .ok tree)
    (haccepted : (analyze tree).1 = none) {depth : Nat} {v : Visit}
    (hv : v ∈ visits depth (.eval tree) Machine.initial) {statements names values : List Node}
    {type : Node} {i j : Nat} {c : String} (hblock : v.task = .eval (.block statements))
    (hkeep : statements[i]? = some (.constantDecl type names values))
    (hname : names[j]? = some (.identifier c))
    (hsole : ∀ later ∈ statements.drop (i + 1), ∀ part ∈ later.ownParts, c ∉ part.variables)
    {decl e : Visit} (hdecl : v.asks[i]? = some decl) (he : decl.asks[j]? = some e) {w : Value}
    {after : Machine} (hvalue : e.outcome = .ok w after) :
    ∀ u ∈ (decl.asks.drop (j + 1) ++ v.asks.drop (i + 1)).flatMap Visit.run,
      u.machine.stack.length = decl.machine.stack.length →
      (∃ r, u.machine.stack.head? = some r ∧ r.get? c = some w) ∧
        (u.task = .eval (.identifier c) → u.depth ≠ 0 → u.outcome = .ok w u.machine) := by
  have hpart : .block statements ∈ tree.parts := by
    have htask := (visits_declared hparse haccepted hv).1
    rw [hblock] at htask
    exact htask
  have htree := parse_formed hparse
  have hpasses := Node.passes_of_accepted haccepted
  obtain ⟨p, hp, hnode⟩ := hpasses.placed htree hpart fun h => h
  have hformed : Formed IsWord .block (.block statements) := by
    obtain ⟨c', hformed⟩ := htree.of_mem_parts hpart
    cases hformed with
    | block h => exact .block h
    | present h => cases h
  have hstatement : Formed IsWord .statement (.constantDecl type names values) := by
    cases hformed with
    | block h => exact h _ (List.mem_of_getElem? hkeep)
  obtain ⟨honce, hspares⟩ := block_spares (hpasses.all hp) hnode hformed hkeep hname hsole
  obtain ⟨statement, hi, htask⟩ := Visit.task_of_block hblock hdecl
  cases hkeep.symm.trans hi
  obtain ⟨hsomething, below, hbelow, hlater, hleft⟩ :=
    Visit.sees_behind_value htask hname honce hstatement he hvalue
  intro u hu hlength
  have hsees : u.Sees c (some w :: below) := by
    rw [List.flatMap_append] at hu
    rcases List.mem_append.mp hu with hu | hu
    · exact hlater u hu
    · exact Visit.sees_behind_statement hblock hdecl hspares hleft u hu
  exact hsees.read hsomething (by rw [List.length_cons, hbelow, hlength])

/-- A constant is read behind the call of a procedure with a parameter of the same name. -/
theorem constants_kept_around_call :
    ∃ source tree statements, parse source = .ok tree ∧ (analyze tree).1 = none ∧
      (∀ later ∈ statements.drop 1, ∀ part ∈ later.ownParts, "c" ∉ part.variables) ∧
      ∃ v ∈ visits 12 (.eval tree) Machine.initial, v.task = .eval (.block statements) ∧
        ∃ decl e after, v.asks[0]? = some decl ∧ decl.asks[0]? = some e ∧
          e.outcome = .ok (.bool true) after ∧
          ∃ u ∈ (decl.asks.drop 1 ++ v.asks.drop 1).flatMap Visit.run,
            u.task = .eval (.identifier "c") ∧ u.outcome = .ok (.bool true) u.machine := by
  let constant : Node := .constantDecl (.typeName "boolean") [.identifier "c"] [.boolean "true"]
  let body : Node := .block [.display (.identifier "c")]
  let statements : List Node :=
    [constant,
    .procedureDecl (.identifier "p") [.parameter (.identifier "c") (.typeName "boolean")] body,
    .procedureCall (.identifier "p") [.boolean "false"],
    .display (.identifier "c")]
  let tree : Node := .program (.block statements)
  have hparse : parse ("\x7b\nkeep boolean c = true\nproc p(boolean c) \x7b\nshow c\n\x7d\n"
      ++ "exec p(false)\nshow c\n\x7d") = .ok tree := by cbv
  have haccepted : (analyze tree).1 = none := by cbv
  have hnone : ((statements.drop 1).flatMap Node.ownParts).flatMap Node.variables = [] := by cbv
  have hsole : ∀ later ∈ statements.drop 1, ∀ part ∈ later.ownParts, "c" ∉ part.variables := by
    intro later hlater part hpart hc
    have hmem := List.mem_flatMap.mpr ⟨part, List.mem_flatMap.mpr ⟨later, hlater, hpart⟩, hc⟩
    rw [hnone] at hmem
    exact absurd hmem List.not_mem_nil
  -- the machine behind the call: its record is gone, and that of the program has the constant
  let callee : Record := ⟨"p", .procedure, 2, [("c", .bool false)]⟩
  let m : Machine := ⟨[⟨"program", .program, 1, [("c", .bool true)]⟩], [],
    [("p", ⟨"p", some [⟨"c", "boolean"⟩], body⟩)],
    [.popped callee, .shown "False", .pushed callee, .pushed Record.program]⟩
  let v : Visit := ⟨11, .eval (.block statements), Machine.started⟩
  let decl : Visit := ⟨10, .eval constant, Machine.started⟩
  let e : Visit := ⟨9, .eval (.boolean "true"), Machine.started⟩
  let shows : Visit := ⟨10, .eval (.display (.identifier "c")), m⟩
  let u : Visit := ⟨9, .eval (.identifier "c"), m⟩
  have hfirst : (Visit.asks ⟨12, .eval tree, Machine.initial⟩)[0]? = some v := rfl
  have hv : v ∈ visits 12 (.eval tree) Machine.initial :=
    Visit.asks_subset_run (List.mem_of_getElem? hfirst)
  have hdecl : v.asks[0]? = some decl := rfl
  have he : decl.asks[0]? = some e := rfl
  have hvalue : e.outcome = .ok (.bool true) Machine.started := by cbv
  have hshows : (v.asks.drop 1)[2]? = some shows := by cbv
  have hread : shows.asks[0]? = some u := rfl
  have hu : u ∈ (decl.asks.drop 1 ++ v.asks.drop 1).flatMap Visit.run := by
    refine List.mem_flatMap.mpr ⟨shows, List.mem_append_right _ (List.mem_of_getElem? hshows), ?_⟩
    exact Visit.asks_subset_run (List.mem_of_getElem? hread)
  obtain ⟨-, hyields⟩ :=
    constants_kept hparse haccepted hv rfl rfl rfl hsole hdecl he hvalue u hu rfl
  exact ⟨_, tree, statements, hparse, haccepted, hsole, v, hv, rfl, decl, e, _, hdecl, he, hvalue,
    u, hu, rfl, hyields rfl (by decide)⟩

/-- A constant is declared as a variable in a block further in: behind the block the analyzer finds
    the constant for a read, and the read yields the value of the variable. -/
theorem constant_changes :
    ∃ source tree statements, parse source = .ok tree ∧ (analyze tree).1 = none ∧
      ∃ v ∈ visits 12 (.eval tree) Machine.initial, v.task = .eval (.block statements) ∧
        ∃ decl e after, v.asks[0]? = some decl ∧ decl.asks[0]? = some e ∧
          decl.task =
            .eval (.constantDecl (.typeName "boolean") [.identifier "c"] [.boolean "true"]) ∧
          e.outcome = .ok (.bool true) after ∧
          ∃ u ∈ (v.asks.drop 1).flatMap Visit.run,
            u.machine.stack.length = decl.machine.stack.length ∧
            u.task = .eval (.identifier "c") ∧ u.outcome = .ok (.bool false) u.machine ∧
            (∃ q ∈ tree.places, q.node = .identifier "c" ∧
              q.scopes.lookup "c" = some (.constant "c" "boolean")) ∧
            (interpret 12 tree).exit = none ∧
            (interpret 12 tree).machine.output = "False\n" := by
  let constant : Node := .constantDecl (.typeName "boolean") [.identifier "c"] [.boolean "true"]
  let statements : List Node :=
    [constant,
    .ifElse (.boolean "true") (.block
      [.variableDecl (.typeName "boolean") [.identifier "c"] [.boolean "false"]]) [] .absent,
    .display (.identifier "c")]
  let tree : Node := .program (.block statements)
  have hparse : parse ("\x7b\nkeep boolean c = true\nif true \x7b\nlet boolean c = false\n\x7d\n"
      ++ "show c\n\x7d") = .ok tree := by cbv
  have haccepted : (analyze tree).1 = none := by cbv
  let m : Machine := ⟨[⟨"program", .program, 1, [("c", .bool false)]⟩], [], [],
    [.pushed Record.program]⟩
  let v : Visit := ⟨11, .eval (.block statements), Machine.started⟩
  let decl : Visit := ⟨10, .eval constant, Machine.started⟩
  let e : Visit := ⟨9, .eval (.boolean "true"), Machine.started⟩
  let shows : Visit := ⟨10, .eval (.display (.identifier "c")), m⟩
  let u : Visit := ⟨9, .eval (.identifier "c"), m⟩
  have hfirst : (Visit.asks ⟨12, .eval tree, Machine.initial⟩)[0]? = some v := rfl
  have hv : v ∈ visits 12 (.eval tree) Machine.initial :=
    Visit.asks_subset_run (List.mem_of_getElem? hfirst)
  have hshows : (v.asks.drop 1)[1]? = some shows := by cbv
  have hread : shows.asks[0]? = some u := rfl
  have hu : u ∈ (v.asks.drop 1).flatMap Visit.run := by
    refine List.mem_flatMap.mpr ⟨shows, List.mem_of_getElem? hshows, ?_⟩
    exact Visit.asks_subset_run (List.mem_of_getElem? hread)
  have hplace : 10 < tree.places.length := by cbv
  refine ⟨_, tree, statements, hparse, haccepted, v, hv, rfl, decl, e, Machine.started, rfl, rfl,
    rfl, ?_, u, hu, rfl, rfl, ?_, ⟨_, List.getElem_mem hplace, ?_, ?_⟩, ?_, ?_⟩ <;> cbv

end BraceScript
