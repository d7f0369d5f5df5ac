import Mathlib
import BraceScript.Proofs.Declarations

/-! # Giving — functions give values, procedures give none

    The analyzer checks a give against the routine around it, which it finds through the nearest
    scope that is the body of a routine.  A run does not check: a call looks at what came out of the
    body, and complains if a function gave nothing or a procedure gave something.

    * `Warden.rooted`: the symbol that the analyzer finds for the nearest such scope is that of the
      routine it is in, for every tree;
    * `perform_gives`: what comes out of a body is what a give of this body gave;
    * `gives_fit`: so in an accepted program no call has a reason to complain. -/

namespace BraceScript

open Eval (perform)

/-! ## The routine around a place -/

/-- The nearest scope that is the body of a routine is that of the routine `r`, and its name stands
    for the symbol of this routine; there is no such scope outside of all routines. -/
def Scopes.Rooted (r : Option Node) (s : Scopes) : Prop :=
  match r with
  | none => Analysis.routineScope s.toList = none
  | some decl => ∃ scope outer symbol, Analysis.routineScope s.toList = some (scope, outer) ∧
      Scopes.findIn scope.name outer = some symbol ∧ decl.DefinesRoutine symbol

namespace Scopes.Rooted

variable {r : Option Node} {s : Scopes}

theorem define (h : s.Rooted r) (symbol : Symbol) : (s.define symbol).Rooted r := by
  have hlist : Analysis.routineScope (s.define symbol).toList =
      if s.current.kind.isRoutine then some (s.current.define symbol, s.outer)
      else Analysis.routineScope s.outer := rfl
  have hbefore : Analysis.routineScope s.toList =
      if s.current.kind.isRoutine then some (s.current, s.outer)
      else Analysis.routineScope s.outer := rfl
  by_cases hkind : s.current.kind.isRoutine
  · rw [if_pos hkind] at hlist hbefore
    cases r with
    | none => cases hbefore.symm.trans h
    | some decl =>
        obtain ⟨scope, outer, found, hscope, hfound, hdecl⟩ := h
        cases hbefore.symm.trans hscope
        -- the scope itself has changed, but neither its name nor what is around it
        exact ⟨_, _, found, hlist, hfound, hdecl⟩
  · rw [if_neg hkind] at hlist hbefore
    have hsame := hlist.trans hbefore.symm
    cases r with
    | none => exact hsame.trans h
    | some decl =>
        obtain ⟨scope, outer, found, hscope, hfound, hdecl⟩ := h
        exact ⟨scope, outer, found, hsame.trans hscope, hfound, hdecl⟩

/-- The scope of a block is no body of a routine. -/
theorem block (h : s.Rooted r) (label : String) {kind : ScopeKind}
    (hkind : kind.isRoutine = false) : (s.enter label kind []).Rooted r := by
  have hsame : Analysis.routineScope (s.enter label kind []).toList =
      Analysis.routineScope s.toList := by
    show (if (s.enter label kind []).current.kind.isRoutine then _ else _) = _
    rw [(s.enter_current label kind []).1, hkind]
    rfl
  cases r with
  | none => exact hsame.trans h
  | some decl =>
      obtain ⟨scope, outer, found, hscope, hfound, hdecl⟩ := h
      exact ⟨scope, outer, found, hsame.trans hscope, hfound, hdecl⟩

/-- The body of a routine is rooted in its declaration, whatever is around. -/
theorem body (s : Scopes) {decl : Node} {symbol : Symbol} (hdecl : decl.DefinesRoutine symbol)
    {kind : ScopeKind} (hkind : kind.isRoutine = true) (ps : List Parameter) :
    ((s.define symbol).enter symbol.name kind ps).Rooted (some decl) := by
  obtain ⟨hscopeKind, hscopeName⟩ := (s.define symbol).enter_current symbol.name kind ps
  refine ⟨((s.define symbol).enter symbol.name kind ps).current, (s.define symbol).toList, symbol,
    ?_, ?_, hdecl⟩
  · show (if ((s.define symbol).enter symbol.name kind ps).current.kind.isRoutine then _ else _) = _
    rw [hscopeKind, hkind]
    rfl
  · rw [hscopeName]
    exact s.lookup_define_self symbol

end Scopes.Rooted

/-- An error of a give whose routine is not found. -/
def AnalysisFault.IsUnrooted : AnalysisFault → Prop
  | .semantic .giveUnrooted | .semantic (.giveMisplaced _) => True
  | _ => False

namespace Analysis

variable {fits : Symbol → Bool} {s s' : Scopes} {e : AnalysisFault}

theorem IsPlain.not_unrooted (h : IsPlain e) : ¬ e.IsUnrooted := by
  cases e with
  | shape f => exact fun h => h
  | semantic error => cases error <;> first | exact fun h => h | exact absurd h fun h => h

/-- A name that is looked up fails only by what is done with its symbol. -/
theorem lookup_bind_error {α : Type} {name : String} {f : Option Symbol → Analysis α}
    (h : (lookup name >>= f) s = .error e s') : f (s.lookup name) s = .error e s' := h

theorem checkCount_error {r : Routine} {name : String} {arguments : List Node}
    (h : checkCount r name arguments s = .error e s') : ¬ e.IsUnrooted := by
  unfold checkCount at h
  split at h <;> cases h
  exact fun h => h

theorem checkName_error {name : String} (h : checkName fits name s = .error e s') :
    ¬ e.IsUnrooted := by
  have h := lookup_bind_error h
  cases hfound : s.lookup name with
  | none => rw [hfound] at h; cases h; exact fun h => h
  | some symbol =>
      rw [hfound] at h
      dsimp only at h
      split at h <;> cases h
      exact fun h => h

theorem checkTarget_error {target : Node} (h : checkTarget target s = .error e s') :
    ¬ e.IsUnrooted := by
  rcases part_bind_error h with hplain | ⟨name, -, h⟩
  · exact hplain.not_unrooted
  have h := lookup_bind_error h
  cases hfound : s.lookup name with
  | none => rw [hfound] at h; cases h; exact fun h => h
  | some symbol => rw [hfound] at h; cases symbol <;> cases h <;> exact fun h => h

theorem checkFunction_error {callee : Node} {arguments : List Node}
    (h : checkFunction callee arguments s = .error e s') : ¬ e.IsUnrooted := by
  rcases part_bind_error h with hplain | ⟨name, -, h⟩
  · exact hplain.not_unrooted
  have h := lookup_bind_error h
  cases hfound : s.lookup name with
  | none => rw [hfound] at h; cases h; exact fun h => h
  | some symbol =>
      rw [hfound] at h
      cases symbol with
      | function f => exact checkCount_error h
      | _ => cases h; exact fun h => h

theorem checkProcedure_error {callee : Node} {arguments : List Node}
    (h : checkProcedure callee arguments s = .error e s') : ¬ e.IsUnrooted := by
  rcases part_bind_error h with hplain | ⟨name, -, h⟩
  · exact hplain.not_unrooted
  have h := lookup_bind_error h
  cases hfound : s.lookup name with
  | none => rw [hfound] at h; cases h; exact fun h => h
  | some symbol =>
      rw [hfound] at h
      cases symbol with
      | procedure p => exact checkCount_error h
      | _ => cases h; exact fun h => h

/-- Where the routine around is known, a give finds it. -/
theorem checkGive_error {r : Option Node} {value : Node} (hrooted : s.Rooted r)
    (h : checkGive value s = .error e s') : ¬ e.IsUnrooted := by
  rcases bind_error h with h | ⟨scopes, mid, hget, h⟩
  · cases h
  cases hget
  cases r with
  | none =>
      rw [show routineScope s.toList = none from hrooted] at h
      cases h
      exact fun h => h
  | some decl =>
      obtain ⟨scope, outer, symbol, hscope, hfound, hdecl⟩ := hrooted
      rw [hscope] at h
      cases outer with
      | nil => cases hfound
      | cons around outer =>
          simp only [hfound] at h
          -- what is found is the symbol of a function or of a procedure
          rcases hdecl.routine with ⟨f, rfl⟩ | ⟨p, rfl⟩
          · dsimp only at h
            split at h <;> cases h
            exact fun h => h
          · dsimp only at h
            split at h <;> cases h
            exact fun h => h

theorem loop_of_phase {it : Node} {error : SemanticError}
    (h : Phase.test (.loop error) ∈ it.phases) : ¬ (AnalysisFault.semantic error).IsUnrooted := by
  cases it with
  | variableDecl type names values | constantDecl type names values =>
      rcases phase_of_mem_namePhases h with ⟨_, _, h⟩ | ⟨_, h⟩ | ⟨_, _, h⟩ <;> cases h
  | incomplete lacking parts =>
      rcases lacking with _ | _ | _ | _ | _ <;>
        rcases parts with _ | ⟨_, _ | ⟨_, _⟩⟩ <;>
        grind [Node.phases, Node.incompletePhases]
  | skip | stop =>
      cases List.mem_singleton.mp h
      exact fun h => h
  | _ => grind [Node.phases, Node.presentPhase]

end Analysis

/-- The analysis knows everywhere which routine it is in, for every tree. -/
theorem Warden.rooted (fits : Symbol → Bool) :
    Warden fits (fun _ _ => True) (fun r s => s.Rooted r) fun e => ¬ e.IsUnrooted where
  children _ _ _ _ _ := trivial
  block _ _ label _ hkind hs := hs.block label hkind
  name _ _ _ _ _ _ _ _ _ _ _ _ _ hs := hs.define _
  routine _ s node _ _ _ _ _ _ _ ps sym _ hphase hname hps hsym _ hs := by
    obtain ⟨hdefines, rfl, -, hkind⟩ := Analysis.defines_of_routine hphase hname hps hsym
    exact ⟨hs.define sym, .body s hdefines hkind ps⟩
  test r s _ t e s' _ hphase hs h := by
    cases t with
    | stuck f => cases h; exact fun h => h
    | read name => exact Analysis.checkName_error h
    | assigned target => exact Analysis.checkTarget_error h
    | function callee arguments => exact Analysis.checkFunction_error h
    | procedure callee arguments => exact Analysis.checkProcedure_error h
    | give value =>
        rcases Analysis.bind_error h with h | ⟨_, mid, -, h⟩
        · exact Analysis.checkGive_error hs h
        · cases h
    | loop error =>
        rcases Analysis.bind_error h with h | ⟨inside, mid, -, h⟩
        · cases h
        · cases inside <;> cases h
          exact Analysis.loop_of_phase hphase
  plain _ h := h.not_unrooted

/-! ## What comes out of bodies -/

/-- A give of this value, or of none, can give this. -/
def Node.Gives (value : Node) (w : Value) : Prop :=
  value.isAbsent = true ∧ w = .nothing ∨ value.isAbsent = false ∧ w ≠ .nothing

namespace Task

/-- The parts of a task that belong to the same routine. -/
def ownParts : Task → List Node
  | .eval node => node.ownParts
  | .whileLoop _ body | .forLoop _ _ _ _ body => body.ownParts

/-- A task that runs statements. -/
def IsStatement : Task → Prop
  | .eval node => Formed (fun _ => True) .statement node ∨ Formed (fun _ => True) .block node
  | .whileLoop _ body | .forLoop _ _ _ _ body => Formed (fun _ => True) .block body

end Task

/-- Among some parts there is a give that can give this. -/
def GivenIn (parts : List Node) (v : Value) : Prop :=
  ∀ w, v = .given w → ∃ value, .give value ∈ parts ∧ value.Gives w

/-- What statements give comes from a give among them. -/
def Contract.giving : Contract Unit where
  pre _ _ _ := True
  post _ task _ e := task.IsStatement → ∀ v after, e = .ok v after → GivenIn task.ownParts v

/-- An action gives what a give among some parts can give. -/
abbrev GivesIn (parts : List Node) (x : Action Value) : Prop :=
  ∀ m, Action.Meets Contract.giving x m (fun v _ => GivenIn parts v) fun _ _ => True

theorem GivenIn.plain (parts : List Node) {v : Value} (h : ∀ w, v ≠ .given w) :
    GivenIn parts v := fun w hw => absurd hw (h w)

theorem GivenIn.mono {parts parts' : List Node} {v : Value} (hsub : parts ⊆ parts')
    (h : GivenIn parts v) : GivenIn parts' v := by
  intro w hw
  obtain ⟨value, hvalue, hgives⟩ := h w hw
  exact ⟨value, hsub hvalue, hgives⟩

/-- How a part of a task ends that is not the last does not matter. -/
theorem Contract.giving_any {α : Type} (w : Work α) :
    w.Meets Contract.giving (fun _ _ => True) fun _ _ => True :=
  w.meets_any fun _ _ => ⟨(), trivial⟩

namespace GivesIn

variable {α : Type} {parts : List Node}

theorem pure {v : Value} (h : GivenIn parts v) : GivesIn parts (Pure.pure v) := fun _ => h

theorem nothing : GivesIn parts (Pure.pure .nothing) := pure (.plain parts nofun)

theorem bind {x : Action α} {f : α → Action Value} (hf : ∀ a, GivesIn parts (f a)) :
    GivesIn parts (x >>= f) := by
  intro m
  refine Action.Meets.bind ((Contract.giving_any (x m)).mono ?_ fun _ _ h => h)
  exact fun a after _ => hf a after

theorem ite {c : Prop} [Decidable c] {x y : Action Value} (hx : GivesIn parts x)
    (hy : GivesIn parts y) : GivesIn parts (if c then x else y) := by
  split
  · exact hx
  · exact hy

theorem ask {task : Task} (htask : task.IsStatement) (hsub : task.ownParts ⊆ parts) :
    GivesIn parts (Action.ask task) := by
  intro m
  refine Action.Meets.ask () trivial (fun d v after _ hpost => ?_) fun _ _ _ _ _ => trivial
  exact (hpost htask v after rfl).mono hsub

theorem eval {node : Node}
    (hnode : Formed (fun _ => True) .statement node ∨ Formed (fun _ => True) .block node)
    (hsub : node.ownParts ⊆ parts) : GivesIn parts (Action.eval node) := by
  have htask : (Task.eval node).IsStatement := hnode
  exact ask htask hsub

theorem attempt {x : Except Fault Value} (h : ∀ v, x = .ok v → GivenIn parts v) :
    GivesIn parts (liftM (Eval.attempt x)) := by
  intro m
  cases x with
  | ok v => exact h v rfl
  | error f => trivial

theorem block {statements : List Node}
    (hformed : ∀ s ∈ statements, Formed (fun _ => True) .statement s)
    (hsub : ∀ s ∈ statements, s.ownParts ⊆ parts) : GivesIn parts (Action.block statements) := by
  induction statements with
  | nil => exact nothing
  | cons statement rest ih =>
      rw [Action.block]
      intro m
      refine Action.Meets.bind ((eval (.inl (hformed _ List.mem_cons_self))
        (hsub _ List.mem_cons_self) m).mono ?_ fun _ _ h => h)
      intro v after hv
      split
      · exact hv
      · exact ih (fun s hs => hformed s (List.mem_cons_of_mem _ hs))
          (fun s hs => hsub s (List.mem_cons_of_mem _ hs)) after

theorem branches {elifs : List Node} {alternative : Node}
    (helifs : ∀ e ∈ elifs, Formed (fun _ => True) .elif e)
    (halternative : Formed (fun _ => True) .alternative alternative)
    (hsub : ∀ arm ∈ alternative :: elifs, arm.ownParts ⊆ parts) :
    GivesIn parts (Action.branches elifs alternative) := by
  induction elifs with
  | nil =>
      rw [Action.branches]
      cases halternative with
      | noAlternative => exact nothing
      | otherwise hbody =>
          refine eval (.inr hbody) (List.Subset.trans ?_ (hsub _ List.mem_cons_self))
          exact fun part hpart => Node.mem_ownParts_of_mem_children rfl List.mem_cons_self hpart
  | cons branch rest ih =>
      rw [Action.branches]
      cases helifs branch List.mem_cons_self with
      | elif _ hbody =>
          refine bind fun test => bind fun b => ite (fun m => eval (.inr hbody) ?_ m) (ih ?_ ?_)
          · refine List.Subset.trans ?_ (hsub _ (List.mem_cons_of_mem _ List.mem_cons_self))
            exact fun part hpart => Node.mem_ownParts_of_mem_children rfl (by simp [Node.children])
              hpart
          · exact fun e he => helifs e (List.mem_cons_of_mem _ he)
          · intro arm harm
            rcases List.mem_cons.mp harm with rfl | harm
            · exact hsub arm List.mem_cons_self
            · exact hsub arm (List.mem_cons_of_mem _ (List.mem_cons_of_mem _ harm))

theorem give {value : Node} (h : Formed (fun _ => True) .optional value) :
    GivesIn (Node.give value).ownParts (Action.evaluate (.give value)) := by
  have hself := Node.self_mem_ownParts (.give value)
  cases h with
  | absent =>
      refine pure fun w hw => ⟨.absent, hself, .inl ⟨rfl, ?_⟩⟩
      cases hw
      rfl
  | present h =>
      have habsent : value.isAbsent = false := by cases h <;> rfl
      have heq : Action.evaluate (.give value) =
          (Action.eval value >>= fun v => Pure.pure (.given v)) := by
        rw [Action.evaluate, habsent]
        rfl
      rw [heq]
      intro m
      refine Action.Meets.bind (Action.Meets.ask () trivial ?_ fun _ _ _ _ _ => trivial)
      intro d v after hrun _ w hw
      cases hw
      exact ⟨value, hself, .inr ⟨habsent, perform_something h hrun⟩⟩

/-- What a statement gives. -/
theorem statement {node : Node} (h : Formed (fun _ => True) .statement node) :
    GivesIn node.ownParts (Action.evaluate node) := by
  have hsub : node.declaresRoutine = false → ∀ part ∈ node.children,
      part.ownParts ⊆ node.ownParts :=
    fun hown part hpart inner => Node.mem_ownParts_of_mem_children hown hpart
  cases h with
  | variableDecl _ _ _ _ => exact bind fun _ => bind fun _ => nothing
  | constantDecl _ _ _ _ => exact bind fun _ => bind fun _ => nothing
  | assignment _ _ => exact bind fun _ => bind fun _ => bind fun _ => bind fun _ => nothing
  | give h => exact give h
  | display _ => exact bind fun _ => bind fun _ => nothing
  | functionDecl _ _ _ _ => exact bind fun _ => bind fun _ => bind fun _ => bind fun _ => nothing
  | procedureDecl _ _ _ => exact bind fun _ => bind fun _ => bind fun _ => nothing
  | procedureCall _ _ =>
      refine bind fun _ => bind fun _ => bind fun _ => bind fun r => bind fun outcome => attempt ?_
      intro v hv
      unfold Eval.procedureResult at hv
      split at hv <;> cases hv <;> exact .plain _ nofun
  | ifElse _ hbody helifs halternative =>
      refine bind fun b => ite (eval (.inr hbody) (hsub rfl _ (by simp [Node.children]))) ?_
      refine branches helifs halternative fun arm harm => hsub rfl arm ?_
      rcases List.mem_cons.mp harm with rfl | harm
      · simp [Node.children]
      · simp [Node.children, harm]
  | @whileLoop test body _ hbody =>
      have htask : (Task.whileLoop test body).IsStatement := hbody
      exact ask htask (hsub rfl body (by simp [Node.children]))
  | @forLoop target value termination step body _ _ _ _ hbody =>
      refine bind fun _ => bind fun _ => bind fun _ => bind fun last => bind fun _ =>
        bind fun step => bind fun _ => bind fun height => bind fun _ => bind fun name => ?_
      have htask : (Task.forLoop height name last step body).IsStatement := hbody
      exact ask htask (hsub rfl body (by simp [Node.children]))
  | skip => exact fun _ => trivial
  | stop => exact fun _ => trivial

end GivesIn

/-- A round of a loop gives what its body gives. -/
def Eval.Round.GivenIn (parts : List Node) (round : Eval.Round) : Prop :=
  ∀ w, round = .gave w → BraceScript.GivenIn parts (.given w)

theorem gives_whileRound {test body : Node} (hbody : Formed (fun _ => True) .block body)
    (m : Machine) :
    Action.Meets Contract.giving (Action.whileRound test body) m
      (fun round _ => round.GivenIn body.ownParts) fun _ _ => True := by
  refine Action.Meets.bind ((Contract.giving_any _).mono (fun b after _ => ?_) fun _ _ h => h)
  cases b with
  | false =>
      intro w hw
      cases hw
  | true =>
      refine Action.Meets.bind ((GivesIn.eval (.inr hbody) (List.Subset.refl _) after).mono ?_
        fun _ _ h => h)
      intro v after hv
      split
      · intro w hw
        cases hw
        exact hv
      · intro w hw
        cases hw

theorem gives_forRound (height : Nat) (name : String) (last step : Value) {body : Node}
    (hbody : Formed (fun _ => True) .block body) (m : Machine) :
    Action.Meets Contract.giving (Action.forRound height name last step body) m
      (fun round _ => round.GivenIn body.ownParts) fun _ _ => True := by
  refine Action.Meets.bind ((Contract.giving_any _).mono (fun current after _ => ?_) fun _ _ h => h)
  refine Action.Meets.bind ((Contract.giving_any _).mono (fun past after _ => ?_) fun _ _ h => h)
  cases past with
  | true =>
      intro w hw
      cases hw
  | false =>
      refine Action.Meets.bind ((GivesIn.eval (.inr hbody) (List.Subset.refl _) after).mono ?_
        fun _ _ h => h)
      intro v after hv
      split
      · intro w hw
        cases hw
        exact hv
      · refine Action.Meets.bind ((Contract.giving_any _).mono (fun _ after _ => ?_) fun _ _ h => h)
        intro w hw
        cases hw

/-- A loop that goes on gives what its further rounds give. -/
theorem owed_again {task : Task} {m after : Machine} :
    Contract.giving.owed () task m (.task task) after := ⟨(), trivial, fun _ hpost => hpost⟩

theorem Contract.giving_kept : Contract.giving.Kept where
  exhausted _ _ _ _ _ _ _ h := by cases h
  step _ task m _ := by
    have herror : ∀ e after, Contract.giving.post () task m (.error e after) := by
      intro e after _ v after' h
      cases h
    by_cases htask : task.IsStatement
    · cases task with
      | eval node =>
          have hnode : GivesIn node.ownParts (Action.evaluate node) := by
            rcases htask with hstatement | hblock
            · exact .statement hstatement
            · cases hblock with
              | block hstatements =>
                  exact .block hstatements fun s hs part hpart =>
                    Node.mem_ownParts_of_mem_children rfl hs hpart
          refine Action.Meets.bind ((hnode m).mono ?_ fun e after _ => herror e after)
          intro v after hv _ v' after' h
          cases h
          exact hv
      | whileLoop test body =>
          refine Action.Meets.bind (Action.Meets.caught ((gives_whileRound htask m).mono ?_ ?_))
          · intro round after hround
            cases round with
            | finished => exact fun _ v after' h => by cases h; exact .plain _ nofun
            | gave w => exact fun _ v after' h => by cases h; exact hround w rfl
            | again => exact owed_again
          · intro e after _
            cases e with
            | skip => exact owed_again
            | stop => exact fun _ v after' h => by cases h; exact .plain _ nofun
            | fault f => exact herror _ after
            | exhausted => exact herror _ after
      | forLoop height name last step body =>
          refine Action.Meets.bind (Action.Meets.caught
            ((gives_forRound height name last step htask m).mono ?_ ?_))
          · intro round after hround
            cases round with
            | finished => exact fun _ v after' h => by cases h; exact .plain _ nofun
            | gave w => exact fun _ v after' h => by cases h; exact hround w rfl
            | again => exact owed_again
          · intro e after _
            cases e with
            | skip =>
                refine Action.Meets.bind ((Contract.giving_any _).mono (fun _ after _ => ?_)
                  fun e after _ => herror e after)
                refine Action.Meets.bind ((Contract.giving_any _).mono (fun _ after _ => ?_)
                  fun e after _ => herror e after)
                exact owed_again
            | stop => exact fun _ v after' h => by cases h; exact .plain _ nofun
            | fault f => exact herror _ after
            | exhausted => exact herror _ after
    · -- nothing is promised of other tasks
      refine (Contract.giving_any _).mono ?_ fun e after _ => herror e after
      intro next after _
      cases next with
      | value v => exact fun h => absurd h htask
      | task next => exact ⟨(), trivial, fun _ _ h => absurd h htask⟩

/-- What comes out of statements that give is what a give among them can give. -/
theorem perform_gives {d : Nat} {body : Node} {m after : Machine} {w : Value}
    (hbody : Formed (fun _ => True) .block body)
    (hrun : perform d (.eval body) m = .ok (.given w) after) :
    ∃ value, .give value ∈ body.ownParts ∧ value.Gives w := by
  have hpost := Contract.fulfilled Contract.giving_kept d () (.eval body) m trivial
  exact hpost (.inr hbody) _ after hrun w rfl

/-! ## Gives of declared routines -/

/-- In an accepted program the gives of a function give values, and those of a procedure give
    none. -/
theorem gives_fit {tree decl value : Node} {entered : Symbol} {kind : RecordKind} {p : Routine}
    (hformed : Formed IsWord .program tree) (haccepted : (analyze tree).1 = none)
    (hdecl : decl ∈ tree.parts) (hentered : decl.routineSymbol? = some entered)
    (hp : entered.routine? kind = some p) (hgive : .give value ∈ p.body.ownParts) :
    (kind = .function ∧ value.isAbsent = false) ∨ (kind = .procedure ∧ value.isAbsent = true) := by
  have hrooted := ((Warden.rooted fun _ => true).kept tree none Scopes.initial trivial rfl).1
  -- the analysis comes to the declaration, and from there to its body and to the give
  have hroutine : decl.declaresRoutine = true ∧ p.body ∈ decl.children := by
    rcases (Node.routineSymbol?_inv hentered hp).2 with ⟨_, _, _, rfl⟩ | ⟨_, _, rfl⟩
    · exact ⟨rfl, by simp [Node.children]⟩
    · exact ⟨rfl, by simp [Node.children]⟩
  have hlabel : ¬ decl.IsLabel := by
    intro hlabel
    cases decl <;> first
      | exact hlabel
      | cases hroutine.1
  have hpasses := Node.passes_of_accepted haccepted
  obtain ⟨q, hq, rfl⟩ := hpasses.placed hformed hdecl hlabel
  obtain ⟨c, hdeclFormed⟩ := hformed.of_mem_parts hdecl
  have hbody : Formed IsWord .block p.body := hdeclFormed.body hentered hp
  have hbodyLabel : ¬ p.body.IsLabel := by
    generalize p.body = body at hbody
    cases hbody
    exact fun h => h
  obtain ⟨next, hnext, hnode, hnextPasses⟩ :=
    ((hpasses.all hq).child hdeclFormed hroutine.2).resolve_left hbodyLabel
  rw [← hnode] at hbody hgive
  obtain ⟨g, hg, hgiveNode, hgiveRoutine⟩ := hnextPasses.ownPlaced hbody hgive fun h => h
  have hplace : g ∈ tree.places :=
    Place.all_trans hq (Place.mem_all.mpr (.inr ⟨next, hnext, hg⟩))
  -- there the routine around is the one that the declaration defines
  have hwithin : g.routine = some q.node := by
    rw [hgiveRoutine, Place.routine_eq hnext, Node.routineWithin, if_pos hroutine.1]
  have hscopes : g.scopes.Rooted (some q.node) := hwithin ▸ (hrooted g hplace).2
  obtain ⟨scope, outer, symbol, hscope, hfound, hdefines⟩ := hscopes
  obtain ⟨after, hafter⟩ := (hpasses.all hplace).runAll
  rw [hgiveNode] at hafter
  obtain ⟨_, mid, htest, -⟩ := Analysis.bind_ok hafter
  obtain ⟨b, mid', hcheck, -⟩ := Analysis.bind_ok htest
  obtain ⟨-, -, scope', outer', symbol', hscope', hfound', hfits⟩ := Analysis.checkGive_inv hcheck
  cases hscope.symm.trans hscope'
  cases hfound.symm.trans hfound'
  have hsome := (hdefines.entered hentered kind).1
  rw [hp] at hsome
  rcases hfits with ⟨⟨f, rfl⟩, hvalue⟩ | ⟨⟨f, rfl⟩, hvalue⟩
  · cases kind <;> cases hsome
    exact .inl ⟨rfl, hvalue⟩
  · cases kind <;> cases hsome
    exact .inr ⟨rfl, hvalue⟩

/-- What comes out of the body of a routine that gives fits its kind. -/
theorem Machine.DeclaredIn.given_fits {tree : Node} {m : Machine} (h : m.DeclaredIn tree)
    (hformed : Formed IsWord .program tree) (haccepted : (analyze tree).1 = none)
    {kind : RecordKind} {name : String} {p : Routine} (hp : m.routine? kind name = some p) {d : Nat}
    {n after : Machine} {w : Value} (hrun : perform d (.eval p.body) n = .ok (.given w) after) :
    (kind = .function ∧ w ≠ .nothing) ∨ (kind = .procedure ∧ w = .nothing) := by
  obtain ⟨decl, hdecl, entered, hentered, hroutine, -⟩ := h kind name p hp
  obtain ⟨c, hdeclFormed⟩ := hformed.of_mem_parts hdecl
  have hbody : Formed (fun _ => True) .block p.body :=
    (hdeclFormed.body hentered hroutine).mono fun _ _ => trivial
  obtain ⟨value, hgive, hgives⟩ := perform_gives hbody hrun
  rcases gives_fit hformed haccepted hdecl hentered hroutine hgive with
    ⟨hkind, hvalue⟩ | ⟨hkind, hvalue⟩
  · rcases hgives with ⟨habsent, -⟩ | ⟨-, hw⟩
    · rw [hvalue] at habsent
      cases habsent
    · exact .inl ⟨hkind, hw⟩
  · rcases hgives with ⟨-, hw⟩ | ⟨hpresent, -⟩
    · exact .inr ⟨hkind, hw⟩
    · rw [hvalue] at hpresent
      cases hpresent

/-- An exit that does not complain of what was given. -/
def Exit.IsContent : Exit → Prop
  | .fault (.emptyGive _) | .fault (.procedureGave _) => False
  | _ => True

/-- A call has no reason to complain if what was given fits. -/
theorem Exit.isContent_result {kind : RecordKind} {name : String} {v : Value} {f : Fault}
    (hgiven : ∀ w, v = .given w → (kind = .function ∧ w ≠ .nothing) ∨
      (kind = .procedure ∧ w = .nothing))
    (h : Action.result kind name v = .error f) : Exit.IsContent (.fault f) := by
  cases kind with
  | function =>
      change Eval.functionResult name v = .error f at h
      unfold Eval.functionResult at h
      split at h
      · rcases hgiven .nothing rfl with ⟨-, hw⟩ | ⟨hkind, -⟩
        · exact absurd rfl hw
        · cases hkind
      · cases h
      · cases h
        trivial
  | procedure | program =>
      change Eval.procedureResult name v = .error f at h
      unfold Eval.procedureResult at h
      split at h
      · cases h
      · next w hsome =>
          rcases hgiven w rfl with ⟨hkind, -⟩ | ⟨-, rfl⟩
          · cases hkind
          · exact absurd rfl hsome
      · cases h

theorem Exit.isContent_fault {f : Fault} (h : ¬ f.OfGiving) : Exit.IsContent (.fault f) := by
  cases f <;> first
    | trivial
    | exact absurd trivial h

/-- In an accepted program, a function whose body ends by a give has given a value, and a procedure
    whose body ends by a give has given none; so no part of a run, nor the program, fails because a
    function gave nothing or a procedure gave a value.  And for every tree, the analysis never ends
    because the routine of a give is not found: wherever it comes to, the symbol found for the
    nearest scope that is the body of a routine is the symbol of the routine that is analyzed. -/
theorem gives_disciplined :
    (∀ source tree, parse source = .ok tree → (analyze tree).1 = none → ∀ depth,
      (∀ v ∈ visits depth (.eval tree) Machine.initial, ∀ node kind name arguments p,
        v.task = .eval node → node.call? = some (kind, .identifier name, arguments) →
        v.machine.routine? kind name = some p →
        ∀ b ∈ v.asks, b.task = .eval p.body → ∀ w after, b.outcome = .ok (.given w) after →
          (kind = .function → w ≠ .nothing) ∧ (kind = .procedure → w = .nothing)) ∧
      (∀ v ∈ visits depth (.eval tree) Machine.initial, ∀ name after,
        v.outcome ≠ .error (.fault (.emptyGive name)) after ∧
          v.outcome ≠ .error (.fault (.procedureGave name)) after) ∧
      ∀ name, (interpret depth tree).exit ≠ some (.fault (.emptyGive name)) ∧
        (interpret depth tree).exit ≠ some (.fault (.procedureGave name))) ∧
    ∀ tree, (analyze tree).1 ≠ some (.semantic .giveUnrooted) ∧
      (∀ scope, (analyze tree).1 ≠ some (.semantic (.giveMisplaced scope))) ∧
      ∀ q ∈ tree.places, q.scopes.Rooted q.routine := by
  refine ⟨fun source tree hparse haccepted depth => ?_, fun tree => ?_⟩
  · have hformed := parse_formed hparse
    let root : Visit := ⟨depth, .eval tree, Machine.initial⟩
    have hcontent : ∀ v ∈ root.run, Ending.Within Exit.IsContent v.outcome := by
      refine Visit.outcome_within (fun _ => Exit.isContent_fault) trivial trivial trivial ?_
      intro u hu node kind callee arguments name p d n v after f htask hcall hname hp hrun hvalue
      have htables := (visits_declared hparse haccepted hu).2.1
      refine Exit.isContent_result (fun w hw => ?_) hvalue
      subst hw
      exact htables.given_fits hformed haccepted hp hrun
    refine ⟨?_, ?_, ?_⟩
    · intro v hv node kind name arguments p htask hcall hp b hb hbody w after hrun
      have htables := (visits_declared hparse haccepted hv).2.1
      unfold Visit.outcome at hrun
      rw [hbody] at hrun
      rcases htables.given_fits hformed haccepted hp hrun with ⟨rfl, hw⟩ | ⟨rfl, hw⟩
      · exact ⟨fun _ => hw, fun hkind => absurd hkind (by decide)⟩
      · exact ⟨fun hkind => absurd hkind (by decide), fun _ => hw⟩
    · intro v hv name after
      have hwithin := hcontent v hv
      constructor
      · intro hrun
        rw [hrun] at hwithin
        exact hwithin
      · intro hrun
        rw [hrun] at hwithin
        exact hwithin
    · intro name
      have hwithin : Ending.Within Exit.IsContent (Eval.eval depth tree Machine.initial) :=
        hcontent root root.self_mem_run
      have hexit : ∀ e, (interpret depth tree).exit = some e → e.IsContent := by
        intro e he
        unfold interpret at he
        cases hrun : Eval.eval depth tree Machine.initial with
        | ok _ after => rw [hrun] at he; cases he
        | error e' after =>
            rw [hrun] at he hwithin
            cases he
            exact hwithin
      exact ⟨fun h => hexit _ h, fun h => hexit _ h⟩
  · obtain ⟨hplaces, hend⟩ :=
      (Warden.rooted fun _ => true).kept tree none Scopes.initial trivial rfl
    have hfault : ∀ e, (analyze tree).1 = some e → ¬ e.IsUnrooted := by
      intro e he
      unfold analyze analyzeIn analyzeWith at he
      cases hnode : Analysis.node (fun _ => true) tree Scopes.initial with
      | ok _ after => rw [hnode] at he; cases he
      | error e' after =>
          rw [hnode] at he hend
          cases he
          exact hend
    exact ⟨fun h => hfault _ h trivial, fun scope h => hfault _ h trivial,
      fun q hq => (hplaces q hq).2⟩

/-- A function gives its parameter inside a loop, a procedure gives nothing, and the places of both
    gives are in their routines. -/
theorem gives_disciplined_nested :
    ∃ source tree, parse source = .ok tree ∧ (analyze tree).1 = none ∧
      (∃ v ∈ visits 12 (.eval tree) Machine.initial,
        v.task = .eval (.functionCall (.identifier "f") [.boolean "true"]) ∧
        ∃ b ∈ v.asks, ∃ w after, b.outcome = .ok (.given w) after ∧ w ≠ .nothing) ∧
      (∃ v ∈ visits 12 (.eval tree) Machine.initial,
        v.task = .eval (.procedureCall (.identifier "p") []) ∧
        ∃ b ∈ v.asks, ∃ w after, b.outcome = .ok (.given w) after ∧ w = .nothing) ∧
      (∀ name, (interpret 12 tree).exit ≠ some (.fault (.emptyGive name)) ∧
        (interpret 12 tree).exit ≠ some (.fault (.procedureGave name))) ∧
      (∃ q ∈ tree.places, q.node = .give (.identifier "x") ∧ q.scopes.Rooted q.routine) ∧
      ∃ q ∈ tree.places, q.node = .give .absent ∧ q.scopes.Rooted q.routine := by
  let x : Node := .identifier "x"
  let f : Routine :=
    ⟨"f", some [⟨"x", "boolean"⟩], .block [.whileLoop (.truth x) (.block [.give x])]⟩
  let p : Routine := ⟨"p", some [], .block [.give .absent]⟩
  let asks : Node := .functionCall (.identifier "f") [.boolean "true"]
  let runs : Node := .procedureCall (.identifier "p") []
  let statements : List Node :=
    [.functionDecl (.identifier "f") [.parameter x (.typeName "boolean")] (.typeName "boolean")
      f.body,
    .procedureDecl (.identifier "p") [] p.body, runs, .display asks]
  let tree : Node := .program (.block statements)
  have hparse : parse ("\x7b\nfunc f(boolean x) -> boolean \x7b\nwhile x \x7b\ngive x\n\x7d\n\x7d\n"
      ++ "proc p() \x7b\ngive\n\x7d\nexec p()\nshow f(true)\n\x7d") = .ok tree := by cbv
  have haccepted : (analyze tree).1 = none := by cbv
  obtain ⟨hbodies, -, hexit⟩ := gives_disciplined.1 _ tree hparse haccepted 12
  -- the machine at the call of the procedure, and behind it
  let started : Record := Record.program
  let entered : Record := ⟨"p", .procedure, 2, []⟩
  let m : Machine := ⟨[started], [("f", ⟨f, "boolean"⟩)], [("p", p)], [.pushed started]⟩
  let m' : Machine := { m with history := [.popped entered, .pushed entered, .pushed started] }
  let block : Visit := ⟨11, .eval (.block statements), Machine.started⟩
  let shows : Visit := ⟨10, .eval (.display asks), m'⟩
  let procedureCall : Visit := ⟨10, .eval runs, m⟩
  let functionCall : Visit := ⟨9, .eval asks, m'⟩
  let stops : Visit := ⟨9, .eval p.body, ⟨entered :: m.stack, m.functions, m.procedures,
    .pushed entered :: m.history⟩⟩
  let bound : Record := ⟨"f", .function, 2, [("x", .bool true)]⟩
  let loops : Visit := ⟨8, .eval f.body, ⟨bound :: m'.stack, m'.functions, m'.procedures,
    .pushed bound :: m'.history⟩⟩
  have hfirst : (Visit.asks ⟨12, .eval tree, Machine.initial⟩)[0]? = some block := rfl
  have hblock : block ∈ visits 12 (.eval tree) Machine.initial :=
    Visit.asks_subset_run (List.mem_of_getElem? hfirst)
  have hthird : block.asks[2]? = some procedureCall := by cbv
  have hfourth : block.asks[3]? = some shows := by cbv
  have hshown : shows.asks[0]? = some functionCall := rfl
  have hprocedure : procedureCall ∈ visits 12 (.eval tree) Machine.initial :=
    Visit.mem_run_trans (v := ⟨12, .eval tree, Machine.initial⟩) hblock
      (Visit.asks_subset_run (List.mem_of_getElem? hthird))
  have hfunction : functionCall ∈ visits 12 (.eval tree) Machine.initial :=
    Visit.mem_run_trans (v := ⟨12, .eval tree, Machine.initial⟩) hblock (Visit.mem_run_trans
      (Visit.asks_subset_run (List.mem_of_getElem? hfourth))
      (Visit.asks_subset_run (List.mem_of_getElem? hshown)))
  have hstops : procedureCall.asks[0]? = some stops := by cbv
  have hloops : functionCall.asks[1]? = some loops := by cbv
  have hnothing : stops.outcome = .ok (.given .nothing) stops.machine := by cbv
  have hgives : loops.outcome = .ok (.given (.bool true)) loops.machine := by cbv
  have hvalue := (hbodies _ hfunction asks .function "f" _ f rfl rfl rfl _
    (List.mem_of_getElem? hloops) rfl _ _ hgives).1 rfl
  have hempty := (hbodies _ hprocedure runs .procedure "p" _ p rfl rfl rfl _
    (List.mem_of_getElem? hstops) rfl _ _ hnothing).2 rfl
  have hplaces : (tree.places.map Place.node)[8]? = some (.give x) ∧
      (tree.places.map Place.node)[12]? = some (.give .absent) := by cbv
  obtain ⟨q, hq, hgive⟩ := List.mem_map.mp (List.mem_of_getElem? hplaces.1)
  obtain ⟨q', hq', hgive'⟩ := List.mem_map.mp (List.mem_of_getElem? hplaces.2)
  have hrooted := (gives_disciplined.2 tree).2.2
  exact ⟨_, tree, hparse, haccepted,
    ⟨_, hfunction, rfl, _, List.mem_of_getElem? hloops, _, _, hgives, hvalue⟩,
    ⟨_, hprocedure, rfl, _, List.mem_of_getElem? hstops, _, _, hnothing, hempty⟩, hexit,
    ⟨q, hq, hgive, hrooted q hq⟩, q', hq', hgive', hrooted q' hq'⟩

end BraceScript
