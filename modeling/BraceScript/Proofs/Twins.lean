import BraceScript.Proofs.Discipline

/-! # Twins — scopes that the analysis does not tell apart

    The analysis looks names up, asks for the routine around a give and for a while loop around a
    skip or a stop.  The name of a block, its level and its kind are not looked at otherwise, and a
    block in which nothing is declared adds nothing.  So a part is judged alike in scopes that
    differ in nothing else.

    * `Scopes.Alike`: scopes with the same answers for all tests;
    * `Scopes.Twins`: scopes of which the current ones have the same names as well;
    * `Analysis.Matches`: steps that pass together, or fail together for the same reason;
    * `Matches.node`: the analysis of every part in twins, and `Matches.expression`: that of an
      expression in scopes that are merely alike. -/

namespace BraceScript

/-- Kinds of scope that are read alike. -/
structure ScopeKind.Alike (kind kind' : ScopeKind) : Prop where
  routine : kind.isRoutine = kind'.isRoutine
  loop : kind = .whileBlock ↔ kind' = .whileBlock

theorem ScopeKind.Alike.refl (kind : ScopeKind) : kind.Alike kind := ⟨rfl, .rfl⟩

/-- Scopes with the same symbols, which are read alike. -/
structure Scope.Twins (scope scope' : Scope) : Prop where
  symbols : scope.symbols = scope'.symbols
  kind : scope.kind.Alike scope'.kind
  /-- Only the names of routines are read. -/
  name : scope.kind.isRoutine = true → scope.name = scope'.name

namespace Scope.Twins

variable {scope scope' : Scope}

theorem find? (h : scope.Twins scope') (name : String) : scope.find? name = scope'.find? name := by
  rw [Scope.find?, Scope.find?, h.symbols]

theorem define (h : scope.Twins scope') (symbol : Symbol) :
    (scope.define symbol).Twins (scope'.define symbol) := by
  refine ⟨?_, h.kind, h.name⟩
  rw [Scope.define, Scope.define, h.symbols]

theorem parameters (h : scope.Twins scope') (ps : List Parameter) :
    (ps.foldl (fun scope p => scope.define (.variable p.name p.type)) scope).Twins
      (ps.foldl (fun scope p => scope.define (.variable p.name p.type)) scope') := by
  induction ps generalizing scope scope' with
  | nil => exact h
  | cons p ps ih => exact ih (h.define _)

end Scope.Twins

/-- Below the first level, a new scope is empty. -/
theorem Scope.make_inner (name : String) (kind : ScopeKind) {level : Int} (h : 0 < level) :
    Scope.make name kind (level + 1) = ⟨name, kind, level + 1, []⟩ := by
  have hinner : level + 1 ≠ 1 := by omega
  simp only [Scope.make, if_neg hinner]

namespace Scopes

open Analysis (routineScope)

/-- What a give reads of the scopes: the name of the routine around, and what it means outside the
    routine, unless there is no outside. -/
def routineSeen (scopes : List Scope) : Option (String × Option (Option Symbol)) :=
  (routineScope scopes).map fun (scope, outer) =>
    (scope.name, if outer.isEmpty then none else some (findIn scope.name outer))

/-- Lists of scopes with the same answers for all tests. -/
structure ReadAlike (scopes scopes' : List Scope) : Prop where
  empty : scopes.isEmpty = scopes'.isEmpty
  names : ∀ name, findIn name scopes = findIn name scopes'
  loop : (scopes.any fun scope => scope.kind = .whileBlock) =
    scopes'.any fun scope => scope.kind = .whileBlock
  routine : routineSeen scopes = routineSeen scopes'

namespace ReadAlike

variable {scopes scopes' : List Scope}

theorem refl (scopes : List Scope) : ReadAlike scopes scopes := ⟨rfl, fun _ => rfl, rfl, rfl⟩

theorem routineSeen_cons (scope : Scope) (scopes : List Scope) :
    routineSeen (scope :: scopes) =
      if scope.kind.isRoutine then
        some (scope.name, if scopes.isEmpty then none else some (findIn scope.name scopes))
      else routineSeen scopes := by
  unfold routineSeen
  rw [routineScope]
  split
  · rfl
  · rfl

/-- Twins around which the scopes are read alike. -/
theorem cons {scope scope' : Scope} (hscope : scope.Twins scope') (h : ReadAlike scopes scopes') :
    ReadAlike (scope :: scopes) (scope' :: scopes') := by
  refine ⟨rfl, fun name => ?_, ?_, ?_⟩
  · rw [findIn, findIn, hscope.find?, h.names]
  · rw [List.any_cons, List.any_cons, h.loop, decide_eq_decide.mpr hscope.kind.loop]
  · rw [routineSeen_cons, routineSeen_cons, ← hscope.kind.routine, h.empty, h.routine]
    cases hroutine : scope.kind.isRoutine with
    | false => rfl
    | true => rw [hscope.name hroutine, h.names]

/-- A block in which nothing is declared adds nothing. -/
theorem idle {scope : Scope} (hsymbols : scope.symbols = [])
    (hkind : scope.kind.Alike .elseBlock) (hne : scopes.isEmpty = false) :
    ReadAlike scopes (scope :: scopes) := by
  have hloop : scope.kind ≠ .whileBlock := fun h => by cases hkind.loop.mp h
  refine ⟨hne, fun name => ?_, ?_, ?_⟩
  · rw [findIn, Scope.find?, hsymbols]
    rfl
  · rw [List.any_cons, decide_eq_false hloop, Bool.false_or]
  · rw [routineSeen_cons, hkind.routine]
    rfl

end ReadAlike

/-- Scopes with the same answers for all tests, and inside a program. -/
structure Alike (s t : Scopes) : Prop where
  read : ReadAlike s.toList t.toList
  level : 0 < s.current.level
  level' : 0 < t.current.level

/-- Scopes that are alike, of which the current ones have the same symbols. -/
structure Twins (s t : Scopes) : Prop where
  current : s.current.Twins t.current
  outer : ReadAlike s.outer t.outer
  level : 0 < s.current.level
  level' : 0 < t.current.level

variable {s t : Scopes}

theorem Alike.refl {s : Scopes} (h : 0 < s.current.level) : s.Alike s := ⟨.refl _, h, h⟩

theorem Twins.alike (h : s.Twins t) : s.Alike t := ⟨h.outer.cons h.current, h.level, h.level'⟩

theorem Twins.define (h : s.Twins t) (symbol : Symbol) :
    (s.define symbol).Twins (t.define symbol) :=
  ⟨h.current.define symbol, h.outer, h.level, h.level'⟩

/-- Scopes of the same parameters that are opened in scopes that are alike are twins. -/
theorem Alike.enter (h : s.Alike t) {name name' : String} {kind kind' : ScopeKind}
    (hkind : kind.Alike kind') (hname : kind.isRoutine = true → name = name')
    (ps : List Parameter) : (s.enter name kind ps).Twins (t.enter name' kind' ps) := by
  refine ⟨?_, h.read, ?_, ?_⟩
  · refine Scope.Twins.parameters ?_ ps
    rw [Scope.make_inner _ _ h.level, Scope.make_inner _ _ h.level']
    exact ⟨rfl, hkind, hname⟩
  · have hlevel := h.level
    rw [enter_level]
    omega
  · have hlevel := h.level'
    rw [enter_level]
    omega

/-- Opening a block makes no difference to what is read. -/
theorem alike_enter (h : 0 < s.current.level) (name : String) {kind : ScopeKind}
    (hkind : kind.Alike .elseBlock) : s.Alike (s.enter name kind []) := by
  have hcurrent : (s.enter name kind []).current = ⟨name, kind, s.current.level + 1, []⟩ :=
    Scope.make_inner name kind h
  refine ⟨?_, h, ?_⟩
  · show ReadAlike s.toList ((s.enter name kind []).current :: s.toList)
    rw [hcurrent]
    exact .idle rfl hkind rfl
  · rw [hcurrent]
    show 0 < s.current.level + 1
    omega

end Scopes

/-! ## Steps of the analysis -/

namespace Analysis

variable {α β : Type} {fits : Symbol → Bool} {R S T : Scopes → Scopes → Prop}

/-- Two steps have passed, with the same result and in scopes that `S` relates, or they have failed
    for the same reason. -/
inductive Matched (S : Scopes → Scopes → Prop) :
    EStateM.Result AnalysisFault Scopes α → EStateM.Result AnalysisFault Scopes α → Prop
  | ok {a : α} {s t : Scopes} (h : S s t) : Matched S (.ok a s) (.ok a t)
  | error {e : AnalysisFault} {s t : Scopes} : Matched S (.error e s) (.error e t)

/-- Two steps that match from all scopes that `R` relates to scopes that `S` relates. -/
def Matches (R S : Scopes → Scopes → Prop) (x y : Analysis α) : Prop :=
  ∀ s t, R s t → Matched S (x s) (y t)

/-- Scopes inside those that `R` relates, which are twins. -/
def Inside (R : Scopes → Scopes → Prop) (s t : Scopes) : Prop :=
  s.Twins t ∧ ∃ s' t', R s' t' ∧ s.outer = s'.toList ∧ t.outer = t'.toList

namespace Matches

theorem pure (a : α) : Matches R R (Pure.pure a) (Pure.pure a) := fun _ _ h => .ok h

theorem fail (e : SemanticError) : Matches R S (Analysis.fail e : Analysis α) (Analysis.fail e) :=
  fun _ _ _ => .error

theorem part (x : Except Fault α) : Matches R R (Analysis.part x) (Analysis.part x) := by
  cases x with
  | ok a => exact pure a
  | error f => exact fun _ _ _ => .error

theorem bind {x y : Analysis α} {f g : α → Analysis β} (hx : Matches R S x y)
    (hf : ∀ a, Matches S T (f a) (g a)) : Matches R T (x >>= f) (y >>= g) := by
  intro s t h
  show Matched T (EStateM.bind x f s) (EStateM.bind y g t)
  unfold EStateM.bind
  have hmatched := hx s t h
  generalize x s = r, y t = r' at hmatched
  cases hmatched with
  | ok hS => exact hf _ _ _ hS
  | error => exact .error

theorem either {c : Prop} [Decidable c] {x x' y y' : Analysis α} (hx : Matches R S x y)
    (hy : Matches R S x' y') : Matches R S (if c then x else x') (if c then y else y') := by
  by_cases h : c
  · rw [if_pos h, if_pos h]
    exact hx
  · rw [if_neg h, if_neg h]
    exact hy

/-! ### In scopes that are alike -/

section

variable (hR : ∀ s t, R s t → s.Alike t)

include hR

theorem lookup (name : String) : Matches R R (Analysis.lookup name) (Analysis.lookup name) := by
  intro s t h
  show Matched R (.ok (s.lookup name) s) (.ok (t.lookup name) t)
  rw [Scopes.lookup, Scopes.lookup, (hR s t h).read.names]
  exact .ok h

theorem insideWhile : Matches R R Analysis.insideWhile Analysis.insideWhile := by
  intro s t h
  unfold Analysis.insideWhile
  rw [(hR s t h).read.loop]
  exact .ok h

theorem checkGive (value : Node) :
    Matches R R (Analysis.checkGive value) (Analysis.checkGive value) := by
  intro s t h
  have hseen := (hR s t h).read.routine
  unfold Scopes.routineSeen at hseen
  simp only [Analysis.checkGive, Bind.bind, EStateM.bind, get, getThe, MonadStateOf.get,
    EStateM.get]
  rcases hs : routineScope s.toList with _ | ⟨scope, outer⟩ <;>
    rcases ht : routineScope t.toList with _ | ⟨scope', outer'⟩ <;>
    rw [hs, ht] at hseen
  · exact .error
  · cases hseen
  · cases hseen
  · simp only [Option.map_some, Option.some.injEq, Prod.mk.injEq] at hseen
    obtain ⟨hname, houter⟩ := hseen
    cases outer <;> cases outer' <;> simp only [List.isEmpty_nil, List.isEmpty_cons, if_true,
      Bool.false_eq_true, if_false, reduceCtorEq, Option.some.injEq] at houter
    · exact .error
    · dsimp only
      rw [houter, hname]
      refine (?_ : Matches R R _ _) s t h
      rcases Scopes.findIn scope'.name _ with _ | symbol
      · exact fail _
      · cases symbol with
        | function f => exact either (fail _) (pure _)
        | procedure p => exact either (pure _) (fail _)
        | _ => exact fail _

/-- A test that is made in scopes that are alike has one result. -/
theorem test (t : Test) : Matches R R (t.check fits) (t.check fits) := by
  cases t with
  | stuck f => exact fun _ _ _ => .error
  | read name =>
      refine (lookup hR name).bind fun found => ?_
      cases found with
      | none => exact fail _
      | some symbol => exact either (pure _) (fail _)
  | assigned name =>
      refine (part _).bind fun spelled => (lookup hR spelled).bind fun found => ?_
      cases found with
      | none => exact fail _
      | some symbol =>
          cases symbol with
          | «variable» _ _ => exact pure _
          | _ => exact fail _
  | function callee arguments =>
      refine (part _).bind fun spelled => (lookup hR spelled).bind fun found => ?_
      cases found with
      | none => exact fail _
      | some symbol =>
          cases symbol with
          | function f => exact either (pure _) (fail _)
          | _ => exact fail _
  | procedure callee arguments =>
      refine (part _).bind fun spelled => (lookup hR spelled).bind fun found => ?_
      cases found with
      | none => exact fail _
      | some symbol =>
          cases symbol with
          | procedure p => exact either (pure _) (fail _)
          | _ => exact fail _
  | give value => exact (checkGive hR value).bind fun _ => pure _
  | loop e => exact (insideWhile hR).bind fun _ => either (pure _) (fail _)

/-- Blocks of kinds that are read alike. -/
theorem enterBlock (stem stem' : String) {kind kind' : ScopeKind} (hkind : kind.Alike kind')
    (hblock : kind.isRoutine = false) :
    Matches R (Inside R) (Analysis.enterBlock stem kind) (Analysis.enterBlock stem' kind') := by
  intro s t h
  refine .ok ⟨(hR s t h).enter hkind (fun hroutine => ?_) [], s, t, h, rfl, rfl⟩
  rw [hblock] at hroutine
  cases hroutine

end

theorem leave : Matches (Inside R) R Analysis.leave Analysis.leave := by
  rintro s t ⟨-, s', t', h, hs, ht⟩
  refine .ok ?_
  rw [Scopes.leave_of_outer hs, Scopes.leave_of_outer ht]
  exact h

/-- What matches in twins matches in twins inside other scopes. -/
theorem inside {it : Node} (h : Matches Scopes.Twins Scopes.Twins (node fits it) (node fits it)) :
    Matches (Inside R) (Inside R) (node fits it) (node fits it) := by
  rintro s t ⟨htwins, s', t', hR, hs, ht⟩
  have hmatched := h s t htwins
  generalize hrun : node fits it s = r, hrun' : node fits it t = r' at hmatched
  cases hmatched with
  | ok hafter =>
      refine .ok ⟨hafter, s', t', hR, ?_, ?_⟩
      · rw [leavesOuter it _ _ _ hrun, hs]
      · rw [leavesOuter it _ _ _ hrun', ht]
  | error => exact .error

theorem nodes {parts : List Node}
    (h : ∀ part ∈ parts, Matches R R (node fits part) (node fits part)) :
    Matches R R (Analysis.nodes fits parts) (Analysis.nodes fits parts) := by
  induction parts with
  | nil => exact pure _
  | cons first rest ih =>
      rw [Analysis.nodes]
      refine (h first List.mem_cons_self).bind fun _ => ?_
      exact ih fun part hpart => h part (List.mem_cons_of_mem _ hpart)

/-- A scope in scopes that are alike, whatever it is named for. -/
theorem scope (hR : ∀ s t, R s t → s.Alike t) (stem stem' : String) {kind kind' : ScopeKind}
    (hkind : kind.Alike kind') (hblock : kind.isRoutine = false) {parts : List Node}
    (hparts : ∀ part ∈ parts, Matches Scopes.Twins Scopes.Twins (node fits part) (node fits part)) :
    Matches R R (Phase.run fits (.scope stem kind parts))
      (Phase.run fits (.scope stem' kind' parts)) := by
  refine (enterBlock hR stem stem' hkind hblock).bind fun _ => ?_
  exact (nodes fun part hpart => (hparts part hpart).inside).bind fun _ => leave

theorem runAll {phases : List Phase}
    (h : ∀ phase ∈ phases, Matches R R (phase.run fits) (phase.run fits)) :
    Matches R R (Analysis.runAll fits phases) (Analysis.runAll fits phases) := by
  induction phases with
  | nil => exact pure _
  | cons first rest ih =>
      refine (h first List.mem_cons_self).bind fun _ => ?_
      exact ih fun phase hphase => h phase (List.mem_cons_of_mem _ hphase)

/-! ### In twins -/

theorem requireNew (what : Declared) (name : String) :
    Matches Scopes.Twins Scopes.Twins (Analysis.requireNew what name)
      (Analysis.requireNew what name) := by
  intro s t h
  unfold Analysis.requireNew
  rw [Scopes.declares, Scopes.declares, h.current.find?]
  split
  · exact .error
  · exact .ok h

theorem declareName (what : Declared) (type name : Node) :
    Matches Scopes.Twins Scopes.Twins (Analysis.declareName what type name)
      (Analysis.declareName what type name) := by
  refine (part _).bind fun spelled => (requireNew what spelled).bind fun _ => ?_
  exact (part _).bind fun typeSpelled => fun s t h => .ok (h.define _)

theorem openRoutine (what : Declared) (kind : ScopeKind) (name : Node) (parameters : List Node)
    (symbol : String → List Parameter → Except Fault Symbol) :
    Matches Scopes.Twins (Inside Scopes.Twins)
      (Analysis.openRoutine what kind name parameters symbol)
      (Analysis.openRoutine what kind name parameters symbol) := by
  refine (part _).bind fun spelled => (requireNew what spelled).bind fun _ => ?_
  refine (part _).bind fun ps => (part _).bind fun sym => ?_
  intro s t h
  have hdefined := h.define sym
  exact .ok ⟨hdefined.alike.enter (.refl kind) (fun _ => rfl) ps, _, _, hdefined, rfl, rfl⟩

/-- Every part is judged alike in twins. -/
theorem node (it : Node) : Matches Scopes.Twins Scopes.Twins (node fits it) (node fits it) := by
  induction it using Node.children_induction with
  | h it ih =>
      rw [node_eq]
      refine runAll fun phase hphase => ?_
      have hparts : ∀ part ∈ phase.parts, Matches Scopes.Twins Scopes.Twins
          (Analysis.node fits part) (Analysis.node fits part) :=
        fun part hpart => ih part (mem_children_of_phase hphase hpart)
      cases phase with
      | test t => exact test (fun _ _ h => h.alike) t
      | declare what type name => exact declareName what type name
      | part part => exact hparts part List.mem_cons_self
      | scope stem kind parts =>
          exact scope (fun _ _ h => h.alike) stem stem (.refl kind) (scope_kind hphase) hparts
      | routine what kind name parameters symbol body =>
          refine (openRoutine what kind name parameters symbol).bind fun _ => ?_
          exact (hparts body List.mem_cons_self).inside.bind fun _ => leave

end Matches

/-- The analysis of an expression tests names and goes on to expressions. -/
theorem phase_of_expression {W : String → Prop} {it : Node} {phase : Phase}
    (h : Formed W .expression it) (hphase : phase ∈ it.phases) :
    (∃ t, phase = .test t) ∨ ∃ part, phase = .part part ∧ Formed W .expression part := by
  cases h with
  | functionCall _ harguments =>
      rcases List.mem_cons.mp hphase with rfl | hphase
      · exact .inl ⟨_, rfl⟩
      · obtain ⟨argument, hargument, rfl⟩ := List.mem_map.mp hphase
        exact .inr ⟨argument, rfl, harguments argument hargument⟩
  | _ => grind [Node.phases]

/-- An expression, in which nothing is declared, is judged alike in scopes that are alike. -/
theorem Matches.expression {W : String → Prop} (hR : ∀ s t, R s t → s.Alike t) {it : Node}
    (h : Formed W .expression it) :
    Matches R R (Analysis.node fits it) (Analysis.node fits it) := by
  induction it using Node.children_induction with
  | h it ih =>
      rw [node_eq]
      refine runAll fun phase hphase => ?_
      have hchild : ∀ part ∈ phase.parts, part ∈ it.children :=
        fun part hpart => mem_children_of_phase hphase hpart
      rcases phase_of_expression h hphase with ⟨t, rfl⟩ | ⟨part, rfl, hpart⟩
      · exact test hR t
      · exact ih part (hchild part List.mem_cons_self) hpart

end Analysis

end BraceScript
