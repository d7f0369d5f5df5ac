import BraceScript.Proofs.Declarations

/-! # Discipline — scopes are opened and left in order

    The analysis opens a scope for every routine and every block, and leaves it behind what is
    inside.  Nothing else closes a scope, so an analysis that fails stops in the scope where it was
    at that moment, with the scopes around it still open.

    * `Table.Extends`: new names stand behind the entries of a table;
    * `Scopes.Above`: scopes that were opened one inside the other;
    * `Analysis.Orderly`: a step that comes back to the scope it was begun in, or fails there or in
      a scope further in;
    * `scopes_disciplined`: the analysis of every tree, in all scopes, is such a step. -/

namespace BraceScript

/-! ## Tables that grow -/

namespace Table

variable {α : Type}

/-- A table with names that it did not have, each once, behind its entries. -/
def Extends (before after : Table α) : Prop :=
  ∃ added, after = before ++ added ∧ (∀ entry ∈ added, before.get? entry.1 = none) ∧
    (added.map Prod.fst).Nodup

theorem get?_eq_none_iff {t : Table α} {name : String} :
    t.get? name = none ↔ name ∉ t.map Prod.fst := by
  induction t with
  | nil => simp
  | cons entry rest ih =>
      obtain ⟨key, value⟩ := entry
      by_cases h : key = name
      · simp [get?, h]
      · simp [get?, h, ih, Ne.symm h]

theorem insert_of_absent {t : Table α} {name : String} (h : t.get? name = none) (value : α) :
    t.insert name value = t ++ [(name, value)] := by
  induction t with
  | nil => rfl
  | cons entry rest ih =>
      obtain ⟨key, old⟩ := entry
      by_cases hkey : key = name
      · simp [get?, hkey] at h
      · rw [get?, if_neg hkey] at h
        rw [insert, if_neg hkey, ih h, List.cons_append]

namespace Extends

theorem refl (t : Table α) : Extends t t := ⟨[], by simp⟩

theorem insert {t : Table α} {name : String} (h : t.get? name = none) (value : α) :
    Extends t (t.insert name value) :=
  ⟨[(name, value)], insert_of_absent h value, by simpa using h, by simp⟩

theorem trans {t u v : Table α} (h : Extends t u) (h' : Extends u v) : Extends t v := by
  obtain ⟨first, rfl, hfirst, hnodup⟩ := h
  obtain ⟨second, rfl, hsecond, hnodup'⟩ := h'
  have habsent : ∀ entry ∈ second, entry.1 ∉ t.map Prod.fst ∧ entry.1 ∉ first.map Prod.fst := by
    intro entry hentry
    have hnone := get?_eq_none_iff.mp (hsecond entry hentry)
    rwa [List.map_append, List.mem_append, not_or] at hnone
  refine ⟨first ++ second, by rw [List.append_assoc], ?_, ?_⟩
  · intro entry hentry
    rcases List.mem_append.mp hentry with hentry | hentry
    · exact hfirst entry hentry
    · exact get?_eq_none_iff.mpr (habsent entry hentry).1
  · rw [List.map_append]
    refine List.nodup_append.mpr ⟨hnodup, hnodup', ?_⟩
    rintro name hname _ hother rfl
    obtain ⟨entry, hentry, rfl⟩ := List.mem_map.mp hother
    exact (habsent entry hentry).2 hname

end Extends

end Table

/-! ## Scopes that grow -/

namespace Scope

/-- The same scope with names that it did not have behind its entries. -/
structure Extends (before after : Scope) : Prop where
  name : after.name = before.name
  kind : after.kind = before.kind
  level : after.level = before.level
  symbols : Table.Extends before.symbols after.symbols

theorem Extends.refl (scope : Scope) : scope.Extends scope := ⟨rfl, rfl, rfl, .refl _⟩

theorem Extends.trans {a b c : Scope} (h : a.Extends b) (h' : b.Extends c) : a.Extends c :=
  ⟨h'.name.trans h.name, h'.kind.trans h.kind, h'.level.trans h.level, h.symbols.trans h'.symbols⟩

theorem make_level (name : String) (kind : ScopeKind) (level : Int) :
    (make name kind level).level = level := by
  simp only [make]
  split
  · rfl
  · rfl

theorem foldl_define_level (ps : List Parameter) (scope : Scope) :
    (ps.foldl (fun scope p => scope.define (.variable p.name p.type)) scope).level =
      scope.level := by
  induction ps generalizing scope with
  | nil => rfl
  | cons p ps ih => exact ih _

end Scope

namespace Scopes

/-- The same scopes, the current one with names that it did not have behind its entries. -/
structure Extends (before after : Scopes) : Prop where
  current : before.current.Extends after.current
  outer : after.outer = before.outer

namespace Extends

theorem refl (s : Scopes) : s.Extends s := ⟨.refl _, rfl⟩

theorem trans {s t u : Scopes} (h : s.Extends t) (h' : t.Extends u) : s.Extends u :=
  ⟨h.current.trans h'.current, h'.outer.trans h.outer⟩

theorem define {s : Scopes} {symbol : Symbol} (h : s.declares symbol.name = false) :
    s.Extends (s.define symbol) := by
  have hnone : s.current.symbols.get? symbol.name = none :=
    Option.not_isSome_iff_eq_none.mp (by rw [Bool.not_eq_true]; exact h)
  exact ⟨⟨rfl, rfl, rfl, .insert hnone symbol⟩, rfl⟩

end Extends

/-- Every scope is one level above the one around it. -/
def Leveled (scopes : List Scope) : Prop :=
  scopes.IsChain fun inner around => inner.level = around.level + 1

theorem Extends.leveled {s t : Scopes} (h : s.Extends t) (hs : Leveled s.toList) :
    Leveled t.toList := by
  rw [toList, h.outer]
  refine List.isChain_cons.mpr ⟨fun around hhead => ?_, (List.isChain_cons.mp hs).2⟩
  rw [h.current.level]
  exact (List.isChain_cons.mp hs).1 around hhead

theorem enter_level (s : Scopes) (name : String) (kind : ScopeKind) (ps : List Parameter) :
    (s.enter name kind ps).current.level = s.current.level + 1 :=
  (Scope.foldl_define_level ps _).trans (Scope.make_level name kind _)

/-- Scopes that come from others by opening scopes one inside the other. -/
inductive Above : Scopes → Scopes → Prop
  | here (s : Scopes) : Above s s
  | inside {s inner after : Scopes} (houter : inner.outer = s.toList)
      (hlevel : inner.current.level = s.current.level + 1) (h : Above inner after) :
      Above s after

theorem Above.toList {s after : Scopes} (h : Above s after) :
    ∃ inner, after.toList = inner ++ s.toList := by
  induction h with
  | here s => exact ⟨[], rfl⟩
  | @inside s t after houter _ _ ih =>
      obtain ⟨inner, hinner⟩ := ih
      refine ⟨inner ++ [t.current], ?_⟩
      rw [hinner, Scopes.toList, houter, List.append_assoc, List.singleton_append]

theorem Above.leveled {s after : Scopes} (h : Above s after) (hs : Leveled s.toList) :
    Leveled after.toList := by
  induction h with
  | here s => exact hs
  | @inside s t after houter hlevel _ ih =>
      refine ih (List.isChain_cons.mpr ⟨fun around hhead => ?_, ?_⟩)
      · rw [houter] at hhead
        obtain rfl := Option.some.inj hhead
        exact hlevel
      · rw [houter]
        exact hs

end Scopes

/-! ## Steps of the analysis -/

namespace Analysis

variable {α β : Type} {fits : Symbol → Bool} {s s' : Scopes} {u : Unit} {e : AnalysisFault}

/-- A step that changes no scopes, whether it fails or not. -/
def Steady (x : Analysis α) : Prop := ∀ s, (∃ a, x s = .ok a s) ∨ ∃ e, x s = .error e s

namespace Steady

theorem pure (a : α) : Steady (Pure.pure a : Analysis α) := fun _ => .inl ⟨a, rfl⟩

theorem fail (e : SemanticError) : Steady (fail e : Analysis α) := fun _ => .inr ⟨_, rfl⟩

theorem part (x : Except Fault α) : Steady (part x) := by
  intro s
  cases x with
  | ok a => exact .inl ⟨a, rfl⟩
  | error f => exact .inr ⟨_, rfl⟩

theorem lookup (name : String) : Steady (lookup name) := fun _ => .inl ⟨_, rfl⟩

theorem requireNew (what : Declared) (name : String) : Steady (requireNew what name) := by
  intro s
  by_cases h : s.declares name = true
  · exact .inr ⟨_, if_pos h⟩
  · exact .inl ⟨_, if_neg h⟩

theorem bind {x : Analysis α} {f : α → Analysis β} (hx : Steady x) (hf : ∀ a, Steady (f a)) :
    Steady (x >>= f) := by
  intro s
  show (∃ b, EStateM.bind x f s = .ok b s) ∨ ∃ e, EStateM.bind x f s = .error e s
  rw [EStateM.bind]
  rcases hx s with ⟨a, ha⟩ | ⟨e, he⟩
  · rw [ha]
    exact hf a s
  · rw [he]
    exact .inr ⟨e, rfl⟩

theorem either {c : Prop} [Decidable c] {x y : Analysis α} (hx : Steady x) (hy : Steady y) :
    Steady (if c then x else y) := by
  by_cases h : c
  · rw [if_pos h]
    exact hx
  · rw [if_neg h]
    exact hy

/-- Where a step fails that goes on from a steady one, it fails at once or behind that one. -/
theorem bind_error {x : Analysis α} {f : α → Analysis β} (hx : Steady x)
    (h : (x >>= f) s = .error e s') : s' = s ∨ ∃ a, f a s = .error e s' := by
  rcases Analysis.bind_error h with hfails | ⟨a, mid, hpasses, hrest⟩
  · rcases hx s with ⟨a, ha⟩ | ⟨e', he⟩
    · rw [ha] at hfails
      cases hfails
    · rw [he] at hfails
      cases hfails
      exact .inl rfl
  · rcases hx s with ⟨a', ha⟩ | ⟨e', he⟩
    · rw [ha] at hpasses
      cases hpasses
      exact .inr ⟨_, hrest⟩
    · rw [he] at hpasses
      cases hpasses

theorem count (r : Routine) (name : String) (arguments : List Node) :
    Steady (checkCount r name arguments) := either (pure _) (fail _)

end Steady

/-- The tests of the analysis change no scopes. -/
theorem Test.steady (t : Test) : Steady (t.check fits) := by
  cases t with
  | stuck f => exact fun _ => .inr ⟨_, rfl⟩
  | read name =>
      refine (Steady.lookup name).bind fun found => ?_
      cases found with
      | none => exact .fail _
      | some symbol => exact .either (.pure _) (.fail _)
  | assigned name =>
      refine (Steady.part _).bind fun spelled => (Steady.lookup spelled).bind fun found => ?_
      cases found with
      | none => exact .fail _
      | some symbol =>
          cases symbol with
          | «variable» _ _ => exact .pure _
          | _ => exact .fail _
  | function callee arguments =>
      refine (Steady.part _).bind fun spelled => (Steady.lookup spelled).bind fun found => ?_
      cases found with
      | none => exact .fail _
      | some symbol =>
          cases symbol with
          | function f => exact .count _ _ _
          | _ => exact .fail _
  | procedure callee arguments =>
      refine (Steady.part _).bind fun spelled => (Steady.lookup spelled).bind fun found => ?_
      cases found with
      | none => exact .fail _
      | some symbol =>
          cases symbol with
          | procedure p => exact .count _ _ _
          | _ => exact .fail _
  | give value =>
      have hget : Steady (get : Analysis Scopes) := fun s => .inl ⟨s, rfl⟩
      refine (hget.bind fun scopes => ?_).bind fun _ => .pure _
      rcases routineScope scopes.toList with _ | ⟨scope, _ | ⟨around, outer⟩⟩
      · exact .fail _
      · exact .fail _
      · dsimp only
        rcases Scopes.findIn scope.name (around :: outer) with _ | symbol
        · exact .fail _
        · cases symbol with
          | function f => exact .either (.fail _) (.pure _)
          | procedure p => exact .either (.pure _) (.fail _)
          | _ => exact .fail _
  | loop e =>
      have hinside : Steady insideWhile := fun s => .inl ⟨_, rfl⟩
      exact hinside.bind fun _ => .either (.pure _) (.fail _)

/-- What comes of a step that is begun in some scopes: it comes back to them, or fails there or in
    a scope further in.  The scope it was begun in has at most new names. -/
def Orderly (s : Scopes) : EStateM.Result AnalysisFault Scopes α → Prop
  | .ok _ after => s.Extends after
  | .error _ after => ∃ begun, s.Extends begun ∧ begun.Above after

namespace Orderly

theorem failsHere (h : s' = s) : Orderly s (.error e s' : EStateM.Result _ _ α) :=
  ⟨s, .refl s, h ▸ .here s⟩

theorem steady {x : Analysis α} (hx : Steady x) (s : Scopes) : Orderly s (x s) := by
  rcases hx s with ⟨a, ha⟩ | ⟨e, he⟩
  · rw [ha]
    exact .refl s
  · rw [he]
    exact failsHere rfl

/-- What is orderly in scopes that were extended is orderly in those before. -/
theorem after {r : EStateM.Result AnalysisFault Scopes α} (hs : s.Extends s') (h : Orderly s' r) :
    Orderly s r := by
  cases r with
  | ok a after => exact hs.trans h
  | error e after =>
      obtain ⟨begun, hbegun, habove⟩ := h
      exact ⟨begun, hs.trans hbegun, habove⟩

theorem bind {x : Analysis α} {f : α → Analysis β} (hx : Orderly s (x s))
    (hf : ∀ a mid, Orderly mid (f a mid)) : Orderly s ((x >>= f) s) := by
  show Orderly s (EStateM.bind x f s)
  rw [EStateM.bind]
  cases hrun : x s with
  | ok a mid =>
      rw [hrun] at hx
      exact (hf a mid).after hx
  | error e mid =>
      rw [hrun] at hx
      exact hx

/-- A step that fails in a scope that was opened fails above the scopes around it. -/
theorem opened {inner after : Scopes} (houter : inner.outer = s.toList)
    (hlevel : inner.current.level = s.current.level + 1)
    (h : Orderly inner (.error e after : EStateM.Result _ _ Unit)) : s.Above after := by
  obtain ⟨begun, hbegun, habove⟩ := h
  exact .inside (hbegun.outer.trans houter) (hbegun.current.level.trans hlevel) habove

theorem nodes {parts : List Node} (hparts : ∀ part ∈ parts, ∀ s, Orderly s (node fits part s))
    (s : Scopes) : Orderly s (nodes fits parts s) := by
  induction parts generalizing s with
  | nil => exact .refl s
  | cons first rest ih =>
      rw [Analysis.nodes]
      refine (hparts first List.mem_cons_self s).bind fun _ mid => ?_
      exact ih (fun part hpart => hparts part (List.mem_cons_of_mem _ hpart)) mid

theorem declareName (what : Declared) (type name : Node) (s : Scopes) :
    Orderly s (declareName what type name s) := by
  cases hrun : Analysis.declareName what type name s with
  | ok u after =>
      obtain ⟨spelled, typeSpelled, -, -, hnew, rfl⟩ := declareName_inv hrun
      refine Scopes.Extends.define ?_
      rwa [show (what.symbol spelled typeSpelled).name = spelled by cases what <;> rfl]
  | error e after =>
      refine failsHere ?_
      rcases (Steady.part _).bind_error hrun with h | ⟨spelled, hrun⟩
      · exact h
      rcases (Steady.requireNew _ _).bind_error hrun with h | ⟨_, hrun⟩
      · exact h
      rcases (Steady.part _).bind_error hrun with h | ⟨_, hrun⟩
      · exact h
      · cases hrun

/-- Where a routine cannot be opened, no scope was. -/
theorem openRoutine_fails {what : Declared} {kind : ScopeKind} {name : Node}
    {parameters : List Node} {symbol : String → List Parameter → Except Fault Symbol}
    (h : openRoutine what kind name parameters symbol s = .error e s') : s' = s := by
  rcases (Steady.part _).bind_error h with h | ⟨spelled, h⟩
  · exact h
  rcases (Steady.requireNew _ _).bind_error h with h | ⟨_, h⟩
  · exact h
  rcases (Steady.part _).bind_error h with h | ⟨_, h⟩
  · exact h
  rcases (Steady.part _).bind_error h with h | ⟨_, h⟩
  · exact h
  · cases h

theorem scope {stem : String} {kind : ScopeKind} {parts : List Node}
    (hparts : ∀ part ∈ parts, ∀ s, Orderly s (node fits part s)) (s : Scopes) :
    Orderly s (Phase.run fits (.scope stem kind parts) s) := by
  cases hrun : Phase.run fits (.scope stem kind parts) s with
  | ok u after =>
      rw [scope_ok (fun part _ => leavesOuter part) hrun]
      exact .refl s
  | error e after =>
      rcases bind_error hrun with henter | ⟨_, inner, henter, hrest⟩
      · cases henter
      cases henter
      rcases bind_error hrest with hfails | ⟨_, behind, -, hleave⟩
      · have hinner := nodes hparts (s.enter (stem ++ toString s.current.level) kind [])
        rw [hfails] at hinner
        exact ⟨s, .refl s, hinner.opened rfl (Scopes.enter_level s _ _ _)⟩
      · cases hleave

theorem routine {it name body : Node} {what : Declared} {kind : ScopeKind} {parameters : List Node}
    {symbol : String → List Parameter → Except Fault Symbol}
    (hphase : .routine what kind name parameters symbol body ∈ it.phases)
    (hbody : ∀ s, Orderly s (node fits body s)) (s : Scopes) :
    Orderly s (Phase.run fits (.routine what kind name parameters symbol body) s) := by
  -- the routine has its name in the scope around before its own scope is opened
  have hdeclared : ∀ {spelled ps sym}, name.namePart = .ok spelled →
      Parameter.ofNodes parameters = .ok ps → symbol spelled ps = .ok sym →
      s.declares spelled = false → s.Extends (s.define sym) := by
    intro spelled ps sym hname hps hsym hnew
    obtain ⟨-, hsame, -, -⟩ := defines_of_routine hphase hname hps hsym
    exact .define (by rwa [hsame])
  cases hrun : Phase.run fits (.routine what kind name parameters symbol body) s with
  | ok u after =>
      obtain ⟨spelled, ps, sym, _, hname, hps, hsym, hnew, -, rfl⟩ :=
        routine_ok (leavesOuter body) hrun
      exact hdeclared hname hps hsym hnew
  | error e after =>
      rcases bind_error hrun with hopen | ⟨_, inner, hopen, hrest⟩
      · exact failsHere (openRoutine_fails hopen)
      obtain ⟨spelled, ps, sym, hname, hps, hsym, hnew, rfl⟩ := openRoutine_inv hopen
      rcases bind_error hrest with hfails | ⟨_, behind, -, hleave⟩
      · have hinner := hbody ((s.define sym).enter spelled kind ps)
        rw [hfails] at hinner
        exact ⟨s.define sym, hdeclared hname hps hsym hnew,
          hinner.opened rfl (Scopes.enter_level _ _ _ _)⟩
      · cases hleave

/-- One phase of the analysis of a part, if the analysis of its parts is orderly. -/
theorem phase {it : Node} {phase : Phase} (hphase : phase ∈ it.phases)
    (ih : ∀ child ∈ it.children, ∀ s, Orderly s (node fits child s)) (s : Scopes) :
    Orderly s (phase.run fits s) := by
  have hparts : ∀ part ∈ phase.parts, ∀ s, Orderly s (node fits part s) :=
    fun part hpart => ih part (mem_children_of_phase hphase hpart)
  cases phase with
  | test t => exact steady t.steady s
  | declare what type name => exact declareName what type name s
  | part part => exact hparts part List.mem_cons_self s
  | scope stem kind parts => exact scope hparts s
  | routine what kind name parameters symbol body =>
      exact routine hphase (hparts body List.mem_cons_self) s

theorem runAll {it : Node} {phases : List Phase} (hphases : ∀ phase ∈ phases, phase ∈ it.phases)
    (ih : ∀ child ∈ it.children, ∀ s, Orderly s (node fits child s)) (s : Scopes) :
    Orderly s (runAll fits phases s) := by
  induction phases generalizing s with
  | nil => exact .refl s
  | cons first rest ihrest =>
      rw [Analysis.runAll]
      refine (phase (hphases first List.mem_cons_self) ih s).bind fun _ mid => ?_
      exact ihrest (fun other hother => hphases other (List.mem_cons_of_mem _ hother)) mid

end Orderly

/-- The analysis of every part is orderly in all scopes. -/
theorem orderly (it : Node) : ∀ s, Orderly s (node fits it s) := by
  induction it using Node.children_induction with
  | h it ih =>
      intro s
      rw [node_eq]
      exact .runAll (fun _ hphase => hphase) ih s

end Analysis

/-- Scopes are opened and left in order.  An analysis that passes comes back to the scope that it
    was begun in, with the scopes around it as they were and new names behind the old entries of its
    table.  One that fails stops in that scope or in one further in, and the scopes around that
    scope are as they were.  Levels go up by one from scope to scope if they did before. -/
theorem scopes_disciplined (scopes : Scopes) (tree : Node) :
    ((analyzeIn scopes tree).1 = none → scopes.Extends (analyzeIn scopes tree).2) ∧
      ((analyzeIn scopes tree).1 ≠ none → ∃ inner begun, scopes.current.Extends begun ∧
        (analyzeIn scopes tree).2.toList = inner ++ begun :: scopes.outer) ∧
      (Scopes.Leveled scopes.toList → Scopes.Leveled (analyzeIn scopes tree).2.toList) := by
  have horderly : Analysis.Orderly scopes (Analysis.node (fun _ => true) tree scopes) :=
    Analysis.orderly tree scopes
  rw [analyzeIn, analyzeWith]
  cases hrun : Analysis.node (fun _ => true) tree scopes with
  | ok u after =>
      rw [hrun] at horderly
      exact ⟨fun _ => horderly, fun h => absurd rfl h, horderly.leveled⟩
  | error e after =>
      rw [hrun] at horderly
      obtain ⟨begun, hbegun, habove⟩ := horderly
      refine ⟨fun h => (by cases h), fun _ => ?_, fun h => habove.leveled (hbegun.leveled h)⟩
      obtain ⟨inner, hinner⟩ := habove.toList
      refine ⟨inner, begun.current, hbegun.current, ?_⟩
      rw [hinner, Scopes.toList, hbegun.outer]

end BraceScript
