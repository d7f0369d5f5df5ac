import BraceScript.Proofs.Phases

/-! # Places — where the analysis comes to

    The analysis comes to a part in some scopes.  A place is a part with these scopes and with the
    routine that it belongs to; what a name means at a place is what the scopes say.  One part may
    have several places, since equal parts are the same part here.

    * `Warden.kept`: what each phase keeps holds at every place that the analysis comes to, and of
      the fault that it ends with, for all trees;
    * `Place.Passes.placed`: where the analysis passes, it comes to every part, labels apart. -/

namespace BraceScript

/-! ## Places -/

/-- The routine that the parts of a node belong to, given the one that the node belongs to. -/
def Node.routineWithin (node : Node) (r : Option Node) : Option Node :=
  if node.declaresRoutine then some node else r

/-- A place that the analysis comes to: a part, the scopes in which it is analyzed, and the
    declaration of the routine that it belongs to, if it belongs to one. -/
structure Place where
  routine : Option Node
  scopes : Scopes
  node : Node

namespace Analysis

variable (fits : Symbol → Bool) (r : Option Node)

/-- The places of parts that are analyzed one after the other. -/
def along : List Node → Scopes → List Place
  | [], _ => []
  | first :: rest, s => ⟨r, s, first⟩ :: match node fits first s with
      | .ok _ after => along rest after
      | .error _ _ => []

/-- The places of the parts that a phase analyzes. -/
def Phase.places (phase : Phase) (s : Scopes) : List Place :=
  match phase with
  | .part it => [⟨r, s, it⟩]
  | .scope stem kind parts =>
      along fits r parts (s.enter (stem ++ toString s.current.level) kind [])
  | .routine what kind name parameters symbol body =>
      match openRoutine what kind name parameters symbol s with
      | .ok _ inner => [⟨r, inner, body⟩]
      | .error _ _ => []
  | _ => []

/-- The places of the parts that phases analyze, up to where the analysis fails. -/
def placesAll : List Phase → Scopes → List Place
  | [], _ => []
  | phase :: rest, s => phase.places fits r s ++ match phase.run fits s with
      | .ok _ after => placesAll rest after
      | .error _ _ => []

variable {fits r}

theorem mem_along {parts : List Node} {s : Scopes} {q : Place} (h : q ∈ along fits r parts s) :
    q.routine = r ∧ q.node ∈ parts := by
  induction parts generalizing s with
  | nil => exact absurd h List.not_mem_nil
  | cons first rest ih =>
      rw [along] at h
      rcases List.mem_cons.mp h with rfl | h
      · exact ⟨rfl, List.mem_cons_self⟩
      · split at h
        · obtain ⟨hr, hq⟩ := ih h
          exact ⟨hr, List.mem_cons_of_mem _ hq⟩
        · exact absurd h List.not_mem_nil

theorem Phase.mem_places {phase : Phase} {s : Scopes} {q : Place}
    (h : q ∈ phase.places fits r s) : q.routine = r ∧ q.node ∈ phase.parts := by
  cases phase with
  | part it =>
      obtain rfl := List.mem_singleton.mp h
      exact ⟨rfl, List.mem_singleton.mpr rfl⟩
  | scope stem kind parts => exact mem_along h
  | routine what kind name parameters symbol body =>
      unfold places at h
      dsimp only at h
      split at h
      · obtain rfl := List.mem_singleton.mp h
        exact ⟨rfl, List.mem_singleton.mpr rfl⟩
      · exact absurd h List.not_mem_nil
  | _ => exact absurd h List.not_mem_nil

theorem mem_placesAll {phases : List Phase} {s : Scopes} {q : Place}
    (h : q ∈ placesAll fits r phases s) :
    q.routine = r ∧ ∃ phase ∈ phases, q.node ∈ phase.parts := by
  induction phases generalizing s with
  | nil => exact absurd h List.not_mem_nil
  | cons phase rest ih =>
      rw [placesAll] at h
      rcases List.mem_append.mp h with h | h
      · obtain ⟨hr, hq⟩ := Phase.mem_places h
        exact ⟨hr, phase, List.mem_cons_self, hq⟩
      · split at h
        · obtain ⟨hr, other, hother, hq⟩ := ih h
          exact ⟨hr, other, List.mem_cons_of_mem _ hother, hq⟩
        · exact absurd h List.not_mem_nil

end Analysis

namespace Place

variable (fits : Symbol → Bool)

/-- Where the analysis goes from a place: the places of the parts. -/
def next (p : Place) : List Place :=
  Analysis.placesAll fits (p.node.routineWithin p.routine) p.node.phases p.scopes

theorem node_mem_children {p q : Place} (h : q ∈ p.next fits) : q.node ∈ p.node.children := by
  obtain ⟨-, phase, hphase, hq⟩ := Analysis.mem_placesAll h
  exact Analysis.mem_children_of_phase hphase hq

/-- A place and all that the analysis comes to from there. -/
def all (p : Place) : List Place :=
  p :: (p.next fits).attach.flatMap fun ⟨q, _⟩ => q.all
termination_by p.node
decreasing_by exact Node.sizeOf_lt_of_mem_children (node_mem_children fits ‹_›)

variable {fits}

theorem mem_all {p q : Place} :
    q ∈ p.all fits ↔ q = p ∨ ∃ next ∈ p.next fits, q ∈ next.all fits := by
  rw [all, List.mem_cons, List.mem_flatMap]
  simp

theorem self_mem_all (p : Place) : p ∈ p.all fits := mem_all.mpr (.inl rfl)

/-- What the analysis comes to from a place on the way, it comes to. -/
theorem all_trans {p q q' : Place} (hq : q ∈ p.all fits) (hq' : q' ∈ q.all fits) :
    q' ∈ p.all fits := by
  obtain ⟨r, s, node⟩ := p
  induction node using Node.children_induction generalizing r s with
  | h node ih =>
      rcases mem_all.mp hq with rfl | ⟨next, hnext, hq⟩
      · exact hq'
      · refine mem_all.mpr (.inr ⟨next, hnext, ?_⟩)
        exact ih next.node (node_mem_children fits hnext) next.routine next.scopes hq

theorem routine_eq {p q : Place} (h : q ∈ p.next fits) :
    q.routine = p.node.routineWithin p.routine := (Analysis.mem_placesAll h).1

end Place

/-- The places of a program, in the order in which the analysis comes to them. -/
def Node.places (tree : Node) : List Place := (Place.mk none Scopes.initial tree).all fun _ => true

/-! ## Invariants of the analysis -/

/-- What makes the analysis keep a property: `N` is to hold of the parts that it comes to, in the
    routine that they belong to, `Q` of the scopes there, and `E` of the faults that it ends
    with. -/
structure Warden (fits : Symbol → Bool) (N : Option Node → Node → Prop)
    (Q : Option Node → Scopes → Prop) (E : AnalysisFault → Prop) : Prop where
  children : ∀ r node part, N r node → part ∈ node.children → N (node.routineWithin r) part
  block : ∀ r s label kind, kind.isRoutine = false → Q r s → Q r (s.enter label kind [])
  name : ∀ r s node what type name spelled typeSpelled, N r node →
    .declare what type name ∈ node.phases → name.namePart = .ok spelled →
    type.namePart = .ok typeSpelled → s.declares spelled = false → Q r s →
    Q r (s.define (what.symbol spelled typeSpelled))
  routine : ∀ r s node what kind name parameters symbol body spelled ps sym, N r node →
    .routine what kind name parameters symbol body ∈ node.phases → name.namePart = .ok spelled →
    Parameter.ofNodes parameters = .ok ps → symbol spelled ps = .ok sym →
    s.declares spelled = false → Q r s →
    Q r (s.define sym) ∧ Q (some node) ((s.define sym).enter spelled kind ps)
  test : ∀ r s node t e s', N r node → .test t ∈ node.phases → Q r s →
    t.check fits s = .error e s' → E e
  plain : ∀ e, Analysis.IsPlain e → E e

namespace Warden

variable {fits : Symbol → Bool} {N : Option Node → Node → Prop} {Q : Option Node → Scopes → Prop}
  {E : AnalysisFault → Prop} {r : Option Node} {s : Scopes}

/-- What holds behind an analysis. -/
def Settles (Q : Option Node → Scopes → Prop) (E : AnalysisFault → Prop) (r : Option Node) :
    EStateM.Result AnalysisFault Scopes Unit → Prop
  | .ok _ after => Q r after
  | .error e _ => E e

/-- The analysis of a part keeps the property. -/
def Keeps (fits : Symbol → Bool) (N : Option Node → Node → Prop) (Q : Option Node → Scopes → Prop)
    (E : AnalysisFault → Prop) (it : Node) : Prop :=
  ∀ r s, N r it → Q r s →
    (∀ q ∈ (Place.mk r s it).all fits, N q.routine q.node ∧ Q q.routine q.scopes) ∧
      Settles Q E r (Analysis.node fits it s)

theorem along_kept {parts : List Node} (hparts : ∀ part ∈ parts, N r part ∧ Keeps fits N Q E part)
    (hs : Q r s) :
    (∀ q ∈ Analysis.along fits r parts s, N q.routine q.node ∧ Q q.routine q.scopes) ∧
      Settles Q E r (Analysis.nodes fits parts s) := by
  induction parts generalizing s with
  | nil => exact ⟨fun q hq => absurd hq List.not_mem_nil, hs⟩
  | cons first rest ih =>
      obtain ⟨hN, hkeeps⟩ := hparts first List.mem_cons_self
      have hfirst := (hkeeps r s hN hs).2
      rw [Analysis.along, Analysis.nodes]
      show _ ∧ Settles Q E r (EStateM.bind _ _ s)
      unfold EStateM.bind
      cases hrun : Analysis.node fits first s with
      | error e after =>
          rw [hrun] at hfirst
          refine ⟨fun q hq => ?_, hfirst⟩
          obtain rfl := List.mem_singleton.mp hq
          exact ⟨hN, hs⟩
      | ok u after =>
          rw [hrun] at hfirst
          obtain ⟨hplaces, hsettles⟩ :=
            ih (fun part hpart => hparts part (List.mem_cons_of_mem _ hpart)) hfirst
          refine ⟨fun q hq => ?_, hsettles⟩
          rcases List.mem_cons.mp hq with rfl | hq
          · exact ⟨hN, hs⟩
          · exact hplaces q hq

variable (h : Warden fits N Q E)

include h

/-- One phase of the analysis of a part. -/
theorem phase_kept {it : Node} {phase : Analysis.Phase} (hN : N r it) (hphase : phase ∈ it.phases)
    (ih : ∀ child ∈ it.children, Keeps fits N Q E child) (hs : Q r s) :
    (∀ q ∈ phase.places fits (it.routineWithin r) s, N q.routine q.node ∧ Q q.routine q.scopes) ∧
      Settles Q E r (phase.run fits s) := by
  have hparts : ∀ part ∈ phase.parts, N (it.routineWithin r) part ∧ Keeps fits N Q E part := by
    intro part hpart
    have hmem := Analysis.mem_children_of_phase hphase hpart
    exact ⟨h.children r it part hN hmem, ih part hmem⟩
  have hwithin : (∀ what kind name parameters symbol body,
      phase ≠ .routine what kind name parameters symbol body) → it.routineWithin r = r := by
    intro hother
    unfold Node.routineWithin
    rw [if_neg]
    intro hroutine
    obtain ⟨_, _, _, _, _, _, heq⟩ := (Analysis.routine_of_phase hphase).mp hroutine
    exact hother _ _ _ _ _ _ heq
  cases phase with
  | test t =>
      refine ⟨fun q hq => absurd hq List.not_mem_nil, ?_⟩
      show Settles Q E r (t.check fits s)
      cases hrun : t.check fits s with
      | ok u after =>
          obtain rfl := Analysis.Test.check_ok hrun
          exact hs
      | error e after => exact h.test r s it t e after hN hphase hs hrun
  | declare what type name =>
      refine ⟨fun q hq => absurd hq List.not_mem_nil, ?_⟩
      show Settles Q E r (Analysis.declareName what type name s)
      cases hrun : Analysis.declareName what type name s with
      | ok u after =>
          obtain ⟨spelled, typeSpelled, hname, htype, hnew, rfl⟩ := Analysis.declareName_inv hrun
          exact h.name r s it what type name spelled typeSpelled hN hphase hname htype hnew hs
      | error e after => exact h.plain e (Analysis.declareName_error hrun)
  | part part =>
      rw [hwithin nofun] at hparts ⊢
      obtain ⟨hNpart, hkeeps⟩ := hparts part List.mem_cons_self
      refine ⟨fun q hq => ?_, (hkeeps r s hNpart hs).2⟩
      obtain rfl := List.mem_singleton.mp hq
      exact ⟨hNpart, hs⟩
  | scope stem kind parts =>
      rw [hwithin nofun] at hparts ⊢
      have hentered := h.block r s (stem ++ toString s.current.level) kind
        (Analysis.scope_kind hphase) hs
      obtain ⟨hplaces, hsettles⟩ := along_kept hparts hentered
      refine ⟨hplaces, ?_⟩
      cases hrun : Analysis.Phase.run fits (.scope stem kind parts) s with
      | ok u after =>
          rw [Analysis.scope_ok (fun part _ => Analysis.leavesOuter part) hrun]
          exact hs
      | error e after =>
          rcases Analysis.bind_error hrun with henter | ⟨_, inner, henter, hrest⟩
          · exact nomatch henter
          cases henter
          rcases Analysis.bind_error hrest with hfailed | ⟨_, behind, -, hleave⟩
          · rw [← hfailed]
            exact hsettles
          · exact nomatch hleave
  | routine what kind name parameters symbol body =>
      have hwithin : it.routineWithin r = some it := by
        unfold Node.routineWithin
        rw [if_pos ((Analysis.routine_of_phase hphase).mpr ⟨_, _, _, _, _, _, rfl⟩)]
      rw [hwithin] at hparts ⊢
      obtain ⟨hNbody, hkeeps⟩ := hparts body List.mem_cons_self
      constructor
      · intro q hq
        unfold Analysis.Phase.places at hq
        dsimp only at hq
        split at hq
        · next inner hopen =>
            obtain rfl := List.mem_singleton.mp hq
            obtain ⟨spelled, ps, sym, hname, hps, hsym, hnew, rfl⟩ := Analysis.openRoutine_inv hopen
            exact ⟨hNbody, (h.routine r s it what kind name parameters symbol body spelled ps sym hN
              hphase hname hps hsym hnew hs).2⟩
        · exact absurd hq List.not_mem_nil
      · cases hrun : Analysis.Phase.run fits (.routine what kind name parameters symbol body) s with
        | ok u after =>
            obtain ⟨spelled, ps, sym, behind, hname, hps, hsym, hnew, -, rfl⟩ :=
              Analysis.routine_ok (Analysis.leavesOuter body) hrun
            exact (h.routine r s it what kind name parameters symbol body spelled ps sym hN
              hphase hname hps hsym hnew hs).1
        | error e after =>
            rcases Analysis.bind_error hrun with hopen | ⟨_, inner, hopen, hrest⟩
            · exact h.plain e (Analysis.openRoutine_error hopen)
            obtain ⟨spelled, ps, sym, hname, hps, hsym, hnew, rfl⟩ := Analysis.openRoutine_inv hopen
            rcases Analysis.bind_error hrest with hbody | ⟨_, behind, -, hleave⟩
            · have hsettles := (hkeeps _ _ hNbody (h.routine r s it what kind name parameters symbol
                body spelled ps sym hN hphase hname hps hsym hnew hs).2).2
              rw [hbody] at hsettles
              exact hsettles
            · exact nomatch hleave

theorem phases_kept {it : Node} {phases : List Analysis.Phase} (hN : N r it)
    (hphases : ∀ phase ∈ phases, phase ∈ it.phases)
    (ih : ∀ child ∈ it.children, Keeps fits N Q E child) (hs : Q r s) :
    (∀ q ∈ Analysis.placesAll fits (it.routineWithin r) phases s,
        N q.routine q.node ∧ Q q.routine q.scopes) ∧
      Settles Q E r (Analysis.runAll fits phases s) := by
  induction phases generalizing s with
  | nil => exact ⟨fun q hq => absurd hq List.not_mem_nil, hs⟩
  | cons phase rest ihrest =>
      obtain ⟨hplaces, hsettles⟩ := h.phase_kept hN (hphases phase List.mem_cons_self) ih hs
      rw [Analysis.placesAll]
      show _ ∧ Settles Q E r (EStateM.bind _ _ s)
      unfold EStateM.bind
      cases hrun : phase.run fits s with
      | error e after =>
          rw [hrun] at hsettles
          refine ⟨fun q hq => ?_, hsettles⟩
          rcases List.mem_append.mp hq with hq | hq
          · exact hplaces q hq
          · exact absurd hq List.not_mem_nil
      | ok u after =>
          rw [hrun] at hsettles
          obtain ⟨hrest, hbehind⟩ :=
            ihrest (fun other hother => hphases other (List.mem_cons_of_mem _ hother)) hsettles
          refine ⟨fun q hq => ?_, hbehind⟩
          rcases List.mem_append.mp hq with hq | hq
          · exact hplaces q hq
          · exact hrest q hq

/-- The property holds at every place that the analysis comes to. -/
theorem kept (it : Node) : Keeps fits N Q E it := by
  induction it using Node.children_induction with
  | h it ih =>
      intro r s hN hs
      obtain ⟨hnext, hsettles⟩ := h.phases_kept hN (fun _ hphase => hphase) ih hs
      rw [← Analysis.node_eq] at hsettles
      refine ⟨fun q hq => ?_, hsettles⟩
      rcases Place.mem_all.mp hq with rfl | ⟨next, hmem, hq⟩
      · exact ⟨hN, hs⟩
      · obtain ⟨hNnext, hQnext⟩ := hnext next hmem
        exact (ih next.node (Place.node_mem_children fits hmem) next.routine next.scopes hNnext
          hQnext).1 q hq

end Warden

/-! ## Parts that pass -/

/-- The analysis passes a part at a place. -/
def Place.Passes (fits : Symbol → Bool) (p : Place) : Prop :=
  ∃ after, Analysis.node fits p.node p.scopes = .ok () after

namespace Analysis

variable {fits : Symbol → Bool} {r : Option Node} {s s' : Scopes} {u : Unit}

theorem along_passes {parts : List Node} (h : nodes fits parts s = .ok u s') :
    (∀ q ∈ along fits r parts s, q.Passes fits) ∧
      ∀ part ∈ parts, ∃ q ∈ along fits r parts s, q.node = part := by
  induction parts generalizing s with
  | nil => exact ⟨fun q hq => absurd hq List.not_mem_nil, fun q hq => absurd hq List.not_mem_nil⟩
  | cons first rest ih =>
      rw [nodes] at h
      obtain ⟨_, mid, hfirst, hrest⟩ := bind_ok h
      obtain ⟨hpasses, hcovers⟩ := ih hrest
      rw [along, hfirst]
      constructor
      · intro q hq
        rcases List.mem_cons.mp hq with rfl | hq
        · exact ⟨mid, hfirst⟩
        · exact hpasses q hq
      · intro part hpart
        rcases List.mem_cons.mp hpart with rfl | hpart
        · exact ⟨_, List.mem_cons_self, rfl⟩
        · obtain ⟨q, hq, hnode⟩ := hcovers part hpart
          exact ⟨q, List.mem_cons_of_mem _ hq, hnode⟩

theorem Phase.passes {phase : Phase} (h : phase.run fits s = .ok u s') :
    (∀ q ∈ phase.places fits r s, q.Passes fits) ∧
      ∀ part ∈ phase.parts, ∃ q ∈ phase.places fits r s, q.node = part := by
  cases phase with
  | part it =>
      constructor
      · intro q hq
        obtain rfl := List.mem_singleton.mp hq
        exact ⟨s', h⟩
      · intro part hpart
        obtain rfl := List.mem_singleton.mp hpart
        exact ⟨_, List.mem_cons_self, rfl⟩
  | scope stem kind parts =>
      obtain ⟨_, inner, henter, hrest⟩ := bind_ok h
      cases henter
      obtain ⟨_, behind, hbehind, -⟩ := bind_ok hrest
      exact along_passes hbehind
  | routine what kind name parameters symbol body =>
      obtain ⟨_, inner, hopen, hrest⟩ := bind_ok h
      obtain ⟨_, behind, hbehind, -⟩ := bind_ok hrest
      unfold places
      dsimp only
      rw [hopen]
      constructor
      · intro q hq
        obtain rfl := List.mem_singleton.mp hq
        exact ⟨behind, hbehind⟩
      · intro part hpart
        obtain rfl := List.mem_singleton.mp hpart
        exact ⟨_, List.mem_cons_self, rfl⟩
  | _ => exact ⟨fun q hq => absurd hq List.not_mem_nil, fun q hq => absurd hq List.not_mem_nil⟩

theorem placesAll_passes {phases : List Phase} (h : runAll fits phases s = .ok u s') :
    (∀ q ∈ placesAll fits r phases s, q.Passes fits) ∧
      ∀ phase ∈ phases, ∀ part ∈ phase.parts, ∃ q ∈ placesAll fits r phases s, q.node = part := by
  induction phases generalizing s with
  | nil => exact ⟨fun q hq => absurd hq List.not_mem_nil, fun q hq => absurd hq List.not_mem_nil⟩
  | cons phase rest ih =>
      obtain ⟨_, mid, hphase, hrest⟩ := bind_ok h
      obtain ⟨hpasses, hcovers⟩ := ih hrest
      obtain ⟨hown, hparts⟩ := Phase.passes (r := r) hphase
      rw [placesAll, hphase]
      constructor
      · intro q hq
        rcases List.mem_append.mp hq with hq | hq
        · exact hown q hq
        · exact hpasses q hq
      · intro other hother part hpart
        rcases List.mem_cons.mp hother with rfl | hother
        · obtain ⟨q, hq, hnode⟩ := hparts part hpart
          exact ⟨q, List.mem_append_left _ hq, hnode⟩
        · obtain ⟨q, hq, hnode⟩ := hcovers other hother part hpart
          exact ⟨q, List.mem_append_right _ hq, hnode⟩

end Analysis

namespace Node

/-- A part that is not analyzed by itself, or need not be there; names that are read look the
    same. -/
def IsLabel : Node → Prop
  | .absent | .identifier _ | .typeName _ | .parameter _ _ => True
  | _ => False

end Node

namespace Formed

open Analysis (Phase)

variable {W : String → Prop} {c : Category} {node part : Node}

theorem part_mem_namePhases {what : Declared} {type value : Node} {names values : List Node}
    (hlength : names.length = values.length) (h : value ∈ values) :
    Phase.part value ∈ Node.namePhases what type names values := by
  induction values generalizing names with
  | nil => exact absurd h List.not_mem_nil
  | cons first rest ih =>
      cases names with
      | nil => exact nomatch hlength
      | cons name names =>
          rw [Node.namePhases, List.mem_cons, List.mem_cons]
          rcases List.mem_cons.mp h with rfl | h
          · exact .inr (.inl rfl)
          · exact .inr (.inr (ih (Nat.succ.inj hlength) h))

theorem part_mem_presentPhase (part : Node) :
    part = .absent ∨ Phase.part part ∈ part.presentPhase := by
  unfold Node.presentPhase
  split
  · next habsent => exact .inl (Analysis.eq_absent habsent)
  · exact .inr (List.mem_singleton.mpr rfl)

/-- The parts of a well-formed part that stand for themselves are analyzed, unless they are left
    out. -/
theorem proper_analyzed (h : Formed W c node) (hpart : part ∈ node.proper) :
    part = .absent ∨ ∃ phase ∈ node.phases, part ∈ phase.parts := by
  induction h with
  | present h ih => exact ih hpart
  | functionCall _ _ | procedureCall _ _ =>
      refine .inr ⟨.part part, ?_, List.mem_singleton.mpr rfl⟩
      exact List.mem_cons_of_mem _ (List.mem_map_of_mem hpart)
  | variableDecl _ _ _ hlength =>
      refine .inr ⟨.part part, part_mem_namePhases ?_ hpart, List.mem_singleton.mpr rfl⟩
      rcases hlength with rfl | hlength
      · exact absurd hpart List.not_mem_nil
      · exact hlength
  | constantDecl _ _ _ hlength =>
      exact .inr ⟨.part part, part_mem_namePhases hlength hpart, List.mem_singleton.mpr rfl⟩
  | give h =>
      obtain rfl := List.mem_singleton.mp hpart
      rcases part_mem_presentPhase part with rfl | hpresent
      · exact .inl rfl
      · exact .inr ⟨_, List.mem_cons_of_mem _ hpresent, List.mem_singleton.mpr rfl⟩
  | ifElse _ _ _ _ =>
      simp only [Node.proper, Node.children, List.mem_cons, List.mem_append, List.not_mem_nil,
        or_false] at hpart
      rcases hpart with rfl | rfl | hpart | rfl
      · exact .inr ⟨.part part, by simp [Node.phases], List.mem_singleton.mpr rfl⟩
      · exact .inr ⟨.scope "if_statement_" .ifBlock [part], by simp [Node.phases],
          List.mem_singleton.mpr rfl⟩
      · exact .inr ⟨.part part, by simp [Node.phases, hpart], List.mem_singleton.mpr rfl⟩
      · rcases part_mem_presentPhase part with rfl | hpresent
        · exact .inl rfl
        · exact .inr ⟨.part part, by simp [Node.phases, hpresent], List.mem_singleton.mpr rfl⟩
  | @forLoop target value termination step body _ _ _ _ _ =>
      simp only [Node.proper, Node.children, List.mem_cons, List.not_mem_nil, or_false] at hpart
      have hscope : Phase.scope "for_statement_" .forBlock [.assignment target value, body] ∈
          (Node.forLoop (.assignment target value) termination step body).phases := by
        simp [Node.phases]
      rcases hpart with rfl | rfl | rfl | rfl
      · exact .inr ⟨_, hscope, List.mem_cons_self⟩
      · exact .inr ⟨.part part, by simp [Node.phases], List.mem_singleton.mpr rfl⟩
      · rcases part_mem_presentPhase part with rfl | hpresent
        · exact .inl rfl
        · exact .inr ⟨.part part, by simp [Node.phases, hpresent], List.mem_singleton.mpr rfl⟩
      · exact .inr ⟨_, hscope, List.mem_cons_of_mem _ List.mem_cons_self⟩
  | assignment _ _ =>
      obtain rfl := List.mem_singleton.mp hpart
      exact .inr ⟨.part part, by simp [Node.phases], List.mem_singleton.mpr rfl⟩
  | functionDecl _ _ _ _ | procedureDecl _ _ _ =>
      exact .inr ⟨_, List.mem_cons_self, hpart⟩
  | parameter _ _ | name _ | type _ | identifier _ | number _ | string _ | boolean _ | absent
  | skip | stop | noAlternative => exact absurd hpart List.not_mem_nil
  | block _ => exact .inr ⟨.part part, List.mem_map_of_mem hpart, List.mem_singleton.mpr rfl⟩
  | _ => exact .inr (by simpa [Node.phases, Node.proper, Node.children, Phase.parts] using hpart)

/-- The other parts are labels. -/
theorem label_or_proper (h : Formed W c node) (hpart : part ∈ node.children) :
    part.IsLabel ∨ part ∈ node.proper := by
  have label : ∀ {c'}, Formed W c' part → c' = .name ∨ c' = .type ∨ c' = .parameter →
      part.IsLabel := by
    intro c' hformed hc
    cases hformed with
    | name _ | type _ | parameter _ _ => trivial
    | _ => exact absurd hc (by decide)
  induction h with
  | present h ih => exact ih hpart
  | functionCall hcallee _ | procedureCall hcallee _ =>
      rcases List.mem_cons.mp hpart with rfl | hpart
      · exact .inl (label hcallee (.inl rfl))
      · exact .inr hpart
  | variableDecl htype hnames _ _ | constantDecl htype hnames _ _ =>
      simp only [Node.children, List.mem_cons, List.mem_append] at hpart
      rcases hpart with rfl | hpart | hpart
      · exact .inl (label htype (.inr (.inl rfl)))
      · exact .inl (label (hnames part hpart) (.inl rfl))
      · exact .inr hpart
  | parameter hname htype =>
      simp only [Node.children, List.mem_cons, List.not_mem_nil, or_false] at hpart
      rcases hpart with rfl | rfl
      · exact .inl (label hname (.inl rfl))
      · exact .inl (label htype (.inr (.inl rfl)))
  | assignment htarget _ =>
      rcases List.mem_cons.mp hpart with rfl | hpart
      · exact .inl (label htarget (.inl rfl))
      · exact .inr hpart
  | functionDecl hname hparameters htype _ =>
      simp only [Node.children, List.mem_cons, List.mem_append, List.not_mem_nil, or_false] at hpart
      rcases hpart with rfl | hpart | rfl | rfl
      · exact .inl (label hname (.inl rfl))
      · exact .inl (label (hparameters part hpart) (.inr (.inr rfl)))
      · exact .inl (label htype (.inr (.inl rfl)))
      · exact .inr List.mem_cons_self
  | procedureDecl hname hparameters _ =>
      simp only [Node.children, List.mem_cons, List.mem_append, List.not_mem_nil, or_false] at hpart
      rcases hpart with rfl | hpart | rfl
      · exact .inl (label hname (.inl rfl))
      · exact .inl (label (hparameters part hpart) (.inr (.inr rfl)))
      · exact .inr List.mem_cons_self
  | _ => exact .inr hpart

/-- The parts of a well-formed part are labels, or they are analyzed. -/
theorem analyzed (h : Formed W c node) (hpart : part ∈ node.children) :
    part.IsLabel ∨ ∃ phase ∈ node.phases, part ∈ phase.parts := by
  rcases h.label_or_proper hpart with hlabel | hproper
  · exact .inl hlabel
  · rcases h.proper_analyzed hproper with rfl | hphase
    · exact .inl trivial
    · exact .inr hphase

/-- There are only labels in labels. -/
theorem parts_label (h : Formed W c node) (hlabel : node.IsLabel) (hpart : part ∈ node.parts) :
    part.IsLabel := by
  induction node using Node.children_induction generalizing c with
  | h node ih =>
      rcases Node.mem_parts.mp hpart with rfl | ⟨child, hchild, hinner⟩
      · exact hlabel
      cases node with
      | absent | identifier _ | typeName _ => exact absurd hchild List.not_mem_nil
      | parameter name type =>
          cases h with
          | present h => cases h
          | parameter hname htype =>
              have hmem := hchild
              simp only [Node.children, List.mem_cons, List.not_mem_nil, or_false] at hmem
              rcases hmem with rfl | rfl
              · refine ih child hchild hname ?_ hinner
                cases hname
                trivial
              · refine ih child hchild htype ?_ hinner
                cases htype
                trivial
      | _ => exact absurd hlabel fun h => h

end Formed

namespace Place.Passes

variable {fits : Symbol → Bool} {W : String → Prop} {c : Category} {p q : Place}

theorem runAll (h : p.Passes fits) :
    ∃ after, Analysis.runAll fits p.node.phases p.scopes = .ok () after := by
  obtain ⟨after, hafter⟩ := h
  rw [Analysis.node_eq] at hafter
  exact ⟨after, hafter⟩

/-- Where the analysis passes, it passes all that it comes to. -/
theorem all (h : p.Passes fits) (hq : q ∈ p.all fits) : q.Passes fits := by
  obtain ⟨r, s, node⟩ := p
  induction node using Node.children_induction generalizing r s with
  | h node ih =>
      rcases Place.mem_all.mp hq with rfl | ⟨next, hnext, hq⟩
      · exact h
      · obtain ⟨after, hafter⟩ := h.runAll
        have hpasses := (Analysis.placesAll_passes hafter).1 next hnext
        exact ih next.node (node_mem_children fits hnext) next.routine next.scopes hpasses hq

/-- The analysis goes to the parts of the phases of what passes. -/
theorem phase (h : p.Passes fits) {part : Node}
    (hpart : ∃ phase ∈ p.node.phases, part ∈ phase.parts) :
    ∃ next ∈ p.next fits, next.node = part ∧ next.Passes fits := by
  obtain ⟨phase, hphase, hmem⟩ := hpart
  obtain ⟨after, hafter⟩ := h.runAll
  obtain ⟨hpasses, hcovers⟩ := Analysis.placesAll_passes hafter
  obtain ⟨next, hnext, hnode⟩ := hcovers phase hphase part hmem
  exact ⟨next, hnext, hnode, hpasses next hnext⟩

/-- A part of what passes is a label, or the analysis goes there. -/
theorem child (h : p.Passes fits) (hformed : Formed W c p.node) {part : Node}
    (hpart : part ∈ p.node.children) :
    part.IsLabel ∨ ∃ next ∈ p.next fits, next.node = part ∧ next.Passes fits :=
  (hformed.analyzed hpart).imp_right h.phase

/-- The analysis comes to every part of what passes, labels apart. -/
theorem placed (h : p.Passes fits) (hformed : Formed W c p.node) {part : Node}
    (hpart : part ∈ p.node.parts) (hlabel : ¬ part.IsLabel) : ∃ q ∈ p.all fits, q.node = part := by
  obtain ⟨r, s, node⟩ := p
  induction node using Node.children_induction generalizing r s c with
  | h node ih =>
      rcases Node.mem_parts.mp hpart with rfl | ⟨child, hchild, hinner⟩
      · exact ⟨_, self_mem_all _, rfl⟩
      · obtain ⟨c', hchildFormed, -⟩ := hformed.children hchild
        rcases h.child hformed hchild with hchildLabel | ⟨next, hnext, rfl, hpasses⟩
        · exact absurd (hchildFormed.parts_label hchildLabel hinner) hlabel
        · obtain ⟨q, hq, hnode⟩ :=
            ih next.node hchild next.routine next.scopes hpasses hchildFormed hinner
          exact ⟨q, mem_all.mpr (.inr ⟨next, hnext, hq⟩), hnode⟩

/-- It comes to those that belong to the same routine as parts of this routine. -/
theorem ownPlaced (h : p.Passes fits) (hformed : Formed W c p.node) {part : Node}
    (hpart : part ∈ p.node.ownParts) (hlabel : ¬ part.IsLabel) :
    ∃ q ∈ p.all fits, q.node = part ∧ q.routine = p.routine := by
  obtain ⟨r, s, node⟩ := p
  induction node using Node.children_induction generalizing s c with
  | h node ih =>
      rcases Node.mem_ownParts.mp hpart with rfl | ⟨hroutine, child, hchild, hinner⟩
      · exact ⟨_, self_mem_all _, rfl, rfl⟩
      · obtain ⟨c', hchildFormed, -⟩ := hformed.children hchild
        rcases h.child hformed hchild with hchildLabel | ⟨next, hnext, rfl, hpasses⟩
        · exact absurd (hchildFormed.parts_label hchildLabel (Node.ownParts_subset _ hinner)) hlabel
        · have hr : next.routine = r := by
            rw [routine_eq hnext]
            show (if node.declaresRoutine then _ else r) = r
            rw [hroutine]
            rfl
          obtain ⟨q, hq, hnode, hqr⟩ := ih next.node hchild next.scopes
            (by rw [← hr]; exact hpasses) hchildFormed hinner
          refine ⟨q, mem_all.mpr (.inr ⟨next, hnext, ?_⟩), hnode, hqr⟩
          rw [← hr] at hq
          exact hq

end Place.Passes

end BraceScript
