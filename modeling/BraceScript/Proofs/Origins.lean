import Mathlib
import BraceScript.Proofs.Constancy
import BraceScript.Proofs.Stretches

/-! # Origins — where the value of a variable comes from

    The analyzer looks a name up in the scopes around it.  A run has a record for each call, which
    begins as a copy of the record of the caller.  So what a routine finds under a name need not be
    what stands around its declaration: in `read_finds_parameter` a procedure reads a variable of
    the program, and finds a parameter of the procedure that has called it.

    * `LastSet`: the stretch of a run that has last given a variable a value of its own, in its
      record or, through the copies that calls have made, in a record below;
    * `Linked.lastSet`: every value in a record has such an origin;
    * `visits_placed`: what runs is what the analyzer has come to;
    * `reads_resolved`: what is read under a name that is declared once was last set by the
      declaration that the analyzer finds for the read, or by an assignment or a loop for whose
      target it finds the same. -/

namespace BraceScript

open Eval (perform)

/-! ## Variables of records -/

namespace CallStack

theorem at?_cons_of_le {height : Nat} {r : Record} {rest : CallStack} (h : height ≤ rest.length) :
    at? height (r :: rest) = at? height rest := by
  rw [at?, if_neg (by omega)]

theorem at?_length (s : CallStack) : s.at? s.length = s.head? := by
  cases s with
  | nil => rfl
  | cons r rest => rw [at?, List.length_cons, if_pos rfl, List.head?_cons]

end CallStack

namespace Machine

/-- The value of a variable in the record at a height. -/
def cell (m : Machine) (x : String) (height : Nat) : Option Value :=
  (m.stack.at? height).bind (·.get? x)

variable {m n : Machine} {x : String} {height : Nat}

theorem le_of_cell {v : Value} (h : m.cell x height = some v) : height ≤ m.stack.length := by
  by_contra hlt
  rw [cell, CallStack.at?_of_lt (by omega)] at h
  cases h

theorem cell_top (m : Machine) (x : String) :
    m.cell x m.stack.length = m.stack.head?.bind (·.get? x) := by
  rw [cell, CallStack.at?_length]

/-- The records below the top one are seen without it. -/
theorem cell_cons {r : Record} (h : n.stack = r :: m.stack) (hheight : height ≤ m.stack.length) :
    n.cell x height = m.cell x height := by
  rw [cell, cell, h, CallStack.at?_cons_of_le hheight]

theorem cell_eq (h : n.cells x = m.cells x) (height : Nat) : n.cell x height = m.cell x height := by
  have hstacks : ∀ s t : CallStack, s.map (·.get? x) = t.map (·.get? x) →
      (s.at? height).bind (·.get? x) = (t.at? height).bind (·.get? x) := by
    intro s
    induction s with
    | nil =>
        intro t ht
        rw [List.map_eq_nil_iff.mp ht.symm]
    | cons r rest ih =>
        intro t ht
        cases t with
        | nil => cases ht
        | cons r' rest' =>
            rw [List.map_cons, List.map_cons] at ht
            obtain ⟨hr, hrest⟩ := List.cons.inj ht
            have hlength : rest.length = rest'.length := by
              simpa using congrArg List.length hrest
            rw [CallStack.at?, CallStack.at?, hlength]
            split
            · exact hr
            · exact ih rest' hrest
  exact hstacks n.stack m.stack h

end Machine

/-- The parameters of a routine that a number of arguments are for. -/
def Routine.given (p : Routine) (count : Nat) : List String :=
  ((p.parameters.getD []).map Parameter.name).take count

theorem Record.get?_setAll_of_not_mem {x : String} {names : List String} {values : List Value}
    {r : Record} (h : x ∉ names.take values.length) :
    (r.setAll names values).get? x = r.get? x := by
  induction names generalizing values r with
  | nil => rfl
  | cons name names ih =>
      cases values with
      | nil => rfl
      | cons v values =>
          rw [List.length_cons, List.take_succ_cons, List.mem_cons, not_or] at h
          rw [Record.setAll, ih h.2]
          exact Table.get?_insert_of_ne r.members v (Ne.symm h.1)

/-- The record of a callee has the variables of the caller, but for its parameters. -/
theorem Record.get?_callee {x : String} {kind : RecordKind} {p : Routine} {values : List Value}
    {caller : Record} (h : x ∉ p.given values.length) :
    (Eval.calleeRecord kind p values caller).get? x = caller.get? x :=
  get?_setAll_of_not_mem h

/-! ## The last write -/

namespace Stretch

/-- A stretch in which a call pushes the record of a routine, with values for its parameters. -/
inductive Enters (s : Stretch) (p : Routine) (values : List Value) : Prop where
  | call {node callee : Node} {arguments : List Node} {kind : RecordKind} {name : String}
      {caller : Record} (htask : s.task = .eval node)
      (hcall : node.call? = some (kind, callee, arguments)) (hname : callee.namePart = .ok name)
      (hroutine : s.start.routine? kind name = some p)
      (hcaller : s.before.stack.head? = some caller)
      (h : s.after.stack = Eval.calleeRecord kind p values caller :: s.before.stack)

/-- A stretch of a task that sets a variable, or of a call that has an argument for it. -/
def Sets (s : Stretch) (x : String) : Prop :=
  s.task.Writes x ∨ ∃ p values, s.Enters p values ∧ x ∈ p.given values.length

end Stretch

/-- How a variable of the record at a height has come by its value, in stretches of a run of which
    the last one comes first: the stretch `w` has set it, in the record at the height `origin`. -/
inductive LastSet (x : String) : List Stretch → Nat → Stretch → Nat → Prop where
  | written {s : Stretch} {past : List Stretch} {height : Nat} (hwrites : s.task.Writes x)
      (hstays : height ≤ s.before.stack.length)
      (hchanged : s.after.cell x height ≠ s.before.cell x height) :
      LastSet x (s :: past) height s height
  | bound {s : Stretch} {past : List Stretch} {p : Routine} {values : List Value}
      (hcall : s.Enters p values) (hgiven : x ∈ p.given values.length) :
      LastSet x (s :: past) s.after.stack.length s s.after.stack.length
  | copied {s w : Stretch} {past : List Stretch} {p : Routine} {values : List Value} {origin : Nat}
      (hcall : s.Enters p values) (hfree : x ∉ p.given values.length)
      (h : LastSet x past s.before.stack.length w origin) :
      LastSet x (s :: past) s.after.stack.length w origin
  | kept {s w : Stretch} {past : List Stretch} {height origin : Nat}
      (hstays : height ≤ s.before.stack.length)
      (hsame : s.after.cell x height = s.before.cell x height)
      (h : LastSet x past height w origin) : LastSet x (s :: past) height w origin

theorem LastSet.sets {x : String} {past : List Stretch} {height origin : Nat} {w : Stretch}
    (h : LastSet x past height w origin) : w ∈ past ∧ w.Sets x := by
  induction h with
  | written hwrites _ _ => exact ⟨List.mem_cons_self, .inl hwrites⟩
  | bound hcall hgiven => exact ⟨List.mem_cons_self, .inr ⟨_, _, hcall, hgiven⟩⟩
  | copied _ _ _ ih | kept _ _ _ ih => exact ⟨List.mem_cons_of_mem _ ih.1, ih.2⟩

/-- What a stretch leaves in a record: what the task has written there, what was there, or what a
    call has put into a new record. -/
theorem Stretch.cell_cases {s : Stretch} (heffect : s.task.Effect s.start s.before s.after)
    {x : String} {height : Nat} {v : Value} (hv : s.after.cell x height = some v) :
    (s.task.Writes x ∧ height ≤ s.before.stack.length ∧
      s.after.cell x height ≠ s.before.cell x height) ∨
    (height ≤ s.before.stack.length ∧ s.after.cell x height = s.before.cell x height) ∨
    ∃ p values, s.Enters p values ∧ height = s.after.stack.length ∧
      (x ∉ p.given values.length → s.before.cell x s.before.stack.length = some v) := by
  obtain ⟨task, start, m, n⟩ := s
  have hheight := Machine.le_of_cell hv
  cases heffect with
  | leaves h =>
      have hlength : n.stack.length = m.stack.length := by
        simpa [Machine.headers] using congrArg List.length h.headers
      have hstays : height ≤ m.stack.length := by
        rw [← hlength]
        exact hheight
      by_cases hsame : n.cell x height = m.cell x height
      · exact .inr (.inl ⟨hstays, hsame⟩)
      · refine .inl ⟨?_, hstays, hsame⟩
        by_contra hwrites
        exact hsame (Machine.cell_eq (h.cells x hwrites) height)
  | program h =>
      by_cases hstays : height ≤ m.stack.length
      · exact .inr (.inl ⟨hstays, Machine.cell_cons h hstays⟩)
      · -- the record of the program has no variables yet
        have hlength : n.stack.length = m.stack.length + 1 := congrArg List.length h
        obtain rfl : height = n.stack.length := by
          have : height ≤ n.stack.length := hheight
          omega
        have htop := Machine.cell_top n x
        rw [hv, h] at htop
        cases htop
  | push hcall hname hroutine hcaller h =>
      by_cases hstays : height ≤ m.stack.length
      · exact .inr (.inl ⟨hstays, Machine.cell_cons h hstays⟩)
      · have hlength : n.stack.length = m.stack.length + 1 := congrArg List.length h
        obtain rfl : height = n.stack.length := by
          have : height ≤ n.stack.length := hheight
          omega
        refine .inr (.inr ⟨_, _, .call rfl hcall hname hroutine hcaller h, rfl, fun hfree => ?_⟩)
        have htop := Machine.cell_top n x
        rw [hv, h, List.head?_cons, Option.bind_some, Record.get?_callee hfree] at htop
        have hbelow := Machine.cell_top m x
        rw [hcaller, Option.bind_some, ← htop] at hbelow
        exact hbelow
  | pop h =>
      have hstays : height ≤ m.stack.length := by
        have : height ≤ n.stack.length := hheight
        rw [h, List.length_cons]
        omega
      exact .inr (.inl ⟨hstays, (Machine.cell_cons h hheight).symm⟩)

/-- Every value in a record was once set, where a run has begun without records. -/
theorem Linked.lastSet {past : List Stretch} {first m : Machine} (hfirst : first.stack = [])
    (hlinked : Linked first past.reverse m)
    (heffects : ∀ s ∈ past, s.task.Effect s.start s.before s.after) {x : String} {height : Nat}
    {v : Value} (hv : m.cell x height = some v) :
    ∃ w origin, LastSet x past height w origin ∧ w.after.cell x origin = some v := by
  induction past generalizing m height with
  | nil =>
      cases hlinked
      rw [Machine.cell, hfirst] at hv
      cases hv
  | cons s past ih =>
      rw [List.reverse_cons] at hlinked
      obtain ⟨hpast, rfl⟩ := hlinked.last
      have hearlier : ∀ t ∈ past, t.task.Effect t.start t.before t.after :=
        fun t ht => heffects t (List.mem_cons_of_mem _ ht)
      rcases Stretch.cell_cases (heffects s List.mem_cons_self) hv with
        ⟨hwrites, hstays, hchanged⟩ | ⟨hstays, hsame⟩ | ⟨p, values, hcall, rfl, hcopied⟩
      · exact ⟨s, height, .written hwrites hstays hchanged, hv⟩
      · obtain ⟨w, origin, hset, hvalue⟩ := ih hpast hearlier (hsame ▸ hv)
        exact ⟨w, origin, .kept hstays hsame hset, hvalue⟩
      · by_cases hgiven : x ∈ p.given values.length
        · exact ⟨s, _, .bound hcall hgiven, hv⟩
        · obtain ⟨w, origin, hset, hvalue⟩ := ih hpast hearlier (hcopied hgiven)
          exact ⟨w, origin, .copied hcall hgiven hset, hvalue⟩

/-! ## What runs is placed -/

/-- The analyzer comes to a part of a program. -/
def Node.IsPlaced (tree node : Node) : Prop := ∃ q ∈ tree.places, q.node = node

/-- What a task is about is a part that the analyzer comes to; a loop over a variable is the one of
    a loop with this target. -/
def Task.PlacedIn (tree : Node) : Task → Prop
  | .eval node => node = .absent ∨ tree.IsPlaced node
  | .whileLoop test body => tree.IsPlaced (.whileLoop test body)
  | .forLoop _ name _ _ body => ∃ target value termination step,
      tree.IsPlaced (.forLoop (.assignment target value) termination step body) ∧
        target.namePart = .ok name

theorem Node.Has.mem_proper {node part : Node} (h : node.Has part) : part ∈ node.proper := by
  rcases h with h | h | h <;> cases node <;> cases h <;> simp [Node.proper, Node.children]

section

variable {tree node part : Node}

theorem Node.IsPlaced.mem_parts (htree : Formed IsWord .program tree) (h : tree.IsPlaced node) :
    node ∈ tree.parts := by
  obtain ⟨q, hq, rfl⟩ := h
  exact (places_known htree q hq).1

theorem Node.IsPlaced.proper (htree : Formed IsWord .program tree)
    (haccepted : (analyze tree).1 = none) (h : tree.IsPlaced node) (hpart : part ∈ node.proper) :
    part = .absent ∨ tree.IsPlaced part := by
  obtain ⟨c, hformed⟩ := htree.of_mem_parts (h.mem_parts htree)
  obtain ⟨q, hq, rfl⟩ := h
  rcases hformed.proper_analyzed hpart with habsent | hphase
  · exact .inl habsent
  · have hpasses := (Node.passes_of_accepted haccepted).all hq
    obtain ⟨next, hnext, hnode, -⟩ := hpasses.phase hphase
    refine .inr ⟨next, Place.all_trans hq ?_, hnode⟩
    exact Place.mem_all.mpr (.inr ⟨next, hnext, next.self_mem_all⟩)

/-- What a part has is analyzed with it. -/
theorem Node.IsPlaced.has (htree : Formed IsWord .program tree)
    (haccepted : (analyze tree).1 = none) (h : node = .absent ∨ tree.IsPlaced node)
    (hpart : node.Has part) : part = .absent ∨ tree.IsPlaced part := by
  rcases h with rfl | h
  · exact absurd hpart.mem_children List.not_mem_nil
  · exact h.proper htree haccepted hpart.mem_proper

/-- What a placed task asks for is placed, also if it is the body of a routine. -/
theorem Task.PlacedIn.asks {task asked : Task} {m : Machine} (htree : Formed IsWord .program tree)
    (haccepted : (analyze tree).1 = none) (h : task.PlacedIn tree) (hm : m.DeclaredIn tree)
    (hasks : task.Asks m asked) : asked.PlacedIn tree := by
  -- a part that has parts is not left out
  have placed : ∀ {node part}, (Task.eval node).PlacedIn tree → part ∈ node.children →
      tree.IsPlaced node := by
    intro node part hnode hpart
    rcases hnode with rfl | hnode
    · exact absurd hpart List.not_mem_nil
    · exact hnode
  cases hasks with
  | child _ _ hpart => exact (placed h (Node.proper_subset _ hpart)).proper htree haccepted hpart
  | @argument node callee argument arguments _ kind hcall hmem =>
      have hproper : argument ∈ node.proper := by
        cases node with
        | functionCall _ _ | procedureCall _ _ => cases hcall; exact hmem
        | _ => cases hcall
      exact (placed h (Node.proper_subset _ hproper)).proper htree haccepted hproper
  | @arm test body alternative arm part elifs _ harm hpart =>
      have hproper : arm ∈ (Node.ifElse test body elifs alternative).proper := by
        simp only [Node.proper, Node.children, List.mem_cons, List.mem_append] at harm ⊢
        tauto
      have harmPlaced := (placed h (Node.proper_subset _ hproper)).proper htree haccepted hproper
      exact Node.IsPlaced.has htree haccepted harmPlaced hpart
  | initial hpart =>
      have hinitial := (placed h List.mem_cons_self).proper htree haccepted List.mem_cons_self
      exact Node.IsPlaced.has htree haccepted hinitial hpart
  | body _ _ hp =>
      obtain ⟨decl, hdecl, entered, hentered, hroutine, -⟩ := hm _ _ _ hp
      have hpasses := Node.passes_of_accepted haccepted
      rcases (Node.routineSymbol?_inv hentered hroutine).2 with ⟨_, _, _, rfl⟩ | ⟨_, _, rfl⟩
      · have hplaced : tree.IsPlaced _ := hpasses.placed htree hdecl fun h => h
        exact hplaced.proper htree haccepted List.mem_cons_self
      · have hplaced : tree.IsPlaced _ := hpasses.placed htree hdecl fun h => h
        exact hplaced.proper htree haccepted List.mem_cons_self
  | whileLoop => exact placed h List.mem_cons_self
  | forLoop htarget hname =>
      have hloop := placed h List.mem_cons_self
      obtain ⟨c, hformed⟩ := htree.of_mem_parts (hloop.mem_parts htree)
      cases hformed with
      | present hformed => cases hformed
      | forLoop _ _ _ _ _ =>
          cases htarget
          exact ⟨_, _, _, _, hloop, hname⟩
  | test => exact h.proper htree haccepted List.mem_cons_self
  | round => exact h.proper htree haccepted (List.mem_cons_of_mem _ List.mem_cons_self)
  | forRound =>
      obtain ⟨_, _, _, _, hloop, -⟩ := h
      exact hloop.proper htree haccepted (by simp [Node.proper, Node.children])

/-- The analyzer has come to all that an accepted program runs. -/
theorem visits_placed {source : String} (hparse : parse source = .ok tree)
    (haccepted : (analyze tree).1 = none) {depth : Nat} {v : Visit}
    (hv : v ∈ visits depth (.eval tree) Machine.initial) : v.task.PlacedIn tree := by
  have htree := parse_formed hparse
  refine Visit.forall_run ⟨depth, .eval tree, Machine.initial⟩
    (P := fun task => task.PlacedIn tree) (.inr ⟨_, Place.self_mem_all _, rfl⟩) ?_ v hv
  intro u hu htask a ha
  exact htask.asks htree haccepted (visits_declared hparse haccepted hu).2.1 (Visit.task_asks ha)

end

/-! ## Names that are declared once -/

/-- The names that a part declares: variables, constants, or a routine and its parameters. -/
def Node.introduces : Node → List String
  | .functionDecl name parameters _ _ | .procedureDecl name parameters _ =>
      [name].filterMap (·.namePart.toOption) ++
        ((Parameter.ofNodes parameters).toOption.getD []).map Parameter.name
  | node => node.variables

/-- The names that a program declares, each as often as it is declared. -/
def Node.introduced (tree : Node) : List String := tree.parts.flatMap Node.introduces

theorem Node.mem_introduces_of_parameter {decl : Node} {ps : List Parameter} {q : Parameter}
    (hps : Parameter.ofNodes decl.parameters = .ok ps) (hq : q ∈ ps) :
    q.name ∈ decl.introduces := by
  cases decl with
  | functionDecl name parameters _ _ | procedureDecl name parameters _ =>
      refine List.mem_append_right _ (List.mem_map.mpr ⟨q, ?_, rfl⟩)
      rw [show Parameter.ofNodes parameters = .ok ps from hps]
      exact hq
  | _ =>
      cases hps
      exact absurd hq List.not_mem_nil

/-- A part declares the names of what it defines. -/
theorem Node.Defines.mem_introduces {decl : Node} {symbol : Symbol} (h : decl.Defines symbol) :
    symbol.name ∈ decl.introduces := by
  cases h with
  | «variable» hmem hname _ | constant hmem hname _ =>
      exact Node.mem_filterMap_namePart hmem hname
  | parameter hps hq => exact Node.mem_introduces_of_parameter hps hq
  | routine h =>
      cases h with
      | function hname _ h =>
          obtain ⟨type, rfl⟩ := Analysis.functionSymbol_inv h
          exact List.mem_append_left _ (Node.mem_filterMap_namePart List.mem_cons_self hname)
      | procedure hname _ h =>
          cases h
          exact List.mem_append_left _ (Node.mem_filterMap_namePart List.mem_cons_self hname)

/-- The parameters of a routine are those of its declaration. -/
theorem Node.parameters_of_routineSymbol? {decl : Node} {entered : Symbol} {kind : RecordKind}
    {p : Routine} (h : decl.routineSymbol? = some entered) (hp : entered.routine? kind = some p) :
    Parameter.ofNodes decl.parameters = .ok (p.parameters.getD []) := by
  unfold Node.routineSymbol? at h
  split at h
  · split at h
    · next hps =>
        cases h
        cases kind <;> cases hp
        exact hps
    · cases h
  · split at h
    · next hps =>
        cases h
        cases kind <;> cases hp
        exact hps
    · cases h
  · cases h

/-- The analyzer comes to a part, and wherever it does, it finds what a declaration defines for a
    name. -/
def Node.Resolves (tree node : Node) (x : String) (decl : Node) : Prop :=
  tree.IsPlaced node ∧ ∀ q ∈ tree.places, q.node = node →
    ∃ symbol, q.scopes.lookup x = some symbol ∧ decl.Defines symbol

/-- A stretch gives a variable a value by a declaration: it is one of the declaration itself or of
    a call of the routine that has the variable as a parameter, or one of an assignment or a loop
    for whose target the analyzer finds the declaration. -/
inductive Stretch.Follows (tree decl : Node) (x : String) (s : Stretch) : Prop where
  | declaration (htask : s.task = .eval decl) (hx : x ∈ decl.variables)
  | parameter {entered : Symbol} {kind : RecordKind} {p : Routine} {values : List Value}
      (hentered : decl.routineSymbol? = some entered) (hroutine : entered.routine? kind = some p)
      (hcall : s.Enters p values) (hx : x ∈ p.given values.length)
  | assignment {target value : Node} (htask : s.task = .eval (.assignment target value))
      (hname : target.namePart = .ok x) (h : tree.Resolves (.assignment target value) x decl)
  | loop {target value termination step body : Node} {height : Nat} {last stride : Value}
      (hloop : .forLoop (.assignment target value) termination step body ∈ tree.parts)
      (htask : s.task = .forLoop height x last stride body) (hname : target.namePart = .ok x)
      (h : tree.Resolves (.assignment target value) x decl)

section

variable {source : String} {tree decl : Node} {x : String}

/-- What the analyzer finds for a name that is declared once is what its declaration defines. -/
theorem Node.IsPlaced.resolves {node : Node} (htree : Formed IsWord .program tree)
    (honce : tree.introduced.count x ≤ 1) (hdecl : decl ∈ tree.parts) (hx : x ∈ decl.introduces)
    (hplaced : tree.IsPlaced node)
    (hknown : ∀ q ∈ tree.places, q.node = node →
      ∃ symbol, q.scopes.lookup x = some symbol ∧ q.scopes.Knows x symbol) :
    tree.Resolves node x decl := by
  refine ⟨hplaced, fun q hq hnode => ?_⟩
  obtain ⟨symbol, hfound, hknows⟩ := hknown q hq hnode
  obtain ⟨rfl, decl', hdecl', hdefines⟩ := (places_known htree q hq).2 _ symbol hknows
  obtain rfl := eq_of_count_flatMap honce hdecl hdecl' hx hdefines.mem_introduces
  exact ⟨symbol, hfound, hdefines⟩

/-- Where the analysis passes an assignment, its target is known as a variable. -/
theorem assignment_known (haccepted : (analyze tree).1 = none) {target value : Node}
    (hname : target.namePart = .ok x) {q : Place} (hq : q ∈ tree.places)
    (hnode : q.node = .assignment target value) :
    ∃ symbol, q.scopes.lookup x = some symbol ∧ q.scopes.Knows x symbol := by
  obtain ⟨after, hafter⟩ := ((Node.passes_of_accepted haccepted).all hq).runAll
  rw [hnode] at hafter
  obtain ⟨_, mid, htest, -⟩ := Analysis.bind_ok hafter
  obtain ⟨-, name, key, type, hspelled, hfound⟩ := Analysis.checkTarget_inv htest
  cases hname.symm.trans hspelled
  exact ⟨_, hfound, Scopes.knows_of_lookup hfound trivial⟩

theorem Warden.declareWords {fits : Symbol → Bool} :
    Warden fits (fun _ _ => True) (fun _ s => s.DeclareWords) fun _ => True where
  children _ _ _ _ _ := trivial
  block _ _ label kind _ hs := hs.enter label kind []
  name _ _ _ what _ _ _ _ _ _ _ _ _ hs := hs.define (by cases what <;> exact trivial)
  routine _ _ _ _ kind _ _ _ _ spelled ps sym _ hphase hname hps hsym _ hs := by
    obtain ⟨hdefines, -⟩ := Analysis.defines_of_routine hphase hname hps hsym
    have hdeclared : sym.IsDeclared := by
      rcases hdefines.routine with ⟨f, rfl⟩ | ⟨p, rfl⟩
      · exact trivial
      · exact trivial
    exact ⟨hs.define hdeclared, (hs.define hdeclared).enter spelled kind ps⟩
  test _ _ _ _ _ _ _ _ _ _ := trivial
  plain _ _ := trivial

/-- Where the analysis passes a read, the name is known. -/
theorem identifier_known (htree : Formed IsWord .program tree)
    (haccepted : (analyze tree).1 = none) {q : Place} (hq : q ∈ tree.places)
    (hnode : q.node = .identifier x) :
    ∃ symbol, q.scopes.lookup x = some symbol ∧ q.scopes.Knows x symbol := by
  have hword : IsWord x := by
    have hmem := (places_known htree q hq).1
    rw [hnode] at hmem
    obtain ⟨c, hformed⟩ := htree.of_mem_parts hmem
    cases hformed with
    | name h | identifier h => exact h
    | present hformed => cases hformed with | identifier h => exact h
  have hwords : q.scopes.DeclareWords :=
    ((Warden.declareWords.kept tree none Scopes.initial trivial .initial).1 q hq).2
  obtain ⟨after, hafter⟩ := ((Node.passes_of_accepted haccepted).all hq).runAll
  rw [hnode] at hafter
  obtain ⟨_, mid, htest, -⟩ := Analysis.bind_ok hafter
  obtain ⟨⟨symbol, hfound, -⟩, -⟩ := Analysis.checkName_ok htest
  exact ⟨symbol, hfound, hwords.knows hfound hword⟩

/-- Whatever sets a variable whose name is declared once does so by this declaration. -/
theorem Stretch.Sets.follows (hparse : parse source = .ok tree)
    (haccepted : (analyze tree).1 = none) (honce : tree.introduced.count x ≤ 1)
    (hdecl : decl ∈ tree.parts) (hx : x ∈ decl.introduces) {depth : Nat} {s : Stretch}
    (hs : s ∈ stretches depth (.eval tree) Machine.initial) (hsets : s.Sets x) :
    s.Follows tree decl x := by
  have htree := parse_formed hparse
  obtain ⟨-, v, hv, htask, hstart⟩ := stretches_visited hs
  have hplaced := visits_placed hparse haccepted hv
  obtain ⟨-, htables, -⟩ := visits_declared hparse haccepted hv
  rw [htask] at hplaced
  rw [hstart] at htables
  rcases hsets with hwrites | ⟨p, values, hcall, hgiven⟩
  · cases hsame : s.task with
    | eval node =>
        rw [hsame] at hwrites hplaced
        obtain ⟨target, htarget, hname⟩ := hwrites
        cases node with
        | variableDecl _ names _ | constantDecl _ names _ =>
            have hnode := hplaced.resolve_left fun h => by cases h
            have hvariable := Node.mem_filterMap_namePart htarget hname
            obtain rfl :=
              eq_of_count_flatMap honce hdecl (hnode.mem_parts htree) hx hvariable
            exact .declaration hsame hvariable
        | assignment _ value =>
            obtain rfl := List.mem_singleton.mp htarget
            have hnode := hplaced.resolve_left fun h => by cases h
            refine .assignment hsame hname (hnode.resolves htree honce hdecl hx ?_)
            exact fun q hq => assignment_known haccepted hname hq
        | _ => exact absurd htarget List.not_mem_nil
    | whileLoop test body =>
        rw [hsame] at hwrites
        exact hwrites.elim
    | forLoop height name last step body =>
        rw [hsame] at hwrites hplaced
        obtain rfl : name = x := hwrites
        obtain ⟨target, value, termination, stepPart, hloop, hname⟩ := hplaced
        have hinitial :=
          (hloop.proper htree haccepted List.mem_cons_self).resolve_left fun h => by cases h
        refine .loop (hloop.mem_parts htree) hsame hname (hinitial.resolves htree honce hdecl hx ?_)
        exact fun q hq => assignment_known haccepted hname hq
  · cases hcall with
    | call hnode hcallee hname hroutine hcaller hstack =>
        obtain ⟨decl', hdecl', entered, hentered, hp, -⟩ := htables _ _ p hroutine
        obtain ⟨q, hq, rfl⟩ := List.mem_map.mp (List.mem_of_mem_take hgiven)
        have hparameter :=
          Node.mem_introduces_of_parameter (Node.parameters_of_routineSymbol? hentered hp) hq
        obtain rfl := eq_of_count_flatMap honce hdecl hdecl' hx hparameter
        exact .parameter hentered hp (.call hnode hcallee hname hroutine hcaller hstack) hgiven

/-- In an accepted program, let a name be read that is declared once, as a variable, a constant, a
    routine or a parameter, and let the top record have a value for it.  The analyzer has come to
    the read and finds one declaration for it, wherever it comes to it.  What has last given the
    variable a value of its own, in this record or in a record that it was copied from, is this
    declaration, or an assignment or a loop for whose target the analyzer finds it, too; and so is
    everything that has set the variable before, in any record. -/
theorem reads_resolved (hparse : parse source = .ok tree) (haccepted : (analyze tree).1 = none)
    (honce : tree.introduced.count x ≤ 1) {depth i : Nat} {s : Stretch}
    (hs : (stretches depth (.eval tree) Machine.initial)[i]? = some s)
    (hread : s.task = .eval (.identifier x)) {r : Record} (hr : s.before.stack.head? = some r)
    {v : Value} (hv : r.get? x = some v) :
    ∃ decl ∈ tree.parts, tree.Resolves (.identifier x) x decl ∧
      (∃ w origin,
        LastSet x ((stretches depth (.eval tree) Machine.initial).take i).reverse
          s.before.stack.length w origin ∧
        w.after.cell x origin = some v ∧ w.Follows tree decl x) ∧
      ∀ w ∈ (stretches depth (.eval tree) Machine.initial).take i, w.Sets x →
        w.Follows tree decl x := by
  have htree := parse_formed hparse
  -- the analyzer has come to the read and has found a declaration
  obtain ⟨q, hq, hnode⟩ : tree.IsPlaced (.identifier x) := by
    obtain ⟨-, u, hu, htask, -⟩ := stretches_visited (List.mem_of_getElem? hs)
    have hplaced := visits_placed hparse haccepted hu
    rw [htask, hread] at hplaced
    exact hplaced.resolve_left fun h => by cases h
  obtain ⟨symbol, -, hknows⟩ := identifier_known htree haccepted hq hnode
  obtain ⟨hname, decl, hdecl, hdefines⟩ := (places_known htree q hq).2 x symbol hknows
  have hx : x ∈ decl.introduces := hname ▸ hdefines.mem_introduces
  have hresolves : tree.Resolves (.identifier x) x decl :=
    Node.IsPlaced.resolves htree honce hdecl hx ⟨q, hq, hnode⟩
      fun q hq => identifier_known htree haccepted hq
  have hfollows : ∀ w ∈ (stretches depth (.eval tree) Machine.initial).take i, w.Sets x →
      w.Follows tree decl x := fun w hw =>
    Stretch.Sets.follows hparse haccepted honce hdecl hx (List.mem_of_mem_take hw)
  -- the value comes from a write before the read
  have hlinked := (stretches_linked depth (.eval tree) Machine.initial).take hs
  rw [← List.reverse_reverse (List.take i _)] at hlinked
  have hcell : s.before.cell x s.before.stack.length = some v := by
    rw [Machine.cell_top, hr]
    exact hv
  obtain ⟨w, origin, hset, hvalue⟩ := hlinked.lastSet rfl
    (fun t ht => (stretches_visited (List.mem_of_mem_take (List.mem_reverse.mp ht))).1) hcell
  obtain ⟨hmem, hsets⟩ := hset.sets
  exact ⟨decl, hdecl, hresolves, ⟨w, origin, hset, hvalue,
    hfollows w (List.mem_reverse.mp hmem) hsets⟩, hfollows⟩

end

/-- A procedure reads a variable of the program, which the procedure that calls it has assigned in
    its own record. -/
theorem reads_resolved_through_calls :
    ∃ source tree, parse source = .ok tree ∧ (analyze tree).1 = none ∧
      tree.introduced.count "x" ≤ 1 ∧
      ∃ s r, (stretches 14 (.eval tree) Machine.initial)[19]? = some s ∧
        s.task = .eval (.identifier "x") ∧ s.before.stack.head? = some r ∧ r.name = "p" ∧
        r.get? "x" = some (.bool false) ∧
        ∃ decl ∈ tree.parts, tree.Resolves (.identifier "x") "x" decl ∧
          (∃ w origin,
            LastSet "x" ((stretches 14 (.eval tree) Machine.initial).take 19).reverse
              s.before.stack.length w origin ∧
            w.after.cell "x" origin = some (.bool false) ∧ w.Follows tree decl "x") ∧
          ∀ w ∈ (stretches 14 (.eval tree) Machine.initial).take 19, w.Sets "x" →
            w.Follows tree decl "x" := by
  let tree : Node := .program (.block
    [.variableDecl (.typeName "boolean") [.identifier "x"] [.boolean "true"],
    .procedureDecl (.identifier "p") [] (.block [.display (.identifier "x")]),
    .procedureDecl (.identifier "q") [] (.block
      [.assignment (.identifier "x") (.boolean "false"), .procedureCall (.identifier "p") []]),
    .procedureCall (.identifier "q") []])
  have hparse : parse ("\x7b\nlet boolean x = true\nproc p() \x7b\nshow x\n\x7d\n"
      ++ "proc q() \x7b\nx = false\nexec p()\n\x7d\nexec q()\n\x7d") = .ok tree := by cbv
  have haccepted : (analyze tree).1 = none := by cbv
  have hnames : tree.introduced = ["x", "p", "q"] := by cbv
  have honce : tree.introduced.count "x" ≤ 1 := by rw [hnames]; decide
  -- the twentieth stretch of the run is the read, on the third record
  have hlength : 19 < (stretches 14 (.eval tree) Machine.initial).length := by decide
  have hs := List.getElem?_eq_getElem hlength
  have htask : (stretches 14 (.eval tree) Machine.initial)[19].task = .eval (.identifier "x") := by
    cbv
  let r : Record := ⟨"p", .procedure, 3, [("x", .bool false)]⟩
  have hr : (stretches 14 (.eval tree) Machine.initial)[19].before.stack.head? = some r := by cbv
  exact ⟨_, tree, hparse, haccepted, honce, _, r, hs, htask, hr, rfl, rfl,
    reads_resolved hparse haccepted honce hs htask hr rfl⟩

/-- A procedure reads a variable of the program and is called from a procedure with a parameter of
    this name: the analyzer finds the variable for the read, a truth value, and the run finds the
    text that the parameter has. -/
theorem read_finds_parameter :
    ∃ source tree, parse source = .ok tree ∧ (analyze tree).1 = none ∧
      (∃ q ∈ tree.places, q.node = .identifier "x" ∧
        q.scopes.lookup "x" = some (.variable "x" "boolean")) ∧
      (∃ s ∈ stretches 14 (.eval tree) Machine.initial, s.task = .eval (.identifier "x") ∧
        ∃ r, s.before.stack.head? = some r ∧ r.name = "p" ∧ r.get? "x" = some (.text "a")) ∧
      (interpret 14 tree).exit = none ∧ (interpret 14 tree).machine.output = "a\n" := by
  let tree : Node := .program (.block
    [.variableDecl (.typeName "boolean") [.identifier "x"] [.boolean "true"],
    .procedureDecl (.identifier "p") [] (.block [.display (.identifier "x")]),
    .procedureDecl (.identifier "q") [.parameter (.identifier "x") (.typeName "string")]
      (.block [.procedureCall (.identifier "p") []]),
    .procedureCall (.identifier "q") [.string "'a'"]])
  have hparse : parse ("\x7b\nlet boolean x = true\nproc p() \x7b\nshow x\n\x7d\n"
      ++ "proc q(string x) \x7b\nexec p()\n\x7d\nexec q('a')\n\x7d") = .ok tree := by cbv
  have haccepted : (analyze tree).1 = none := by cbv
  have hplaces : 7 < tree.places.length := by cbv
  have hlength : 17 < (stretches 14 (.eval tree) Machine.initial).length := by decide
  let r : Record := ⟨"p", .procedure, 3, [("x", .text "a")]⟩
  refine ⟨_, tree, hparse, haccepted, ⟨_, List.getElem_mem hplaces, ?_, ?_⟩,
    ⟨_, List.getElem_mem hlength, ?_, r, ?_, rfl, rfl⟩, ?_, ?_⟩ <;> cbv

end BraceScript
