import Mathlib
import BraceScript.Proofs.Acceptance
import BraceScript.Proofs.Locality

/-! # Containment — skips and stops stay in their calls

    A skip or a stop ends everything up to the innermost running loop.  If that loop runs in
    another routine, a call ends without taking its record from the stack, and the record stays
    there for good.  The analyzer asks for a while block somewhere around a skip or a stop, also
    around the routine in which it stands, so that it does not rule this out: `stop_leaves_call`.

    It does not happen where each skip and stop of a routine stands in a loop of that routine.

    * `Keeper.contained`: such a part runs on the stack it finds, and only parts of a loop end by a
      skip or a stop;
    * `Scoped.contained`: outside of all routines, the analyzer does rule it out;
    * `calls_contained`: so no call ends by a skip or a stop, calls leave the stack as they found
      it, and a program that completes leaves it empty. -/

namespace BraceScript

open Eval (perform)

/-! ## Contained parts -/

namespace Node

mutual

/-- Whether each skip and stop is in a loop of its routine, given whether the part is in one. -/
def contained (inLoop : Bool) : Node → Bool
  | .skip | .stop => inLoop
  | .absent | .bare _ | .typeName _ | .identifier _ | .number _ | .string _ | .boolean _ => true
  | .incomplete _ parts | .block parts => containedAll inLoop parts
  | .program part | .give part | .display part | .otherwise part | .unary _ part
  | .negation _ part | .truth part => part.contained inLoop
  | .assignment left right | .elif left right | .parameter left right | .binary left _ right
  | .logical left _ right | .comparison left _ right =>
      left.contained inLoop && right.contained inLoop
  | .variableDecl type names values | .constantDecl type names values =>
      type.contained inLoop && containedAll inLoop names && containedAll inLoop values
  | .functionCall callee arguments | .procedureCall callee arguments =>
      callee.contained inLoop && containedAll inLoop arguments
  | .ifElse condition body elifs alternative =>
      condition.contained inLoop && body.contained inLoop && containedAll inLoop elifs
        && alternative.contained inLoop
  | .whileLoop condition body => condition.contained true && body.contained true
  | .forLoop initial termination step body =>
      initial.contained inLoop && termination.contained inLoop && step.contained inLoop
        && body.contained true
  | .functionDecl _ _ _ body | .procedureDecl _ _ body => body.contained false

/-- Whether several parts are contained. -/
def containedAll (inLoop : Bool) : List Node → Bool
  | [] => true
  | node :: rest => node.contained inLoop && containedAll inLoop rest

end

variable {b : Bool}

theorem containedAll_iff {nodes : List Node} :
    containedAll b nodes = true ↔ ∀ node ∈ nodes, node.contained b = true := by
  induction nodes with
  | nil => simp [containedAll]
  | cons node rest ih => simp [containedAll, ih]

/-- The parts of a part are contained, those apart that run in contexts of their own. -/
theorem contained_of_mem {node part : Node} (h : node.contained b = true)
    (hcontext : ¬ node.IsContext) (hpart : part ∈ node.children) : part.contained b = true := by
  cases node with
  | whileLoop _ _ | forLoop _ _ _ _ | functionDecl _ _ _ _ | procedureDecl _ _ _ | program _ =>
      exact absurd trivial hcontext
  | absent | bare _ | typeName _ | identifier _ | number _ | string _ | boolean _ | skip | stop =>
      exact nomatch hpart
  | incomplete _ parts | block parts =>
      rw [contained, containedAll_iff] at h
      exact h part hpart
  | give inner | display inner | otherwise inner | unary _ inner | negation _ inner
  | truth inner =>
      obtain rfl := List.mem_singleton.mp hpart
      rwa [contained] at h
  | assignment left right | elif left right | parameter left right | binary left _ right
  | logical left _ right | comparison left _ right =>
      rw [contained, Bool.and_eq_true] at h
      simp only [children, List.mem_cons, List.not_mem_nil, or_false] at hpart
      rcases hpart with rfl | rfl
      · exact h.1
      · exact h.2
  | variableDecl type names values | constantDecl type names values =>
      simp only [contained, Bool.and_eq_true, containedAll_iff] at h
      simp only [children, List.mem_cons, List.mem_append] at hpart
      rcases hpart with rfl | hpart | hpart
      · exact h.1.1
      · exact h.1.2 part hpart
      · exact h.2 part hpart
  | functionCall callee arguments | procedureCall callee arguments =>
      simp only [contained, Bool.and_eq_true, containedAll_iff] at h
      rcases List.mem_cons.mp hpart with rfl | hpart
      · exact h.1
      · exact h.2 part hpart
  | ifElse condition body elifs alternative =>
      simp only [contained, Bool.and_eq_true, containedAll_iff] at h
      simp only [children, List.mem_cons, List.mem_append, List.not_mem_nil, or_false] at hpart
      rcases hpart with rfl | rfl | hpart | rfl
      · exact h.1.1.1
      · exact h.1.1.2
      · exact h.1.2 part hpart
      · exact h.2

end Node

/-- There are no skips and stops in expressions. -/
theorem Formed.contained_expression {W : String → Prop} {b : Bool} {node : Node}
    (h : Formed W .expression node) : node.contained b = true := by
  generalize hc : Category.expression = c at h
  induction h with
  | identifier _ | number _ | string _ | boolean _ => rfl
  | functionCall hcallee _ _ iharguments =>
      cases hcallee
      simp only [Node.contained, Bool.true_and, Node.containedAll_iff]
      exact fun a ha => iharguments a ha rfl
  | binary _ _ _ ihleft ihright | logical _ _ _ ihleft ihright | comparison _ _ _ ihleft ihright =>
      rw [Node.contained, ihleft rfl, ihright rfl, Bool.and_self]
  | unary _ _ ih | negation _ _ ih | truth _ ih => rw [Node.contained, ih rfl]
  | _ => exact nomatch hc

/-! ## Runs of contained parts -/

/-- Well-formed parts whose skips and stops are contained, given whether they are in a loop.
    A program is in none. -/
def Node.Runs (b : Bool) (node : Node) : Prop :=
  (∃ c, Formed IsWord c node ∧ (c = .program → b = false)) ∧ node.contained b = true

/-- The bodies of the routines that are declared so far are contained. -/
def Machine.Contained (m : Machine) : Prop :=
  (∀ name f, m.functions.get? name = some f → f.body.Runs false) ∧
    ∀ name p, m.procedures.get? name = some p → p.body.Runs false

/-- Contained parts run on the stack they find, and only parts of a loop end by a skip or a stop. -/
def Invariant.contained : Invariant (Bool × List Record.Header) where
  runs k node := node.Runs k.1
  bodies body := body.Runs false
  loop k := (true, k.2)
  holds k m := m.headers = k.2 ∧ m.Contained
  exits k e m := m.Contained ∧ (e = .skip ∨ e = .stop → k.1 = true ∧ m.headers = k.2)

namespace Node.Runs

variable {b : Bool}

/-- A part of a well-formed part, if it is contained. -/
theorem of_mem {c : Category} {node part : Node} (h : Formed IsWord c node)
    (hpart : part ∈ node.children) (hc : part.contained b = true) : part.Runs b := by
  obtain ⟨c', hformed, hne⟩ := h.children hpart
  exact ⟨⟨c', hformed, fun h => absurd h hne⟩, hc⟩

theorem part {node part : Node} (h : node.Runs b) (hcontext : ¬ node.IsContext)
    (hpart : part ∈ node.children) : part.Runs b := by
  obtain ⟨⟨c, hformed, -⟩, hc⟩ := h
  exact of_mem hformed hpart (contained_of_mem hc hcontext hpart)

/-- The parts of an if statement are those of its arms. -/
theorem arm {test body alternative arm part : Node} {elifs : List Node}
    (h : (Node.ifElse test body elifs alternative).Runs b) (harm : arm ∈ alternative :: elifs)
    (hpart : arm.Has part) : part.Runs b := by
  have hruns : arm.Runs b := h.part (fun h => h) (by
    rcases List.mem_cons.mp harm with rfl | harm
    · simp [children]
    · simp [children, harm])
  refine hruns.part ?_ hpart.mem_children
  obtain ⟨⟨c, hformed, -⟩, -⟩ := h
  cases hformed with
  | ifElse _ _ helifs halternative =>
      -- arms are no contexts of their own
      rcases List.mem_cons.mp harm with rfl | harm
      · cases halternative <;> exact fun h => h
      · cases helifs arm harm
        exact fun h => h
  | present h => cases h

theorem whileLoop {test body : Node} (h : (Node.whileLoop test body).Runs b) :
    test.Runs true ∧ body.Runs true := by
  obtain ⟨⟨c, hformed, -⟩, hc⟩ := h
  rw [contained, Bool.and_eq_true] at hc
  exact ⟨of_mem hformed (by simp [children]) hc.1, of_mem hformed (by simp [children]) hc.2⟩

theorem forLoop {initial termination step body : Node}
    (h : (Node.forLoop initial termination step body).Runs b) :
    (∀ part ∈ [initial, termination, step], part.Runs b) ∧
      (∀ part, initial.Has part → part.Runs b) ∧ body.Runs true := by
  obtain ⟨⟨c, hformed, -⟩, hc⟩ := h
  simp only [contained, Bool.and_eq_true] at hc
  obtain ⟨⟨⟨hinitial, htermination⟩, hstep⟩, hbody⟩ := hc
  have hruns : initial.Runs b := of_mem hformed (by simp [children]) hinitial
  refine ⟨?_, fun part hpart => ?_, of_mem hformed (by simp [children]) hbody⟩
  · simp only [List.forall_mem_cons]
    exact ⟨hruns, of_mem hformed (by simp [children]) htermination,
      of_mem hformed (by simp [children]) hstep, List.forall_mem_nil _⟩
  · refine hruns.part ?_ hpart.mem_children
    cases hformed with
    | forLoop _ _ _ _ _ => exact fun h => h
    | present h => cases h

theorem program {body : Node} (h : (Node.program body).Runs b) : body.Runs false := by
  obtain ⟨⟨c, hformed, hnone⟩, hc⟩ := h
  cases hformed with
  | program hbody =>
      obtain rfl := hnone rfl
      exact ⟨⟨_, hbody, nofun⟩, hc⟩
  | present h => exact nomatch h

theorem functionDecl {name type body : Node} {parameters : List Node}
    (h : (Node.functionDecl name parameters type body).Runs b) : body.Runs false :=
  h.1.elim fun _ hformed => of_mem hformed.1 (by simp [children]) h.2

theorem procedureDecl {name body : Node} {parameters : List Node}
    (h : (Node.procedureDecl name parameters body).Runs b) : body.Runs false :=
  h.1.elim fun _ hformed => of_mem hformed.1 (by simp [children]) h.2

end Node.Runs

namespace Machine.Contained

variable {m : Machine}

theorem initial : Machine.initial.Contained := ⟨nofun, nofun⟩

theorem function (h : m.Contained) {f : Function} (hf : f.body.Runs false) :
    Machine.Contained { m with functions := m.functions.insert f.name f } := by
  refine ⟨fun name g hg => ?_, h.2⟩
  rcases Table.get?_insert hg with ⟨-, rfl⟩ | hg
  · exact hf
  · exact h.1 name g hg

theorem procedure (h : m.Contained) {p : Routine} (hp : p.body.Runs false) :
    Machine.Contained { m with procedures := m.procedures.insert p.name p } := by
  refine ⟨h.1, fun name q hq => ?_⟩
  rcases Table.get?_insert hq with ⟨-, rfl⟩ | hq
  · exact hp
  · exact h.2 name q hq

end Machine.Contained

theorem Keeper.contained : Keeper Invariant.contained where
  children _ _ hruns hcontext _ hpart := hruns.part hcontext hpart
  whileLoop _ _ _ hruns := hruns.whileLoop
  forLoop _ _ _ _ _ hruns := hruns.forLoop
  branch _ _ _ _ _ hruns _ harm _ hpart := hruns.arm harm hpart
  program _ _ hruns := hruns.program
  functionBody _ _ name f hm hf := hm.2.1 name f hf
  procedureBody _ _ name p hm hp := hm.2.2 name p hp
  stack _ _ _ hm hsame := ⟨hsame.trans hm.1, hm.2⟩
  shown _ _ _ hm := hm
  function _ _ _ _ _ _ _ hm hruns _ _ hbody := ⟨hm.1, hm.2.function (hbody ▸ hruns.functionDecl)⟩
  procedure _ _ _ _ _ _ hm hruns _ _ hbody :=
    ⟨hm.1, hm.2.procedure (hbody ▸ hruns.procedureDecl)⟩
  bracket k m r body hbody hm := by
    refine ⟨(false, r.header :: m.headers), hbody, ⟨rfl, hm.2⟩, fun n hn => ⟨?_, ?_⟩, ?_⟩
    · exact fun _ => ⟨hn.2, fun he => he.elim nofun nofun⟩
    · intro r' rest hs
      have hheaders := hn.1
      rw [Machine.headers_cons hs] at hheaders
      exact ⟨(List.cons.inj hheaders).2.trans hm.1, hn.2⟩
    · -- the body is in no loop of its own routine, so it does not end by a skip or a stop
      exact fun e n hexit => ⟨hexit.1, fun he => nomatch (hexit.2 he).1⟩
  enter _ _ hm := hm
  leave _ _ hm := hm
  skipped _ _ hexit := ⟨(hexit.2 (.inl rfl)).2, hexit.1⟩
  stopped _ _ hexit := ⟨(hexit.2 (.inr rfl)).2, hexit.1⟩
  uncaught _ _ _ hexit hskip hstop := ⟨hexit.1, fun he => (he.elim hskip hstop).elim⟩
  skip _ _ hruns hm := ⟨hm.2, fun _ => ⟨hruns.2, hm.1⟩⟩
  stop _ _ hruns hm := ⟨hm.2, fun _ => ⟨hruns.2, hm.1⟩⟩
  fault _ _ _ hm _ := ⟨hm.2, fun he => he.elim nofun nofun⟩
  empty _ _ hm _ := ⟨hm.2, fun he => he.elim nofun nofun⟩
  exhausted _ _ hm := ⟨hm.2, fun he => he.elim nofun nofun⟩

/-- How a part ends that stands in no loop of its routine: it leaves the headers of the stack, or it
    ends by something else than a skip or a stop. -/
def Balanced (m : Machine) : Ending Value → Prop
  | .ok _ after => after.headers = m.headers
  | .error e _ => e ≠ .skip ∧ e ≠ .stop

theorem perform_balanced (d : Nat) {node : Node} {m : Machine} (hnode : node.Runs false)
    (hm : m.Contained) : Balanced m (perform d (.eval node) m) := by
  have hend := Contract.fulfilled Keeper.contained.kept d (false, m.headers) (.eval node) m
    ⟨hnode, rfl, hm⟩
  cases hrun : perform d (.eval node) m with
  | ok v after => rw [hrun] at hend; exact hend.1
  | error e after =>
      rw [hrun] at hend
      exact ⟨fun he => (nomatch (hend.2 (.inl he)).1), fun he => (nomatch (hend.2 (.inr he)).1)⟩

/-! ## What the analyzer rules out -/

/-- No scope is that of a while block. -/
def Scopes.Loopless (s : Scopes) : Prop := ∀ scope ∈ s.toList, scope.kind ≠ .whileBlock

namespace Scopes.Loopless

variable {s : Scopes}

theorem initial : Scopes.initial.Loopless := by
  intro scope hscope
  obtain rfl := List.mem_singleton.mp hscope
  nofun

theorem define (h : s.Loopless) (symbol : Symbol) : (s.define symbol).Loopless := by
  intro scope hscope
  rcases List.mem_cons.mp hscope with rfl | hscope
  · exact h s.current List.mem_cons_self
  · exact h scope (List.mem_cons_of_mem _ hscope)

theorem enter (h : s.Loopless) {label : String} {kind : ScopeKind} (hkind : kind ≠ .whileBlock) :
    (s.enter label kind []).Loopless := by
  intro scope hscope
  rcases List.mem_cons.mp hscope with rfl | hscope
  · show (Scope.make label kind (s.current.level + 1)).kind ≠ _
    unfold Scope.make
    split <;> exact hkind
  · exact h scope hscope

theorem behind {fits : Symbol → Bool} {c : Category} {node : Node} {s' : Scopes} (h : s.Loopless)
    (hnode : Scoped fits c s node s') : s'.Loopless := by
  obtain ⟨houter, hkind⟩ := hnode.outer_eq
  intro scope hscope
  rcases List.mem_cons.mp hscope with rfl | hscope
  · rw [hkind]
    exact h s.current List.mem_cons_self
  · rw [houter] at hscope
    exact h scope (List.mem_cons_of_mem _ hscope)

theorem not_any (h : s.Loopless) :
    (s.toList.any fun scope => scope.kind = .whileBlock) ≠ true := by
  intro hany
  obtain ⟨scope, hscope, hkind⟩ := List.any_eq_true.mp hany
  exact h scope hscope (of_decide_eq_true hkind)

end Scopes.Loopless

/-- Where no scope is that of a while block, there are no skips and stops but in loops. -/
theorem Scoped.contained {fits : Symbol → Bool} {c : Category} {s s' : Scopes} {node : Node}
    (h : Scoped fits c s node s') (hc : node.contained true = true) (hs : s.Loopless) :
    node.contained false = true := by
  induction h with
  | identifier _ _ _ | number _ | string _ | boolean _ | absent | noAlternative | noVariables
  | noConstants | blockEnd => rfl
  | functionCall _ _ _ ih | procedureCall _ _ _ ih =>
      simp only [Node.contained, Node.containedAll_iff, Bool.true_and] at hc ⊢
      exact fun a ha => ih a ha (hc a ha) hs
  | binary _ _ _ ihleft ihright | logical _ _ _ ihleft ihright
  | comparison _ _ _ ihleft ihright =>
      simp only [Node.contained, Bool.and_eq_true] at hc ⊢
      exact ⟨ihleft hc.1 hs, ihright hc.2 hs⟩
  | unary _ _ ih | negation _ _ ih | truth _ ih | give _ ih | display _ ih | present _ ih =>
      exact ih hc hs
  | defaultVariable _ _ ih => exact ih hc (hs.define _)
  | setVariable _ _ _ ihvalue ihrest | setConstant _ _ _ ihvalue ihrest =>
      simp only [Node.contained, Node.containedAll, Bool.and_eq_true, Bool.true_and] at hc ihrest ⊢
      have hrest := ihrest ⟨hc.1, hc.2.2⟩ (hs.define _)
      exact ⟨hrest.1, ihvalue hc.2.1 (hs.define _), hrest.2⟩
  | assignment _ ih =>
      simp only [Node.contained, Bool.true_and] at hc ⊢
      exact ih hc hs
  | functionDecl _ _ _ _ | procedureDecl _ _ _ _ => exact hc
  | ifElse _ _ _ _ ihcondition ihbody ihelifs ihalternative =>
      simp only [Node.contained, Node.containedAll_iff, Bool.and_eq_true] at hc ⊢
      obtain ⟨⟨⟨hcondition, hbody⟩, helifs⟩, halternative⟩ := hc
      exact ⟨⟨⟨ihcondition hcondition hs, ihbody hbody (hs.enter nofun)⟩,
        fun e he => ihelifs e he (helifs e he) hs⟩, ihalternative halternative hs⟩
  | elif _ _ ihcondition ihbody =>
      simp only [Node.contained, Bool.and_eq_true] at hc ⊢
      exact ⟨ihcondition hc.1 hs, ihbody hc.2 (hs.enter nofun)⟩
  | otherwise _ ih => exact ih hc (hs.enter nofun)
  | whileLoop _ _ _ _ => exact hc
  | forLoop _ _ _ _ ihtermination ihstep ihvalue _ =>
      simp only [Node.contained, Bool.and_eq_true, Bool.true_and] at hc ⊢
      obtain ⟨⟨⟨hvalue, htermination⟩, hstep⟩, hbody⟩ := hc
      exact ⟨⟨⟨ihvalue hvalue (hs.enter nofun), ihtermination htermination hs⟩,
        ihstep hstep hs⟩, hbody⟩
  | skip h | stop h => exact absurd h hs.not_any
  | blockStep hfirst _ ihfirst ihrest =>
      simp only [Node.contained, Node.containedAll, Bool.and_eq_true] at hc ihrest ⊢
      exact ⟨ihfirst hc.1 hs, ihrest hc.2 (hs.behind hfirst)⟩

/-! ## Programs -/

/-- An accepted program is contained if its routines are. -/
theorem runs_of_accepted {source : String} {tree : Node} (hparse : parse source = .ok tree)
    (haccepted : (analyze tree).1 = none) (hroutines : tree.contained true = true) :
    tree.Runs false := by
  obtain ⟨body, behind, rfl, hformed, hscoped⟩ := scoped_of_accepted hparse haccepted
  exact ⟨⟨_, .program hformed, fun _ => rfl⟩, hscoped.contained hroutines .initial⟩

/-- A call of a function or of a procedure. -/
def Node.IsCall : Node → Prop
  | .functionCall _ _ | .procedureCall _ _ => True
  | _ => False

/-- There are no skips and stops in a call, which leaves the records that it finds. -/
theorem Node.Runs.call {b : Bool} {node : Node} (h : node.Runs b) (hcall : node.IsCall) :
    node.Runs false ∧ node.LeavesRecords := by
  obtain ⟨⟨c, hformed, hc⟩, -⟩ := h
  have hanyName : ∀ {c part}, Formed IsWord c part → Formed (fun _ => True) c part :=
    fun hpart => hpart.mono fun _ _ => trivial
  cases hformed with
  | functionCall hcallee harguments =>
      have hnode := Formed.functionCall hcallee harguments
      exact ⟨⟨⟨_, hnode, nofun⟩, hnode.contained_expression⟩, .inl (hanyName hnode)⟩
  | present hnode =>
      exact ⟨⟨⟨_, hnode, nofun⟩, hnode.contained_expression⟩, .inl (hanyName hnode)⟩
  | procedureCall hcallee harguments =>
      refine ⟨⟨⟨_, .procedureCall hcallee harguments, nofun⟩, ?_⟩,
        .inr ⟨_, _, rfl, fun a ha => hanyName (harguments a ha)⟩⟩
      cases hcallee
      simp only [contained, Bool.true_and, containedAll_iff]
      exact fun a ha => (harguments a ha).contained_expression
  | _ => exact absurd hcall fun h => h

/-- A completed call leaves the stack as it was. -/
theorem perform_call {d : Nat} {node : Node} {m : Machine} (hnode : node.Runs false)
    (hleaves : node.LeavesRecords) (hm : m.Contained) {v : Value} {after : Machine}
    (hrun : perform d (.eval node) m = .ok v after) : after.stack = m.stack := by
  have hbalanced := perform_balanced d hnode hm
  have hsuffix := perform_leaves d hleaves m
  rw [hrun] at hbalanced
  rw [hrun, Ending.machine_ok] at hsuffix
  -- the records are still there, and the headers say that there are no more of them
  refine (hsuffix.eq_of_length ?_).symm
  have hlength := congrArg List.length hbalanced
  simpa only [Machine.headers, List.length_map] using hlength.symm

/-- In an accepted program, let each skip and stop of a routine be in a loop of that routine.  Then
    whatever part of it completes leaves the records that are on the stack; no call ends by a skip
    or a stop, and a completed call leaves the stack as it was; the program does not end by a skip
    or a stop, and its stack is empty if it completes. -/
theorem calls_contained {source : String} {tree : Node} (hparse : parse source = .ok tree)
    (haccepted : (analyze tree).1 = none) (hroutines : tree.contained true = true) (depth : Nat) :
    (∀ v ∈ visits depth (.eval tree) Machine.initial,
      (∀ w after, perform v.depth v.task v.machine = .ok w after →
        after.headers = v.machine.headers) ∧
      ∀ node, v.task = .eval node → node.IsCall →
        (∀ w after, perform v.depth v.task v.machine = .ok w after →
          after.stack = v.machine.stack) ∧
        ∀ e after, perform v.depth v.task v.machine = .error e after → e ≠ .skip ∧ e ≠ .stop) ∧
    (interpret depth tree).exit ≠ some .skip ∧ (interpret depth tree).exit ≠ some .stop ∧
      ((interpret depth tree).exit = none → (interpret depth tree).machine.stack = []) := by
  have htree := runs_of_accepted hparse haccepted hroutines
  have hprogram := perform_balanced depth htree .initial
  refine ⟨fun v hv => ?_, ?_⟩
  · obtain ⟨k, hadmits, hheaders, htables⟩ := Contract.visited Keeper.contained.kept depth
      (false, []) (.eval tree) Machine.initial ⟨htree, rfl, .initial⟩ v hv
    refine ⟨fun w after hrun => ?_, fun node htask hcall => ?_⟩
    · have hend := Contract.fulfilled Keeper.contained.kept v.depth k v.task v.machine
        ⟨hadmits, hheaders, htables⟩
      rw [hrun] at hend
      exact hend.1.trans hheaders.symm
    · rw [htask] at hadmits ⊢
      obtain ⟨hnode, hleaves⟩ := Node.Runs.call hadmits hcall
      refine ⟨fun w after => perform_call hnode hleaves htables, fun e after hrun => ?_⟩
      have hbalanced := perform_balanced v.depth hnode htables
      rw [hrun] at hbalanced
      exact hbalanced
  · unfold interpret Eval.eval
    cases hrun : perform depth (.eval tree) Machine.initial with
    | ok v after =>
        rw [hrun] at hprogram
        exact ⟨nofun, nofun, fun _ => Machine.headers_eq_nil.mp hprogram⟩
    | error e after =>
        rw [hrun] at hprogram
        exact ⟨fun he => hprogram.1 (Option.some.inj he), fun he => hprogram.2 (Option.some.inj he),
          nofun⟩

/-- A function that leaves its own loop by a stop, called in a loop that is left by a stop, too. -/
theorem calls_contained_nested_loops :
    ∃ source tree, parse source = .ok tree ∧ (analyze tree).1 = none ∧
      tree.contained true = true ∧
      (interpret 16 tree).exit = none ∧ (interpret 16 tree).machine.stack = [] := by
  let tree : Node := .program (.block
    [.functionDecl (.identifier "f") [] (.typeName "boolean")
      (.block [.whileLoop (.boolean "true") (.block [.stop]), .give (.boolean "true")]),
      .whileLoop (.boolean "true")
        (.block [.display (.functionCall (.identifier "f") []), .stop])])
  have hparse : parse ("\x7b\nfunc f() -> boolean \x7b\nwhile true \x7b\nstop\n\x7d\n"
      ++ "give true\n\x7d\nwhile true \x7b\nshow f()\nstop\n\x7d\n\x7d") = .ok tree := by cbv
  have haccepted : (analyze tree).1 = none := by cbv
  have hexit : (interpret 16 tree).exit = none := by cbv
  exact ⟨_, tree, hparse, haccepted, rfl, hexit,
    (calls_contained hparse haccepted rfl 16).2.2.2 hexit⟩

/-- The analyzer does not ask for the loop to be in the same routine: a stop leaves a call, and when
    the program has completed there still is a record on the stack. -/
theorem stop_leaves_call :
    ∃ source tree, parse source = .ok tree ∧ (analyze tree).1 = none ∧
      (∃ v ∈ visits 10 (.eval tree) Machine.initial, ∃ node, v.task = .eval node ∧ node.IsCall ∧
        Ending.outcome (perform v.depth v.task v.machine) = .error .stop) ∧
      (interpret 10 tree).exit = none ∧ (interpret 10 tree).machine.stack ≠ [] := by
  refine ⟨"\x7b\nwhile true \x7b\nfunc f() -> number \x7b\nstop\n\x7d\nshow f()\n\x7d\n\x7d",
    .program (.block [.whileLoop (.boolean "true") (.block
      [.functionDecl (.identifier "f") [] (.typeName "number") (.block [.stop]),
        .display (.functionCall (.identifier "f") [])])]), by cbv, by cbv, ?_, by cbv, ?_⟩
  · -- the call is the ninth part that the run comes to
    exact ⟨_, List.getElem_mem (n := 8) (by decide), .functionCall (.identifier "f") [], rfl,
      trivial, rfl⟩
  · cbv
    exact List.cons_ne_nil _ _

end BraceScript
