import BraceScript.Proofs.Routines

/-! # Following — runs beside the scopes of their parts

    The analyzer checks a part in scopes, and leaves scopes behind it.  A run has no scopes; it has
    records and two tables, and it comes to the parts in another order.  Here every part of a run
    is followed by the scopes in which it was checked: a property of a machine beside scopes is
    given, and a follower says why single steps keep it.  A block runs beside the scopes that its
    declarations have made so far; the body of a routine runs beside scopes that the follower
    names at the call.

    * `Follower.kept`: then the property holds whenever a run comes to a part, beside scopes in
      which this part is well scoped. -/

namespace BraceScript

open Eval (perform)

variable {α β κ : Type} {fits : Symbol → Bool}

/-- The symbol that the declaration of a routine enters when it runs. -/
def Node.routineSymbol? : Node → Option Symbol
  | .functionDecl (.identifier name) parameters (.typeName type) body =>
      match Parameter.ofNodes parameters with
      | .ok ps => some (.function ⟨⟨name, some ps, body⟩, type⟩)
      | .error _ => none
  | .procedureDecl (.identifier name) parameters body =>
      match Parameter.ofNodes parameters with
      | .ok ps => some (.procedure ⟨name, some ps, body⟩)
      | .error _ => none
  | _ => none

/-- The names that a declaration sets, with their initial values. -/
def Node.initialisers : Node → List (Node × Node)
  | .variableDecl _ names values | .constantDecl _ names values => names.zip values
  | _ => []

/-- A routine with a list of parameters, also if there are none. -/
def Routine.listed (r : Routine) : Routine := { r with parameters := some (r.parameters.getD []) }

/-- A property of machines beside scopes, in contexts of type `κ`. -/
structure Following (κ : Type) where
  /-- The parts that may run. -/
  part : Node → Prop
  /-- The heights that the record of a part may have. -/
  height : κ → Nat → Prop
  /-- What holds before a part runs beside its scopes, and behind it beside those it leaves. -/
  holds : κ → Scopes → Machine → Prop
  /-- What holds behind a part that does not complete, beside the scopes before it. -/
  exits : κ → Scopes → Exit → Machine → Prop

/-- The machine behind the record that is popped. -/
def Machine.popped (m : Machine) (r : Record) (rest : CallStack) : Machine :=
  { m with stack := rest, history := .popped r :: m.history }

/-- Why runs keep a property beside their scopes. -/
structure Follower (fits : Symbol → Bool) (F : Following κ) : Prop where
  children : ∀ node part, F.part node → part ∈ node.children → F.part part
  /-- Fewer symbols are known. -/
  holds_le : ∀ k s t m, t.Le s → F.holds k s m → F.holds k t m
  exits_le : ∀ k s t e m, t.Le s → F.exits k s e m → F.exits k t e m
  shown : ∀ k s m line, F.holds k s m →
    F.holds k s { m with history := .shown line :: m.history }
  height : ∀ k s m r rest, F.holds k s m → m.stack = r :: rest → F.height k (rest.length + 1)
  set : ∀ k s m h name v, F.holds k s m → F.height k h → v ≠ .nothing →
    F.holds k s { m with stack := m.stack.setAt h name v }
  declare : ∀ k s m h (what : Declared) name type v, F.holds k s m → F.height k h → v ≠ .nothing →
    F.holds k (s.define (what.symbol name type)) { m with stack := m.stack.setAt h name v }
  /-- An initial value is checked where its name is known already, but runs before it is set. -/
  initialiser : ∀ k s m decl (what : Declared) name type value, F.part decl →
    (.identifier name, value) ∈ decl.initialisers → F.holds k s m →
    Scoped fits .expression (s.define (what.symbol name type)) value
      (s.define (what.symbol name type)) →
    F.holds k (s.define (what.symbol name type)) m ∨ Scoped fits .expression s value s
  routine : ∀ k s m decl kind symbol entered r label scopeKind behind, F.part decl →
    decl.routineSymbol? = some entered → symbol.routine? kind = some r →
    entered.routine? kind = some r.listed → symbol.name = entered.name → Grown fits s →
    s.declares symbol.name = false →
    Scoped fits .block ((s.define symbol).enter label scopeKind (r.parameters.getD [])) r.body
      behind →
    F.holds k s m → F.holds k (s.define symbol) (m.declare entered)
  /-- A name that is read has a value, or the fault is allowed. -/
  name : ∀ k s m name symbol r rest, F.holds k s m → Grown fits s → IsWord name →
    s.lookup name = some symbol → fits symbol = true → m.stack = r :: rest →
    (∃ v, r.get? name = some v ∧ v ≠ .nothing) ∨ F.exits k s (.fault (.undefined name)) m
  /-- A name that is called stands for a routine, or the fault is allowed. -/
  found : ∀ k s m n kind name symbol r, F.holds k s m → F.holds k s n →
    s.Knows name symbol → symbol.routine? kind = some r → m.routine? kind name = none →
    F.exits k s (.fault (.noPart "NoneType" "identifier")) n
  /-- The body of a routine runs beside scopes of its own, and the caller goes on. -/
  call : ∀ k s m n kind name symbol r p values caller rest, F.holds k s m → Grown fits s →
    s.Knows name symbol → symbol.routine? kind = some r → m.routine? kind name = some p →
    m.Grows n → F.holds k s n → n.stack = caller :: rest →
    (∀ v ∈ values, v ≠ .nothing) → values.length = (r.parameters.getD []).length →
    ∃ k' t behind, F.part p.body ∧ Grown fits t ∧ Scoped fits .block t p.body behind ∧
      F.holds k' t (n.called kind p values caller) ∧
      (∀ d v after r' rest',
        perform d (.eval p.body) (n.called kind p values caller) = .ok v after →
        F.holds k' t after → after.stack = r' :: rest' → F.holds k s (after.popped r' rest')) ∧
      ∀ d e after, perform d (.eval p.body) (n.called kind p values caller) = .error e after →
        F.exits k' t e after → F.exits k s e after
  skipped : ∀ k s m, F.exits k s .skip m → F.holds k s m
  stopped : ∀ k s m, F.exits k s .stop m → F.holds k s m
  exit : ∀ k s m e, F.holds k s m → (∀ f, e = .fault f → f.IsOrdinary) → F.exits k s e m
  empty : ∀ k s m, F.holds k s m → m.stack = [] → F.exits k s (.fault .noRecord) m

namespace Following

variable (F : Following κ)

/-- A part that is well scoped, as something that runs. -/
def Checked (fits : Symbol → Bool) (s : Scopes) (node : Node) (s' : Scopes) : Prop :=
  Scoped fits .expression s node s' ∨ Scoped fits .statement s node s' ∨
    Scoped fits .block s node s'

/-- The body of a loop, which opens a scope for itself. -/
def Opened (fits : Symbol → Bool) (s : Scopes) (body : Node) : Prop :=
  F.part body ∧ ∃ label kind behind, Scoped fits .block (s.enter label kind []) body behind

/-- The tasks that may run beside scopes, and leave scopes behind. -/
def admits (fits : Symbol → Bool) (k : κ) (s s' : Scopes) : Task → Prop
  | .eval node => F.part node ∧ Checked fits s node s'
  | .whileLoop test body => s' = s ∧ (F.part test ∧ Scoped fits .expression s test s) ∧
      F.Opened fits s body
  | .forLoop height _ _ _ body => s' = s ∧ F.height k height ∧ F.Opened fits s body

/-- What holds behind a part.  One that gives may have left out declarations. -/
def settles (k : κ) (s s' : Scopes) : Ending Value → Prop
  | .ok v m => F.holds k s m ∧ ((∀ w, v ≠ .given w) → F.holds k s' m)
  | .error e m => F.exits k s e m

/-- The contract of a property beside scopes: those before the part, and those it leaves. -/
def contract (fits : Symbol → Bool) : Contract (κ × Scopes × Scopes) where
  pre c task m := Grown fits c.2.1 ∧ F.holds c.1 c.2.1 m ∧ F.admits fits c.1 c.2.1 c.2.2 task
  post c _ _ e := F.settles c.1 c.2.1 c.2.2 e

/-- An action keeps the property beside scopes. -/
abbrev Keeps (fits : Symbol → Bool) (k : κ) (s : Scopes) (x : Action α) : Prop :=
  BraceScript.Keeps (F.contract fits) (F.holds k s) (F.exits k s) x

end Following

namespace Follower

variable {F : Following κ} (h : Follower fits F) {k : κ} {s s' : Scopes}

include h

theorem sturdy (k : κ) (s : Scopes) : Sturdy (F.holds k s) (F.exits k s) where
  fault m f hm hf := h.exit k s m (.fault f) hm fun g hg => by cases hg; exact hf
  empty m hm hempty := h.empty k s m hm hempty

/-! ### Asking for parts -/

omit h in
theorem keeps_ask {task : Task} (hgrown : Grown fits s) (htask : F.admits fits k s s' task) :
    F.Keeps fits k s (Action.ask task) := by
  intro m hm
  refine Action.Meets.ask (k, s, s') ⟨hgrown, hm, htask⟩ ?_ ?_
  · exact fun d v after _ hpost => hpost.1
  · exact fun d e after _ hpost => hpost

omit h in
theorem keeps_eval {node : Node} (hgrown : Grown fits s) (hpart : F.part node)
    (hnode : Following.Checked fits s node s') : F.Keeps fits k s (Action.eval node) := by
  have hadmits : F.admits fits k s s' (.eval node) := ⟨hpart, hnode⟩
  exact keeps_ask hgrown hadmits

/-- A part in a scope of its own. -/
theorem keeps_entered {node : Node} {label : String} {kind : ScopeKind} (hgrown : Grown fits s)
    (hpart : F.part node) (hnode : Following.Checked fits (s.enter label kind []) node s') :
    F.Keeps fits k s (Action.eval node) := by
  intro m hm
  have hentered := h.holds_le k s _ m (s.enter_le label kind) hm
  refine (keeps_eval (hgrown.enter label kind []) hpart hnode m hentered).mono ?_ ?_
  · exact fun v after hafter => h.holds_le k _ s after (s.le_enter label kind []) hafter
  · exact fun e after hexit => h.exits_le k _ s e after (s.le_enter label kind []) hexit

theorem keeps_opened {body : Node} (hgrown : Grown fits s) (hbody : F.Opened fits s body) :
    F.Keeps fits k s (Action.eval body) := by
  obtain ⟨hpart, label, kind, behind, hscoped⟩ := hbody
  exact h.keeps_entered hgrown hpart (.inr (.inr hscoped))

/-- Statements one after the other, each beside the scopes that those before it leave. -/
theorem meets_block {statements : List Node} {m : Machine} (hgrown : Grown fits s)
    (hparts : ∀ statement ∈ statements, F.part statement)
    (hblock : Scoped fits .block s (.block statements) s') (hm : F.holds k s m) :
    Action.Meets (F.contract fits) (Action.block statements) m
      (fun v after => F.holds k s after ∧ ((∀ w, v ≠ .given w) → F.holds k s' after))
      (F.exits k s) := by
  induction statements generalizing s m with
  | nil =>
      cases hblock with
      | blockEnd => exact ⟨hm, fun _ => hm⟩
  | cons first rest ih =>
      cases hblock with
      | @blockStep _ between _ _ _ hfirst hrest =>
          rw [Action.block]
          refine Action.Meets.bind (Action.Meets.ask (k, s, between)
            ⟨hgrown, hm, hparts first List.mem_cons_self, .inr (.inl hfirst)⟩ ?_ ?_)
          · rintro d v after - ⟨hbefore, hbehind⟩
            split
            -- a statement that gives ends the block, and its declarations need not have run
            · exact ⟨hbefore, fun hgiven => absurd rfl (hgiven _)⟩
            · next hgiven =>
                have hafter := hbehind hgiven
                refine (ih (hgrown.behind hfirst) (fun n hn => hparts n (List.mem_cons_of_mem _ hn))
                  hrest hafter).mono ?_ ?_
                · exact fun w n hn => ⟨h.holds_le k _ s n hfirst.le hn.1, hn.2⟩
                · exact fun e n hexit => h.exits_le k _ s e n hfirst.le hexit
          · exact fun d e after _ hpost => hpost

/-! ### Declarations of names -/

omit h in
theorem symbol_name (what : Declared) (name type : String) :
    (what.symbol name type).name = name := by
  cases what <;> rfl

omit h in
theorem le_declared (what : Declared) {name type : String} (hnew : s.declares name = false) :
    s.Le (s.define (what.symbol name type)) :=
  Scopes.le_define (by rw [symbol_name]; exact hnew)

/-- The height of the record on which a part runs. -/
theorem meets_topHeight {f : Nat → Action β} {m : Machine} {Q : β → Machine → Prop}
    (hf : ∀ height, F.height k height →
      Action.Meets (F.contract fits) (f height) m Q (F.exits k s)) (hm : F.holds k s m) :
    Action.Meets (F.contract fits) (liftM Eval.topHeight >>= f) m Q (F.exits k s) := by
  refine Action.Meets.bind ?_
  show (Work.ended (Eval.topHeight m)).Meets _ _ _
  cases hs : m.stack with
  | nil => rw [Eval.topHeight_nil hs]; exact h.empty k s m hm hs
  | cons r rest =>
      rw [Eval.topHeight_cons hs]
      exact hf _ (h.height k s m r rest hm hs)

/-- The initial value of a name runs before the name is set. -/
theorem meets_value {decl value : Node} {what : Declared} {name type : String} {m : Machine}
    (hgrown : Grown fits s) (hdecl : F.part decl) (hpart : F.part value)
    (hmem : (.identifier name, value) ∈ decl.initialisers) (hnew : s.declares name = false)
    (hvalue : Scoped fits .expression (s.define (what.symbol name type)) value
      (s.define (what.symbol name type))) (hm : F.holds k s m) :
    Action.Meets (F.contract fits) (Action.eval value) m
      (fun v after => F.holds k s after ∧ v ≠ .nothing) (F.exits k s) := by
  -- either the property does not mind that the name is not set yet, or the value does not need it
  rcases h.initialiser k s m decl what name type value hdecl hmem hm hvalue with hdefined | hplain
  · refine Action.Meets.ask (k, _, _)
      ⟨hgrown.name what type hnew, hdefined, hpart, .inl hvalue⟩ ?_ ?_
    · intro d v after hrun hpost
      exact ⟨h.holds_le k _ s after (le_declared what hnew) hpost.1,
        perform_something hvalue.isExpression hrun⟩
    · intro d e after _ hpost
      exact h.exits_le k _ s e after (le_declared what hnew) hpost
  · refine Action.Meets.ask (k, s, s) ⟨hgrown, hm, hpart, .inl hplain⟩ ?_ ?_
    · intro d v after hrun hpost
      exact ⟨hpost.1, perform_something hvalue.isExpression hrun⟩
    · intro d e after _ hpost
      exact hpost

/-- A name is set to its initial value, and what follows runs beside scopes that know it. -/
theorem meets_setNext (what : Declared) {decl value : Node} {name type : String} {m : Machine}
    {height : Nat} {next : Action Unit} {Q : Unit → Machine → Prop} (hgrown : Grown fits s)
    (hheight : F.height k height) (hdecl : F.part decl) (hpart : F.part value)
    (hmem : (.identifier name, value) ∈ decl.initialisers) (hnew : s.declares name = false)
    (hvalue : Scoped fits .expression (s.define (what.symbol name type)) value
      (s.define (what.symbol name type)))
    (hnext : ∀ after, F.holds k (s.define (what.symbol name type)) after →
      Action.Meets (F.contract fits) next after Q (F.exits k (s.define (what.symbol name type))))
    (hm : F.holds k s m) :
    Action.Meets (F.contract fits) (do
      let v ← Action.eval value
      liftM (Eval.setAt height name v)
      next) m Q (F.exits k s) := by
  refine Action.Meets.bind ((h.meets_value hgrown hdecl hpart hmem hnew hvalue hm).mono ?_
    fun e after hexit => hexit)
  rintro v after ⟨hafter, hv⟩
  refine (hnext _ (h.declare k s after height what name type v hafter hheight hv)).mono
    (fun _ _ hq => hq) ?_
  exact fun e n hexit => h.exits_le k _ s e n (le_declared what hnew) hexit

/-- Names without values are set to defaults. -/
theorem meets_setDefaults {names : List Node} {type : String} {height : Nat} {m : Machine}
    (hheight : F.height k height)
    (hnames : Scoped fits .statement s (.variableDecl (.typeName type) names []) s')
    (hm : F.holds k s m) :
    Action.Meets (F.contract fits) (liftM (Eval.setDefaults height (.typeName type) names)) m
      (fun _ after => F.holds k s' after) (F.exits k s) := by
  induction names generalizing s m with
  | nil =>
      cases hnames with
      | noVariables => exact hm
  | cons node names ih =>
      cases hnames with
      | @defaultVariable _ _ _ name _ hnew hrest =>
          rw [Eval.setDefaults]
          simp only [Action.liftM_bind]
          refine Action.Meets.bind (Action.Meets.pure (a := type) (Action.Meets.bind ?_))
          refine Action.Meets.attempt (fun v hv => ?_) fun f hf => ?_
          · have hsome := (Eval.yields_defaultValue type).value hv
            have hset := h.declare k s m height .variable name type v hm hheight hsome
            refine (ih hrest hset).mono (fun _ _ hq => hq) fun e n hexit => ?_
            exact h.exits_le k _ s e n (le_declared .variable hnew) hexit
          · exact (h.sturdy k s).fault m f hm ((Eval.yields_defaultValue type).fault hf)

theorem meets_setVariables {decl : Node} {names values : List Node} {type : String} {height : Nat}
    {m : Machine} (hgrown : Grown fits s) (hheight : F.height k height) (hdecl : F.part decl)
    (hparts : ∀ value ∈ values, F.part value)
    (hpairs : ∀ pair ∈ names.zip values, pair ∈ decl.initialisers)
    (hnames : Scoped fits .statement s (.variableDecl (.typeName type) names values) s')
    (hm : F.holds k s m) :
    Action.Meets (F.contract fits) (Action.setVariables height (.typeName type) names values) m
      (fun _ after => F.holds k s' after) (F.exits k s) := by
  induction values generalizing names s m with
  | nil => rw [Action.setVariables]; exact h.meets_setDefaults hheight hnames hm
  | cons value values ih =>
      cases hnames with
      | @setVariable _ _ _ name _ _ _ hnew hvalue hrest =>
          rw [Action.setVariables]
          refine h.meets_setNext .variable hgrown hheight hdecl
            (hparts value List.mem_cons_self) (hpairs _ List.mem_cons_self) hnew hvalue
            (fun after hafter => ?_) hm
          exact ih (hgrown.name .variable type hnew)
            (fun v hv => hparts v (List.mem_cons_of_mem _ hv))
            (fun pair hpair => hpairs pair (List.mem_cons_of_mem _ hpair)) hrest hafter

theorem meets_setConstants {decl : Node} {names values : List Node} {type : String} {height : Nat}
    {m : Machine} (hgrown : Grown fits s) (hheight : F.height k height) (hdecl : F.part decl)
    (hparts : ∀ value ∈ values, F.part value)
    (hpairs : ∀ pair ∈ names.zip values, pair ∈ decl.initialisers)
    (hnames : Scoped fits .statement s (.constantDecl (.typeName type) names values) s')
    (hm : F.holds k s m) :
    Action.Meets (F.contract fits) (Action.setConstants height names values) m
      (fun _ after => F.holds k s' after) (F.exits k s) := by
  induction values generalizing names s m with
  | nil =>
      cases hnames with
      | noConstants => exact hm
  | cons value values ih =>
      cases hnames with
      | @setConstant _ _ _ name _ _ _ hnew hvalue hrest =>
          rw [Action.setConstants]
          refine h.meets_setNext .constant hgrown hheight hdecl
            (hparts value List.mem_cons_self) (hpairs _ List.mem_cons_self) hnew hvalue
            (fun after hafter => ?_) hm
          exact ih (hgrown.name .constant type hnew)
            (fun v hv => hparts v (List.mem_cons_of_mem _ hv))
            (fun pair hpair => hpairs pair (List.mem_cons_of_mem _ hpair)) hrest hafter

theorem meets_variableDecl {names values : List Node} {type : String} {m : Machine}
    (hgrown : Grown fits s) (hpart : F.part (.variableDecl (.typeName type) names values))
    (hnode : Scoped fits .statement s (.variableDecl (.typeName type) names values) s')
    (hm : F.holds k s m) :
    Action.Meets (F.contract fits)
      (Action.evaluate (.variableDecl (.typeName type) names values)) m
      (fun _ after => F.holds k s' after) (F.exits k s) := by
  refine h.meets_topHeight (fun height hheight => ?_) hm
  refine Action.Meets.bind (h.meets_setVariables hgrown hheight hpart (fun value hvalue => ?_)
    (fun pair hpair => hpair) hnode hm)
  exact h.children _ value hpart (by simp [Node.children, hvalue])

theorem meets_constantDecl {names values : List Node} {type : String} {m : Machine}
    (hgrown : Grown fits s) (hpart : F.part (.constantDecl (.typeName type) names values))
    (hnode : Scoped fits .statement s (.constantDecl (.typeName type) names values) s')
    (hm : F.holds k s m) :
    Action.Meets (F.contract fits)
      (Action.evaluate (.constantDecl (.typeName type) names values)) m
      (fun _ after => F.holds k s' after) (F.exits k s) := by
  refine h.meets_topHeight (fun height hheight => ?_) hm
  refine Action.Meets.bind (h.meets_setConstants hgrown hheight hpart (fun value hvalue => ?_)
    (fun pair hpair => hpair) hnode hm)
  exact h.children _ value hpart (by simp [Node.children, hvalue])

/-! ### Calls -/

omit h in
/-- Arguments come to something, and what was declared before them still is behind them. -/
theorem meets_arguments {arguments : List Node} {m n : Machine} (hgrown : Grown fits s)
    (hparts : ∀ a ∈ arguments, F.part a)
    (harguments : ∀ a ∈ arguments, Scoped fits .expression s a s) (hgrows : m.Grows n)
    (hn : F.holds k s n) :
    Action.Meets (F.contract fits) (Action.evalAll arguments) n
      (fun values after => (F.holds k s after ∧ m.Grows after) ∧
        (∀ v ∈ values, v ≠ .nothing) ∧ values.length = arguments.length)
      (F.exits k s) := by
  induction arguments generalizing n with
  | nil => exact ⟨⟨hn, hgrows⟩, nofun, rfl⟩
  | cons argument rest ih =>
      have hargument := harguments argument List.mem_cons_self
      rw [Action.evalAll]
      refine Action.Meets.bind (Action.Meets.ask (k, s, s)
        ⟨hgrown, hn, hparts argument List.mem_cons_self, .inl hargument⟩ ?_ ?_)
      · intro d v after hrun hpost
        -- an argument may declare routines, but it takes none away
        have hgrown' := perform_grows d argument n
        rw [hrun, Ending.machine_ok] at hgrown'
        refine Action.Meets.bind ((ih (fun a ha => hparts a (List.mem_cons_of_mem _ ha))
          (fun a ha => harguments a (List.mem_cons_of_mem _ ha)) (hgrows.trans hgrown')
          hpost.1).mono ?_ fun e n hexit => hexit)
        rintro values n ⟨hn, hvalues, hlength⟩
        refine ⟨hn, ?_, congrArg (· + 1) hlength⟩
        intro w hw
        rcases List.mem_cons.mp hw with rfl | hw
        · exact perform_something hargument.isExpression hrun
        · exact hvalues w hw
      · exact fun d e after _ hpost => hpost

/-- A call, from the machine on which its name is looked up. -/
theorem meets_call (kind : RecordKind) {name : String} {symbol : Symbol} {r : Routine}
    {arguments : List Node} {result : String → Value → Except Fault Value} {m : Machine}
    (hgrown : Grown fits s) (hparts : ∀ a ∈ arguments, F.part a)
    (harguments : ∀ a ∈ arguments, Scoped fits .expression s a s)
    (hfound : s.Knows name symbol) (hr : symbol.routine? kind = some r)
    (hcount : (r.parameters.getD []).length = arguments.length)
    (hresult : ∀ name v, Yields Fault.IsOrdinary (fun _ => True) (result name v))
    (hm : F.holds k s m) :
    Action.Meets (F.contract fits) (do
      let values ← Action.evalAll arguments
      let p ← liftM (Eval.enterCall kind (m.routine? kind name) values)
      let outcome ← Action.runBody p.body
      liftM (Eval.attempt (result p.name outcome))) m
      (fun _ after => F.holds k s after) (F.exits k s) := by
  refine Action.Meets.bind ((meets_arguments hgrown hparts harguments (.refl m) hm).mono ?_
    fun e n hexit => hexit)
  rintro values n ⟨⟨hn, hgrows⟩, hvalues, hlength⟩
  refine Action.Meets.bind ?_
  show (Work.ended (Eval.enterCall kind (m.routine? kind name) values n)).Meets _ _ _
  cases hs : n.stack with
  | nil =>
      simp only [Eval.enterCall, bind, EStateM.bind, Eval.top_nil hs]
      exact h.empty k s n hn hs
  | cons caller rest =>
      cases hp : m.routine? kind name with
      | none =>
          simp only [Eval.enterCall, bind, EStateM.bind, Eval.top_cons hs]
          exact h.found k s m n kind name symbol r hm hn hfound hr hp
      | some p =>
          -- the follower names the scopes of the body, which need not be around the call
          obtain ⟨k', t, behind, hpart, ht, hbody, hcalled, hback, hexit⟩ :=
            h.call k s m n kind name symbol r p values caller rest hm hgrown hfound hr hp hgrows hn
              hs hvalues (hlength.trans hcount.symm)
          rw [Eval.enterCall_cons hs, ← hs]
          refine Action.Meets.bind (Action.Meets.bind (Action.Meets.ask (k', t, behind)
            ⟨ht, hcalled, hpart, .inr (.inr hbody)⟩ ?_ ?_))
          · intro d v after hrun hpost
            refine Action.Meets.bind ?_
            show (Work.ended (Eval.pop after)).Meets _ _ _
            cases hafter : after.stack with
            | nil =>
                -- the record of the callee is still on the stack
                have hheads := perform_headers d (.eval p.body)
                  (m := n.called kind p values caller) (List.cons_ne_nil _ _)
                rw [Machine.called, hrun, Ending.machine_ok] at hheads
                exact absurd hafter (Machine.stack_ne_nil (List.cons_ne_nil _ _) hheads)
            | cons r' rest' =>
                rw [Eval.pop_cons hafter]
                have hpopped := hback d v after r' rest' hrun hpost.1 hafter
                exact (h.sturdy k s).keeps_attempt (hresult p.name v) (fun _ hf => hf) _ hpopped
          · exact fun d e after hrun hpost => hexit d e after hrun hpost

/-! ### Expressions -/

theorem keeps_valueOf {name : String} {symbol : Symbol} (hgrown : Grown fits s)
    (hword : IsWord name) (hfound : s.lookup name = some symbol) (hfits : fits symbol = true) :
    F.Keeps fits k s (liftM (Eval.valueOf name)) := by
  unfold Eval.valueOf
  rw [Action.liftM_bind]
  intro m hm
  refine Action.Meets.bind ?_
  show (Work.ended (Eval.top m)).Meets _ _ _
  cases hs : m.stack with
  | nil => rw [Eval.top_nil hs]; exact h.empty k s m hm hs
  | cons r rest =>
      rw [Eval.top_cons hs]
      show Action.Meets _ _ m _ _
      rcases h.name k s m name symbol r rest hm hgrown hword hfound hfits hs with
        ⟨v, hv, hsome⟩ | hexit
      · rw [hv]
        split
        · next heq => exact nomatch heq
        · next heq => exact absurd (Option.some.inj heq) hsome
        · exact hm
      · split
        · exact hexit
        · exact hexit
        · exact hm

theorem keeps_expression {node : Node} (hgrown : Grown fits s) (hpart : F.part node)
    (hnode : Scoped fits .expression s node s) : F.Keeps fits k s (Action.evaluate node) := by
  refine (h.sturdy k s).keeps_expression hnode.isExpression ?_ ?_ ?_
  · intro part hmem
    exact keeps_eval hgrown (h.children node part hpart (node.operands_subset hmem))
      (.inl (hnode.operand hmem))
  · rintro name rfl
    cases hnode with
    | identifier hword hfound hfits => exact h.keeps_valueOf hgrown hword hfound hfits
  · rintro callee arguments rfl m hm
    cases hnode with
    | functionCall hfound hcount harguments =>
        exact h.meets_call .function hgrown
          (fun a ha => h.children _ a hpart (List.mem_cons_of_mem _ ha)) harguments
          (Scopes.knows_of_lookup hfound trivial) rfl hcount Eval.yields_functionResult hm

/-! ### Statements -/

theorem keeps_setTop (name : String) {v : Value} (hv : v ≠ .nothing) :
    F.Keeps fits k s (liftM (Eval.setTop name v)) := by
  intro m hm
  show (Work.ended (Eval.setTop name v m)).Meets _ _ _
  cases hs : m.stack with
  | nil => rw [Eval.setTop_nil hs]; exact h.empty k s m hm hs
  | cons r rest =>
      have hset := h.set k s m (rest.length + 1) name v hm (h.height k s m r rest hm hs) hv
      rw [hs, CallStack.setAt, if_pos rfl] at hset
      rw [Eval.setTop_cons hs]
      exact hset

omit h in
/-- A part whose value is used: it is something. -/
theorem keeps_using {value : Node} {f : Value → Action β} (hgrown : Grown fits s)
    (hpart : F.part value) (hvalue : Scoped fits .expression s value s)
    (hf : ∀ v, v ≠ .nothing → F.Keeps fits k s (f v)) :
    F.Keeps fits k s (Action.eval value >>= f) := by
  intro m hm
  refine Action.Meets.bind (Action.Meets.ask (k, s, s) ⟨hgrown, hm, hpart, .inl hvalue⟩ ?_ ?_)
  · intro d v after hrun hpost
    exact hf v (perform_something hvalue.isExpression hrun) after hpost.1
  · exact fun d e after _ hpost => hpost

theorem keeps_assignment {name : String} {value : Node} (hgrown : Grown fits s)
    (hpart : F.part value) (hvalue : Scoped fits .expression s value s) :
    F.Keeps fits k s (Action.evaluate (.assignment (.identifier name) value)) := by
  refine keeps_using hgrown hpart hvalue fun v hv => ?_
  refine (h.sturdy k s).keeps_top.bind fun _ => ?_
  exact Keeps.known rfl ((h.keeps_setTop name hv).bind fun _ => Keeps.pure)

theorem keeps_branches {elifs : List Node} {alternative : Node} (hgrown : Grown fits s)
    (hparts : ∀ arm ∈ alternative :: elifs, F.part arm)
    (helifs : ∀ e ∈ elifs, Scoped fits .elif s e s)
    (halternative : Scoped fits .alternative s alternative s) :
    F.Keeps fits k s (Action.branches elifs alternative) := by
  induction elifs with
  | nil =>
      have hpart := hparts alternative List.mem_cons_self
      cases halternative with
      | noAlternative => exact Keeps.pure
      | otherwise hbody =>
          exact h.keeps_entered hgrown (h.children _ _ hpart List.mem_cons_self)
            (.inr (.inr hbody))
  | cons branch rest ih =>
      have hpart := hparts branch (List.mem_cons_of_mem _ List.mem_cons_self)
      rw [Action.branches]
      cases helifs branch List.mem_cons_self with
      | @elif _ _ _ condition body hcondition hbody =>
          have htest := keeps_eval (k := k) hgrown
            (h.children _ condition hpart (by simp [Node.children])) (.inl hcondition)
          refine ((h.sturdy k s).keeps_condition htest).bind fun b => Keeps.ite ?_ ?_
          · exact h.keeps_entered hgrown (h.children _ body hpart (by simp [Node.children]))
              (.inr (.inr hbody))
          · refine ih (fun arm harm => hparts arm ?_)
              fun e he => helifs e (List.mem_cons_of_mem _ he)
            rcases List.mem_cons.mp harm with rfl | harm
            · exact List.mem_cons_self
            · exact List.mem_cons_of_mem _ (List.mem_cons_of_mem _ harm)

theorem keeps_moveOn {height : Nat} (hheight : F.height k height) (name : String)
    (current step : Value) : F.Keeps fits k s (liftM (Eval.moveOn height name current step)) := by
  unfold Eval.moveOn
  rw [Action.liftM_bind]
  refine (h.sturdy k s).keeps_computed_bind (current.computes_add step) fun v hv m hm => ?_
  refine h.set k s m height name v hm hheight ?_
  rintro rfl
  exact hv

theorem keeps_forRound {height : Nat} (hheight : F.height k height) (name : String)
    (last step : Value) {body : Node} (hgrown : Grown fits s) (hbody : F.Opened fits s body) :
    F.Keeps fits k s (Action.forRound height name last step body) :=
  (h.sturdy k s).keeps_forRound height name last step (h.keeps_opened hgrown hbody)
    fun current => h.keeps_moveOn hheight name current step

theorem keeps_step (first last : Value) {step : Node} (hgrown : Grown fits s)
    (hpart : F.part step) (hstep : Scoped fits .optional s step s) :
    F.Keeps fits k s (Action.stepValue first last step) := by
  cases hstep with
  | absent => exact (h.sturdy k s).keeps_computed (Eval.computes_impliedStep first last)
  | present hstep =>
      exact (h.sturdy k s).keeps_stepValue first last (keeps_eval hgrown hpart (.inl hstep))

theorem keeps_forLoop {label name : String} {value termination step body : Node}
    (hgrown : Grown fits s)
    (hpart : F.part (.forLoop (.assignment (.identifier name) value) termination step body))
    (htermination : Scoped fits .expression s termination s)
    (hstep : Scoped fits .optional s step s)
    (hvalue : Scoped fits .expression (s.enter label .forBlock []) value
      (s.enter label .forBlock []))
    (hbody : Scoped fits .block (s.enter label .forBlock []) body s') :
    F.Keeps fits k s (Action.evaluate
      (.forLoop (.assignment (.identifier name) value) termination step body)) := by
  have part := fun part => h.children _ part hpart
  have hinitial := part (.assignment (.identifier name) value) (by simp [Node.children])
  have hfirst := h.children _ value hinitial (by simp [Node.children])
  refine Keeps.known rfl ((h.keeps_entered hgrown hfirst (.inl hvalue)).bind fun first => ?_)
  refine ((h.sturdy k s).keeps_requireReal .badInitial (fun _ => trivial) first).bind fun _ => ?_
  refine Keeps.bind (keeps_eval hgrown (part termination (by simp [Node.children]))
    (.inl htermination)) fun last => ?_
  refine ((h.sturdy k s).keeps_requireReal .badTermination (fun _ => trivial) last).bind
    fun _ => ?_
  refine (h.keeps_step first last hgrown (part step (by simp [Node.children])) hstep).bind
    fun step => ?_
  refine (h.keeps_entered hgrown hinitial (.inr (.inl (.assignment hvalue)))).bind fun _ => ?_
  intro m hm
  refine h.meets_topHeight (fun height hheight => ?_) hm
  have hloop : F.Opened fits s body :=
    ⟨part body (by simp [Node.children]), label, .forBlock, s', hbody⟩
  have hadmits : F.admits fits k s s (.forLoop height name last step body) :=
    ⟨rfl, hheight, hloop⟩
  exact keeps_ask hgrown hadmits m hm

/-! ### Routines -/

/-- A routine is declared: the analyzer enters no list where there are no parameters, a run enters
    the empty list. -/
theorem holds_declared (kind : RecordKind) (scopeKind : ScopeKind) {decl body : Node}
    {symbol entered : Symbol} {name : String} {ps : List Parameter} {m : Machine}
    (hgrown : Grown fits s) (hpart : F.part decl) (hentered : decl.routineSymbol? = some entered)
    (hsymbol : symbol.routine? kind = some ⟨name, Analysis.someUnlessEmpty ps, body⟩)
    (hlisted : entered.routine? kind = some ⟨name, some ps, body⟩)
    (hname : symbol.name = entered.name) (hnew : s.declares symbol.name = false)
    (hbody : Scoped fits .block ((s.define symbol).enter name scopeKind ps) body s')
    (hm : F.holds k s m) : F.holds k (s.define symbol) (m.declare entered) := by
  have hps := getD_someUnlessEmpty ps
  refine h.routine k s m decl kind symbol entered _ name scopeKind s' hpart hentered hsymbol ?_
    hname hgrown hnew ?_ hm
  · rw [hlisted, Routine.listed, hps]
  · rw [hps]
    exact hbody

theorem meets_functionDecl {name type : String} {parameters : List Node} {ps : List Parameter}
    {body : Node} {m : Machine} (hgrown : Grown fits s)
    (hpart : F.part (.functionDecl (.identifier name) parameters (.typeName type) body))
    (hnew : s.declares name = false) (hps : Parameter.ofNodes parameters = .ok ps)
    (hbody : Scoped fits .block
      ((s.define (functionSymbol name type ps body)).enter name .function ps) body s')
    (hm : F.holds k s m) :
    Action.Meets (F.contract fits)
      (Action.evaluate (.functionDecl (.identifier name) parameters (.typeName type) body)) m
      (fun _ after => F.holds k (s.define (functionSymbol name type ps body)) after)
      (F.exits k s) := by
  have hentered : Node.routineSymbol? (.functionDecl (.identifier name) parameters
      (.typeName type) body) = some (.function ⟨⟨name, some ps, body⟩, type⟩) := by
    rw [Node.routineSymbol?, hps]
  have hdeclared : F.holds k (s.define (functionSymbol name type ps body)) (m.declare _) :=
    h.holds_declared .function .function hgrown hpart hentered rfl rfl rfl hnew hbody hm
  show Action.Meets _ (liftM (Eval.attempt (Parameter.ofNodes parameters)) >>= _) m _ _
  rw [hps]
  exact hdeclared

theorem meets_procedureDecl {name : String} {parameters : List Node} {ps : List Parameter}
    {body : Node} {m : Machine} (hgrown : Grown fits s)
    (hpart : F.part (.procedureDecl (.identifier name) parameters body))
    (hnew : s.declares name = false) (hps : Parameter.ofNodes parameters = .ok ps)
    (hbody : Scoped fits .block
      ((s.define (procedureSymbol name ps body)).enter name .procedure ps) body s')
    (hm : F.holds k s m) :
    Action.Meets (F.contract fits)
      (Action.evaluate (.procedureDecl (.identifier name) parameters body)) m
      (fun _ after => F.holds k (s.define (procedureSymbol name ps body)) after)
      (F.exits k s) := by
  have hentered : Node.routineSymbol? (.procedureDecl (.identifier name) parameters body)
      = some (.procedure ⟨name, some ps, body⟩) := by
    rw [Node.routineSymbol?, hps]
  have hdeclared : F.holds k (s.define (procedureSymbol name ps body)) (m.declare _) :=
    h.holds_declared .procedure .procedure hgrown hpart hentered rfl rfl rfl hnew hbody hm
  show Action.Meets _ (liftM (Eval.attempt (Parameter.ofNodes parameters)) >>= _) m _ _
  rw [hps]
  exact hdeclared

/-! ### Tasks -/

theorem meets_statement {node : Node} {m : Machine} (hgrown : Grown fits s) (hpart : F.part node)
    (hnode : Scoped fits .statement s node s') (hm : F.holds k s m) :
    Action.Meets (F.contract fits) (Action.evaluate node) m
      (fun v after => F.holds k s after ∧ ((∀ w, v ≠ .given w) → F.holds k s' after))
      (F.exits k s) := by
  have part := fun part => h.children node part hpart
  -- what declares something is followed by scopes that know more
  have growing : ∀ {x : Action Value}, Action.Meets (F.contract fits) x m
      (fun _ after => F.holds k s' after) (F.exits k s) →
      Action.Meets (F.contract fits) x m
        (fun v after => F.holds k s after ∧ ((∀ w, v ≠ .given w) → F.holds k s' after))
        (F.exits k s) := fun hx =>
    hx.mono (fun v after hafter => ⟨h.holds_le k s' s after hnode.le hafter, fun _ => hafter⟩)
      fun e after hexit => hexit
  cases hnode with
  | noVariables => exact growing (h.meets_variableDecl hgrown hpart .noVariables hm)
  | defaultVariable hnew hrest =>
      exact growing (h.meets_variableDecl hgrown hpart (.defaultVariable hnew hrest) hm)
  | setVariable hnew hvalue hrest =>
      exact growing (h.meets_variableDecl hgrown hpart (.setVariable hnew hvalue hrest) hm)
  | noConstants => exact growing (h.meets_constantDecl hgrown hpart .noConstants hm)
  | setConstant hnew hvalue hrest =>
      exact growing (h.meets_constantDecl hgrown hpart (.setConstant hnew hvalue hrest) hm)
  | assignment hvalue =>
      exact growing (h.keeps_assignment hgrown (part _ (by simp [Node.children])) hvalue m hm)
  | @give _ value hvalue =>
      cases hvalue with
      | absent => exact ⟨hm, fun _ => hm⟩
      | present hvalue =>
          have hgiven := keeps_eval (k := k) hgrown (part value (by simp [Node.children]))
            (.inl hvalue)
          exact growing (Keeps.ite Keeps.pure (hgiven.bind fun _ => Keeps.pure) m hm)
  | @display _ value hvalue =>
      have hshown := keeps_eval (k := k) hgrown (part value (by simp [Node.children]))
        (.inl hvalue)
      refine growing (hshown.bind (fun v => ?_) m hm)
      exact ((h.sturdy k s).keeps_display v (h.shown k s)).bind fun _ => Keeps.pure
  | functionDecl hnew hps hbody =>
      exact growing (h.meets_functionDecl hgrown hpart hnew hps hbody hm)
  | procedureDecl hnew hps hbody =>
      exact growing (h.meets_procedureDecl hgrown hpart hnew hps hbody hm)
  | procedureCall hfound hcount harguments =>
      exact growing (h.meets_call .procedure hgrown
        (fun a ha => part a (List.mem_cons_of_mem _ ha)) harguments
        (Scopes.knows_of_lookup hfound trivial) rfl hcount Eval.yields_procedureResult hm)
  | @ifElse _ _ _ condition body alternative elifs hcondition hbody helifs halternative =>
      have htest := keeps_eval (k := k) hgrown (part condition (by simp [Node.children]))
        (.inl hcondition)
      have hbranch := h.keeps_entered (k := k) hgrown (part body (by simp [Node.children]))
        (.inr (.inr hbody))
      have hbranches := h.keeps_branches (k := k) hgrown (fun arm harm => part arm (by
        rcases List.mem_cons.mp harm with rfl | harm
        · simp [Node.children]
        · simp [Node.children, harm])) helifs halternative
      exact growing (((h.sturdy k s).keeps_condition htest).bind
        (fun b => Keeps.ite hbranch hbranches) m hm)
  | @whileLoop _ behind label condition body hcondition hbody =>
      have hloop : F.admits fits k s s (.whileLoop condition body) :=
        ⟨rfl, ⟨part condition (by simp [Node.children]), hcondition⟩,
          part body (by simp [Node.children]), label, .whileBlock, behind, hbody⟩
      exact growing (keeps_ask hgrown hloop m hm)
  | forLoop htermination hstep hvalue hbody =>
      exact growing (h.keeps_forLoop hgrown hpart htermination hstep hvalue hbody m hm)
  | skip _ => exact h.exit k s m .skip hm fun _ hfault => by cases hfault
  | stop _ => exact h.exit k s m .stop hm fun _ hfault => by cases hfault

theorem meets_evaluate {node : Node} {m : Machine} (hgrown : Grown fits s) (hpart : F.part node)
    (hnode : Following.Checked fits s node s') (hm : F.holds k s m) :
    Action.Meets (F.contract fits) (Action.evaluate node) m
      (fun v after => F.holds k s after ∧ ((∀ w, v ≠ .given w) → F.holds k s' after))
      (F.exits k s) := by
  rcases hnode with hnode | hnode | hnode
  · obtain rfl := hnode.expression_eq
    exact (h.keeps_expression hgrown hpart hnode m hm).mono (fun v after hv => ⟨hv, fun _ => hv⟩)
      fun e after hexit => hexit
  · exact h.meets_statement hgrown hpart hnode hm
  · obtain ⟨statements, rfl⟩ : ∃ statements, node = .block statements := by
      cases hnode <;> exact ⟨_, rfl⟩
    exact h.meets_block hgrown (fun statement hmem => h.children _ statement hpart hmem) hnode hm

omit h in
/-- A loop goes on beside the scopes that it began beside. -/
theorem owed_task {task next : Task} {m after : Machine} (hgrown : Grown fits s)
    (hafter : F.holds k s after) (hnext : F.admits fits k s s' next) :
    (F.contract fits).owed (k, s, s') task m (.task next) after :=
  ⟨(k, s, s'), ⟨hgrown, hafter, hnext⟩, fun _ hpost => hpost⟩

theorem kept : (F.contract fits).Kept where
  exhausted c task m hpre := h.exit c.1 c.2.1 m .exhausted hpre.2.1 nofun
  step := by
    rintro ⟨k, s, s'⟩ task m hpre
    obtain ⟨hgrown, hm, hadmits⟩ : Grown fits s ∧ F.holds k s m ∧ F.admits fits k s s' task := hpre
    cases task with
    | eval node =>
        refine Action.Meets.bind ((h.meets_evaluate hgrown hadmits.1 hadmits.2 hm).mono ?_
          fun e after hexit => hexit)
        exact fun v after hafter => hafter
    | whileLoop test body =>
        obtain ⟨rfl, ⟨htest, hscoped⟩, hbody⟩ := hadmits
        have hagain : F.admits fits k s' s' (.whileLoop test body) := ⟨rfl, ⟨htest, hscoped⟩, hbody⟩
        -- a round leaves the scopes of the loop, since its body opens one for itself
        have hround := (h.sturdy k s').keeps_whileRound
          (keeps_eval hgrown htest (.inl hscoped)) (h.keeps_opened hgrown hbody) m hm
        refine Action.Meets.bind (Action.Meets.caught (hround.mono ?_ ?_))
        · intro round after hafter
          cases round with
          | finished => exact ⟨hafter, fun _ => hafter⟩
          | gave v => exact ⟨hafter, fun _ => hafter⟩
          | again => exact owed_task hgrown hafter hagain
        · intro e after hexit
          cases e with
          | skip => exact owed_task hgrown (h.skipped k s' after hexit) hagain
          | stop =>
              have hafter := h.stopped k s' after hexit
              exact ⟨hafter, fun _ => hafter⟩
          | fault f => exact hexit
          | exhausted => exact hexit
    | forLoop height name last step body =>
        obtain ⟨rfl, hheight, hbody⟩ := hadmits
        have hagain : F.admits fits k s' s' (.forLoop height name last step body) :=
          ⟨rfl, hheight, hbody⟩
        have hround := h.keeps_forRound hheight name last step hgrown hbody m hm
        refine Action.Meets.bind (Action.Meets.caught (hround.mono ?_ ?_))
        · intro round after hafter
          cases round with
          | finished => exact ⟨hafter, fun _ => hafter⟩
          | gave v => exact ⟨hafter, fun _ => hafter⟩
          | again => exact owed_task hgrown hafter hagain
        · intro e after hexit
          cases e with
          | skip =>
              have hafter := h.skipped k s' after hexit
              refine Action.Meets.bind (((h.sturdy k s').keeps_loopVariable height name after
                hafter).mono ?_ fun e after hexit => hexit)
              intro current after hafter
              refine Action.Meets.bind ((h.keeps_moveOn hheight name current step after
                hafter).mono ?_ fun e after hexit => hexit)
              exact fun _ after hafter => owed_task hgrown hafter hagain
          | stop =>
              have hafter := h.stopped k s' after hexit
              exact ⟨hafter, fun _ => hafter⟩
          | fault f => exact hexit
          | exhausted => exact hexit

/-! ### Programs -/

/-- Whenever the run of a program comes to a part, the property holds beside scopes in which the
    part is well scoped. -/
theorem program_visits {body : Node} {behind : Scopes} (hpart : F.part body)
    (hbody : Scoped fits .block Scopes.initial body behind)
    (hstart : F.holds k Scopes.initial Machine.started) (depth : Nat) :
    ∀ v ∈ visits depth (.eval (.program body)) Machine.initial,
      (v.depth = depth ∧ v.task = .eval (.program body) ∧ v.machine = Machine.initial) ∨
        ∃ c, (F.contract fits).pre c v.task v.machine := by
  intro v hv
  cases depth with
  | zero =>
      obtain rfl := List.mem_singleton.mp hv
      exact .inl ⟨rfl, rfl, rfl⟩
  | succ d =>
      rw [visits_program] at hv
      rcases List.mem_cons.mp hv with rfl | hv
      · exact .inl ⟨rfl, rfl, rfl⟩
      · exact .inr (Contract.visited h.kept d (k, Scopes.initial, behind) (.eval body)
          Machine.started ⟨.initial, hstart, hpart, .inr (.inr hbody)⟩ v hv)

/-- A program that does not complete exits as the property allows. -/
theorem program_exits {body : Node} {behind : Scopes} (hpart : F.part body)
    (hbody : Scoped fits .block Scopes.initial body behind)
    (hstart : F.holds k Scopes.initial Machine.started) {depth : Nat} {e : Exit}
    (hexit : (interpret depth (.program body)).exit = some e) :
    ∃ m, F.exits k Scopes.initial e m := by
  rcases exit_program hexit with rfl | ⟨d, after, hrun⟩
  · exact ⟨_, h.exit k _ _ .exhausted hstart nofun⟩
  · have hend := Contract.fulfilled h.kept d (k, Scopes.initial, behind) (.eval body)
      Machine.started ⟨.initial, hstart, hpart, .inr (.inr hbody)⟩
    rw [hrun] at hend
    exact ⟨after, hend⟩

end Follower

end BraceScript
