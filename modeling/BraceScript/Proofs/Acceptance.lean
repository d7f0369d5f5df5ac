import BraceScript.Proofs.Scoping

/-! # Acceptance — what the analysis says about a program

    The analysis walks a program and keeps scopes up to date; `Scoped` has the same rules without
    the walking.

    * `Formed.sound`: a well-formed part that the analysis accepts is well scoped;
    * `scoped_of_accepted`: so is every program text that is parsed and analyzed without a fault. -/

namespace BraceScript

/-! ## The analysis -/

namespace Analysis

variable {α β : Type} {s s' : Scopes}

theorem bind_ok {x : Analysis α} {f : α → Analysis β} {b : β} (h : (x >>= f) s = .ok b s') :
    ∃ a mid, x s = .ok a mid ∧ f a mid = .ok b s' := by
  change EStateM.bind x f s = .ok b s' at h
  unfold EStateM.bind at h
  cases hx : x s with
  | ok a mid => rw [hx] at h; exact ⟨a, mid, rfl, h⟩
  | error e mid => rw [hx] at h; exact nomatch h

theorem part_bind_ok {x : Except Fault α} {f : α → Analysis β} {b : β}
    (h : (part x >>= f) s = .ok b s') : ∃ a, x = .ok a ∧ f a s = .ok b s' := by
  cases x with
  | ok a => exact ⟨a, rfl, h⟩
  | error e => exact nomatch h

theorem requireNew_ok {what : Declared} {name : String} {u : Unit}
    (h : requireNew what name s = .ok u s') : s.declares name = false ∧ s' = s := by
  unfold requireNew at h
  split at h
  · exact nomatch h
  · next hnew => cases h; exact ⟨by simpa using hnew, rfl⟩

/-- A test that was passed. -/
theorem test_ok {p : Prop} [Decidable p] {e : SemanticError} {u : Unit}
    (h : (if p then pure () else fail e : Analysis Unit) s = .ok u s') : p ∧ s' = s := by
  by_cases hp : p
  · rw [if_pos hp] at h
    cases h
    exact ⟨hp, rfl⟩
  · rw [if_neg hp] at h
    exact nomatch h

theorem lookup_bind_ok {name : String} {f : Option Symbol → Analysis β} {b : β}
    (h : (lookup name >>= f) s = .ok b s') : f (s.lookup name) s = .ok b s' := h

theorem checkName_ok {fits : Symbol → Bool} {name : String} {u : Unit}
    (h : checkName fits name s = .ok u s') :
    (∃ symbol, s.lookup name = some symbol ∧ fits symbol = true) ∧ s' = s := by
  have h := lookup_bind_ok h
  cases hfound : s.lookup name with
  | none => rw [hfound] at h; exact nomatch h
  | some symbol =>
      rw [hfound] at h
      obtain ⟨hfits, rfl⟩ := test_ok h
      exact ⟨⟨symbol, rfl, hfits⟩, rfl⟩

theorem checkFunction_ok {name : String} {arguments : List Node} {u : Unit}
    (h : checkFunction (.identifier name) arguments s = .ok u s') :
    (∃ f, s.lookup name = some (.function f) ∧
      (f.parameters.getD []).length = arguments.length) ∧ s' = s := by
  obtain ⟨spelled, hname, h⟩ := part_bind_ok h
  obtain rfl : name = spelled := Except.ok.inj hname
  have h := lookup_bind_ok h
  cases hfound : s.lookup name with
  | none => rw [hfound] at h; exact nomatch h
  | some symbol =>
      rw [hfound] at h
      cases symbol with
      | function f =>
          obtain ⟨hcount, rfl⟩ := test_ok h
          exact ⟨⟨f, rfl, hcount⟩, rfl⟩
      | _ => exact nomatch h

theorem checkProcedure_ok {name : String} {arguments : List Node} {u : Unit}
    (h : checkProcedure (.identifier name) arguments s = .ok u s') :
    (∃ p, s.lookup name = some (.procedure p) ∧
      (p.parameters.getD []).length = arguments.length) ∧ s' = s := by
  obtain ⟨spelled, hname, h⟩ := part_bind_ok h
  obtain rfl : name = spelled := Except.ok.inj hname
  have h := lookup_bind_ok h
  cases hfound : s.lookup name with
  | none => rw [hfound] at h; exact nomatch h
  | some symbol =>
      rw [hfound] at h
      cases symbol with
      | procedure p =>
          obtain ⟨hcount, rfl⟩ := test_ok h
          exact ⟨⟨p, rfl, hcount⟩, rfl⟩
      | _ => exact nomatch h

theorem checkTarget_ok {name : String} {u : Unit}
    (h : checkTarget (.identifier name) s = .ok u s') : s' = s := by
  obtain ⟨spelled, hname, h⟩ := part_bind_ok h
  obtain rfl : name = spelled := Except.ok.inj hname
  have h := lookup_bind_ok h
  cases hfound : s.lookup name with
  | none => rw [hfound] at h; exact nomatch h
  | some symbol =>
      rw [hfound] at h
      cases symbol with
      | «variable» _ _ => cases h; rfl
      | _ => exact nomatch h

theorem checkGive_ok {value : Node} {b : Bool} (h : checkGive value s = .ok b s') :
    (b = false → value = .absent) ∧ s' = s := by
  obtain ⟨scopes, mid, hget, h⟩ := bind_ok h
  cases hget
  cases hroutine : routineScope s.toList with
  | none => rw [hroutine] at h; exact nomatch h
  | some found =>
      rw [hroutine] at h
      obtain ⟨scope, outer⟩ := found
      cases outer with
      | nil => exact nomatch h
      | cons around outer =>
          cases hsymbol : Scopes.findIn scope.name (around :: outer) with
          | none => simp only [hsymbol] at h; exact nomatch h
          | some symbol =>
              simp only [hsymbol] at h
              cases value <;> cases symbol <;> cases h <;> simp

theorem insideWhile_ok {b : Bool} (h : insideWhile s = .ok b s') :
    b = (s.toList.any fun scope => scope.kind = .whileBlock) ∧ s' = s := by
  cases h
  exact ⟨rfl, rfl⟩

theorem declareName_ok {what : Declared} {type name : String} {u : Unit}
    (h : declareName what (.typeName type) (.identifier name) s = .ok u s') :
    s.declares name = false ∧ s' = s.define (what.symbol name type) := by
  obtain ⟨spelled, hname, h⟩ := part_bind_ok h
  obtain rfl : name = spelled := Except.ok.inj hname
  obtain ⟨_, mid, htest, hdefine⟩ := bind_ok h
  obtain ⟨hnew, rfl⟩ := requireNew_ok htest
  cases hdefine
  exact ⟨hnew, rfl⟩

theorem openRoutine_ok {what : Declared} {kind : ScopeKind} {name : String}
    {parameters : List Node} {symbol : String → List Parameter → Except Fault Symbol} {u : Unit}
    (h : openRoutine what kind (.identifier name) parameters symbol s = .ok u s') :
    s.declares name = false ∧ ∃ ps sym, Parameter.ofNodes parameters = .ok ps ∧
      symbol name ps = .ok sym ∧ s' = (s.define sym).enter name kind ps := by
  obtain ⟨spelled, hname, h⟩ := part_bind_ok h
  obtain rfl : name = spelled := Except.ok.inj hname
  obtain ⟨_, mid, htest, hdefine⟩ := bind_ok h
  obtain ⟨hnew, rfl⟩ := requireNew_ok htest
  obtain ⟨ps, hps, hdefine⟩ := part_bind_ok hdefine
  obtain ⟨sym, hsym, hdefine⟩ := part_bind_ok hdefine
  cases hdefine
  exact ⟨hnew, ps, sym, hps, hsym, rfl⟩

/-! ### From the analysis to the rules -/

variable {fits : Symbol → Bool}

/-- What it means that the analysis is sound for a part. -/
def Sound (fits : Symbol → Bool) (c : Category) (part : Node) : Prop :=
  ∀ s s' u, node fits part s = .ok u s' → Scoped fits c s part s'

theorem scoped_nodes {c : Category}
    (heq : ∀ {s part s'}, Scoped fits c s part s' → s' = s) {parts : List Node}
    (hsound : ∀ part ∈ parts, Sound fits c part) {u : Unit}
    (h : nodes fits parts s = .ok u s') :
    s' = s ∧ ∀ part ∈ parts, Scoped fits c s part s := by
  induction parts generalizing s with
  | nil => cases h; exact ⟨rfl, nofun⟩
  | cons first rest ih =>
      rw [nodes] at h
      obtain ⟨_, mid, hfirst, htail⟩ := bind_ok h
      have hscoped := hsound first List.mem_cons_self s mid _ hfirst
      obtain rfl := heq hscoped
      obtain ⟨rfl, hrest⟩ :=
        ih (fun part hpart => hsound part (List.mem_cons_of_mem _ hpart)) htail
      exact ⟨rfl, List.forall_mem_cons.mpr ⟨hscoped, hrest⟩⟩

theorem scoped_block {statements : List Node}
    (hsound : ∀ part ∈ statements, Sound fits .statement part) :
    Sound fits .block (.block statements) := by
  intro s s' u h
  rw [node] at h
  induction statements generalizing s with
  | nil => cases h; exact .blockEnd
  | cons first rest ih =>
      rw [nodes] at h
      obtain ⟨_, mid, hfirst, h⟩ := bind_ok h
      refine .blockStep (hsound first List.mem_cons_self s mid _ hfirst) ?_
      exact ih (fun part hpart => hsound part (List.mem_cons_of_mem _ hpart)) mid h

theorem scoped_declareNames {type : String} {names : List Node}
    (hnames : ∀ n ∈ names, Formed IsWord .name n) {u : Unit}
    (h : declareNames .variable (.typeName type) names s = .ok u s') :
    Scoped fits .statement s (.variableDecl (.typeName type) names []) s' := by
  induction names generalizing s with
  | nil => cases h; exact .noVariables
  | cons name names ih =>
      cases hnames name List.mem_cons_self
      rw [declareNames] at h
      obtain ⟨_, mid, hname, htail⟩ := bind_ok h
      obtain ⟨hnew, rfl⟩ := declareName_ok hname
      exact .defaultVariable hnew (ih (fun n hn => hnames n (List.mem_cons_of_mem _ hn)) htail)

theorem scoped_variables {type : String} {names values : List Node}
    (hnames : ∀ n ∈ names, Formed IsWord .name n)
    (hvalues : ∀ v ∈ values, Sound fits .expression v)
    (hlength : values = [] ∨ names.length = values.length) {u : Unit}
    (h : initialized fits .variable (.typeName type) names values s = .ok u s') :
    Scoped fits .statement s (.variableDecl (.typeName type) names values) s' := by
  induction values generalizing s names with
  | nil => cases names <;> exact scoped_declareNames hnames h
  | cons value values ih =>
      cases names with
      | nil => simp at hlength
      | cons name names =>
          cases hnames name List.mem_cons_self
          rw [initialized] at h
          obtain ⟨_, mid, hname, htail⟩ := bind_ok h
          obtain ⟨hnew, rfl⟩ := declareName_ok hname
          obtain ⟨_, mid, hvalue, htail⟩ := bind_ok htail
          have hscoped := hvalues value List.mem_cons_self _ mid _ hvalue
          obtain rfl := hscoped.expression_eq
          refine .setVariable hnew hscoped (ih ?_ ?_ ?_ htail)
          · exact fun n hn => hnames n (List.mem_cons_of_mem _ hn)
          · exact fun v hv => hvalues v (List.mem_cons_of_mem _ hv)
          · exact .inr (by simpa using hlength)

theorem scoped_constants {type : String} {names values : List Node}
    (hnames : ∀ n ∈ names, Formed IsWord .name n)
    (hvalues : ∀ v ∈ values, Sound fits .expression v)
    (hlength : names.length = values.length) {u : Unit}
    (h : initialized fits .constant (.typeName type) names values s = .ok u s') :
    Scoped fits .statement s (.constantDecl (.typeName type) names values) s' := by
  induction values generalizing s names with
  | nil =>
      obtain rfl := List.length_eq_zero_iff.mp hlength
      cases h
      exact .noConstants
  | cons value values ih =>
      cases names with
      | nil => exact nomatch hlength
      | cons name names =>
          cases hnames name List.mem_cons_self
          rw [initialized] at h
          obtain ⟨_, mid, hname, htail⟩ := bind_ok h
          obtain ⟨hnew, rfl⟩ := declareName_ok hname
          obtain ⟨_, mid, hvalue, htail⟩ := bind_ok htail
          have hscoped := hvalues value List.mem_cons_self _ mid _ hvalue
          obtain rfl := hscoped.expression_eq
          refine .setConstant hnew hscoped (ih ?_ ?_ ?_ htail)
          · exact fun n hn => hnames n (List.mem_cons_of_mem _ hn)
          · exact fun v hv => hvalues v (List.mem_cons_of_mem _ hv)
          · simpa using hlength

theorem scoped_functionDecl {name type : String} {parameters : List Node} {body : Node}
    (hbody : Sound fits .block body) :
    Sound fits .statement (.functionDecl (.identifier name) parameters (.typeName type) body) := by
  intro s s' u h
  rw [node] at h
  obtain ⟨_, mid, hopen, htail⟩ := bind_ok h
  obtain ⟨hnew, ps, sym, hps, hsym, rfl⟩ := openRoutine_ok hopen
  obtain rfl := Except.ok.inj hsym
  obtain ⟨_, mid, hmid, htail⟩ := bind_ok htail
  have hscoped := hbody _ mid _ hmid
  cases htail
  rw [hscoped.leave_eq]
  exact .functionDecl hnew hps hscoped

theorem scoped_procedureDecl {name : String} {parameters : List Node} {body : Node}
    (hbody : Sound fits .block body) :
    Sound fits .statement (.procedureDecl (.identifier name) parameters body) := by
  intro s s' u h
  rw [node] at h
  obtain ⟨_, mid, hopen, htail⟩ := bind_ok h
  obtain ⟨hnew, ps, sym, hps, hsym, rfl⟩ := openRoutine_ok hopen
  obtain rfl := Except.ok.inj hsym
  obtain ⟨_, mid, hmid, htail⟩ := bind_ok htail
  have hscoped := hbody _ mid _ hmid
  cases htail
  rw [hscoped.leave_eq]
  exact .procedureDecl hnew hps hscoped

theorem scoped_pair {left right : Node} (hleft : Sound fits .expression left)
    (hright : Sound fits .expression right) {u : Unit}
    (h : (do node fits left; node fits right) s = .ok u s') :
    s' = s ∧ Scoped fits .expression s left s ∧ Scoped fits .expression s right s := by
  obtain ⟨_, mid, hmid, htail⟩ := bind_ok h
  have hl := hleft s mid _ hmid
  obtain rfl := hl.expression_eq
  have hr := hright _ s' _ htail
  obtain rfl := hr.expression_eq
  exact ⟨rfl, hl, hr⟩

/-- A condition, and a block with a scope of its own. -/
theorem scoped_guarded {stem : String} {kind : ScopeKind} {condition body : Node}
    (hcondition : Sound fits .expression condition) (hbody : Sound fits .block body)
    {f : Analysis β} {b : β}
    (h : (do node fits condition; enterBlock stem kind; node fits body; f) s = .ok b s') :
    Scoped fits .expression s condition s ∧
      ∃ label inner, Scoped fits .block (s.enter label kind []) body inner ∧
        f inner = .ok b s' := by
  obtain ⟨_, mid, hmid, htail⟩ := bind_ok h
  have hc := hcondition s mid _ hmid
  obtain rfl := hc.expression_eq
  obtain ⟨_, inner, henter, htail⟩ := bind_ok htail
  cases henter
  obtain ⟨_, inner, hinner, htail⟩ := bind_ok htail
  exact ⟨hc, _, inner, hbody _ inner _ hinner, htail⟩

theorem eq_absent {part : Node} (h : part.isAbsent = true) : part = .absent := by
  cases part <;> first
    | rfl
    | exact nomatch h

theorem scoped_ifElse {condition body alternative : Node} {elifs : List Node}
    (hcondition : Sound fits .expression condition) (hbody : Sound fits .block body)
    (helifs : ∀ e ∈ elifs, Sound fits .elif e)
    (halternative : Sound fits .alternative alternative) :
    Sound fits .statement (.ifElse condition body elifs alternative) := by
  intro s s' u h
  rw [node] at h
  obtain ⟨hc, label, inner, hb, hrest⟩ := scoped_guarded hcondition hbody h
  obtain ⟨_, outer, hleave, hrest⟩ := bind_ok hrest
  cases hleave
  rw [hb.leave_eq] at hrest
  obtain ⟨_, mid, hmid, hlast⟩ := bind_ok hrest
  obtain ⟨rfl, he⟩ := scoped_nodes Scoped.elif_eq helifs hmid
  -- the analyzer passes over an alternative that is not there
  by_cases habsent : alternative.isAbsent = true
  · rw [if_pos habsent] at hlast
    cases hlast
    obtain rfl := eq_absent habsent
    exact .ifElse hc hb he .noAlternative
  · rw [if_neg habsent] at hlast
    have ha := halternative _ s' _ hlast
    obtain rfl := ha.alternative_eq
    exact .ifElse hc hb he ha

theorem scoped_forBlock {name : String} {value body : Node}
    (hvalue : Sound fits .expression value) (hbody : Sound fits .block body) {u : Unit}
    (h : (do
      enterBlock "for_statement_" .forBlock
      node fits (.assignment (.identifier name) value)
      node fits body
      leave) s = .ok u s') :
    s' = s ∧ ∃ label inner,
      Scoped fits .expression (s.enter label .forBlock []) value (s.enter label .forBlock []) ∧
      Scoped fits .block (s.enter label .forBlock []) body inner := by
  obtain ⟨_, inner, henter, hrest⟩ := bind_ok h
  cases henter
  obtain ⟨_, mid, hinitial, hrest⟩ := bind_ok hrest
  rw [node] at hinitial
  obtain ⟨_, target, htarget, hinitial⟩ := bind_ok hinitial
  obtain rfl := checkTarget_ok htarget
  have hv := hvalue _ mid _ hinitial
  obtain rfl := hv.expression_eq
  obtain ⟨_, inner, hinner, hleave⟩ := bind_ok hrest
  have hb := hbody _ inner _ hinner
  cases hleave
  exact ⟨hb.leave_eq, _, inner, hv, hb⟩

theorem scoped_forLoop {name : String} {value termination step body : Node}
    (hvalue : Sound fits .expression value) (htermination : Sound fits .expression termination)
    (hstep : Sound fits .optional step) (hbody : Sound fits .block body) :
    Sound fits .statement
      (.forLoop (.assignment (.identifier name) value) termination step body) := by
  intro s s' u h
  rw [node] at h
  obtain ⟨_, mid, hmid, hrest⟩ := bind_ok h
  have ht := htermination s mid _ hmid
  obtain rfl := ht.expression_eq
  by_cases habsent : step.isAbsent = true
  · simp only [habsent, if_true] at hrest
    obtain ⟨rfl, label, inner, hv, hb⟩ := scoped_forBlock hvalue hbody hrest
    obtain rfl := eq_absent habsent
    exact .forLoop ht .absent hv hb
  · simp only [habsent] at hrest
    obtain ⟨_, after, hafter, hlast⟩ := bind_ok hrest
    have hs := hstep _ after _ hafter
    obtain rfl := hs.optional_eq
    obtain ⟨rfl, label, inner, hv, hb⟩ := scoped_forBlock hvalue hbody hlast
    exact .forLoop ht hs hv hb

end Analysis

/-- The categories of the parts that are analyzed. -/
def Category.IsAnalyzed : Category → Prop
  | .name | .type | .parameter | .program => False
  | _ => True

/-- What the analysis accepts is well scoped. -/
theorem Formed.sound {fits : Symbol → Bool} {c : Category} {part : Node}
    (h : Formed IsWord c part) (hc : c.IsAnalyzed) : Analysis.Sound fits c part := by
  induction h with
  | name _ | type _ | parameter _ _ _ _ | program _ _ => exact absurd hc fun h => h
  | identifier hword =>
      intro s s' u h
      rw [Analysis.node] at h
      obtain ⟨⟨symbol, hfound, hfits⟩, rfl⟩ := Analysis.checkName_ok h
      exact .identifier hword hfound hfits
  | number lexeme => intro s s' u h; cases h; exact .number lexeme
  | string lexeme => intro s s' u h; cases h; exact .string lexeme
  | boolean lexeme => intro s s' u h; cases h; exact .boolean lexeme
  | functionCall hcallee _ _ iharguments =>
      cases hcallee
      intro s s' u h
      rw [Analysis.node] at h
      obtain ⟨_, mid, hcheck, htail⟩ := Analysis.bind_ok h
      obtain ⟨⟨f, hfound, hcount⟩, rfl⟩ := Analysis.checkFunction_ok hcheck
      obtain ⟨rfl, harguments⟩ := Analysis.scoped_nodes Scoped.expression_eq
        (fun a ha => iharguments a ha trivial) htail
      exact .functionCall hfound hcount harguments
  | binary operator _ _ ihleft ihright =>
      intro s s' u h
      rw [Analysis.node] at h
      obtain ⟨rfl, hl, hr⟩ := Analysis.scoped_pair (ihleft trivial) (ihright trivial) h
      exact .binary operator hl hr
  | logical operator _ _ ihleft ihright =>
      intro s s' u h
      rw [Analysis.node] at h
      obtain ⟨rfl, hl, hr⟩ := Analysis.scoped_pair (ihleft trivial) (ihright trivial) h
      exact .logical operator hl hr
  | comparison comparator _ _ ihleft ihright =>
      intro s s' u h
      rw [Analysis.node] at h
      obtain ⟨rfl, hl, hr⟩ := Analysis.scoped_pair (ihleft trivial) (ihright trivial) h
      exact .comparison comparator hl hr
  | unary operator _ ih =>
      intro s s' u h
      rw [Analysis.node] at h
      have ho := ih trivial s s' u h
      obtain rfl := ho.expression_eq
      exact .unary operator ho
  | negation operator _ ih =>
      intro s s' u h
      rw [Analysis.node] at h
      have ho := ih trivial s s' u h
      obtain rfl := ho.expression_eq
      exact .negation operator ho
  | truth _ ih =>
      intro s s' u h
      rw [Analysis.node] at h
      have ho := ih trivial s s' u h
      obtain rfl := ho.expression_eq
      exact .truth ho
  | absent => intro s s' u h; exact nomatch h
  | noAlternative => intro s s' u h; exact nomatch h
  | present _ ih =>
      intro s s' u h
      have hnode := ih trivial s s' u h
      obtain rfl := hnode.expression_eq
      exact .present hnode
  | variableDecl htype hnames _ hlength _ _ ihvalues =>
      cases htype
      intro s s' u h
      rw [Analysis.node] at h
      exact Analysis.scoped_variables hnames (fun v hv => ihvalues v hv trivial) hlength h
  | constantDecl htype hnames _ hlength _ _ ihvalues =>
      cases htype
      intro s s' u h
      rw [Analysis.node] at h
      exact Analysis.scoped_constants hnames (fun v hv => ihvalues v hv trivial) hlength h
  | assignment htarget _ _ ihvalue =>
      cases htarget
      intro s s' u h
      rw [Analysis.node] at h
      obtain ⟨_, mid, hcheck, htail⟩ := Analysis.bind_ok h
      obtain rfl := Analysis.checkTarget_ok hcheck
      have hv := ihvalue trivial _ s' _ htail
      obtain rfl := hv.expression_eq
      exact .assignment hv
  | give _ ih =>
      intro s s' u h
      rw [Analysis.node] at h
      obtain ⟨b, mid, hcheck, htail⟩ := Analysis.bind_ok h
      obtain ⟨habsent, rfl⟩ := Analysis.checkGive_ok hcheck
      cases b with
      | false =>
          obtain rfl := habsent rfl
          cases htail
          exact .give .absent
      | true =>
          have hv := ih trivial _ s' _ htail
          obtain rfl := hv.optional_eq
          exact .give hv
  | display _ ih =>
      intro s s' u h
      rw [Analysis.node] at h
      have hv := ih trivial s s' u h
      obtain rfl := hv.expression_eq
      exact .display hv
  | functionDecl hname _ htype _ _ _ _ ihbody =>
      cases hname
      cases htype
      exact Analysis.scoped_functionDecl (ihbody trivial)
  | procedureDecl hname _ _ _ _ ihbody =>
      cases hname
      exact Analysis.scoped_procedureDecl (ihbody trivial)
  | procedureCall hcallee _ _ iharguments =>
      cases hcallee
      intro s s' u h
      rw [Analysis.node] at h
      obtain ⟨_, mid, hcheck, htail⟩ := Analysis.bind_ok h
      obtain ⟨⟨p, hfound, hcount⟩, rfl⟩ := Analysis.checkProcedure_ok hcheck
      obtain ⟨rfl, harguments⟩ := Analysis.scoped_nodes Scoped.expression_eq
        (fun a ha => iharguments a ha trivial) htail
      exact .procedureCall hfound hcount harguments
  | ifElse _ _ _ _ ihcondition ihbody ihelifs ihalternative =>
      exact Analysis.scoped_ifElse (ihcondition trivial) (ihbody trivial)
        (fun e he => ihelifs e he trivial) (ihalternative trivial)
  | whileLoop _ _ ihcondition ihbody =>
      intro s s' u h
      rw [Analysis.node] at h
      obtain ⟨hc, label, inner, hb, htail⟩ :=
        Analysis.scoped_guarded (ihcondition trivial) (ihbody trivial) h
      cases htail
      rw [hb.leave_eq]
      exact .whileLoop hc hb
  | forLoop htarget _ _ _ _ _ ihvalue ihtermination ihstep ihbody =>
      cases htarget
      exact Analysis.scoped_forLoop (ihvalue trivial) (ihtermination trivial) (ihstep trivial)
        (ihbody trivial)
  | skip =>
      intro s s' u h
      rw [Analysis.node] at h
      obtain ⟨b, mid, hinside, htail⟩ := Analysis.bind_ok h
      obtain ⟨rfl, rfl⟩ := Analysis.insideWhile_ok hinside
      obtain ⟨hwhile, rfl⟩ := Analysis.test_ok htail
      exact .skip hwhile
  | stop =>
      intro s s' u h
      rw [Analysis.node] at h
      obtain ⟨b, mid, hinside, htail⟩ := Analysis.bind_ok h
      obtain ⟨rfl, rfl⟩ := Analysis.insideWhile_ok hinside
      obtain ⟨hwhile, rfl⟩ := Analysis.test_ok htail
      exact .stop hwhile
  | block _ ih => exact Analysis.scoped_block fun part hpart => ih part hpart trivial
  | elif _ _ ihcondition ihbody =>
      intro s s' u h
      rw [Analysis.node] at h
      obtain ⟨hc, label, inner, hb, htail⟩ :=
        Analysis.scoped_guarded (ihcondition trivial) (ihbody trivial) h
      cases htail
      rw [hb.leave_eq]
      exact .elif hc hb
  | otherwise _ ih =>
      intro s s' u h
      rw [Analysis.node] at h
      obtain ⟨_, inner, henter, htail⟩ := Analysis.bind_ok h
      cases henter
      obtain ⟨_, inner, hinner, htail⟩ := Analysis.bind_ok htail
      have hb := ih trivial _ inner _ hinner
      cases htail
      rw [hb.leave_eq]
      exact .otherwise hb

/-- A program that is parsed and analyzed without a fault is well formed and well scoped. -/
theorem scoped_of_accepted {fits : Symbol → Bool} {source : String} {tree : Node}
    (hparse : parse source = .ok tree)
    (haccepted : (analyzeWith fits Scopes.initial tree).1 = none) :
    ∃ body behind, tree = .program body ∧ Formed IsWord .block body ∧
      Scoped fits .block Scopes.initial body behind := by
  cases parse_formed hparse with
  | @program body hbody =>
      unfold analyzeWith at haccepted
      cases hnode : Analysis.node fits (.program body) Scopes.initial with
      | error e after => rw [hnode] at haccepted; exact nomatch haccepted
      | ok u after =>
          rw [Analysis.node] at hnode
          exact ⟨body, after, rfl, hbody, hbody.sound trivial _ after u hnode⟩

end BraceScript
