import BraceScript.Parser.Statement
import BraceScript.Proofs.Attempts

/-! # Grammar — the trees that programs have

    One type holds every part of a program, well formed or not.  `Formed` says which trees are
    well formed, by category: what stands in the place of an expression is an expression, names are
    words, and so on.

    * `parse_formed`: every tree that the parser makes is the tree of a well-formed program, and
      no name in it is a keyword. -/

namespace BraceScript

/-- What a part of a program is. -/
inductive Category where
  | name | type | parameter
  | expression
  /-- An expression that may be left out. -/
  | optional
  | statement | block | elif
  /-- An else branch that may be left out. -/
  | alternative
  | program
  deriving DecidableEq, Repr

/-- Well-formed parts of programs whose names are of the class `W`. -/
inductive Formed (W : String → Prop) : Category → Node → Prop
  | name {name : String} (h : W name) : Formed W .name (.identifier name)
  | type (name : String) : Formed W .type (.typeName name)
  | parameter {name type : Node} (hname : Formed W .name name) (htype : Formed W .type type) :
      Formed W .parameter (.parameter name type)
  | identifier {name : String} (h : W name) : Formed W .expression (.identifier name)
  | number (lexeme : String) : Formed W .expression (.number lexeme)
  | string (lexeme : String) : Formed W .expression (.string lexeme)
  | boolean (lexeme : String) : Formed W .expression (.boolean lexeme)
  | functionCall {callee : Node} {arguments : List Node} (hcallee : Formed W .name callee)
      (harguments : ∀ a ∈ arguments, Formed W .expression a) :
      Formed W .expression (.functionCall callee arguments)
  | binary {left right : Node} (operator : String) (hleft : Formed W .expression left)
      (hright : Formed W .expression right) : Formed W .expression (.binary left operator right)
  | unary {operand : Node} (operator : String) (hoperand : Formed W .expression operand) :
      Formed W .expression (.unary operator operand)
  | logical {left right : Node} (operator : String) (hleft : Formed W .expression left)
      (hright : Formed W .expression right) : Formed W .expression (.logical left operator right)
  | negation {operand : Node} (operator : String) (hoperand : Formed W .expression operand) :
      Formed W .expression (.negation operator operand)
  | comparison {left right : Node} (comparator : String) (hleft : Formed W .expression left)
      (hright : Formed W .expression right) :
      Formed W .expression (.comparison left comparator right)
  | truth {expression : Node} (h : Formed W .expression expression) :
      Formed W .expression (.truth expression)
  | absent : Formed W .optional .absent
  | present {node : Node} (h : Formed W .expression node) : Formed W .optional node
  | variableDecl {type : Node} {names values : List Node} (htype : Formed W .type type)
      (hnames : ∀ n ∈ names, Formed W .name n) (hvalues : ∀ v ∈ values, Formed W .expression v)
      (hlength : values = [] ∨ names.length = values.length) :
      Formed W .statement (.variableDecl type names values)
  | constantDecl {type : Node} {names values : List Node} (htype : Formed W .type type)
      (hnames : ∀ n ∈ names, Formed W .name n) (hvalues : ∀ v ∈ values, Formed W .expression v)
      (hlength : names.length = values.length) :
      Formed W .statement (.constantDecl type names values)
  | assignment {target value : Node} (htarget : Formed W .name target)
      (hvalue : Formed W .expression value) : Formed W .statement (.assignment target value)
  | give {value : Node} (h : Formed W .optional value) : Formed W .statement (.give value)
  | display {value : Node} (h : Formed W .expression value) : Formed W .statement (.display value)
  | functionDecl {name type body : Node} {parameters : List Node} (hname : Formed W .name name)
      (hparameters : ∀ p ∈ parameters, Formed W .parameter p) (htype : Formed W .type type)
      (hbody : Formed W .block body) :
      Formed W .statement (.functionDecl name parameters type body)
  | procedureDecl {name body : Node} {parameters : List Node} (hname : Formed W .name name)
      (hparameters : ∀ p ∈ parameters, Formed W .parameter p) (hbody : Formed W .block body) :
      Formed W .statement (.procedureDecl name parameters body)
  | procedureCall {callee : Node} {arguments : List Node} (hcallee : Formed W .name callee)
      (harguments : ∀ a ∈ arguments, Formed W .expression a) :
      Formed W .statement (.procedureCall callee arguments)
  | ifElse {condition body alternative : Node} {elifs : List Node}
      (hcondition : Formed W .expression condition) (hbody : Formed W .block body)
      (helifs : ∀ e ∈ elifs, Formed W .elif e) (halternative : Formed W .alternative alternative) :
      Formed W .statement (.ifElse condition body elifs alternative)
  | whileLoop {condition body : Node} (hcondition : Formed W .expression condition)
      (hbody : Formed W .block body) : Formed W .statement (.whileLoop condition body)
  | forLoop {target value termination step body : Node} (htarget : Formed W .name target)
      (hvalue : Formed W .expression value) (htermination : Formed W .expression termination)
      (hstep : Formed W .optional step) (hbody : Formed W .block body) :
      Formed W .statement (.forLoop (.assignment target value) termination step body)
  | skip : Formed W .statement .skip
  | stop : Formed W .statement .stop
  | block {statements : List Node} (h : ∀ s ∈ statements, Formed W .statement s) :
      Formed W .block (.block statements)
  | elif {condition body : Node} (hcondition : Formed W .expression condition)
      (hbody : Formed W .block body) : Formed W .elif (.elif condition body)
  | noAlternative : Formed W .alternative .absent
  | otherwise {body : Node} (h : Formed W .block body) : Formed W .alternative (.otherwise body)
  | program {body : Node} (h : Formed W .block body) : Formed W .program (.program body)

/-- An expression, whatever its names are. -/
abbrev Node.IsExpression (node : Node) : Prop := Formed (fun _ => True) .expression node

/-- The operands of an operation. -/
def Node.operands : Node → List Node
  | .binary left _ right | .logical left _ right | .comparison left _ right => [left, right]
  | .unary _ operand | .negation _ operand | .truth operand => [operand]
  | _ => []

theorem Node.operands_subset (node : Node) : node.operands ⊆ node.children := by
  cases node <;> simp [operands, children]

/-- Literals and operations: what comes to a value by its operands alone. -/
def Node.IsOperation : Node → Prop
  | .number _ | .string _ | .boolean _ | .binary _ _ _ | .logical _ _ _ | .comparison _ _ _
  | .unary _ _ | .negation _ _ | .truth _ => True
  | _ => False

/-- The operands of an expression are expressions. -/
theorem Formed.operand {W : String → Prop} {node part : Node} (h : Formed W .expression node)
    (hpart : part ∈ node.operands) : Formed W .expression part := by
  cases h with
  | binary _ hleft hright | logical _ hleft hright | comparison _ hleft hright =>
      simp only [Node.operands, List.mem_cons, List.not_mem_nil, or_false] at hpart
      rcases hpart with rfl | rfl
      · exact hleft
      · exact hright
  | unary _ h | negation _ h | truth h =>
      obtain rfl := List.mem_singleton.mp hpart
      exact h
  | _ => exact absurd hpart List.not_mem_nil

theorem Formed.mono {W W' : String → Prop} {c : Category} {node : Node}
    (hW : ∀ name, W name → W' name) (h : Formed W c node) : Formed W' c node := by
  induction h with
  | name h => exact .name (hW _ h)
  | identifier h => exact .identifier (hW _ h)
  | _ => constructor <;> assumption

/-- Parts of well-formed parts are well formed, and they are no programs. -/
theorem Formed.children {W : String → Prop} {c : Category} {node part : Node}
    (h : Formed W c node) (hpart : part ∈ node.children) :
    ∃ c', Formed W c' part ∧ c' ≠ .program := by
  induction h with
  | name _ | type _ | identifier _ | number _ | string _ | boolean _ | absent | skip | stop
  | noAlternative => exact nomatch hpart
  | present _ ih => exact ih hpart
  | parameter hname htype =>
      simp only [Node.children, List.mem_cons, List.not_mem_nil, or_false] at hpart
      rcases hpart with rfl | rfl
      · exact ⟨_, hname, nofun⟩
      · exact ⟨_, htype, nofun⟩
  | functionCall hcallee harguments | procedureCall hcallee harguments =>
      rcases List.mem_cons.mp hpart with rfl | hpart
      · exact ⟨_, hcallee, nofun⟩
      · exact ⟨_, harguments part hpart, nofun⟩
  | binary _ hleft hright | logical _ hleft hright | comparison _ hleft hright =>
      simp only [Node.children, List.mem_cons, List.not_mem_nil, or_false] at hpart
      rcases hpart with rfl | rfl
      · exact ⟨_, hleft, nofun⟩
      · exact ⟨_, hright, nofun⟩
  | unary _ h | negation _ h | truth h | give h | display h | otherwise h | program h =>
      obtain rfl := List.mem_singleton.mp hpart
      exact ⟨_, h, nofun⟩
  | variableDecl htype hnames hvalues _ | constantDecl htype hnames hvalues _ =>
      simp only [Node.children, List.mem_cons, List.mem_append] at hpart
      rcases hpart with rfl | hpart | hpart
      · exact ⟨_, htype, nofun⟩
      · exact ⟨_, hnames part hpart, nofun⟩
      · exact ⟨_, hvalues part hpart, nofun⟩
  | assignment htarget hvalue =>
      simp only [Node.children, List.mem_cons, List.not_mem_nil, or_false] at hpart
      rcases hpart with rfl | rfl
      · exact ⟨_, htarget, nofun⟩
      · exact ⟨_, hvalue, nofun⟩
  | functionDecl hname hparameters htype hbody =>
      simp only [Node.children, List.mem_cons, List.mem_append, List.not_mem_nil, or_false] at hpart
      rcases hpart with rfl | hpart | rfl | rfl
      · exact ⟨_, hname, nofun⟩
      · exact ⟨_, hparameters part hpart, nofun⟩
      · exact ⟨_, htype, nofun⟩
      · exact ⟨_, hbody, nofun⟩
  | procedureDecl hname hparameters hbody =>
      simp only [Node.children, List.mem_cons, List.mem_append, List.not_mem_nil, or_false] at hpart
      rcases hpart with rfl | hpart | rfl
      · exact ⟨_, hname, nofun⟩
      · exact ⟨_, hparameters part hpart, nofun⟩
      · exact ⟨_, hbody, nofun⟩
  | ifElse hcondition hbody helifs halternative =>
      simp only [Node.children, List.mem_cons, List.mem_append, List.not_mem_nil, or_false] at hpart
      rcases hpart with rfl | rfl | hpart | rfl
      · exact ⟨_, hcondition, nofun⟩
      · exact ⟨_, hbody, nofun⟩
      · exact ⟨_, helifs part hpart, nofun⟩
      · exact ⟨_, halternative, nofun⟩
  | whileLoop hcondition hbody | elif hcondition hbody =>
      simp only [Node.children, List.mem_cons, List.not_mem_nil, or_false] at hpart
      rcases hpart with rfl | rfl
      · exact ⟨_, hcondition, nofun⟩
      · exact ⟨_, hbody, nofun⟩
  | forLoop htarget hvalue htermination hstep hbody =>
      simp only [Node.children, List.mem_cons, List.not_mem_nil, or_false] at hpart
      rcases hpart with rfl | rfl | rfl | rfl
      · exact ⟨_, .assignment htarget hvalue, nofun⟩
      · exact ⟨_, htermination, nofun⟩
      · exact ⟨_, hstep, nofun⟩
      · exact ⟨_, hbody, nofun⟩
  | block h => exact ⟨_, h part hpart, nofun⟩

/-! ## Words -/

/-- A token that is an identifier has a word as its lexeme. -/
def Token.Worded (t : Token) : Prop :=
  t.kind = .identifier → ∃ name, t.lexeme = some name ∧ IsWord name

/-- Every token that is read is worded. -/
theorem Cursor.worded_next {c c' : Cursor} {t : Token} (h : c.next = (.ok t, c')) :
    t.Worded := by
  intro hkind
  have hspelled := Cursor.spelled_next h
  rw [Token.Spelled, hkind] at hspelled
  obtain ⟨name, hlexeme, hword, -⟩ := hspelled
  exact ⟨name, hlexeme, hword⟩

/-! ## What parsers make -/

namespace Parser

variable {α β : Type}

/-- A parser makes something with the property `P`, and keeps the token in hand worded. -/
def Makes (P : α → Prop) (p : Parser α) : Prop :=
  ∀ s a after, s.token.Worded → p s = .ok a after → after.token.Worded ∧ P a

namespace Makes

variable {P : α → Prop} {Q : β → Prop}

theorem pure {a : α} (h : P a) : Makes P (Pure.pure a : Parser α) := by
  intro s b after hs hrun
  cases hrun
  exact ⟨hs, h⟩

theorem bind {p : Parser α} {f : α → Parser β} (hp : Makes P p) (hf : ∀ a, P a → Makes Q (f a)) :
    Makes Q (p >>= f) := by
  intro s b after hs hrun
  change EStateM.bind p f s = .ok b after at hrun
  unfold EStateM.bind at hrun
  cases hmid : p s with
  | ok a mid =>
      rw [hmid] at hrun
      obtain ⟨hmids, ha⟩ := hp s a mid hs hmid
      exact hf a ha mid b after hmids hrun
  | error e mid => rw [hmid] at hrun; exact nomatch hrun

theorem either {c : Prop} [Decidable c] {p q : Parser α} (hp : Makes P p) (hq : Makes P q) :
    Makes P (if c then p else q) := by
  split
  · exact hp
  · exact hq

theorem throw (e : ParseFault) : Makes P (MonadExcept.throw e : Parser α) :=
  fun _ _ _ _ hrun => nomatch hrun

theorem reject (cause : ParseCause) : Makes P (Parser.reject cause : Parser α) :=
  fun _ _ _ _ hrun => nomatch hrun

theorem kind : Makes (fun _ => True) Parser.kind := by
  intro s k after hs hrun
  cases hrun
  exact ⟨hs, trivial⟩

theorem inHand : Makes Token.Worded Parser.inHand := by
  intro s t after hs hrun
  cases hrun
  exact ⟨hs, hs⟩

theorem shift : Makes (fun _ => True) Parser.shift := by
  intro s u after hs hrun
  unfold Parser.shift at hrun
  split at hrun
  · next hnext =>
      cases hrun
      exact ⟨Cursor.worded_next hnext, trivial⟩
  · exact nomatch hrun

theorem peekNext : Makes (fun _ => True) Parser.peekNext := by
  intro s u after hs hrun
  unfold Parser.peekNext at hrun
  split at hrun
  · cases hrun
    exact ⟨hs, trivial⟩
  · exact nomatch hrun

theorem lookAhead (p : Parser α) (test : α → State → Bool) :
    Makes (fun _ => True) (Parser.lookAhead p test) := by
  intro s u after hs hrun
  unfold Parser.lookAhead at hrun
  split at hrun
  · cases hrun
    exact ⟨hs, trivial⟩
  · cases hrun
    exact ⟨hs, trivial⟩

theorem consume (k : Kind) : Makes (fun t => t.Worded ∧ t.kind = k) (Parser.consume k) := by
  refine inHand.bind fun t ht => ?_
  split
  · next hk => exact shift.bind fun _ _ => .pure ⟨ht, hk⟩
  · exact .reject _

/-- A token is taken. -/
theorem taking (k : Kind) {f : Token → Parser β} (hf : ∀ t, Makes Q (f t)) :
    Makes Q (Parser.consume k >>= f) := (consume k).bind fun t _ => hf t

/-- A token is passed over. -/
theorem passing (k : Kind) {p : Parser β} (hp : Makes Q p) :
    Makes Q (Parser.consume k >>= fun _ => p) := taking k fun _ => hp

/-- What comes next depends on the token in hand. -/
theorem seeing {f : Kind → Parser β} (hf : ∀ k, Makes Q (f k)) : Makes Q (Parser.kind >>= f) :=
  kind.bind fun k _ => hf k

theorem identifier : Makes (fun node => ∃ name, IsWord name ∧ node = .identifier name)
    Parser.identifier := by
  refine bind (P := IsWord) ?_ fun name hname => .pure ⟨name, hname, rfl⟩
  refine (consume .identifier).bind fun t ht => .pure ?_
  obtain ⟨name, hlexeme, hword⟩ := ht.1 ht.2
  rw [hlexeme]
  exact hword

theorem name : Makes (Formed IsWord .name) Parser.identifier := by
  intro s node after hs hrun
  obtain ⟨hafter, name, hword, rfl⟩ := identifier s node after hs hrun
  exact ⟨hafter, .name hword⟩

theorem lexeme (k : Kind) : Makes (fun _ => True) (Parser.consumeLexeme k) :=
  (consume k).bind fun _ _ => .pure trivial

theorem typeName : Makes (Formed IsWord .type) Parser.typeName :=
  inHand.bind fun _ _ => either (passing _ (.pure (.type _))) (.reject _)

theorem parameter : Makes (Formed IsWord .parameter) Parser.parameter :=
  typeName.bind fun _ htype => name.bind fun _ hname => .pure (.parameter hname htype)

theorem commaItems {item : Parser Node} {P : Node → Prop} (hitem : Makes P item) (depth : Nat) :
    Makes (fun nodes => ∀ n ∈ nodes, P n) (Parser.commaItems item depth) := by
  induction depth with
  | zero => exact .throw _
  | succ depth ih =>
      refine seeing fun k => either (passing .comma ?_) (.pure nofun)
      exact hitem.bind fun _ hfirst => ih.bind fun _ hrest =>
        .pure (List.forall_mem_cons.mpr ⟨hfirst, hrest⟩)

theorem commaList {item : Parser Node} {P : Node → Prop} (hitem : Makes P item) (depth : Nat) :
    Makes (fun nodes => ∀ n ∈ nodes, P n) (Parser.commaList item depth) :=
  hitem.bind fun _ hfirst => (commaItems hitem depth).bind fun _ hrest =>
    .pure (List.forall_mem_cons.mpr ⟨hfirst, hrest⟩)

end Makes

/-! ### Expressions -/

/-- Expressions are made. -/
abbrev MakesExpression (p : Parser Node) : Prop := Makes (Formed IsWord .expression) p

/-- Lists of expressions are made. -/
abbrev MakesExpressions (p : Parser (List Node)) : Prop :=
  Makes (fun nodes => ∀ n ∈ nodes, Formed IsWord .expression n) p

/-- Every parser of expressions makes expressions, at a depth. -/
structure ExpressionParsers (depth : Nat) : Prop where
  expression : MakesExpression (Parser.expression depth)
  expressionList : MakesExpressions (Parser.expressionList depth)
  moreExpressions : MakesExpressions (Parser.moreExpressions depth)
  boolean : MakesExpression (Parser.boolean depth)
  disjunction : MakesExpression (Parser.disjunction depth)
  moreDisjuncts : ∀ left, Formed IsWord .expression left →
    MakesExpression (Parser.moreDisjuncts depth left)
  conjunction : MakesExpression (Parser.conjunction depth)
  moreConjuncts : ∀ left, Formed IsWord .expression left →
    MakesExpression (Parser.moreConjuncts depth left)
  negation : MakesExpression (Parser.negation depth)
  booleanPrimary : MakesExpression (Parser.booleanPrimary depth)
  arithmetic : MakesExpression (Parser.arithmetic depth)
  sum : MakesExpression (Parser.sum depth)
  moreTerms : ∀ left, Formed IsWord .expression left →
    MakesExpression (Parser.moreTerms depth left)
  product : MakesExpression (Parser.product depth)
  moreFactors : ∀ left, Formed IsWord .expression left →
    MakesExpression (Parser.moreFactors depth left)
  power : MakesExpression (Parser.power depth)
  signed : MakesExpression (Parser.signed depth)
  primary : MakesExpression (Parser.primary depth)
  functionCall : MakesExpression (Parser.functionCall depth)
  arguments : MakesExpressions (Parser.argumentsBeforeClose depth)

namespace ExpressionParsers

open Makes

theorem zero : ExpressionParsers 0 := by
  constructor <;> first
    | exact Makes.throw _
    | exact fun _ _ => Makes.throw _

theorem startsBoolean (depth : Nat) : Makes (fun _ => True) (Parser.startsBoolean depth) := by
  cases depth with
  | zero => exact .throw _
  | succ depth => exact Makes.inHand.bind fun _ _ => Makes.lookAhead _ _

variable {depth : Nat} (h : ExpressionParsers depth)

include h

theorem succ_booleanPrimary : MakesExpression (Parser.booleanPrimary (depth + 1)) := by
  refine seeing fun k => either ?_ (either ?_ ?_)
  · exact (lexeme _).bind fun _ _ => .pure (.boolean _)
  · exact passing _ (h.boolean.bind fun _ hinner => passing _ (.pure hinner))
  · refine h.arithmetic.bind fun left hleft => seeing fun k => either ?_ (.pure (.truth hleft))
    exact passing _ (h.arithmetic.bind fun right hright => .pure (.comparison _ hleft hright))

theorem succ_primary : MakesExpression (Parser.primary (depth + 1)) := by
  refine seeing fun k => either ?_ (either ?_ (either ?_ (either ?_ (.reject _))))
  · exact (lexeme _).bind fun _ _ => .pure (.number _)
  · exact (lexeme _).bind fun _ _ => .pure (.string _)
  · refine Makes.peekNext.bind fun _ _ => either h.functionCall ?_
    intro s node after hs hrun
    obtain ⟨hafter, name, hword, rfl⟩ := Makes.identifier s node after hs hrun
    exact ⟨hafter, .identifier hword⟩
  · exact passing _ (h.arithmetic.bind fun _ hinner => passing _ (.pure hinner))

theorem succ : ExpressionParsers (depth + 1) where
  expression := (startsBoolean depth).bind fun _ _ => either h.boolean h.arithmetic
  expressionList := h.expression.bind fun _ hfirst => h.moreExpressions.bind fun _ hrest =>
    .pure (List.forall_mem_cons.mpr ⟨hfirst, hrest⟩)
  moreExpressions := seeing fun _ => either
    (passing _ (h.expression.bind fun _ hfirst => h.moreExpressions.bind fun _ hrest =>
      .pure (List.forall_mem_cons.mpr ⟨hfirst, hrest⟩)))
    (.pure nofun)
  boolean := h.disjunction
  disjunction := h.conjunction.bind h.moreDisjuncts
  moreDisjuncts _ hleft := seeing fun _ => either
    (taking _ fun _ => h.conjunction.bind fun _ hright =>
      h.moreDisjuncts _ (.logical _ hleft hright))
    (.pure hleft)
  conjunction := h.negation.bind h.moreConjuncts
  moreConjuncts _ hleft := seeing fun _ => either
    (taking _ fun _ => h.negation.bind fun _ hright =>
      h.moreConjuncts _ (.logical _ hleft hright))
    (.pure hleft)
  negation := seeing fun _ => either
    (taking _ fun _ => h.booleanPrimary.bind fun _ hoperand =>
      .pure (.negation _ hoperand))
    h.booleanPrimary
  booleanPrimary := h.succ_booleanPrimary
  arithmetic := h.sum
  sum := h.product.bind h.moreTerms
  moreTerms _ hleft := seeing fun _ => either
    (passing _ (h.product.bind fun _ hright => h.moreTerms _ (.binary _ hleft hright)))
    (.pure hleft)
  product := h.power.bind h.moreFactors
  moreFactors _ hleft := seeing fun _ => either
    (passing _ (h.power.bind fun _ hright => h.moreFactors _ (.binary _ hleft hright)))
    (.pure hleft)
  power := h.signed.bind fun _ hleft => seeing fun _ => either
    (taking _ fun _ => h.power.bind fun _ hright => .pure (.binary _ hleft hright))
    (.pure hleft)
  signed := seeing fun _ => either
    (passing _ (h.signed.bind fun _ hoperand => .pure (.unary _ hoperand))) h.primary
  primary := h.succ_primary
  functionCall := name.bind fun _ hcallee => passing _ (h.arguments.bind fun _ harguments =>
    passing _ (.pure (.functionCall hcallee harguments)))
  arguments := seeing fun _ => either (.pure nofun) h.expressionList

end ExpressionParsers

theorem expressionParsers (depth : Nat) : ExpressionParsers depth := by
  induction depth with
  | zero => exact .zero
  | succ depth ih => exact ih.succ

/-! ### Statements -/

/-- Statements are made. -/
abbrev MakesStatement (p : Parser Node) : Prop := Makes (Formed IsWord .statement) p

section

open Makes

variable (depth : Nat)

theorem makes_initialValues (names : List Node) :
    Makes (fun values => (∀ v ∈ values, Formed IsWord .expression v) ∧
      names.length = values.length) (Parser.initialValues names depth) := by
  refine (expressionParsers depth).expressionList.bind fun values hvalues => ?_
  split
  · next hlength => exact .pure ⟨hvalues, hlength⟩
  · exact .reject _

theorem makes_variableDeclaration : MakesStatement (Parser.variableDeclaration depth) := by
  refine passing _ (Makes.typeName.bind fun type htype => ?_)
  refine (Makes.commaList name depth).bind fun names hnames => seeing fun k => ?_
  refine either (passing _ ?_) ?_
  · exact (makes_initialValues depth names).bind fun values hvalues =>
      .pure (.variableDecl htype hnames hvalues.1 (.inr hvalues.2))
  · exact .pure (.variableDecl htype hnames nofun (.inl rfl))

theorem makes_constantDeclaration : MakesStatement (Parser.constantDeclaration depth) := by
  refine passing _ (Makes.typeName.bind fun type htype => ?_)
  refine (Makes.commaList name depth).bind fun names hnames => passing _ ?_
  exact (makes_initialValues depth names).bind fun values hvalues =>
    .pure (.constantDecl htype hnames hvalues.1 hvalues.2)

theorem makes_parametersBeforeClose :
    Makes (fun nodes => ∀ p ∈ nodes, Formed IsWord .parameter p)
      (Parser.parametersBeforeClose depth) :=
  seeing fun _ => either (.pure nofun) (Makes.commaList Makes.parameter depth)

theorem makes_procedureCall : MakesStatement (Parser.procedureCall depth) :=
  passing _ (name.bind fun _ hcallee => passing _ ((expressionParsers depth).arguments.bind
    fun _ harguments => passing _ (.pure (.procedureCall hcallee harguments))))

theorem makes_assignment :
    Makes (fun node => ∃ target value, Formed IsWord .name target ∧
      Formed IsWord .expression value ∧ node = .assignment target value)
      (Parser.assignment depth) :=
  name.bind fun target htarget => passing _ ((expressionParsers depth).expression.bind
    fun value hvalue => .pure ⟨target, value, htarget, hvalue, rfl⟩)

theorem makes_giveStatement : MakesStatement (Parser.giveStatement depth) :=
  passing _ (seeing fun _ => either (.pure (.give .absent))
    ((expressionParsers depth).expression.bind fun _ hvalue => .pure (.give (.present hvalue))))

theorem makes_showStatement : MakesStatement (Parser.showStatement depth) :=
  passing _ ((expressionParsers depth).expression.bind fun _ hvalue => .pure (.display hvalue))

theorem makes_stepOption : Makes (Formed IsWord .optional) (Parser.stepOption depth) := by
  refine seeing fun _ => either (passing _ ?_) (.pure .absent)
  intro s node after hs hrun
  obtain ⟨hafter, hnode⟩ := (expressionParsers depth).arithmetic s node after hs hrun
  exact ⟨hafter, .present hnode⟩

end

/-- Every parser of statements and blocks makes them, at a depth. -/
structure StatementParsers (depth : Nat) : Prop where
  block : Makes (Formed IsWord .block) (Parser.block depth)
  statements : Makes (fun nodes => ∀ n ∈ nodes, Formed IsWord .statement n)
    (Parser.statements depth)
  statement : MakesStatement (Parser.statement depth)
  functionDeclaration : MakesStatement (Parser.functionDeclaration depth)
  procedureDeclaration : MakesStatement (Parser.procedureDeclaration depth)
  ifStatement : MakesStatement (Parser.ifStatement depth)
  elifBranches : Makes (fun nodes => ∀ n ∈ nodes, Formed IsWord .elif n)
    (Parser.elifBranches depth)
  elifBranch : Makes (Formed IsWord .elif) (Parser.elifBranch depth)
  elseBranch : Makes (Formed IsWord .alternative) (Parser.elseBranch depth)
  whileStatement : MakesStatement (Parser.whileStatement depth)
  forStatement : MakesStatement (Parser.forStatement depth)

namespace StatementParsers

open Makes

theorem zero : StatementParsers 0 := by
  constructor <;> exact Makes.throw _

variable {depth : Nat} (h : StatementParsers depth)

include h

theorem succ_statements : Makes (fun nodes => ∀ n ∈ nodes, Formed IsWord .statement n)
    (Parser.statements (depth + 1)) := by
  refine seeing fun k => either (.pure nofun) (either (passing _ h.statements) ?_)
  refine h.statement.bind fun first hfirst => seeing fun k => either (passing _ ?_) (either ?_ ?_)
  · exact h.statements.bind fun rest hrest => .pure (List.forall_mem_cons.mpr ⟨hfirst, hrest⟩)
  · exact .pure (List.forall_mem_cons.mpr ⟨hfirst, nofun⟩)
  · exact .reject _

theorem succ_statement : MakesStatement (Parser.statement (depth + 1)) := by
  refine seeing fun k => ?_
  split
  · exact makes_variableDeclaration depth
  · exact makes_constantDeclaration depth
  · exact h.functionDeclaration
  · exact h.procedureDeclaration
  · exact makes_procedureCall depth
  · intro s node after hs hrun
    obtain ⟨hafter, target, value, htarget, hvalue, rfl⟩ :=
      makes_assignment depth s node after hs hrun
    exact ⟨hafter, .assignment htarget hvalue⟩
  · exact makes_giveStatement depth
  · exact makes_showStatement depth
  · exact h.ifStatement
  · exact h.whileStatement
  · exact h.forStatement
  · exact passing _ (.pure .skip)
  · exact passing _ (.pure .stop)
  · exact .reject _

theorem succ_ifStatement : MakesStatement (Parser.ifStatement (depth + 1)) := by
  refine passing _ ((expressionParsers depth).boolean.bind fun condition hcondition => ?_)
  refine h.block.bind fun body hbody => h.elifBranches.bind fun elifs helifs => ?_
  refine seeing fun k => either (h.elseBranch.bind fun alternative halternative => ?_) ?_
  · exact .pure (.ifElse hcondition hbody helifs halternative)
  · exact .pure (.ifElse hcondition hbody helifs .noAlternative)

theorem succ_forStatement : MakesStatement (Parser.forStatement (depth + 1)) := by
  refine passing _ ((makes_assignment depth).bind fun initial hinitial => passing _ ?_)
  obtain ⟨target, value, htarget, hvalue, rfl⟩ := hinitial
  refine (expressionParsers depth).arithmetic.bind fun termination htermination => ?_
  refine (makes_stepOption depth).bind fun step hstep => h.block.bind fun body hbody => ?_
  exact .pure (.forLoop htarget hvalue htermination hstep hbody)

theorem succ : StatementParsers (depth + 1) where
  block := passing _ (h.statements.bind fun _ hitems => passing _ (.pure (.block hitems)))
  statements := h.succ_statements
  statement := h.succ_statement
  functionDeclaration := passing _ (name.bind fun _ hname => passing _
    ((makes_parametersBeforeClose depth).bind fun _ hparameters => passing _
      (Makes.bind (passing _ Makes.typeName) fun _ htype => h.block.bind fun _ hbody =>
        .pure (.functionDecl hname hparameters htype hbody))))
  procedureDeclaration := passing _ (name.bind fun _ hname => passing _
    ((makes_parametersBeforeClose depth).bind fun _ hparameters => passing _
      (h.block.bind fun _ hbody => .pure (.procedureDecl hname hparameters hbody))))
  ifStatement := h.succ_ifStatement
  elifBranches := seeing fun _ => either
    (h.elifBranch.bind fun _ hfirst => h.elifBranches.bind fun _ hrest =>
      .pure (List.forall_mem_cons.mpr ⟨hfirst, hrest⟩))
    (.pure nofun)
  elifBranch := passing _ ((expressionParsers depth).boolean.bind fun _ hcondition =>
    h.block.bind fun _ hbody => .pure (.elif hcondition hbody))
  elseBranch := passing _ (h.block.bind fun _ hbody => .pure (.otherwise hbody))
  whileStatement := passing _ ((expressionParsers depth).boolean.bind fun _ hcondition =>
    h.block.bind fun _ hbody => .pure (.whileLoop hcondition hbody))
  forStatement := h.succ_forStatement

end StatementParsers

theorem statementParsers (depth : Nat) : StatementParsers depth := by
  induction depth with
  | zero => exact .zero
  | succ depth ih => exact ih.succ

theorem makes_wholeProgram (depth : Nat) :
    Makes (Formed IsWord .program) (Parser.wholeProgram depth) := by
  refine Makes.bind (P := Formed IsWord .program) ?_ fun tree htree => ?_
  · exact (statementParsers depth).block.bind fun _ hbody => .pure (.program hbody)
  · exact Makes.seeing fun _ => Makes.either (.pure htree) (.reject _)

end Parser

/-- Every tree that is parsed is the tree of a well-formed program. -/
theorem parse_formed {source : String} {tree : Node} (h : parse source = .ok tree) :
    Formed IsWord .program tree := by
  unfold parse Parser.parsePart at h
  split at h
  · exact nomatch h
  · next s hstart =>
      split at h
      · next after hrun =>
          obtain rfl := Except.ok.inj h
          refine (Parser.makes_wholeProgram _ s _ after ?_ hrun).2
          unfold Parser.start at hstart
          split at hstart
          · next hnext =>
              obtain rfl := Except.ok.inj hstart
              exact Cursor.worded_next hnext
          · exact nomatch hstart
      · exact nomatch h

end BraceScript
