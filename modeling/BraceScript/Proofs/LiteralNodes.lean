import BraceScript.Proofs.Nesting
import BraceScript.Proofs.Parts

/-! # Literal nodes — the literals of a program are those of its text

    The parser builds a node from every literal token that it takes, and no others.  So the literals
    of a tree, in the order in which they stand in it, are those of the tokens of its text: none is
    left out, made up or moved, although expressions are read twice to find out whether they are
    boolean.

    * `Token.literal?`: the node of a literal token;
    * `Parser.literal_takes`: with the token in hand, the parser builds that node;
    * `Parser.Collects`: a parser puts the literals that it takes into what it makes, in order;
    * `parse_literals`: so it is with whole programs. -/

namespace BraceScript

/-! ## Literals -/

/-- The node of a word that is a literal. -/
def Word.literal? (w : Word) : Option Node :=
  match w.kind with
  | .numberLiteral => some (.number (w.lexeme.getD ""))
  | .stringLiteral => some (.string (w.lexeme.getD ""))
  | .booleanLiteral => some (.boolean (w.lexeme.getD ""))
  | _ => none

/-- The node of a token that is a literal. -/
def Token.literal? (t : Token) : Option Node := t.word.literal?

theorem Token.literal?_eq {t : Token} {k : Kind} {lexeme : Option String} (hkind : t.kind = k)
    (hlexeme : t.lexeme = lexeme) : t.literal? = Word.literal? ⟨k, lexeme⟩ := by
  rw [literal?, word, hkind, hlexeme]

theorem Token.literal?_cases {t : Token} {node : Node} (h : t.literal? = some node) :
    (t.kind = .numberLiteral ∧ node = .number (t.lexeme.getD "")) ∨
    (t.kind = .stringLiteral ∧ node = .string (t.lexeme.getD "")) ∨
    (t.kind = .booleanLiteral ∧ node = .boolean (t.lexeme.getD "")) := by
  obtain ⟨k, line, column, lexeme⟩ := t
  cases k with
  | numberLiteral => exact .inl ⟨rfl, (Option.some.inj h).symm⟩
  | stringLiteral => exact .inr (.inl ⟨rfl, (Option.some.inj h).symm⟩)
  | booleanLiteral => exact .inr (.inr ⟨rfl, (Option.some.inj h).symm⟩)
  | _ => cases h

/-- Whether tokens of a kind can be taken and are no literals. -/
def Kind.isSilent : Kind → Bool
  | .numberLiteral | .stringLiteral | .booleanLiteral | .endOfFile => false
  | _ => true

namespace Kind

variable {k : Kind}

theorem isType_silent (h : k.isType = true) : k.isSilent = true := by
  cases k <;> first | rfl | cases h

theorem isComparison_silent (h : k.isComparison = true) : k.isSilent = true := by
  cases k <;> first | rfl | cases h

theorem isAdditive_silent (h : k.isAdditive = true) : k.isSilent = true := by
  cases k <;> first | rfl | cases h

theorem isMultiplicative_silent (h : k.isMultiplicative = true) : k.isSilent = true := by
  cases k <;> first | rfl | cases h

end Kind

theorem Word.literal?_silent {w : Word} (h : w.kind.isSilent = true) : w.literal? = none := by
  obtain ⟨k, lexeme⟩ := w
  cases k <;> first | rfl | cases h

namespace Node

/-- Whether a node is a literal. -/
def isLiteral : Node → Bool
  | .number _ | .string _ | .boolean _ => true
  | _ => false

/-- The literals of a tree, in the order in which they stand in it. -/
def literals (node : Node) : List Node := node.parts.filter isLiteral

theorem parts_eq (node : Node) : node.parts = node :: node.children.flatMap parts := by
  rw [parts, List.flatMap_subtype (g := parts) fun _ _ => rfl, List.unattach_attach]

theorem literals_of_isLiteral {node : Node} (h : node.isLiteral = true) :
    node.literals = [node] := by
  have hchildren : node.children = [] := by
    cases node <;> first | rfl | cases h
  rw [literals, parts_eq, hchildren, List.flatMap_nil, List.filter_singleton, h]
  rfl

/-- The literals of a node that is none are those of its children, one child after the other. -/
theorem literals_of_children {node : Node} (h : node.isLiteral = false) :
    node.literals = node.children.flatMap literals := by
  rw [literals, parts_eq, List.filter_cons_of_neg (by rw [h]; decide), List.filter_flatMap]
  rfl

theorem literals_absent : absent.literals = [] := literals_of_children rfl

end Node

namespace Parser

variable {α β : Type}

/-- The literals in hand and ahead. -/
def State.literals (s : State) : List Node := s.words.filterMap Word.literal?

theorem Takes.literals {s s' : State} (h : Takes s s') :
    s.literals = s.token.literal?.toList ++ s'.literals := by
  rw [State.literals, h.words, State.literals, Token.literal?]
  cases hw : s.token.word.literal? with
  | none => rw [List.filterMap_cons_none hw]; rfl
  | some node => rw [List.filterMap_cons_some hw]; rfl

theorem State.literals_atEnd {s : State} (h : s.token.kind = .endOfFile) : s.literals = [] := by
  rw [State.literals, State.words, if_pos h, List.filterMap_cons_none, List.filterMap_nil]
  rw [Word.literal?, Token.word, h]

/-! ## Literals taken -/

/-- The parser that takes literals of a kind. -/
def literal : Kind → (depth : Nat) → Parser Node
  | .booleanLiteral => booleanPrimary
  | _ => primary

/-- A token of the kind that is expected gives its lexeme, and the next one is taken. -/
theorem consumeLexeme_bind {s : State} {k : Kind} (hkind : s.token.kind = k)
    (f : String → Parser β) :
    (consumeLexeme k >>= f) s = (shift >>= fun _ => f (s.token.lexeme.getD "")) s := by
  rw [consumeLexeme, bind_assoc]
  cases hshift : shift s with
  | ok u s' =>
      rw [consume_ok _ hkind hshift, pure_bind]
      exact (bind_eq (f := fun _ => f (s.token.lexeme.getD "")) hshift).symm
  | error e s' =>
      rw [consume_cut _ hkind hshift]
      show _ = EStateM.bind shift (fun _ => f (s.token.lexeme.getD "")) s
      rw [EStateM.bind, hshift]

/-- With a literal in hand its node is built, and the next token is taken. -/
theorem literal_takes {s : State} {node : Node} (h : s.token.literal? = some node) (depth : Nat) :
    literal s.token.kind (depth + 1) s = (do shift; return node) s := by
  rcases Token.literal?_cases h with ⟨hkind, rfl⟩ | ⟨hkind, rfl⟩ | ⟨hkind, rfl⟩
  · rw [hkind]
    show primary (depth + 1) s = _
    rw [primary, kind_bind, if_pos hkind, consumeLexeme_bind hkind]
  · rw [hkind]
    show primary (depth + 1) s = _
    rw [primary, kind_bind, if_neg (by rw [hkind]; decide), if_pos hkind, consumeLexeme_bind hkind]
  · rw [hkind]
    show booleanPrimary (depth + 1) s = _
    rw [booleanPrimary, kind_bind, if_pos hkind, consumeLexeme_bind hkind]

/-! ## Literals collected -/

/-- The literals that were collected before a parser and those in hand and ahead are, behind it,
    those that were made and those still in hand and ahead. -/
def Collects (before : List Node) (p : Parser α) (made : α → List Node) : Prop :=
  ∀ s a after, p s = .ok a after → before ++ s.literals = made a ++ after.literals

namespace Collects

variable {before : List Node} {made : β → List Node}

theorem pure {b : β} (h : before = made b) : Collects before (Pure.pure b) made := by
  intro s c after hrun
  cases hrun
  rw [h]

/-- Literals are collected by one parser behind the other. -/
theorem bind {p : Parser α} {f : α → Parser β} {first : α → List Node} (hp : Collects [] p first)
    (hf : ∀ a, Collects (before ++ first a) (f a) made) : Collects before (p >>= f) made := by
  intro s b after hrun
  obtain ⟨a, mid, hmid, hrest⟩ := bind_ok hrun
  have hfirst : s.literals = first a ++ mid.literals := hp s a mid hmid
  rw [hfirst, ← List.append_assoc]
  exact hf a mid b after hrest

theorem either {c : Prop} [Decidable c] {p q : Parser β} (hp : c → Collects before p made)
    (hq : ¬c → Collects before q made) : Collects before (if c then p else q) made := by
  by_cases h : c
  · rw [if_pos h]
    exact hp h
  · rw [if_neg h]
    exact hq h

theorem throw (e : ParseFault) : Collects before (MonadExcept.throw e : Parser β) made := by
  intro s b after hrun
  cases hrun

theorem reject (cause : ParseCause) : Collects before (Parser.reject cause : Parser β) made := by
  intro s b after hrun
  cases hrun

/-- What comes next depends on the kind of the token in hand. -/
theorem seeing {f : Kind → Parser β} (hf : ∀ k, Collects before (f k) made) :
    Collects before (kind >>= f) made := fun s => hf s.token.kind s

theorem holding {f : Token → Parser β} (hf : ∀ t, Collects before (f t) made) :
    Collects before (inHand >>= f) made := fun s => hf s.token s

/-- A token is taken. -/
theorem taken {k : Kind} (hk : k ≠ .endOfFile) {f : Token → Parser β} {s after : State} {b : β}
    (hf : ∀ t, t.kind = k → Collects (before ++ t.literal?.toList) (f t) made)
    (hrun : (consume k >>= f) s = .ok b after) :
    before ++ s.literals = made b ++ after.literals := by
  by_cases hkind : s.token.kind = k
  · cases hshift : shift s with
    | ok u s' =>
        rw [consume_ok f hkind hshift] at hrun
        have htakes := shift_takes (hkind ▸ hk) hshift
        rw [htakes.literals, ← List.append_assoc]
        exact hf s.token hkind s' b after hrun
    | error e s' =>
        rw [consume_cut f hkind hshift] at hrun
        cases hrun
  · rw [consume_ne f hkind] at hrun
    cases hrun

/-- A token that is no literal is taken. -/
theorem taking {k : Kind} (hk : k.isSilent = true) {f : Token → Parser β}
    (hf : ∀ t, Collects before (f t) made) : Collects before (consume k >>= f) made := by
  have hend : k ≠ .endOfFile := by
    rintro rfl
    cases hk
  refine fun s b after => taken hend fun t ht => ?_
  rw [Token.literal?, Word.literal?_silent (by rw [← ht] at hk; exact hk), Option.toList_none,
    List.append_nil]
  exact hf t

/-- A token that is no literal is passed over. -/
theorem passing {k : Kind} (hk : k.isSilent = true) {p : Parser β}
    (hp : Collects before p made) : Collects before (consume k >>= fun _ => p) made :=
  taking hk fun _ => hp

/-- A node that is no literal is made from the literals of its children. -/
theorem node {t : Node} (ht : t.isLiteral = false) (h : before = t.children.flatMap Node.literals) :
    Collects before (Pure.pure t) Node.literals :=
  pure (h.trans (Node.literals_of_children ht).symm)

/-- A node with one child is made. -/
theorem single {t child : Node} (ht : t.isLiteral = false) (h : t.children = [child]) :
    Collects child.literals (Pure.pure t) Node.literals :=
  node ht (by rw [h, List.flatMap_singleton])

/-- Two nodes are the children of another, with which it goes on. -/
theorem joined {t first second : Node} {p : Parser β} (ht : t.isLiteral = false)
    (h : t.children = [first, second]) (hp : Collects t.literals p made) :
    Collects (first.literals ++ second.literals) p made := by
  rw [Node.literals_of_children ht, h, List.flatMap_cons, List.flatMap_singleton] at hp
  exact hp

/-- A node with two children is made. -/
theorem pair {t first second : Node} (ht : t.isLiteral = false) (h : t.children = [first, second]) :
    Collects (first.literals ++ second.literals) (Pure.pure t) Node.literals :=
  joined ht h (.pure rfl)

/-- A literal is taken and made. -/
theorem literal {k : Kind} (hend : k ≠ .endOfFile) {make : String → Node}
    (hmake : ∀ t : Token, t.kind = k → t.literal? = some (make (t.lexeme.getD "")))
    (hnode : ∀ lexeme, (make lexeme).isLiteral = true) :
    Collects [] (consumeLexeme k >>= fun lexeme => Pure.pure (make lexeme)) Node.literals := by
  rw [consumeLexeme, bind_assoc]
  refine fun s b after => taken hend fun t ht => ?_
  rw [pure_bind, hmake t ht]
  exact pure (Node.literals_of_isLiteral (hnode _)).symm

theorem identifier : Collects [] Parser.identifier Node.literals := by
  rw [Parser.identifier, consumeLexeme, bind_assoc]
  refine taking rfl fun t => ?_
  rw [pure_bind]
  exact .node rfl rfl

theorem typeName : Collects [] Parser.typeName Node.literals :=
  holding fun _ => either (fun hk => passing (Kind.isType_silent hk) (.node rfl rfl))
    fun _ => .reject _

/-- The type of a parameter stands before its name in a text, and behind it in a tree; neither has
    literals. -/
theorem parameter : Collects [] Parser.parameter Node.literals := by
  intro s node after hrun
  obtain ⟨type, mid, htype, hrest⟩ := bind_ok hrun
  obtain ⟨name, last, hname, hmade⟩ := bind_ok hrest
  cases hmade
  have hshaped := (yields_typeName s type mid htype).2
  have hnone : type.literals = [] := by
    cases hshaped with
    | type _ => exact Node.literals_of_children rfl
  have hfirst : s.literals = type.literals ++ mid.literals := typeName s type mid htype
  have hsecond : mid.literals = name.literals ++ after.literals := identifier mid name after hname
  rw [Node.literals_of_children rfl, List.nil_append, hfirst, hsecond]
  simp [Node.children, hnone]

theorem commaItems {item : Parser Node} (hitem : Collects [] item Node.literals) (depth : Nat) :
    Collects [] (Parser.commaItems item depth) (List.flatMap Node.literals) := by
  induction depth with
  | zero => exact .throw _
  | succ depth ih =>
      refine seeing fun k => either (fun _ => passing rfl ?_) fun _ => .pure rfl
      exact hitem.bind fun first => ih.bind fun rest => .pure rfl

theorem commaList {item : Parser Node} (hitem : Collects [] item Node.literals) (depth : Nat) :
    Collects [] (Parser.commaList item depth) (List.flatMap Node.literals) :=
  hitem.bind fun _ => (commaItems hitem depth).bind fun _ => .pure rfl

/-- The token behind the one in hand is looked at. -/
theorem peeking {f : Token → Parser β} (hf : ∀ t, Collects before (f t) made) :
    Collects before (peekNext >>= f) made := by
  intro s b after hrun
  obtain ⟨t, mid, hpeek, hrest⟩ := bind_ok hrun
  obtain rfl := peekNext_same hpeek
  exact hf t mid b after hrest

/-- What is only tried takes nothing. -/
theorem trying {p : Parser α} {test : α → State → Bool} {f : Bool → Parser β}
    (hf : ∀ b, Collects before (f b) made) : Collects before (glance p test >>= f) made := by
  intro s b after hrun
  obtain ⟨c, mid, htry, hrest⟩ := bind_ok hrun
  rw [glance] at htry
  split at htry
  · cases htry
    exact hf _ s b after hrest
  · cases htry
    exact hf _ s b after hrest

end Collects

/-! ### Expressions -/

/-- Every parser of expressions collects literals, at a depth. -/
structure ExpressionCollects (depth : Nat) : Prop where
  expression : Collects [] (expression depth) Node.literals
  expressionList : Collects [] (expressionList depth) (List.flatMap Node.literals)
  moreExpressions : Collects [] (moreExpressions depth) (List.flatMap Node.literals)
  boolean : Collects [] (boolean depth) Node.literals
  disjunction : Collects [] (disjunction depth) Node.literals
  moreDisjuncts : ∀ left, Collects left.literals (moreDisjuncts depth left) Node.literals
  conjunction : Collects [] (conjunction depth) Node.literals
  moreConjuncts : ∀ left, Collects left.literals (moreConjuncts depth left) Node.literals
  negation : Collects [] (negation depth) Node.literals
  booleanPrimary : Collects [] (booleanPrimary depth) Node.literals
  arithmetic : Collects [] (arithmetic depth) Node.literals
  sum : Collects [] (sum depth) Node.literals
  moreTerms : ∀ left, Collects left.literals (moreTerms depth left) Node.literals
  product : Collects [] (product depth) Node.literals
  moreFactors : ∀ left, Collects left.literals (moreFactors depth left) Node.literals
  power : Collects [] (power depth) Node.literals
  signed : Collects [] (signed depth) Node.literals
  primary : Collects [] (primary depth) Node.literals
  functionCall : Collects [] (functionCall depth) Node.literals
  arguments : Collects [] (argumentsBeforeClose depth) (List.flatMap Node.literals)

namespace ExpressionCollects

open Collects

theorem zero : ExpressionCollects 0 := by
  constructor <;> first
    | exact Collects.throw _
    | exact fun _ => Collects.throw _

variable {depth : Nat} (h : ExpressionCollects depth)

include h

theorem succ_expression : Collects [] (Parser.expression (depth + 1)) Node.literals := by
  have hchoice : ∀ b : Bool, Collects []
      (if b = true then Parser.boolean depth else Parser.arithmetic depth) Node.literals :=
    fun _ => either (fun _ => h.boolean) fun _ => h.arithmetic
  rw [Parser.expression]
  -- the trial needs a depth of its own, without which nothing is read
  cases depth with
  | zero => exact fun s b after hrun => (by cases hrun)
  | succ depth =>
      rw [startsBoolean_succ]
      exact trying hchoice

theorem succ_booleanPrimary : Collects [] (Parser.booleanPrimary (depth + 1)) Node.literals := by
  refine seeing fun k => either (fun _ => ?_) fun _ => either (fun _ => ?_) fun _ => ?_
  · exact Collects.literal (by decide) (fun _ ht => Token.literal?_eq ht rfl) fun _ => rfl
  · exact passing rfl (h.boolean.bind fun inner => passing rfl (.pure rfl))
  · refine h.arithmetic.bind fun left => seeing fun k => ?_
    refine either (fun hk => ?_) fun _ => .single rfl rfl
    exact passing (Kind.isComparison_silent hk) (h.arithmetic.bind fun right => .pair rfl rfl)

theorem succ_primary : Collects [] (Parser.primary (depth + 1)) Node.literals := by
  refine seeing fun k => either (fun _ => ?_) fun _ => either (fun _ => ?_) fun _ =>
    either (fun _ => ?_) fun _ => either (fun _ => ?_) fun _ => .reject _
  · exact Collects.literal (by decide) (fun _ ht => Token.literal?_eq ht rfl) fun _ => rfl
  · exact Collects.literal (by decide) (fun _ ht => Token.literal?_eq ht rfl) fun _ => rfl
  · exact peeking fun ahead => either (fun _ => h.functionCall) fun _ => Collects.identifier
  · exact passing rfl (h.arithmetic.bind fun inner => passing rfl (.pure rfl))

theorem succ : ExpressionCollects (depth + 1) where
  expression := h.succ_expression
  expressionList := h.expression.bind fun _ => h.moreExpressions.bind fun _ => .pure rfl
  moreExpressions := seeing fun _ => either
    (fun _ => passing rfl (h.expression.bind fun _ => h.moreExpressions.bind fun _ => .pure rfl))
    fun _ => .pure rfl
  boolean := h.disjunction
  disjunction := h.conjunction.bind h.moreDisjuncts
  moreDisjuncts _ := seeing fun _ => either
    (fun _ => taking rfl fun _ => h.conjunction.bind fun _ => joined rfl rfl (h.moreDisjuncts _))
    fun _ => .pure rfl
  conjunction := h.negation.bind h.moreConjuncts
  moreConjuncts _ := seeing fun _ => either
    (fun _ => taking rfl fun _ => h.negation.bind fun _ => joined rfl rfl (h.moreConjuncts _))
    fun _ => .pure rfl
  negation := seeing fun _ => either
    (fun _ => taking rfl fun _ => h.booleanPrimary.bind fun _ => .single rfl rfl)
    fun _ => h.booleanPrimary
  booleanPrimary := h.succ_booleanPrimary
  arithmetic := h.sum
  sum := h.product.bind h.moreTerms
  moreTerms _ := seeing fun _ => either
    (fun hk => passing (Kind.isAdditive_silent hk) (h.product.bind fun _ =>
      joined rfl rfl (h.moreTerms _)))
    fun _ => .pure rfl
  product := h.power.bind h.moreFactors
  moreFactors _ := seeing fun _ => either
    (fun hk => passing (Kind.isMultiplicative_silent hk) (h.power.bind fun _ =>
      joined rfl rfl (h.moreFactors _)))
    fun _ => .pure rfl
  power := h.signed.bind fun _ => seeing fun _ => either
    (fun _ => taking rfl fun _ => h.power.bind fun _ => .pair rfl rfl) fun _ => .pure rfl
  signed := seeing fun _ => either
    (fun hk => passing (Kind.isAdditive_silent hk) (h.signed.bind fun _ => .single rfl rfl))
    fun _ => h.primary
  primary := h.succ_primary
  functionCall := Collects.identifier.bind fun _ => passing rfl (h.arguments.bind fun _ =>
    passing rfl (.node rfl rfl))
  arguments := seeing fun _ => either (fun _ => .pure rfl) fun _ => h.expressionList

end ExpressionCollects

theorem expressionCollects (depth : Nat) : ExpressionCollects depth := by
  induction depth with
  | zero => exact .zero
  | succ depth ih => exact ih.succ

/-! ### Statements -/

section

open Collects

variable (depth : Nat)

theorem collects_initialValues (names : List Node) :
    Collects [] (initialValues names depth) (List.flatMap Node.literals) :=
  (expressionCollects depth).expressionList.bind fun _ => either (fun _ => .pure rfl) fun _ =>
    .reject _

theorem collects_variableDeclaration : Collects [] (variableDeclaration depth) Node.literals := by
  refine passing rfl (Collects.typeName.bind fun type => ?_)
  refine (Collects.commaList Collects.identifier depth).bind fun names => seeing fun k => ?_
  refine either (fun _ => passing rfl ((collects_initialValues depth names).bind fun values => ?_))
    fun _ => ?_
  · exact .node rfl (by simp [Node.children])
  · exact .node rfl (by simp [Node.children])

theorem collects_constantDeclaration : Collects [] (constantDeclaration depth) Node.literals := by
  refine passing rfl (Collects.typeName.bind fun type => ?_)
  refine (Collects.commaList Collects.identifier depth).bind fun names => passing rfl ?_
  exact (collects_initialValues depth names).bind fun values => .node rfl (by simp [Node.children])

theorem collects_parametersBeforeClose :
    Collects [] (parametersBeforeClose depth) (List.flatMap Node.literals) :=
  seeing fun _ => either (fun _ => .pure rfl) fun _ => Collects.commaList Collects.parameter depth

theorem collects_procedureCall : Collects [] (procedureCall depth) Node.literals :=
  passing rfl (Collects.identifier.bind fun _ =>
    passing rfl ((expressionCollects depth).arguments.bind fun _ => passing rfl (.node rfl rfl)))

theorem collects_assignment : Collects [] (assignment depth) Node.literals :=
  Collects.identifier.bind fun _ => passing rfl ((expressionCollects depth).expression.bind fun _ =>
    .pair rfl rfl)

theorem collects_giveStatement : Collects [] (giveStatement depth) Node.literals := by
  refine passing rfl (seeing fun _ => either (fun _ => ?_) fun _ => ?_)
  · exact .node rfl (by simp [Node.children, Node.literals_absent])
  · exact (expressionCollects depth).expression.bind fun _ => .single rfl rfl

theorem collects_showStatement : Collects [] (showStatement depth) Node.literals :=
  passing rfl ((expressionCollects depth).expression.bind fun _ => .single rfl rfl)

theorem collects_stepOption : Collects [] (stepOption depth) Node.literals :=
  seeing fun _ => either (fun _ => passing rfl (expressionCollects depth).arithmetic) fun _ =>
    .node rfl rfl

end

/-- Every parser of statements and blocks collects literals, at a depth. -/
structure StatementCollects (depth : Nat) : Prop where
  block : Collects [] (block depth) Node.literals
  statements : Collects [] (statements depth) (List.flatMap Node.literals)
  statement : Collects [] (statement depth) Node.literals
  functionDeclaration : Collects [] (functionDeclaration depth) Node.literals
  procedureDeclaration : Collects [] (procedureDeclaration depth) Node.literals
  ifStatement : Collects [] (ifStatement depth) Node.literals
  elifBranches : Collects [] (elifBranches depth) (List.flatMap Node.literals)
  elifBranch : Collects [] (elifBranch depth) Node.literals
  elseBranch : Collects [] (elseBranch depth) Node.literals
  whileStatement : Collects [] (whileStatement depth) Node.literals
  forStatement : Collects [] (forStatement depth) Node.literals

namespace StatementCollects

open Collects

theorem zero : StatementCollects 0 := by
  constructor <;> exact Collects.throw _

variable {depth : Nat} (h : StatementCollects depth)

include h

theorem succ_statements :
    Collects [] (Parser.statements (depth + 1)) (List.flatMap Node.literals) := by
  refine seeing fun k => either (fun _ => .pure rfl) fun _ =>
    either (fun _ => passing rfl h.statements) fun _ => ?_
  refine h.statement.bind fun first => seeing fun k => either (fun _ => ?_) fun _ =>
    either (fun _ => ?_) fun _ => .reject _
  · exact passing rfl (h.statements.bind fun rest => .pure rfl)
  · exact .pure (List.flatMap_singleton ..).symm

theorem succ_statement : Collects [] (Parser.statement (depth + 1)) Node.literals := by
  refine seeing fun k => ?_
  split
  · exact collects_variableDeclaration depth
  · exact collects_constantDeclaration depth
  · exact h.functionDeclaration
  · exact h.procedureDeclaration
  · exact collects_procedureCall depth
  · exact collects_assignment depth
  · exact collects_giveStatement depth
  · exact collects_showStatement depth
  · exact h.ifStatement
  · exact h.whileStatement
  · exact h.forStatement
  · exact passing rfl (.node rfl rfl)
  · exact passing rfl (.node rfl rfl)
  · exact .reject _

theorem succ_functionDeclaration :
    Collects [] (Parser.functionDeclaration (depth + 1)) Node.literals := by
  refine passing rfl (Collects.identifier.bind fun name => passing rfl ?_)
  refine (collects_parametersBeforeClose depth).bind fun parameters => passing rfl ?_
  refine Collects.bind (passing rfl Collects.typeName) fun type => h.block.bind fun body => ?_
  exact .node rfl (by simp [Node.children])

theorem succ_procedureDeclaration :
    Collects [] (Parser.procedureDeclaration (depth + 1)) Node.literals := by
  refine passing rfl (Collects.identifier.bind fun name => passing rfl ?_)
  refine (collects_parametersBeforeClose depth).bind fun parameters => passing rfl ?_
  exact h.block.bind fun body => .node rfl (by simp [Node.children])

theorem succ_ifStatement : Collects [] (Parser.ifStatement (depth + 1)) Node.literals := by
  refine passing rfl ((expressionCollects depth).boolean.bind fun condition => ?_)
  refine h.block.bind fun body => h.elifBranches.bind fun elifs => seeing fun k => ?_
  refine either (fun _ => h.elseBranch.bind fun alternative => ?_) fun _ => ?_
  · exact .node rfl (by simp [Node.children])
  · exact .node rfl (by simp [Node.children, Node.literals_absent])

theorem succ_forStatement : Collects [] (Parser.forStatement (depth + 1)) Node.literals := by
  refine passing rfl ((collects_assignment depth).bind fun initial => passing rfl ?_)
  refine (expressionCollects depth).arithmetic.bind fun termination => ?_
  refine (collects_stepOption depth).bind fun step => h.block.bind fun body => ?_
  exact .node rfl (by simp [Node.children])

theorem succ : StatementCollects (depth + 1) where
  block := passing rfl (h.statements.bind fun _ => passing rfl (.node rfl rfl))
  statements := h.succ_statements
  statement := h.succ_statement
  functionDeclaration := h.succ_functionDeclaration
  procedureDeclaration := h.succ_procedureDeclaration
  ifStatement := h.succ_ifStatement
  elifBranches := seeing fun _ => either
    (fun _ => h.elifBranch.bind fun _ => h.elifBranches.bind fun _ => .pure rfl) fun _ => .pure rfl
  elifBranch := passing rfl ((expressionCollects depth).boolean.bind fun _ => h.block.bind fun _ =>
    .pair rfl rfl)
  elseBranch := passing rfl (h.block.bind fun _ => .single rfl rfl)
  whileStatement := passing rfl ((expressionCollects depth).boolean.bind fun _ =>
    h.block.bind fun _ => .pair rfl rfl)
  forStatement := h.succ_forStatement

end StatementCollects

theorem statementCollects (depth : Nat) : StatementCollects depth := by
  induction depth with
  | zero => exact .zero
  | succ depth ih => exact ih.succ

theorem collects_program (depth : Nat) : Collects [] (program depth) Node.literals :=
  (statementCollects depth).block.bind fun _ => .single rfl rfl

theorem collects_wholeProgram (depth : Nat) : Collects [] (wholeProgram depth) Node.literals :=
  (collects_program depth).bind fun _ => Collects.seeing fun _ =>
    .either (fun _ => .pure rfl) fun _ => .reject _

end Parser

/-! ## Programs -/

/-- The literals of a program are those of the tokens of its text, in their order. -/
theorem parse_literals {source : String} {tree : Node} (h : parse source = .ok tree) :
    tree.literals = (Cursor.ofString source).tokens.1.filterMap Token.literal? := by
  rcases Parser.parse_cases source with
    ⟨body, s, s', hparse, hstart, hrun, -, hend⟩ | ⟨e, hparse, -⟩
  · have htree : Node.program body = tree := Except.ok.inj (hparse.symm.trans h)
    have hwords : (Cursor.ofString source).words.1 = s.words :=
      congrArg Prod.fst (Parser.words_of_next (Parser.next_of_start hstart))
    have hcollects : s.literals = (Node.program body).literals ++ s'.literals :=
      Parser.collects_wholeProgram _ s _ s' hrun
    -- behind a whole program the end of the text is in hand
    rw [Parser.State.literals_atEnd hend, List.append_nil, htree] at hcollects
    rw [← hcollects, Parser.State.literals, ← hwords, Cursor.words, List.filterMap_map]
    rfl
  · rw [hparse] at h
    cases h

end BraceScript
