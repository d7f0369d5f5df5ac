import BraceScript.Proofs.Depth

/-! # Rules — the grammar that the parsers read

    A parser without its bound obeys the rule of the grammar that it stands for: each is made of
    others without theirs, so what it does can be said with no depth in it.

    * `free_expression`, `free_sum`, `free_primary` and their companions: the rules of expressions;
    * `free_statements`, `free_statement`, `free_block` and theirs: the rules of statements. -/

namespace BraceScript.Parser

variable {α β : Type}

section

open Likeness Likeness.Alike

/-- A token of any kind is taken. -/
theorem taking_same {k : Kind} (hk : (k == .endOfFile) = false) {n m : Nat} {f g : Token → Parser β}
    (h : ∀ a b : Token, a.kind = k → b.kind = k → same.Alike n m (f a) (g b)) :
    same.Alike n m (consume k >>= f) (consume k >>= g) := by
  have hend : k ≠ .endOfFile := by simpa using hk
  refine takingBy hend ?_ fun n' m' hn hm a b ha hb _ => ?_
  · rintro s _ rfl hs
    exact shift_same (by rw [hs]; exact hend)
  · intro s t hst hs ht
    exact h a b ha hb s t hst (by omega) (by omega)

/-- A token of any kind is passed over. -/
theorem passing_same {k : Kind} (hk : (k == .endOfFile) = false) {n m : Nat} {p q : Parser β}
    (h : same.Alike n m p q) :
    same.Alike n m (consume k >>= fun _ => p) (consume k >>= fun _ => q) :=
  taking_same hk fun _ _ _ _ => h

/-- An operator of a class is passed over, if there is one. -/
theorem operator_same {isOperator : Kind → Bool}
    (hsolid : ∀ k, isOperator k = true → k.isSolid = true) {n m : Nat} {f g : Kind → Parser β}
    {p q : Parser β} (hf : ∀ k, same.Alike n m (f k) (g k)) (hp : same.Alike n m p q) :
    same.Alike n m (kind >>= fun k => if isOperator k then consume k >>= fun _ => f k else p)
      (kind >>= fun k => if isOperator k then consume k >>= fun _ => g k else q) :=
  operator hsolid (fun k _ _ hn hm s t hst hs ht => hf k s t hst (by omega) (by omega)) hp

theorem peeking_same {n m : Nat} : same.Alike n m peekNext peekNext := by
  rintro s _ rfl _ _
  rcases hnext : s.cursor.next with ⟨e | t, after⟩
  · rw [peekNext_error hnext]
    exact .error ⟨rfl, rfl, Cursor.code_next hnext⟩
  · rw [peekNext_ok hnext]
    exact .ok (.refl s) (.refl s) rfl

theorem free_expression : free expression = (do
    if ← free startsBoolean then free boolean else free arithmetic) :=
  unbounded fun _ _ hd =>
    (settled hd (fun d e => (same.expressions d e).startsBoolean) rfl).bind fun _ =>
    either (settled hd (fun d e => (same.expressions d e).boolean) rfl)
      (settled hd (fun d e => (same.expressions d e).arithmetic) rfl)

theorem free_startsBoolean : free startsBoolean =
    Parser.glance (free arithmetic) fun _ after => continuesBoolean after.token.kind := by
  refine unbounded fun _ _ hd => ?_
  rw [startsBoolean_succ]
  refine Alike.glance (settled hd (fun d e => (same.expressions d e).arithmetic) rfl) ?_
  intro _ s t hst
  rw [(same.word hst).1]

theorem free_expressionList : free expressionList = (do
    let first ← free expression
    let rest ← free moreExpressions
    return first :: rest) :=
  unbounded fun _ _ hd =>
    (settled hd (fun d e => (same.expressions d e).expression) rfl).bind fun _ =>
    (settled hd (fun d e => (same.expressions d e).moreExpressions) rfl).bind fun _ => .pure _

theorem free_moreExpressions : free moreExpressions = (do
    if (← kind) = .comma then
      let _ ← consume .comma
      let first ← free expression
      let rest ← free moreExpressions
      return first :: rest
    else
      return []) :=
  unbounded fun _ _ hd => seeing fun _ => either
    (passing_same rfl
      ((settled hd (fun d e => (same.expressions d e).expression) rfl).bind fun _ =>
        (settled hd (fun d e => (same.expressions d e).moreExpressions) rfl).bind fun _ => .pure _))
    (.pure _)

theorem free_boolean : free boolean = free disjunction := by
  refine unbounded fun n d hd => ?_
  show same.Alike n n (disjunction d) (free disjunction)
  exact settled hd (fun d e => (same.expressions d e).disjunction) rfl

theorem free_disjunction : free disjunction = (do
    let left ← free conjunction
    free (moreDisjuncts · left)) :=
  unbounded fun _ _ hd =>
    (settled hd (fun d e => (same.expressions d e).conjunction) rfl).bind fun left =>
    settled hd (fun d e => (same.expressions d e).moreDisjuncts left) rfl

theorem free_moreDisjuncts (left : Node) : free (moreDisjuncts · left) = (do
    if (← kind) = .orWord then
      let token ← consume .orWord
      let right ← free conjunction
      free (moreDisjuncts · (.logical left token.kind.text right))
    else
      return left) := by
  refine unbounded fun _ _ hd => seeing fun _ => either ?_ (.pure _)
  refine taking_same rfl fun a b ha hb => ?_
  rw [ha, hb]
  exact (settled hd (fun d e => (same.expressions d e).conjunction) rfl).bind fun right =>
    settled hd (fun d e => (same.expressions d e).moreDisjuncts _) rfl

theorem free_conjunction : free conjunction = (do
    let left ← free negation
    free (moreConjuncts · left)) :=
  unbounded fun _ _ hd =>
    (settled hd (fun d e => (same.expressions d e).negation) rfl).bind fun left =>
    settled hd (fun d e => (same.expressions d e).moreConjuncts left) rfl

theorem free_moreConjuncts (left : Node) : free (moreConjuncts · left) = (do
    if (← kind) = .andWord then
      let token ← consume .andWord
      let right ← free negation
      free (moreConjuncts · (.logical left token.kind.text right))
    else
      return left) := by
  refine unbounded fun _ _ hd => seeing fun _ => either ?_ (.pure _)
  refine taking_same rfl fun a b ha hb => ?_
  rw [ha, hb]
  exact (settled hd (fun d e => (same.expressions d e).negation) rfl).bind fun right =>
    settled hd (fun d e => (same.expressions d e).moreConjuncts _) rfl

theorem free_negation : free negation = (do
    if (← kind) = .notWord then
      let token ← consume .notWord
      let operand ← free booleanPrimary
      return .negation token.kind.text operand
    else
      free booleanPrimary) := by
  refine unbounded fun _ _ hd => seeing fun _ => either ?_
    (settled hd (fun d e => (same.expressions d e).booleanPrimary) rfl)
  refine taking_same rfl fun a b ha hb => ?_
  rw [ha, hb]
  exact (settled hd (fun d e => (same.expressions d e).booleanPrimary) rfl).bind fun _ => .pure _

theorem free_booleanPrimary : free booleanPrimary = (do
    let k ← kind
    if k = .booleanLiteral then
      let lexeme ← consumeLexeme .booleanLiteral
      return .boolean lexeme
    else if k = .leftParenthesis then
      let _ ← consume .leftParenthesis
      let inner ← free boolean
      let _ ← consume .rightParenthesis
      return inner
    else
      let left ← free arithmetic
      let k ← kind
      if k.isComparison then
        let _ ← consume k
        let right ← free arithmetic
        return .comparison left k.text right
      else
        return .truth left) := by
  refine unbounded fun _ _ hd => seeing fun k => either ?_ (either ?_ ?_)
  · exact (lexeme rfl).bind fun _ => .pure _
  · refine passing_same rfl ((settled hd (fun d e => (same.expressions d e).boolean) rfl).bind ?_)
    exact fun _ => passing_same rfl (.pure _)
  · refine (settled hd (fun d e => (same.expressions d e).arithmetic) rfl).bind fun left => ?_
    refine operator_same (fun _ => Kind.isComparison_solid) (fun k => ?_) (.pure _)
    exact (settled hd (fun d e => (same.expressions d e).arithmetic) rfl).bind fun _ => .pure _

theorem free_arithmetic : free arithmetic = free sum := by
  refine unbounded fun n d hd => ?_
  show same.Alike n n (sum d) (free sum)
  exact settled hd (fun d e => (same.expressions d e).sum) rfl

theorem free_sum : free sum = (do
    let left ← free product
    free (moreTerms · left)) :=
  unbounded fun _ _ hd =>
    (settled hd (fun d e => (same.expressions d e).product) rfl).bind fun left =>
    settled hd (fun d e => (same.expressions d e).moreTerms left) rfl

theorem free_moreTerms (left : Node) : free (moreTerms · left) = (do
    let k ← kind
    if k.isAdditive then
      let _ ← consume k
      let right ← free product
      free (moreTerms · (.binary left k.text right))
    else
      return left) := by
  refine unbounded fun _ _ hd => operator_same (fun _ => Kind.isAdditive_solid)
    (fun k => ?_) (.pure _)
  exact (settled hd (fun d e => (same.expressions d e).product) rfl).bind fun _ =>
    settled hd (fun d e => (same.expressions d e).moreTerms _) rfl

theorem free_product : free product = (do
    let left ← free power
    free (moreFactors · left)) :=
  unbounded fun _ _ hd =>
    (settled hd (fun d e => (same.expressions d e).power) rfl).bind fun left =>
    settled hd (fun d e => (same.expressions d e).moreFactors left) rfl

theorem free_moreFactors (left : Node) : free (moreFactors · left) = (do
    let k ← kind
    if k.isMultiplicative then
      let _ ← consume k
      let right ← free power
      free (moreFactors · (.binary left k.text right))
    else
      return left) := by
  refine unbounded fun _ _ hd => operator_same (fun _ => Kind.isMultiplicative_solid)
    (fun k => ?_) (.pure _)
  exact (settled hd (fun d e => (same.expressions d e).power) rfl).bind fun _ =>
    settled hd (fun d e => (same.expressions d e).moreFactors _) rfl

theorem free_power : free power = (do
    let left ← free signed
    if (← kind) = .power then
      let token ← consume .power
      let right ← free power
      return .binary left token.kind.text right
    else
      return left) := by
  refine unbounded fun _ _ hd => ?_
  refine (settled hd (fun d e => (same.expressions d e).signed) rfl).bind fun _ => ?_
  refine seeing fun _ => either ?_ (.pure _)
  refine taking_same rfl fun a b ha hb => ?_
  rw [ha, hb]
  exact (settled hd (fun d e => (same.expressions d e).power) rfl).bind fun _ => .pure _

theorem free_signed : free signed = (do
    let k ← kind
    if k.isAdditive then
      let _ ← consume k
      let operand ← free signed
      return .unary k.text operand
    else
      free primary) := by
  refine unbounded fun _ _ hd => operator_same (fun _ => Kind.isAdditive_solid)
    (fun k => ?_) (settled hd (fun d e => (same.expressions d e).primary) rfl)
  exact (settled hd (fun d e => (same.expressions d e).signed) rfl).bind fun _ => .pure _

theorem free_primary : free primary = (do
    let k ← kind
    if k = .numberLiteral then
      let lexeme ← consumeLexeme .numberLiteral
      return .number lexeme
    else if k = .stringLiteral then
      let lexeme ← consumeLexeme .stringLiteral
      return .string lexeme
    else if k = .identifier then
      let ahead ← peekNext
      if ahead.kind = .leftParenthesis then free functionCall else identifier
    else if k = .leftParenthesis then
      let _ ← consume .leftParenthesis
      let inner ← free arithmetic
      let _ ← consume .rightParenthesis
      return inner
    else
      reject (.expected "arithmetic expression")) := by
  refine unbounded fun _ _ hd => seeing fun k =>
    either ?_ (either ?_ (either ?_ (either ?_ (.reject _))))
  · exact (lexeme rfl).bind fun _ => .pure _
  · exact (lexeme rfl).bind fun _ => .pure _
  · refine peeking_same.bind fun ahead => either ?_ Alike.identifier
    exact settled hd (fun d e => (same.expressions d e).functionCall) rfl
  · refine passing_same rfl
      ((settled hd (fun d e => (same.expressions d e).arithmetic) rfl).bind ?_)
    exact fun _ => passing_same rfl (.pure _)

theorem free_functionCall : free functionCall = (do
    let callee ← identifier
    let _ ← consume .leftParenthesis
    let arguments ← free argumentsBeforeClose
    let _ ← consume .rightParenthesis
    return .functionCall callee arguments) :=
  unbounded fun _ _ hd => Alike.identifier.bind fun _ => passing_same rfl
    ((settled hd (fun d e => (same.expressions d e).arguments) rfl).bind fun _ =>
      passing_same rfl (.pure _))

theorem free_argumentsBeforeClose : free argumentsBeforeClose = (do
    if (← kind) = .rightParenthesis then return [] else free expressionList) :=
  unbounded fun _ _ hd => seeing fun _ => either (.pure _)
    (settled hd (fun d e => (same.expressions d e).expressionList) rfl)

/-! ### Lists -/

theorem free_commaItems {item : Parser Node} (hitem : ∀ n m, same.Alike n m item item) :
    free (commaItems item) = (do
      if (← kind) = .comma then
        let _ ← consume .comma
        let first ← item
        let rest ← free (commaItems item)
        return first :: rest
      else
        return []) :=
  unbounded fun n _ hd => seeing fun _ => either
    (passing_same rfl ((hitem n n).bind fun _ =>
      (settled hd (Likeness.commaItems hitem) rfl).bind fun _ => .pure _))
    (.pure _)

/-- A parser that hands its bound on goes without one if they do. -/
theorem handed {f : Nat → Parser α} {p : Parser α}
    (h : ∀ n d, 16 * n + 15 ≤ d → same.Alike n n (f d) p) : free f = p := by
  funext s
  have hbound := depthBound_ge s
  exact (h s.size (depthBound s) (by omega) s s rfl (Nat.le_refl _) (Nat.le_refl _)).eq

theorem free_commaList {item : Parser Node} (hitem : ∀ n m, same.Alike n m item item) :
    free (commaList item) = (do
      let first ← item
      let rest ← free (commaItems item)
      return first :: rest) :=
  handed fun n _ hd => (hitem n n).bind fun _ =>
    (settled hd (Likeness.commaItems hitem) rfl).bind fun _ => .pure _

/-! ### Statements -/

theorem free_initialValues (names : List Node) : free (initialValues names) = (do
    let values ← free expressionList
    if names.length = values.length then
      return values
    else
      reject (.expressionCount names.length values.length)) :=
  handed fun _ _ hd => (settled hd (fun d e => (same.expressions d e).expressionList) rfl).bind
    fun _ => either (.pure _) (.reject _)

theorem free_variableDeclaration : free variableDeclaration = (do
    let _ ← consume .letWord
    let type ← typeName
    let names ← free identifierList
    if (← kind) = .assign then
      let _ ← consume .assign
      let values ← free (initialValues names)
      return .variableDecl type names values
    else
      return .variableDecl type names []) := by
  refine handed fun _ _ hd => passing_same rfl (Alike.typeName.bind fun _ => ?_)
  refine (settled hd (Likeness.commaList fun _ _ => Alike.identifier) rfl).bind fun names => ?_
  refine seeing fun _ => either (passing_same rfl ?_) (.pure _)
  exact (settled hd (fun d e => Likeness.initialValues d e names) rfl).bind fun _ => .pure _

theorem free_constantDeclaration : free constantDeclaration = (do
    let _ ← consume .keepWord
    let type ← typeName
    let names ← free identifierList
    let _ ← consume .assign
    let values ← free (initialValues names)
    return .constantDecl type names values) := by
  refine handed fun _ _ hd => passing_same rfl (Alike.typeName.bind fun _ => ?_)
  refine (settled hd (Likeness.commaList fun _ _ => Alike.identifier) rfl).bind fun names => ?_
  refine passing_same rfl ?_
  exact (settled hd (fun d e => Likeness.initialValues d e names) rfl).bind fun _ => .pure _

theorem free_parametersBeforeClose : free parametersBeforeClose = (do
    if (← kind) = .rightParenthesis then return [] else free parameterList) :=
  handed fun _ _ hd => seeing fun _ => either (.pure _)
    (settled hd (Likeness.commaList fun _ _ => Alike.parameter) rfl)

theorem free_procedureCall : free procedureCall = (do
    let _ ← consume .execWord
    let callee ← identifier
    let _ ← consume .leftParenthesis
    let arguments ← free argumentsBeforeClose
    let _ ← consume .rightParenthesis
    return .procedureCall callee arguments) :=
  handed fun _ _ hd => passing_same rfl (Alike.identifier.bind fun _ => passing_same rfl
    ((settled hd (fun d e => (same.expressions d e).arguments) rfl).bind fun _ =>
      passing_same rfl (.pure _)))

theorem free_assignment : free assignment = (do
    let target ← identifier
    let _ ← consume .assign
    let value ← free expression
    return .assignment target value) :=
  handed fun _ _ hd => Alike.identifier.bind fun _ => passing_same rfl
    ((settled hd (fun d e => (same.expressions d e).expression) rfl).bind fun _ => .pure _)

theorem free_giveStatement : free giveStatement = (do
    let _ ← consume .giveWord
    let k ← kind
    if k = .newline ∨ k = .rightBrace then
      return .give .absent
    else
      let value ← free expression
      return .give value) :=
  handed fun _ _ hd => passing_same rfl (seeing fun _ => either (.pure _)
    ((settled hd (fun d e => (same.expressions d e).expression) rfl).bind fun _ => .pure _))

theorem free_showStatement : free showStatement = (do
    let _ ← consume .showWord
    let value ← free expression
    return .display value) :=
  handed fun _ _ hd => passing_same rfl
    ((settled hd (fun d e => (same.expressions d e).expression) rfl).bind fun _ => .pure _)

theorem free_stepOption : free stepOption = (do
    if (← kind) = .stepWord then
      let _ ← consume .stepWord
      free arithmetic
    else
      return .absent) :=
  handed fun _ _ hd => seeing fun _ => either
    (passing_same rfl (settled hd (fun d e => (same.expressions d e).arithmetic) rfl)) (.pure _)

theorem free_block : free block = (do
    let _ ← consume .leftBrace
    let items ← free statements
    let _ ← consume .rightBrace
    return .block items) :=
  unbounded fun _ _ hd => passing_same rfl
    ((settled hd (fun d e => (same.statements d e).statements) rfl).bind fun _ =>
      passing_same rfl (.pure _))

theorem free_statements : free statements = (do
    let k ← kind
    if k = .rightBrace then
      return []
    else if k = .newline then
      let _ ← consume .newline
      free statements
    else
      let first ← free statement
      let k ← kind
      if k = .newline then
        let _ ← consume .newline
        let rest ← free statements
        return first :: rest
      else if k = .rightBrace then
        return [first]
      else
        reject (.expected "NEWLINE or RIGHT_BRACE")) := by
  refine unbounded fun _ _ hd => seeing fun k => either (.pure _) (either (passing_same rfl ?_) ?_)
  · exact settled hd (fun d e => (same.statements d e).statements) rfl
  · refine (settled hd (fun d e => (same.statements d e).statement) rfl).bind fun first => ?_
    refine seeing fun k => either (passing_same rfl ?_) (either (.pure _) (.reject _))
    exact (settled hd (fun d e => (same.statements d e).statements) rfl).bind fun _ => .pure _

theorem free_statement : free statement = (do
    match ← kind with
    | .letWord => free variableDeclaration
    | .keepWord => free constantDeclaration
    | .funcWord => free functionDeclaration
    | .procWord => free procedureDeclaration
    | .execWord => free procedureCall
    | .identifier => free assignment
    | .giveWord => free giveStatement
    | .showWord => free showStatement
    | .ifWord => free ifStatement
    | .whileWord => free whileStatement
    | .forWord => free forStatement
    | .skipWord => skipStatement
    | .stopWord => stopStatement
    | _ => reject (.expected "statement")) := by
  refine unbounded fun _ _ hd => seeing fun k => ?_
  cases k with
  | letWord => exact settled hd Likeness.variableDeclaration rfl
  | keepWord => exact settled hd Likeness.constantDeclaration rfl
  | funcWord => exact settled hd (fun d e => (same.statements d e).functionDeclaration) rfl
  | procWord => exact settled hd (fun d e => (same.statements d e).procedureDeclaration) rfl
  | execWord => exact settled hd Likeness.procedureCall rfl
  | identifier => exact settled hd Likeness.assignment rfl
  | giveWord => exact settled hd Likeness.giveStatement rfl
  | showWord => exact settled hd Likeness.showStatement rfl
  | ifWord => exact settled hd (fun d e => (same.statements d e).ifStatement) rfl
  | whileWord => exact settled hd (fun d e => (same.statements d e).whileStatement) rfl
  | forWord => exact settled hd (fun d e => (same.statements d e).forStatement) rfl
  | skipWord => exact passing_same rfl (.pure _)
  | stopWord => exact passing_same rfl (.pure _)
  | _ => exact .reject _

theorem free_functionDeclaration : free functionDeclaration = (do
    let _ ← consume .funcWord
    let name ← identifier
    let _ ← consume .leftParenthesis
    let parameters ← free parametersBeforeClose
    let _ ← consume .rightParenthesis
    let type ← giveType
    let body ← free block
    return .functionDecl name parameters type body) := by
  refine unbounded fun _ _ hd => ?_
  refine passing_same rfl (Alike.identifier.bind fun _ => passing_same rfl ?_)
  refine (settled hd Likeness.parametersBeforeClose rfl).bind fun _ => passing_same rfl ?_
  refine Alike.giveType.bind fun _ => ?_
  exact (settled hd (fun d e => (same.statements d e).block) rfl).bind fun _ => .pure _

theorem free_procedureDeclaration : free procedureDeclaration = (do
    let _ ← consume .procWord
    let name ← identifier
    let _ ← consume .leftParenthesis
    let parameters ← free parametersBeforeClose
    let _ ← consume .rightParenthesis
    let body ← free block
    return .procedureDecl name parameters body) := by
  refine unbounded fun _ _ hd => ?_
  refine passing_same rfl (Alike.identifier.bind fun _ => passing_same rfl ?_)
  refine (settled hd Likeness.parametersBeforeClose rfl).bind fun _ => passing_same rfl ?_
  exact (settled hd (fun d e => (same.statements d e).block) rfl).bind fun _ => .pure _

theorem free_ifStatement : free ifStatement = (do
    let _ ← consume .ifWord
    let condition ← free boolean
    let body ← free block
    let elifs ← free elifBranches
    if (← kind) = .elseWord then
      let alternative ← free elseBranch
      return .ifElse condition body elifs alternative
    else
      return .ifElse condition body elifs .absent) := by
  refine unbounded fun _ _ hd => passing_same rfl ?_
  refine (settled hd (fun d e => (same.expressions d e).boolean) rfl).bind fun _ => ?_
  refine (settled hd (fun d e => (same.statements d e).block) rfl).bind fun _ => ?_
  refine (settled hd (fun d e => (same.statements d e).elifBranches) rfl).bind fun _ => ?_
  refine seeing fun _ => either ?_ (.pure _)
  exact (settled hd (fun d e => (same.statements d e).elseBranch) rfl).bind fun _ => .pure _

theorem settled_elifBranch (d e : Nat) : same.Settled 1 d e (elifBranch d) (elifBranch e) := by
  intro n m hd
  have h := (same.statements d e).elifBranch hd Pure.pure Pure.pure fun _ _ _ _ _ => .pure _
  rwa [bind_pure, bind_pure] at h

theorem free_elifBranches : free elifBranches = (do
    if (← kind) = .elifWord then
      let first ← free elifBranch
      let rest ← free elifBranches
      return first :: rest
    else
      return []) :=
  unbounded fun _ _ hd => seeing fun _ => either
    ((settled hd settled_elifBranch rfl).bind fun _ =>
      (settled hd (fun d e => (same.statements d e).elifBranches) rfl).bind fun _ => .pure _)
    (.pure _)

theorem free_elifBranch : free elifBranch = (do
    let _ ← consume .elifWord
    let condition ← free boolean
    let body ← free block
    return .elif condition body) :=
  unbounded fun _ _ hd => passing_same rfl
    ((settled hd (fun d e => (same.expressions d e).boolean) rfl).bind fun _ =>
      (settled hd (fun d e => (same.statements d e).block) rfl).bind fun _ => .pure _)

theorem free_elseBranch : free elseBranch = (do
    let _ ← consume .elseWord
    let body ← free block
    return .otherwise body) :=
  unbounded fun _ _ hd => passing_same rfl
    ((settled hd (fun d e => (same.statements d e).block) rfl).bind fun _ => .pure _)

theorem free_whileStatement : free whileStatement = (do
    let _ ← consume .whileWord
    let condition ← free boolean
    let body ← free block
    return .whileLoop condition body) :=
  unbounded fun _ _ hd => passing_same rfl
    ((settled hd (fun d e => (same.expressions d e).boolean) rfl).bind fun _ =>
      (settled hd (fun d e => (same.statements d e).block) rfl).bind fun _ => .pure _)

theorem free_forStatement : free forStatement = (do
    let _ ← consume .forWord
    let initial ← free assignment
    let _ ← consume .toWord
    let termination ← free arithmetic
    let step ← free stepOption
    let body ← free block
    return .forLoop initial termination step body) := by
  refine unbounded fun _ _ hd => passing_same rfl ?_
  refine (settled hd Likeness.assignment rfl).bind fun _ => passing_same rfl ?_
  refine (settled hd (fun d e => (same.expressions d e).arithmetic) rfl).bind fun _ => ?_
  refine (settled hd Likeness.stepOption rfl).bind fun _ => ?_
  exact (settled hd (fun d e => (same.statements d e).block) rfl).bind fun _ => .pure _

theorem free_wholeProgram : free wholeProgram = (do
    let body ← free block
    if (← kind) = .endOfFile then
      return .program body
    else
      reject (.expected Kind.endOfFile.text)) := by
  have hwhole : ∀ d, wholeProgram d = (do
      let body ← block d
      if (← kind) = .endOfFile then
        return .program body
      else
        reject (.expected Kind.endOfFile.text)) := by
    intro d
    simp only [wholeProgram, program, bind_assoc, pure_bind]
  refine handed fun _ d hd => ?_
  rw [hwhole d]
  refine (settled hd (fun d e => (same.statements d e).block) rfl).bind fun _ => ?_
  exact seeing fun _ => either (.pure _) (.reject _)

end

end BraceScript.Parser
