import Mathlib
import BraceScript.Proofs.Rereading

/-! # Round trip — a program is read again from its own text

    Every tree that the parser makes is written as a text that the parser takes back to the same
    tree.  What was read with blanks, comments or parentheses that it did not need comes out without
    them.

    * `Reads`: a tree is read from its words as its phrase, before what can follow that phrase;
    * `leads_block`, `leads_line`: a block is read from its lines, or from one line;
    * `Shaped.reads`: every tree of a program is read from its words;
    * `parse_render`: what is parsed is parsed again from its own text. -/

namespace BraceScript

/-- The kinds of word that a statement can begin with. -/
def Kind.startsStatement : Kind → Bool
  | .letWord | .keepWord | .funcWord | .procWord | .execWord | .identifier | .giveWord | .showWord
  | .ifWord | .whileWord | .forWord | .skipWord | .stopWord => true
  | _ => false

theorem Shaped.startsStatement {node : Node} (h : Shaped .statement node) :
    (Word.firstKind node.words).startsStatement = true := by
  cases h with
  | assignment htarget _ =>
      cases htarget
      rfl
  | _ => rfl

namespace Parser

variable {α β : Type}

/-! ## Names, types and lists -/

theorem Leads.holding {f : Token → Parser β} {q : Parser β} {ws vs : List Word}
    (h : ∀ t : Token, t.kind = Word.firstKind ws → Leads (f t) ws q vs) :
    Leads (inHand >>= f) ws q vs := fun s hs => h s.token hs.kind s hs

theorem leads_typeName {k : Kind} (hk : k.isType = true) (rest : List Word) :
    Leads typeName ((Node.typeName k.text).words ++ rest) (pure (.typeName k.text)) rest := by
  rw [Node.words, Kind.ofText_text]
  refine .holding fun t ht => ?_
  rw [show t.kind = k from ht, if_pos hk]
  exact .passing (Kind.solid (Kind.isType_solid hk)).1 (.refl _ _)

theorem leads_commaList {item : Parser Node} (hsame : ∀ n m, same.Alike n m item item)
    {items : List Node} (h : ∀ n ∈ items, ∀ rest, Leads item (n.words ++ rest) (pure n) rest)
    (hne : items ≠ []) {rest : List Word} (hcomma : Word.firstKind rest ≠ .comma) :
    Leads (free (commaList item)) (Node.commaWords items ++ rest) (pure items) rest := by
  rw [free_commaList hsame]
  exact leads_list (fun _ => True) (free_commaItems hsame) trivial (fun n hn rest _ => h n hn rest)
    hne hcomma trivial

/-! ## Reading by phrase -/

/-- A tree is read from its words as its phrase, before what can follow the phrase. -/
def Reads : Phrase → Node → Prop
  | .name, t => ∀ rest, Leads identifier (t.words ++ rest) (pure t) rest
  | .type, t => ∀ rest, Leads typeName (t.words ++ rest) (pure t) rest
  | .parameter, t => ∀ rest, Leads parameter (t.words ++ rest) (pure t) rest
  | .arithmetic, t => ReadsArithmetic t
  | .boolean, t => ReadsBoolean t ∧ DeclinesTree t
  | .value, t => ReadsValue t
  | .step, t => ∀ rest, Word.firstKind rest = .leftBrace →
      Leads (free stepOption) ((if t.isAbsent then [] else Word.sign .stepWord :: t.words) ++ rest)
        (pure t) rest
  | .statement, t => ∀ rest, Leads (free statement) (t.words ++ Word.sign .newline :: rest) (pure t)
      (Word.sign .newline :: rest)
  | .block, t => ∀ rest, Leads (free block) (t.words ++ rest) (pure t) rest
  | .elif, t => ∀ rest, Leads (free elifBranch) (t.words ++ rest) (pure t) rest
  | .alternative, t => ∀ (f : Node → Parser Node) rest, Leads (do
        if (← kind) = .elseWord then
          let alternative ← free elseBranch
          f alternative
        else
          f .absent) (t.words ++ Word.sign .newline :: rest) (f t) (Word.sign .newline :: rest)
  | .program, t => Leads (free wholeProgram) (t.words ++ [Word.last]) (pure t) [Word.last]

theorem ReadsArithmetic.sum {t : Node} (h : ReadsArithmetic t) (hshaped : Shaped .arithmetic t) :
    ReadsAt 4 t.words t := by
  have hread := h 4 (by decide) (by decide)
  rwa [operand_of_le hshaped.levelArithmetic.1.1] at hread

theorem ReadsBoolean.all {t : Node} (h : ReadsBoolean t) : ReadsAt 0 t.words t := by
  have hread := h 0 (by decide)
  rwa [operand_of_le (Nat.zero_le _)] at hread

/-! ### Declarations -/

section

variable {type name target value body condition callee : Node}
  {names values parameters arguments : List Node} (rest : List Word)

theorem leads_initialValues (hvalues : ∀ v ∈ values, ReadsValue v) (hne : names ≠ [])
    (hlength : names.length = values.length) :
    Leads (free (initialValues names)) (Node.commaWords values ++ Word.sign .newline :: rest)
      (pure values) (Word.sign .newline :: rest) := by
  have hsome : values ≠ [] := by
    rintro rfl
    exact hne (List.length_eq_zero_iff.mp hlength)
  rw [free_initialValues]
  refine (leads_expressionList hvalues hsome _ (fun hk => by cases hk) rfl).andThen ?_
  rw [if_pos hlength]
  exact .refl _ _

theorem leads_names (hnames : ∀ n ∈ names, Reads .name n) (hne : names ≠ []) {rest : List Word}
    (hcomma : Word.firstKind rest ≠ .comma) :
    Leads (free identifierList) (Node.commaWords names ++ rest) (pure names) rest :=
  leads_commaList (fun _ _ => Likeness.Alike.identifier) hnames hne hcomma

theorem reads_variableDecl (htype : Reads .type type) (hne : names ≠ [])
    (hnames : ∀ n ∈ names, Reads .name n) (hvalues : ∀ v ∈ values, ReadsValue v)
    (hlength : values = [] ∨ names.length = values.length) :
    Reads .statement (.variableDecl type names values) := by
  intro rest
  rw [free_statement, Node.words]
  refine .seeing .letWord rfl ?_
  show Leads (free variableDeclaration) _ _ _
  rw [free_variableDeclaration, List.cons_append, List.append_assoc, List.append_assoc]
  refine .passing (by decide) ((htype _).andThen ?_)
  cases values with
  | nil =>
      refine (leads_names hnames hne (fun hk => by cases hk)).andThen (.seeing .newline rfl ?_)
      rw [if_neg (by decide)]
      exact .refl _ _
  | cons v values =>
      have hlength := hlength.resolve_left (List.cons_ne_nil _ _)
      refine (leads_names hnames hne (fun hk => by cases hk)).andThen (.seeing .assign rfl ?_)
      rw [if_pos rfl]
      exact .passing (by decide)
        ((leads_initialValues rest hvalues hne hlength).andThen (.refl _ _))

theorem reads_constantDecl (htype : Reads .type type) (hne : names ≠ [])
    (hnames : ∀ n ∈ names, Reads .name n) (hvalues : ∀ v ∈ values, ReadsValue v)
    (hlength : names.length = values.length) :
    Reads .statement (.constantDecl type names values) := by
  intro rest
  rw [free_statement, Node.words]
  refine .seeing .keepWord rfl ?_
  show Leads (free constantDeclaration) _ _ _
  rw [free_constantDeclaration, List.cons_append, List.append_assoc, List.append_assoc,
    List.cons_append]
  refine .passing (by decide) ((htype _).andThen ?_)
  refine (leads_names hnames hne (fun hk => by cases hk)).andThen (.passing (by decide) ?_)
  exact (leads_initialValues rest hvalues hne hlength).andThen (.refl _ _)

theorem leads_parameters (hparameters : ∀ p ∈ parameters, Reads .parameter p)
    (hshaped : ∀ p ∈ parameters, Shaped .parameter p) :
    Leads (free parametersBeforeClose)
      (Node.commaWords parameters ++ Word.sign .rightParenthesis :: rest) (pure parameters)
      (Word.sign .rightParenthesis :: rest) := by
  rw [free_parametersBeforeClose]
  cases parameters with
  | nil =>
      refine .seeing .rightParenthesis rfl ?_
      rw [if_pos rfl]
      exact .refl _ _
  | cons p parameters =>
      have hclose : Word.firstKind (Word.sign .rightParenthesis :: rest) ≠ .comma :=
        fun hk => by cases hk
      have hlist := leads_commaList (fun _ _ => Likeness.Alike.parameter) hparameters
        (List.cons_ne_nil _ _) hclose
      refine .seeing _ rfl ?_
      rw [if_neg]
      · exact hlist
      · -- a parameter begins with its type
        have hp := hshaped p List.mem_cons_self
        cases hp with
        | parameter htype _ =>
            cases htype with
            | @type k hk =>
                rw [Node.commaWords, Node.words, Node.words, Kind.ofText_text]
                rintro rfl
                cases hk

/-- A function is read with its body, however that is laid out. -/
theorem leads_functionDecl {ws : List Word} (hname : Reads .name name)
    (hparameters : ∀ p ∈ parameters, Reads .parameter p)
    (hshaped : ∀ p ∈ parameters, Shaped .parameter p) (htype : Reads .type type)
    (hbody : Leads (free block) (ws ++ rest) (pure body) rest) :
    Leads (free statement) (Word.sign .funcWord :: (name.words ++ Word.sign .leftParenthesis ::
        (Node.commaWords parameters ++ Word.sign .rightParenthesis :: Word.sign .arrow ::
          (type.words ++ (ws ++ rest)))))
      (pure (.functionDecl name parameters type body)) rest := by
  rw [free_statement]
  refine .seeing .funcWord rfl ?_
  show Leads (free functionDeclaration) _ _ _
  rw [free_functionDeclaration]
  refine .passing (by decide) ((hname _).andThen (.passing (by decide) ?_))
  refine (leads_parameters _ hparameters hshaped).andThen (.passing (by decide) ?_)
  exact Leads.andThen (.passing (by decide) (htype _)) (hbody.andThen (.refl _ _))

theorem reads_functionDecl (hname : Reads .name name)
    (hparameters : ∀ p ∈ parameters, Reads .parameter p)
    (hshaped : ∀ p ∈ parameters, Shaped .parameter p) (htype : Reads .type type)
    (hbody : Reads .block body) : Reads .statement (.functionDecl name parameters type body) := by
  intro rest
  rw [Node.words]
  simp only [List.cons_append, List.append_assoc]
  exact leads_functionDecl _ hname hparameters hshaped htype (hbody _)

theorem reads_procedureDecl (hname : Reads .name name)
    (hparameters : ∀ p ∈ parameters, Reads .parameter p)
    (hshaped : ∀ p ∈ parameters, Shaped .parameter p) (hbody : Reads .block body) :
    Reads .statement (.procedureDecl name parameters body) := by
  intro rest
  rw [free_statement, Node.words]
  refine .seeing .procWord rfl ?_
  show Leads (free procedureDeclaration) _ _ _
  rw [free_procedureDeclaration]
  simp only [List.cons_append, List.append_assoc]
  refine .passing (by decide) ((hname _).andThen (.passing (by decide) ?_))
  refine (leads_parameters _ hparameters hshaped).andThen (.passing (by decide) ?_)
  exact (hbody _).andThen (.refl _ _)

/-! ### Simple statements -/

theorem leads_assignment (htarget : Reads .name target) (hvalue : ReadsValue value)
    (hrest : (Word.firstKind rest).reach = 0) :
    Leads (free assignment) ((Node.assignment target value).words ++ rest)
      (pure (.assignment target value)) rest := by
  rw [free_assignment, Node.words, List.append_assoc, List.cons_append]
  refine (htarget _).andThen (.passing (by decide) ?_)
  exact (hvalue rest hrest).andThen (.refl _ _)

theorem reads_assignment (hshaped : Shaped .name target) (htarget : Reads .name target)
    (hvalue : ReadsValue value) : Reads .statement (.assignment target value) := by
  intro rest
  rw [free_statement]
  refine .seeing .identifier ?_ (leads_assignment _ htarget hvalue rfl)
  cases hshaped
  rfl

theorem reads_giveNothing : Reads .statement (.give .absent) := by
  intro rest
  rw [free_statement, Node.words]
  refine .seeing .giveWord rfl ?_
  show Leads (free giveStatement) _ _ _
  rw [free_giveStatement]
  refine .passing (by decide) (.seeing .newline rfl ?_)
  rw [if_pos (.inl rfl)]
  exact .refl _ _

/-- A value is given at the end of a line or of a block. -/
theorem leads_give (hshaped : Shaped .value value) (hvalue : ReadsValue value)
    (hrest : (Word.firstKind rest).reach = 0) :
    Leads (free statement) ((Node.give value).words ++ rest) (pure (.give value)) rest := by
  have hstarts := hshaped.startsValue
  have hne : value.words ≠ [] := Word.ne_nil_of_starts rfl hstarts
  rw [free_statement, Node.words, List.cons_append]
  refine .seeing .giveWord rfl ?_
  show Leads (free giveStatement) _ _ _
  rw [free_giveStatement]
  refine .passing (by decide) (.seeing _ (firstKind_append hne _) ?_)
  rw [if_neg]
  · exact (hvalue _ hrest).andThen (.refl _ _)
  · -- no value begins with the end of a line or of a block
    rintro (hk | hk) <;> rw [hk] at hstarts <;> cases hstarts

theorem reads_display (hvalue : ReadsValue value) : Reads .statement (.display value) := by
  intro rest
  rw [free_statement, Node.words, List.cons_append]
  refine .seeing .showWord rfl ?_
  show Leads (free showStatement) _ _ _
  rw [free_showStatement]
  exact .passing (by decide) ((hvalue _ rfl).andThen (.refl _ _))

theorem reads_procedureCall (hcallee : Reads .name callee)
    (hshaped : ∀ a ∈ arguments, Shaped .value a) (harguments : ∀ a ∈ arguments, ReadsValue a) :
    Reads .statement (.procedureCall callee arguments) := by
  intro rest
  rw [free_statement, Node.words]
  refine .seeing .execWord rfl ?_
  show Leads (free procedureCall) _ _ _
  rw [free_procedureCall]
  simp only [List.cons_append, List.append_assoc]
  refine .passing (by decide) ((hcallee _).andThen (.passing (by decide) ?_))
  exact (leads_arguments hshaped harguments _).andThen (.passing (by decide) (.refl _ _))

/-! ### Branches, loops and blocks -/

/-- A block begins with a brace, before which every expression is complete. -/
theorem firstKind_block (hshaped : Shaped .block body) :
    Word.firstKind (body.words ++ rest) = .leftBrace := by
  cases hshaped
  rfl

theorem leads_guarded {ws : List Word} (hcondition : Reads .boolean condition)
    (hbrace : Word.firstKind ws = .leftBrace) :
    Leads (free boolean) (condition.words ++ ws) (pure condition) ws :=
  hcondition.1.all.boolean (by rw [hbrace]; rfl)

theorem reads_elif (hcondition : Reads .boolean condition) (hshaped : Shaped .block body)
    (hbody : Reads .block body) : Reads .elif (.elif condition body) := by
  intro rest
  rw [free_elifBranch, Node.words, List.cons_append, List.append_assoc]
  refine .passing (by decide) ((leads_guarded hcondition (firstKind_block _ hshaped)).andThen ?_)
  exact (hbody _).andThen (.refl _ _)

theorem reads_whileLoop (hcondition : Reads .boolean condition) (hshaped : Shaped .block body)
    (hbody : Reads .block body) : Reads .statement (.whileLoop condition body) := by
  intro rest
  rw [free_statement, Node.words, List.cons_append, List.append_assoc]
  refine .seeing .whileWord rfl ?_
  show Leads (free whileStatement) _ _ _
  rw [free_whileStatement]
  refine .passing (by decide) ((leads_guarded hcondition (firstKind_block _ hshaped)).andThen ?_)
  exact (hbody _).andThen (.refl _ _)

theorem reads_noAlternative : Reads .alternative .absent := by
  intro f rest
  refine .seeing .newline rfl ?_
  rw [if_neg (by decide)]
  exact .refl _ _

theorem reads_otherwise (hbody : Reads .block body) : Reads .alternative (.otherwise body) := by
  intro f rest
  rw [Node.words, List.cons_append]
  refine .seeing .elseWord rfl ?_
  rw [if_pos rfl, free_elseBranch]
  exact Leads.andThen (.passing (by decide) ((hbody _).andThen (.refl _ _))) (.refl _ _)

theorem leads_elifBranches {elifs : List Node} (hshaped : ∀ e ∈ elifs, Shaped .elif e)
    (helifs : ∀ e ∈ elifs, Reads .elif e) (hrest : Word.firstKind rest ≠ .elifWord) :
    Leads (free elifBranches) (Node.eachWords [] [] elifs ++ rest) (pure elifs) rest := by
  induction elifs with
  | nil =>
      rw [free_elifBranches]
      refine .seeing _ rfl ?_
      rw [if_neg]
      · exact .refl _ _
      · exact hrest
  | cons e elifs ih =>
      obtain ⟨hshape, hshapes⟩ := List.forall_mem_cons.mp hshaped
      obtain ⟨he, hes⟩ := List.forall_mem_cons.mp helifs
      rw [free_elifBranches, Node.eachWords, List.nil_append, List.nil_append, List.append_assoc]
      refine .seeing .elifWord ?_ ?_
      · cases hshape
        rfl
      · rw [if_pos rfl]
        exact (he _).andThen ((ih hshapes hes).andThen (.refl _ _))

/-- A branch is read with its first block, however that is laid out. -/
theorem leads_ifElse {alternative : Node} {elifs : List Node} {ws : List Word}
    (hcondition : Reads .boolean condition)
    (hbrace : ∀ rest, Word.firstKind (ws ++ rest) = .leftBrace)
    (hbody : ∀ rest, Leads (free block) (ws ++ rest) (pure body) rest)
    (hshapes : ∀ e ∈ elifs, Shaped .elif e) (helifs : ∀ e ∈ elifs, Reads .elif e)
    (hother : Shaped .alternative alternative) (halternative : Reads .alternative alternative) :
    Leads (free statement) (Word.sign .ifWord :: (condition.words ++ (ws ++
        (Node.eachWords [] [] elifs ++ (alternative.words ++ Word.sign .newline :: rest)))))
      (pure (.ifElse condition body elifs alternative)) (Word.sign .newline :: rest) := by
  have hnext : Word.firstKind (alternative.words ++ Word.sign .newline :: rest) ≠ .elifWord := by
    cases hother <;> exact fun hk => by cases hk
  rw [free_statement]
  refine .seeing .ifWord rfl ?_
  show Leads (free ifStatement) _ _ _
  rw [free_ifStatement]
  refine .passing (by decide) ((leads_guarded hcondition (hbrace _)).andThen ?_)
  refine (hbody _).andThen ((leads_elifBranches _ hshapes helifs hnext).andThen ?_)
  exact halternative _ rest

theorem reads_ifElse {alternative : Node} {elifs : List Node}
    (hcondition : Reads .boolean condition) (hshaped : Shaped .block body)
    (hbody : Reads .block body) (hshapes : ∀ e ∈ elifs, Shaped .elif e)
    (helifs : ∀ e ∈ elifs, Reads .elif e) (hother : Shaped .alternative alternative)
    (halternative : Reads .alternative alternative) :
    Reads .statement (.ifElse condition body elifs alternative) := by
  intro rest
  rw [Node.words]
  simp only [List.cons_append, List.append_assoc]
  exact leads_ifElse _ hcondition (fun _ => firstKind_block _ hshaped) hbody hshapes helifs hother
    halternative

theorem reads_noStep : Reads .step .absent := by
  intro rest hrest
  rw [free_stepOption]
  refine .seeing .leftBrace hrest ?_
  rw [if_neg (by decide)]
  exact .refl _ _

theorem reads_step {step : Node} (hshaped : Shaped .arithmetic step)
    (h : ReadsArithmetic step) : Reads .step step := by
  intro rest hrest
  rw [(Shaped.ofArithmetic hshaped).present, free_stepOption]
  refine .seeing .stepWord rfl ?_
  rw [if_pos rfl]
  exact .passing (by decide) ((h.sum hshaped).arithmetic (by rw [hrest]; decide))

theorem reads_forLoop {termination step : Node} (htarget : Reads .name target)
    (hvalue : ReadsValue value) (hshape : Shaped .arithmetic termination)
    (htermination : ReadsArithmetic termination) (hstep : Reads .step step)
    (hshaped : Shaped .block body) (hbody : Reads .block body) :
    Reads .statement (.forLoop (.assignment target value) termination step body) := by
  intro rest
  have hbrace := firstKind_block (Word.sign .newline :: rest) hshaped
  rw [free_statement, Node.words]
  refine .seeing .forWord rfl ?_
  show Leads (free forStatement) _ _ _
  rw [free_forStatement]
  simp only [List.cons_append, List.append_assoc]
  refine .passing (by decide) ((leads_assignment _ htarget hvalue rfl).andThen ?_)
  refine .passing (by decide) (((htermination.sum hshape).arithmetic ?_).andThen ?_)
  · -- the bound of the loop is followed by its step or by its body
    split
    · rw [List.nil_append, hbrace]
      decide
    · exact Nat.zero_le 4
  · exact (hstep _ hbrace).andThen ((hbody _).andThen (.refl _ _))

/-- A statement is read from the given words at the end of a line. -/
def ReadsLine (line : List Word × Node) : Prop :=
  (Word.firstKind line.1).startsStatement = true ∧
    ∀ rest, Leads (free statement) (line.1 ++ Word.sign .newline :: rest) (pure line.2)
      (Word.sign .newline :: rest)

theorem leads_statements {lines : List (List Word × Node)} (h : ∀ line ∈ lines, ReadsLine line) :
    Leads (free Parser.statements)
      (lines.flatMap (·.1 ++ [Word.sign .newline]) ++ Word.sign .rightBrace :: rest)
      (pure (lines.map Prod.snd)) (Word.sign .rightBrace :: rest) := by
  induction lines with
  | nil =>
      rw [free_statements]
      refine .seeing .rightBrace rfl ?_
      rw [if_pos rfl]
      exact .refl _ _
  | cons first lines ih =>
      obtain ⟨⟨hstarts, hfirst⟩, hothers⟩ := List.forall_mem_cons.mp h
      have hne : first.1 ≠ [] := Word.ne_nil_of_starts rfl hstarts
      rw [free_statements, List.flatMap_cons, List.append_assoc, List.append_assoc,
        List.singleton_append]
      refine .seeing _ (firstKind_append hne _) ?_
      rw [if_neg, if_neg]
      · refine (hfirst _).andThen (.seeing .newline rfl ?_)
        rw [if_pos rfl]
        exact .passing (by decide) ((ih hothers).andThen (.refl _ _))
      · intro hk
        rw [hk] at hstarts
        cases hstarts
      · intro hk
        rw [hk] at hstarts
        cases hstarts

/-- The words of a block with the given words on its lines. -/
def blockWords (lines : List (List Word)) : List Word :=
  Word.sign .leftBrace :: Word.sign .newline :: (lines.flatMap (· ++ [Word.sign .newline])
    ++ [Word.sign .rightBrace])

/-- A block is read from its lines. -/
theorem leads_block (lines : List (List Word × Node)) (h : ∀ line ∈ lines, ReadsLine line) :
    Leads (free block) (blockWords (lines.map Prod.fst) ++ rest)
      (pure (.block (lines.map Prod.snd))) rest := by
  rw [free_block, blockWords, List.flatMap_map]
  simp only [List.cons_append, List.append_assoc, List.nil_append]
  have hread := leads_statements rest h
  refine .passing (by decide) (Leads.andThen ?_ (.passing (by decide) (.refl _ _)))
  rw [free_statements]
  refine .seeing .newline rfl ?_
  rw [if_neg (by decide), if_pos rfl]
  exact .passing (by decide) hread

/-- A block of one statement is read from one line. -/
theorem leads_line {ws : List Word} {node : Node}
    (hstarts : (Word.firstKind ws).startsStatement = true)
    (h : Leads (free statement) (ws ++ Word.sign .rightBrace :: rest) (pure node)
      (Word.sign .rightBrace :: rest)) :
    Leads (free block) (Word.sign .leftBrace :: (ws ++ Word.sign .rightBrace :: rest))
      (pure (.block [node])) rest := by
  have hne : ws ≠ [] := Word.ne_nil_of_starts rfl hstarts
  rw [free_block]
  refine .passing (by decide) (Leads.andThen ?_ (.passing (by decide) (.refl _ _)))
  rw [free_statements]
  refine .seeing _ (firstKind_append hne _) ?_
  rw [if_neg, if_neg]
  · refine h.andThen (.seeing .rightBrace rfl ?_)
    rw [if_neg (by decide), if_pos rfl]
    exact .refl _ _
  · intro hk
    rw [hk] at hstarts
    cases hstarts
  · intro hk
    rw [hk] at hstarts
    cases hstarts

theorem words_block (statements : List Node) :
    (Node.block statements).words = blockWords (statements.map Node.words) := by
  have heach : Node.eachWords [] [Word.sign .newline] statements =
      (statements.map Node.words).flatMap (· ++ [Word.sign .newline]) := by
    induction statements with
    | nil => rfl
    | cons first statements ih =>
        rw [Node.eachWords, ih, List.map_cons, List.flatMap_cons, List.append_assoc]
        rfl
  rw [Node.words, heach, blockWords]

theorem reads_block {statements : List Node} (hshaped : ∀ s ∈ statements, Shaped .statement s)
    (h : ∀ s ∈ statements, Reads .statement s) : Reads .block (.block statements) := by
  intro rest
  have hlines : ∀ line ∈ statements.map fun s => (s.words, s), ReadsLine line := by
    intro line hline
    obtain ⟨s, hs, rfl⟩ := List.mem_map.mp hline
    exact ⟨(hshaped s hs).startsStatement, h s hs⟩
  have hnodes : (statements.map fun s => (s.words, s)).map Prod.snd = statements := by
    rw [List.map_map]
    exact List.map_id statements
  have hread := leads_block rest _ hlines
  rw [hnodes, List.map_map] at hread
  rw [words_block]
  exact hread

end

/-- A program is read from the words of its block, up to the end of the text. -/
theorem leads_program {ws : List Word} {body : Node}
    (hbody : Leads (free block) (ws ++ [Word.last]) (pure body) [Word.last]) :
    Leads (free wholeProgram) (ws ++ [Word.last]) (pure (.program body)) [Word.last] := by
  rw [free_wholeProgram]
  refine hbody.andThen (.seeing .endOfFile rfl ?_)
  rw [if_pos rfl]
  exact .refl _ _

/-- Every tree of a program is read from its words. -/
theorem Shaped.reads {p : Phrase} {node : Node} (h : Shaped p node) : Reads p node := by
  induction h with
  | name _ _ => exact leads_identifier _
  | type hk => exact leads_typeName hk
  | parameter _ _ htype hname =>
      intro rest
      rw [Node.words, List.append_assoc]
      exact (htype _).andThen ((hname _).andThen (.refl _ _))
  | identifier h _ =>
      refine Shaped.readsArithmetic (.identifier h) ?_
      cases h
      exact reads_identifier _
  | number h => exact Shaped.readsArithmetic (.number h) (reads_number _)
  | string h => exact Shaped.readsArithmetic (.string h) (reads_string _)
  | functionCall hcallee harguments _ ih =>
      refine Shaped.readsArithmetic (.functionCall hcallee harguments) ?_
      cases hcallee
      exact reads_functionCall harguments ih
  | binary hk hleft hright ihl ihr =>
      exact Shaped.readsArithmetic (.binary hk hleft hright) (reads_binary hk ihl ihr)
  | unary hk hoperand ih =>
      exact Shaped.readsArithmetic (.unary hk hoperand)
        (reads_unary hk (ih 7 (by decide) (by decide)))
  | boolean h =>
      exact ⟨Shaped.readsBoolean (.boolean h) (reads_boolean _),
        fun _ _ => declines_word (.inl rfl)⟩
  | logical hk hleft hright ihl ihr =>
      exact ⟨Shaped.readsBoolean (.logical hk hleft hright) (reads_logical hk ihl.1 ihr.1),
        declines_logical hk ihl.2⟩
  | negation hoperand ih =>
      refine ⟨Shaped.readsBoolean (.negation hoperand) (reads_negation (ih.1 3 (by decide))),
        fun rest _ => declines_word (.inr ?_)⟩
      rw [Node.words, Kind.ofText_text]
      rfl
  | comparison hk hleft hright hopen ihl ihr =>
      have hread := reads_comparison hk hleft hopen (ihl.sum hleft) (ihr.sum hright)
      exact ⟨Shaped.readsBoolean (.comparison hk hleft hright hopen) hread,
        declines_comparison hk (ihl.sum hleft)⟩
  | truth h hopen ih =>
      exact ⟨Shaped.readsBoolean (.truth h hopen) (reads_truth h hopen (ih.sum h)),
        declines_truth (ih.sum h)⟩
  | ofArithmetic h ih => exact (ih.sum h).value
  | ofBoolean h hnode ih => exact ih.2.value hnode ih.1.all
  | noStep => exact reads_noStep
  | step h ih => exact reads_step h ih
  | variableDecl _ hne _ _ hlength htype hnames hvalues =>
      exact reads_variableDecl htype hne hnames hvalues hlength
  | constantDecl _ hne _ _ hlength htype hnames hvalues =>
      exact reads_constantDecl htype hne hnames hvalues hlength
  | assignment hshaped _ htarget hvalue => exact reads_assignment hshaped htarget hvalue
  | giveNothing => exact reads_giveNothing
  | give h ih => exact fun _ => leads_give _ h ih rfl
  | display _ ih => exact reads_display ih
  | functionDecl _ hshaped _ _ hname hparameters htype hbody =>
      exact reads_functionDecl hname hparameters hshaped htype hbody
  | procedureDecl _ hshaped _ hname hparameters hbody =>
      exact reads_procedureDecl hname hparameters hshaped hbody
  | procedureCall _ hshaped hcallee harguments =>
      exact reads_procedureCall hcallee hshaped harguments
  | ifElse _ hshaped hshapes hother hcondition hbody helifs halternative =>
      exact reads_ifElse hcondition hshaped hbody hshapes helifs hother halternative
  | whileLoop _ hshaped hcondition hbody => exact reads_whileLoop hcondition hshaped hbody
  | forLoop _ _ hshape _ hshaped htarget hvalue htermination hstep hbody =>
      exact reads_forLoop htarget hvalue hshape htermination hstep hshaped hbody
  | skip =>
      intro rest
      rw [free_statement]
      exact .seeing .skipWord rfl (.passing (by decide) (.refl _ _))
  | stop =>
      intro rest
      rw [free_statement]
      exact .seeing .stopWord rfl (.passing (by decide) (.refl _ _))
  | block hshaped ih => exact reads_block hshaped ih
  | elif _ hshaped hcondition hbody => exact reads_elif hcondition hshaped hbody
  | noAlternative => exact reads_noAlternative
  | otherwise _ ih => exact reads_otherwise ih
  | program _ ih => exact leads_program (ih _)

/-- What is read from the words of a text is the tree of the text. -/
theorem parse_of_leads {source : String} {tree : Node} {ws : List Word}
    (h : Leads (free wholeProgram) ws (pure tree) [Word.last])
    (hwords : (Cursor.ofString source).words = (ws, none)) : parse source = .ok tree := by
  rcases start_cases source with ⟨s, hstart, hnext⟩ | ⟨e, c, -, hnext⟩
  · rw [words_of_next hnext] at hwords
    obtain ⟨hshows, hfailure⟩ := Prod.mk.inj hwords
    obtain ⟨s', -, hrun⟩ := h s ⟨hshows, hfailure⟩
    rw [parse_of_start hstart]
    exact congrArg Result.value hrun
  · rw [Cursor.words_error hnext] at hwords
    cases (Prod.mk.inj hwords).2

end Parser

/-- Parsing undoes writing on all that it can make: the tree of a text, written with parentheses
    only where an operand needs them, is read word by word as it was written and parsed as the same
    tree. -/
theorem parse_render {source : String} {tree : Node} (h : parse source = .ok tree) :
    (Cursor.ofString (render tree)).words = (tree.words ++ [Word.last], none) ∧
      parse (render tree) = .ok tree := by
  have hshaped := parse_shaped h
  have hwords := Cursor.words_print hshaped.legible
  exact ⟨hwords, Parser.parse_of_leads (Parser.Shaped.reads hshaped) hwords⟩

/-- Parentheses that group nothing are not written; those of a right operand, and the escapes of a
    text, are. -/
theorem parse_render_grouped :
    ∃ tree,
      parse ("\x7b\n\n let number x = ((1)) - (2 - 3)\n"
        ++ "show not ((x < \"a\\n'b\")) and (x)\n\x7d") = .ok tree ∧
      render tree = "\x7b \n let number x = 1 - ( 2 - 3 ) \n "
        ++ "show not x < \"a\\n'b\" and x \n \x7d" ∧
      parse (render tree) = .ok tree := by
  let difference := Node.binary (.number "1") "-" (.binary (.number "2") "-" (.number "3"))
  let condition := Node.comparison (.identifier "x") "<" (.string "\"a\n'b\"")
  let tree := Node.program (.block
    [.variableDecl (.typeName "number") [.identifier "x"] [difference],
      .display (.logical (.negation "not" condition) "and" (.truth (.identifier "x")))])
  have hparse : parse ("\x7b\n\n let number x = ((1)) - (2 - 3)\n"
      ++ "show not ((x < \"a\\n'b\")) and (x)\n\x7d") = .ok tree := by cbv
  have hrender : render tree = "\x7b \n let number x = 1 - ( 2 - 3 ) \n "
      ++ "show not x < \"a\\n'b\" and x \n \x7d" := by cbv
  exact ⟨tree, hparse, hrender, (parse_render hparse).2⟩

end BraceScript
