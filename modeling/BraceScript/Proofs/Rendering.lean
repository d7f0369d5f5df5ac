import BraceScript.Proofs.Printing

/-! # Rendering — trees written as programs

    A tree is written one statement to a line, with parentheses only where an operand binds less
    tightly than its place asks for.  There are nine levels, from `or` at 0 over `and`, `not` and
    comparisons, then sums, products, powers and signs, to what needs no parentheses at 8.

    * `Kind.reach`: the levels up to which a word behind an operand takes it as its own;
    * `Node.words`, `render`: the words of a tree, and its text;
    * `Shaped`: the trees that are read from programs, phrase by phrase;
    * `Shaped.legible`: the words of such a tree can be read back one by one. -/

namespace BraceScript

/-! ## Levels -/

namespace Kind

/-- An operand of this level or a higher one is complete before a word of this kind; below it the
    word makes it part of something longer. -/
def reach : Kind → Nat
  | .orWord => 1
  | .andWord => 2
  | .equal | .notEqual | .less | .greater | .lessEqual | .greaterEqual => 4
  | .plus | .minus => 5
  | .multiply | .divide | .floorDivide | .modulo => 6
  | .power => 7
  | .leftParenthesis => 9
  | _ => 0

/-- The kind that is written so; the end of a text where there is none. -/
def ofText (text : String) : Kind := (ofText? text).getD .endOfFile

/-- The level that an operator asks of its left operand: operators group to the left, a power to
    the right. -/
def leftLevel (k : Kind) : Nat := if k = .power then 7 else k.reach - 1

/-- The level that an operator asks of its right operand. -/
def rightLevel (k : Kind) : Nat := if k = .power then 6 else k.reach

/-- Whether a kind is an operator between two numbers or texts. -/
def isArithmetic (k : Kind) : Bool := k.isAdditive || k.isMultiplicative || k = .power

/-- Whether a kind joins two truth values. -/
def isLogical (k : Kind) : Bool := k = .orWord || k = .andWord

/-- No two kinds are written alike. -/
theorem ofText_text (k : Kind) : ofText k.text = k := by
  have hall : ∀ k ∈ all, ofText k.text = k := by decide +kernel
  exact hall k (mem_all k)

end Kind

namespace Node

/-- How tightly a tree holds together. -/
def level : Node → Nat
  | .logical _ operator _ | .binary _ operator _ => (Kind.ofText operator).reach - 1
  | .negation _ _ => 2
  | .comparison _ _ _ | .truth _ | .boolean _ => 3
  | .unary _ _ => 7
  | _ => 8

/-- Whether a tree is the truth of an arithmetic expression. -/
def isTruth : Node → Bool
  | .truth _ => true
  | _ => false

end Node

/-! ## Words -/

namespace Word

/-- A word that has no lexeme. -/
def sign (k : Kind) : Word := ⟨k, none⟩

/-- Words in parentheses, or as they are. -/
def enclose (inside : Bool) (ws : List Word) : List Word :=
  if inside then sign .leftParenthesis :: (ws ++ [sign .rightParenthesis]) else ws

/-- The kind of the first word. -/
def firstKind : List Word → Kind
  | [] => .endOfFile
  | w :: _ => w.kind

end Word

namespace Node

open Word (sign enclose)

mutual

/-- The words of a tree. -/
def words : Node → List Word
  | .absent | .bare _ | .incomplete _ _ => []
  | .program body => words body
  | .block statements =>
      sign .leftBrace :: sign .newline :: (eachWords [] [sign .newline] statements
        ++ [sign .rightBrace])
  | .typeName name => [sign (Kind.ofText name)]
  | .identifier name => [⟨.identifier, some name⟩]
  | .variableDecl type names values =>
      sign .letWord :: (words type ++ (commaWords names
        ++ if values.isEmpty then [] else sign .assign :: commaWords values))
  | .constantDecl type names values =>
      sign .keepWord :: (words type ++ (commaWords names ++ sign .assign :: commaWords values))
  | .assignment target value => words target ++ sign .assign :: words value
  | .give value => sign .giveWord :: words value
  | .display value => sign .showWord :: words value
  | .elif condition body => sign .elifWord :: (words condition ++ words body)
  | .otherwise body => sign .elseWord :: words body
  | .ifElse condition body elifs alternative =>
      sign .ifWord :: (words condition ++ (words body ++ (eachWords [] [] elifs
        ++ words alternative)))
  | .whileLoop condition body => sign .whileWord :: (words condition ++ words body)
  | .forLoop initial termination step body =>
      sign .forWord :: (words initial ++ sign .toWord :: (words termination
        ++ ((if step.isAbsent then [] else sign .stepWord :: words step) ++ words body)))
  | .skip => [sign .skipWord]
  | .stop => [sign .stopWord]
  | .parameter name type => words type ++ words name
  | .functionDecl name parameters giveType body =>
      sign .funcWord :: (words name ++ sign .leftParenthesis :: (commaWords parameters
        ++ sign .rightParenthesis :: sign .arrow :: (words giveType ++ words body)))
  | .procedureDecl name parameters body =>
      sign .procWord :: (words name ++ sign .leftParenthesis :: (commaWords parameters
        ++ sign .rightParenthesis :: words body))
  | .functionCall callee arguments =>
      words callee ++ sign .leftParenthesis :: (commaWords arguments ++ [sign .rightParenthesis])
  | .procedureCall callee arguments =>
      sign .execWord :: (words callee ++ sign .leftParenthesis :: (commaWords arguments
        ++ [sign .rightParenthesis]))
  | .binary left operator right | .logical left operator right =>
      let k := Kind.ofText operator
      enclose (left.level < k.leftLevel) (words left)
        ++ sign k :: enclose (right.level < k.rightLevel) (words right)
  | .unary operator operand =>
      sign (Kind.ofText operator) :: enclose (operand.level < 7) (words operand)
  | .truth expression => words expression
  | .negation operator operand =>
      sign (Kind.ofText operator) :: enclose (operand.level < 3) (words operand)
  | .comparison left comparator right =>
      words left ++ sign (Kind.ofText comparator) :: words right
  | .number lexeme => [⟨.numberLiteral, some lexeme⟩]
  | .string lexeme => [⟨.stringLiteral, some lexeme⟩]
  | .boolean lexeme => [⟨.booleanLiteral, some lexeme⟩]

/-- The words of trees with commas between them. -/
def commaWords : List Node → List Word
  | [] => []
  | node :: rest => words node ++ eachWords [sign .comma] [] rest

/-- The words of trees, with the given words before and after each. -/
def eachWords (before after : List Word) : List Node → List Word
  | [] => []
  | node :: rest => before ++ (words node ++ (after ++ eachWords before after rest))

end

/-- The words of an operand where a tree of the given level can stand. -/
def operand (level : Nat) (node : Node) : List Word := enclose (node.level < level) node.words

end Node

/-- The text of a tree. -/
def render (tree : Node) : String := Word.print tree.words

/-! ## The trees of programs -/

/-- What a tree is read as. -/
inductive Phrase where
  | name | type | parameter
  | arithmetic | boolean
  /-- An expression that stands for itself and is not read as the truth of another. -/
  | value
  /-- The step of a loop, which may be left out. -/
  | step
  | statement | block | elif
  /-- An else branch, which may be left out. -/
  | alternative
  | program
  deriving DecidableEq, Repr

/-- The trees that are read from programs.  What is read as a truth value, or as the left side of a
    comparison, does not begin with a parenthesis: that would be read as the parenthesis of a
    boolean expression. -/
inductive Shaped : Phrase → Node → Prop
  | name {name : String} (hword : IsWord name) (hwordy : IsWordy name.toList) :
      Shaped .name (.identifier name)
  | type {k : Kind} (hk : k.isType = true) : Shaped .type (.typeName k.text)
  | parameter {name type : Node} (htype : Shaped .type type) (hname : Shaped .name name) :
      Shaped .parameter (.parameter name type)
  | identifier {node : Node} (h : Shaped .name node) : Shaped .arithmetic node
  | number {lexeme : String} (h : IsNumeral lexeme.toList) : Shaped .arithmetic (.number lexeme)
  | string {lexeme : String} (h : IsQuotation lexeme.toList) : Shaped .arithmetic (.string lexeme)
  | functionCall {callee : Node} {arguments : List Node} (hcallee : Shaped .name callee)
      (harguments : ∀ a ∈ arguments, Shaped .value a) :
      Shaped .arithmetic (.functionCall callee arguments)
  | binary {left right : Node} {k : Kind} (hk : k.isArithmetic = true)
      (hleft : Shaped .arithmetic left) (hright : Shaped .arithmetic right) :
      Shaped .arithmetic (.binary left k.text right)
  | unary {operand : Node} {k : Kind} (hk : k.isAdditive = true)
      (hoperand : Shaped .arithmetic operand) : Shaped .arithmetic (.unary k.text operand)
  | boolean {lexeme : String} (h : lexeme = "true" ∨ lexeme = "false") :
      Shaped .boolean (.boolean lexeme)
  | logical {left right : Node} {k : Kind} (hk : k.isLogical = true)
      (hleft : Shaped .boolean left) (hright : Shaped .boolean right) :
      Shaped .boolean (.logical left k.text right)
  | negation {operand : Node} (hoperand : Shaped .boolean operand) :
      Shaped .boolean (.negation Kind.notWord.text operand)
  | comparison {left right : Node} {k : Kind} (hk : k.isComparison = true)
      (hleft : Shaped .arithmetic left) (hright : Shaped .arithmetic right)
      (hopen : Word.firstKind left.words ≠ .leftParenthesis) :
      Shaped .boolean (.comparison left k.text right)
  | truth {expression : Node} (h : Shaped .arithmetic expression)
      (hopen : Word.firstKind expression.words ≠ .leftParenthesis) :
      Shaped .boolean (.truth expression)
  | ofArithmetic {node : Node} (h : Shaped .arithmetic node) : Shaped .value node
  | ofBoolean {node : Node} (h : Shaped .boolean node) (hnode : node.isTruth = false) :
      Shaped .value node
  | noStep : Shaped .step .absent
  | step {node : Node} (h : Shaped .arithmetic node) : Shaped .step node
  | variableDecl {type : Node} {names values : List Node} (htype : Shaped .type type)
      (hne : names ≠ []) (hnames : ∀ n ∈ names, Shaped .name n)
      (hvalues : ∀ v ∈ values, Shaped .value v)
      (hlength : values = [] ∨ names.length = values.length) :
      Shaped .statement (.variableDecl type names values)
  | constantDecl {type : Node} {names values : List Node} (htype : Shaped .type type)
      (hne : names ≠ []) (hnames : ∀ n ∈ names, Shaped .name n)
      (hvalues : ∀ v ∈ values, Shaped .value v) (hlength : names.length = values.length) :
      Shaped .statement (.constantDecl type names values)
  | assignment {target value : Node} (htarget : Shaped .name target)
      (hvalue : Shaped .value value) : Shaped .statement (.assignment target value)
  | giveNothing : Shaped .statement (.give .absent)
  | give {value : Node} (h : Shaped .value value) : Shaped .statement (.give value)
  | display {value : Node} (h : Shaped .value value) : Shaped .statement (.display value)
  | functionDecl {name type body : Node} {parameters : List Node} (hname : Shaped .name name)
      (hparameters : ∀ p ∈ parameters, Shaped .parameter p) (htype : Shaped .type type)
      (hbody : Shaped .block body) :
      Shaped .statement (.functionDecl name parameters type body)
  | procedureDecl {name body : Node} {parameters : List Node} (hname : Shaped .name name)
      (hparameters : ∀ p ∈ parameters, Shaped .parameter p) (hbody : Shaped .block body) :
      Shaped .statement (.procedureDecl name parameters body)
  | procedureCall {callee : Node} {arguments : List Node} (hcallee : Shaped .name callee)
      (harguments : ∀ a ∈ arguments, Shaped .value a) :
      Shaped .statement (.procedureCall callee arguments)
  | ifElse {condition body alternative : Node} {elifs : List Node}
      (hcondition : Shaped .boolean condition) (hbody : Shaped .block body)
      (helifs : ∀ e ∈ elifs, Shaped .elif e) (halternative : Shaped .alternative alternative) :
      Shaped .statement (.ifElse condition body elifs alternative)
  | whileLoop {condition body : Node} (hcondition : Shaped .boolean condition)
      (hbody : Shaped .block body) : Shaped .statement (.whileLoop condition body)
  | forLoop {target value termination step body : Node} (htarget : Shaped .name target)
      (hvalue : Shaped .value value) (htermination : Shaped .arithmetic termination)
      (hstep : Shaped .step step) (hbody : Shaped .block body) :
      Shaped .statement (.forLoop (.assignment target value) termination step body)
  | skip : Shaped .statement .skip
  | stop : Shaped .statement .stop
  | block {statements : List Node} (h : ∀ s ∈ statements, Shaped .statement s) :
      Shaped .block (.block statements)
  | elif {condition body : Node} (hcondition : Shaped .boolean condition)
      (hbody : Shaped .block body) : Shaped .elif (.elif condition body)
  | noAlternative : Shaped .alternative .absent
  | otherwise {body : Node} (h : Shaped .block body) : Shaped .alternative (.otherwise body)
  | program {body : Node} (h : Shaped .block body) : Shaped .program (.program body)

/-- An expression is never left out. -/
theorem Shaped.present {node : Node} (h : Shaped .value node) : node.isAbsent = false := by
  cases h with
  | ofArithmetic h =>
      cases h with
      | identifier h => cases h; rfl
      | _ => rfl
  | ofBoolean h _ => cases h <;> rfl

/-! ## Words that can be read back -/

namespace Word

theorem spelled_sign {k : Kind} (h : k.isFixed = true) : (sign k).Spelled :=
  ⟨Kind.spells_none h, Kind.ne_endOfFile h⟩

theorem spelled_lexeme {k : Kind} {lexeme : String} (h : k.Spells (some lexeme)) :
    (Word.mk k (some lexeme)).Spelled := by
  refine ⟨h, ?_⟩
  rintro rfl
  cases h

theorem spelled_newline : (sign .newline).Spelled := ⟨rfl, by decide⟩

/-- Words that can all be read back. -/
def Legible (ws : List Word) : Prop := ∀ w ∈ ws, w.Spelled

namespace Legible

theorem nil : Legible [] := fun _ hw => absurd hw List.not_mem_nil

theorem cons {w : Word} {ws : List Word} (hw : w.Spelled) (hws : Legible ws) :
    Legible (w :: ws) := List.forall_mem_cons.mpr ⟨hw, hws⟩

/-- A sign is put before legible words. -/
theorem sign {k : Kind} {ws : List Word} (hk : k.isFixed = true) (hws : Legible ws) :
    Legible (Word.sign k :: ws) := cons (spelled_sign hk) hws

theorem append {ws vs : List Word} (hws : Legible ws) (hvs : Legible vs) : Legible (ws ++ vs) :=
  List.forall_mem_append.mpr ⟨hws, hvs⟩

theorem enclose {inside : Bool} {ws : List Word} (hws : Legible ws) :
    Legible (Word.enclose inside ws) := by
  cases inside with
  | true => exact sign rfl (hws.append (sign rfl nil))
  | false => exact hws

theorem each {before after : List Word} {nodes : List Node} (hbefore : Legible before)
    (hafter : Legible after) (h : ∀ n ∈ nodes, Legible n.words) :
    Legible (Node.eachWords before after nodes) := by
  induction nodes with
  | nil => exact nil
  | cons node rest ih =>
      obtain ⟨hnode, hrest⟩ := List.forall_mem_cons.mp h
      exact hbefore.append (hnode.append (hafter.append (ih hrest)))

theorem comma {nodes : List Node} (h : ∀ n ∈ nodes, Legible n.words) :
    Legible (Node.commaWords nodes) := by
  cases nodes with
  | nil => exact nil
  | cons node rest =>
      obtain ⟨hnode, hrest⟩ := List.forall_mem_cons.mp h
      exact hnode.append (each (sign rfl nil) nil hrest)

end Legible

end Word

namespace Kind

theorem isType_fixed {k : Kind} (h : k.isType = true) : k.isFixed = true := by
  cases k <;> first | rfl | cases h

theorem isComparison_fixed {k : Kind} (h : k.isComparison = true) : k.isFixed = true := by
  cases k <;> first | rfl | cases h

theorem isArithmetic_fixed {k : Kind} (h : k.isArithmetic = true) : k.isFixed = true := by
  cases k <;> first | rfl | cases h

theorem isLogical_fixed {k : Kind} (h : k.isLogical = true) : k.isFixed = true := by
  cases k <;> first | rfl | cases h

theorem isAdditive_arithmetic {k : Kind} (h : k.isAdditive = true) : k.isArithmetic = true := by
  rw [isArithmetic, h]
  rfl

end Kind

open Word Word.Legible in
/-- The words of a tree that is read from a program can be read back. -/
theorem Shaped.legible {p : Phrase} {node : Node} (h : Shaped p node) : Legible node.words := by
  induction h with
  | name hword hwordy => exact cons (spelled_lexeme ⟨_, rfl, hword, hwordy⟩) nil
  | @type k hk =>
      rw [Node.words, Kind.ofText_text]
      exact sign (Kind.isType_fixed hk) nil
  | parameter _ _ htype hname => exact htype.append hname
  | identifier _ ih | ofArithmetic _ ih | ofBoolean _ _ ih | step _ ih | truth _ _ ih
  | program _ ih => exact ih
  | number h => exact cons (spelled_lexeme ⟨_, rfl, h⟩) nil
  | string h => exact cons (spelled_lexeme ⟨_, rfl, h⟩) nil
  | boolean h => exact cons (spelled_lexeme (h.imp (congrArg some) (congrArg some))) nil
  | functionCall _ _ hcallee harguments =>
      exact hcallee.append (sign rfl ((comma harguments).append (sign rfl nil)))
  | @binary _ _ k hk _ _ hleft hright =>
      rw [Node.words, Kind.ofText_text]
      exact hleft.enclose.append (sign (Kind.isArithmetic_fixed hk) hright.enclose)
  | @unary _ k hk _ hoperand =>
      rw [Node.words, Kind.ofText_text]
      exact sign (Kind.isArithmetic_fixed (Kind.isAdditive_arithmetic hk)) hoperand.enclose
  | @logical _ _ k hk _ _ hleft hright =>
      rw [Node.words, Kind.ofText_text]
      exact hleft.enclose.append (sign (Kind.isLogical_fixed hk) hright.enclose)
  | negation _ hoperand =>
      rw [Node.words, Kind.ofText_text]
      exact sign rfl hoperand.enclose
  | @comparison _ _ k hk _ _ _ hleft hright =>
      rw [Node.words, Kind.ofText_text]
      exact hleft.append (sign (Kind.isComparison_fixed hk) hright)
  | noStep | noAlternative => exact nil
  | variableDecl _ _ _ _ _ htype hnames hvalues =>
      refine sign rfl (htype.append ((comma hnames).append ?_))
      split
      · exact nil
      · exact sign rfl (comma hvalues)
  | constantDecl _ _ _ _ _ htype hnames hvalues =>
      exact sign rfl (htype.append ((comma hnames).append (sign rfl (comma hvalues))))
  | assignment _ _ htarget hvalue => exact htarget.append (sign rfl hvalue)
  | giveNothing => exact sign rfl nil
  | give _ ih | display _ ih | otherwise _ ih => exact sign rfl ih
  | functionDecl _ _ _ _ hname hparameters htype hbody =>
      exact sign rfl (hname.append (sign rfl ((comma hparameters).append
        (sign rfl (sign rfl (htype.append hbody))))))
  | procedureDecl _ _ _ hname hparameters hbody =>
      exact sign rfl (hname.append (sign rfl ((comma hparameters).append (sign rfl hbody))))
  | procedureCall _ _ hcallee harguments =>
      exact sign rfl (hcallee.append (sign rfl ((comma harguments).append (sign rfl nil))))
  | ifElse _ _ _ _ hcondition hbody helifs halternative =>
      exact sign rfl (hcondition.append (hbody.append ((each nil nil helifs).append halternative)))
  | whileLoop _ _ hcondition hbody | elif _ _ hcondition hbody =>
      exact sign rfl (hcondition.append hbody)
  | forLoop _ _ _ _ _ htarget hvalue htermination hstep hbody =>
      refine sign rfl ((htarget.append (sign rfl hvalue)).append (sign rfl (htermination.append
        (append ?_ hbody))))
      split
      · exact nil
      · exact sign rfl hstep
  | skip | stop => exact sign rfl nil
  | block _ ih =>
      exact sign rfl (cons spelled_newline ((each nil (cons spelled_newline nil) ih).append
        (sign rfl nil)))

end BraceScript
