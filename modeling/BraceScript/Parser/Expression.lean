import BraceScript.Parser.Basic

/-! # Parsing, the expressions — arithmetic and boolean

    Sums are made of products, products of powers, powers of signed primaries.  Sums and products
    group to the left, powers to the right, and a sign binds tighter than a power.  Boolean
    expressions are made of comparisons with `not`, `and`, `or`, in that order of binding, `not`
    applying once.  An expression is boolean unless an arithmetic one can be read that is not
    followed by a comparison, `and` or `or`.  Every parser takes a bound on its depth. -/

namespace BraceScript.Parser

/-- What shows, behind an arithmetic expression, that it is part of a boolean one. -/
def continuesBoolean (k : Kind) : Bool :=
  k.isComparison || k = .orWord || k = .andWord

mutual

/-- Any expression. -/
def expression : (depth : Nat) → Parser Node
  | 0 => throw .exhausted
  | depth + 1 => do
      if ← startsBoolean depth then boolean depth else arithmetic depth

/-- Whether the expression ahead is read as a boolean one.  Nothing is consumed. -/
def startsBoolean : (depth : Nat) → Parser Bool
  | 0 => throw .exhausted
  | depth + 1 => do
      let saved ← inHand
      lookAhead (arithmetic depth) fun _ after => continuesBoolean after.token.kind
        || saved.kind = .notWord || saved.kind = .booleanLiteral

/-- Expressions with commas between them. -/
def expressionList : (depth : Nat) → Parser (List Node)
  | 0 => throw .exhausted
  | depth + 1 => do
      let first ← expression depth
      let rest ← moreExpressions depth
      return first :: rest

/-- More expressions, each after a comma. -/
def moreExpressions : (depth : Nat) → Parser (List Node)
  | 0 => throw .exhausted
  | depth + 1 => do
      if (← kind) = .comma then
        let _ ← consume .comma
        let first ← expression depth
        let rest ← moreExpressions depth
        return first :: rest
      else
        return []

/-- A boolean expression. -/
def boolean : (depth : Nat) → Parser Node
  | 0 => throw .exhausted
  | depth + 1 => disjunction depth

/-- Conjunctions joined by `or`. -/
def disjunction : (depth : Nat) → Parser Node
  | 0 => throw .exhausted
  | depth + 1 => do
      let left ← conjunction depth
      moreDisjuncts depth left

/-- More conjunctions, each after `or`. -/
def moreDisjuncts : (depth : Nat) → (left : Node) → Parser Node
  | 0, _ => throw .exhausted
  | depth + 1, left => do
      if (← kind) = .orWord then
        let token ← consume .orWord
        let right ← conjunction depth
        moreDisjuncts depth (.logical left token.kind.text right)
      else
        return left

/-- Negations joined by `and`. -/
def conjunction : (depth : Nat) → Parser Node
  | 0 => throw .exhausted
  | depth + 1 => do
      let left ← negation depth
      moreConjuncts depth left

/-- More negations, each after `and`. -/
def moreConjuncts : (depth : Nat) → (left : Node) → Parser Node
  | 0, _ => throw .exhausted
  | depth + 1, left => do
      if (← kind) = .andWord then
        let token ← consume .andWord
        let right ← negation depth
        moreConjuncts depth (.logical left token.kind.text right)
      else
        return left

/-- A boolean primary, after `not` or not. -/
def negation : (depth : Nat) → Parser Node
  | 0 => throw .exhausted
  | depth + 1 => do
      if (← kind) = .notWord then
        let token ← consume .notWord
        let operand ← booleanPrimary depth
        return .negation token.kind.text operand
      else
        booleanPrimary depth

/-- A truth value, a boolean expression in parentheses, a comparison, or the truth of an
    arithmetic expression. -/
def booleanPrimary : (depth : Nat) → Parser Node
  | 0 => throw .exhausted
  | depth + 1 => do
      let k ← kind
      if k = .booleanLiteral then
        let lexeme ← consumeLexeme .booleanLiteral
        return .boolean lexeme
      else if k = .leftParenthesis then
        let _ ← consume .leftParenthesis
        let inner ← boolean depth
        let _ ← consume .rightParenthesis
        return inner
      else
        let left ← arithmetic depth
        let k ← kind
        if k.isComparison then
          let _ ← consume k
          let right ← arithmetic depth
          return .comparison left k.text right
        else
          return .truth left

/-- An arithmetic expression. -/
def arithmetic : (depth : Nat) → Parser Node
  | 0 => throw .exhausted
  | depth + 1 => sum depth

/-- Products joined by plus and minus. -/
def sum : (depth : Nat) → Parser Node
  | 0 => throw .exhausted
  | depth + 1 => do
      let left ← product depth
      moreTerms depth left

/-- More products, each after plus or minus. -/
def moreTerms : (depth : Nat) → (left : Node) → Parser Node
  | 0, _ => throw .exhausted
  | depth + 1, left => do
      let k ← kind
      if k.isAdditive then
        let _ ← consume k
        let right ← product depth
        moreTerms depth (.binary left k.text right)
      else
        return left

/-- Powers joined by the signs of multiplication and division. -/
def product : (depth : Nat) → Parser Node
  | 0 => throw .exhausted
  | depth + 1 => do
      let left ← power depth
      moreFactors depth left

/-- More powers, each after a sign of multiplication or division. -/
def moreFactors : (depth : Nat) → (left : Node) → Parser Node
  | 0, _ => throw .exhausted
  | depth + 1, left => do
      let k ← kind
      if k.isMultiplicative then
        let _ ← consume k
        let right ← power depth
        moreFactors depth (.binary left k.text right)
      else
        return left

/-- A signed primary, raised to a power or not. -/
def power : (depth : Nat) → Parser Node
  | 0 => throw .exhausted
  | depth + 1 => do
      let left ← signed depth
      if (← kind) = .power then
        let token ← consume .power
        let right ← power depth
        return .binary left token.kind.text right
      else
        return left

/-- A primary with any number of signs before it. -/
def signed : (depth : Nat) → Parser Node
  | 0 => throw .exhausted
  | depth + 1 => do
      let k ← kind
      if k.isAdditive then
        let _ ← consume k
        let operand ← signed depth
        return .unary k.text operand
      else
        primary depth

/-- A literal, a name, a call, or an arithmetic expression in parentheses. -/
def primary : (depth : Nat) → Parser Node
  | 0 => throw .exhausted
  | depth + 1 => do
      let k ← kind
      if k = .numberLiteral then
        let lexeme ← consumeLexeme .numberLiteral
        return .number lexeme
      else if k = .stringLiteral then
        let lexeme ← consumeLexeme .stringLiteral
        return .string lexeme
      else if k = .identifier then
        let ahead ← peekNext
        if ahead.kind = .leftParenthesis then functionCall depth else identifier
      else if k = .leftParenthesis then
        let _ ← consume .leftParenthesis
        let inner ← arithmetic depth
        let _ ← consume .rightParenthesis
        return inner
      else
        reject (.expected "arithmetic expression")

/-- A call of a function. -/
def functionCall : (depth : Nat) → Parser Node
  | 0 => throw .exhausted
  | depth + 1 => do
      let callee ← identifier
      let _ ← consume .leftParenthesis
      let arguments ← argumentsBeforeClose depth
      let _ ← consume .rightParenthesis
      return .functionCall callee arguments

/-- The arguments of a call, none if the closing parenthesis comes first. -/
def argumentsBeforeClose : (depth : Nat) → Parser (List Node)
  | 0 => throw .exhausted
  | depth + 1 => do
      if (← kind) = .rightParenthesis then return [] else expressionList depth

end

end BraceScript.Parser
