import BraceScript.Parser.Expression
import BraceScript.Proofs.Consumption

/-! # Attempts — what is only tried leaves no trace

    An attempt to read an expression moves the cursor over the text and takes tokens in hand, and
    may fail anywhere.  What it moved is then put back, piece by piece.  The text itself is put back
    by nobody: that the state before is restored needs that no parser touches the text, and this
    holds of every parser of expressions, also where it fails.

    * `Cursor.source_next`: reading a token leaves the text as it is;
    * `Parser.KeepsText`: a parser leaves the text as it is, however it ends;
    * `Parser.keepsText_arithmetic`: so do the parsers of expressions;
    * `Parser.arithmetic_starts`: no arithmetic tree begins with `not` or a truth value;
    * `Parser.startsBoolean_succ`: so the attempt is a glance, which decides by what is behind the
      arithmetic tree alone. -/

namespace BraceScript

namespace Cursor

/-! ## The text stays -/

theorem source_advance (c : Cursor) : c.advance.source = c.source := by
  rw [advance]
  split <;> rfl

theorem source_advanceBy (k : Nat) (c : Cursor) : (advanceBy k c).source = c.source := by
  induction k generalizing c with
  | zero => rfl
  | succ k ih => exact (ih c.advance).trans c.source_advance

theorem source_stringBody (quote : Char) (xs done : List Char) (c : Cursor) :
    (stringBody quote xs done c).2.source = c.source := by
  fun_induction stringBody quote xs done c with
  | case1 | case3 => rfl
  | case2 | case4 => exact source_advance _
  | case5 done c y ys _ _ ih => rw [ih, source_advance, source_advance]
  | case6 x xs done c _ _ _ ih => rw [ih, source_advance]

theorem source_stringFrom (c : Cursor) (quote : Char) (rest : List Char) :
    (c.stringFrom quote rest).2.source = c.source := by
  have hbody := source_stringBody quote rest [] c.advance
  rw [stringFrom]
  rcases hread : stringBody quote rest [] c.advance with ⟨e | body, after⟩
  · rw [hread] at hbody
    exact hbody.trans c.source_advance
  · rw [hread] at hbody
    exact hbody.trans c.source_advance

theorem source_number (c : Cursor) : c.number.2.source = c.source := by
  rw [number]
  split <;> exact source_advanceBy _ c

theorem source_sign (c : Cursor) (first : Char) : (c.sign first).2.source = c.source := by
  rw [sign]
  rcases pairSign_cases c with ⟨kind, hpair, -⟩ | hpair
  · rw [hpair]
    exact source_advanceBy 2 c
  · rw [hpair]
    cases Kind.ofChar? first with
    | none => rfl
    | some kind => exact c.source_advance

theorem source_tokenHere (c : Cursor) : c.tokenHere.2.source = c.source := by
  rw [tokenHere]
  split
  · rfl
  · split_ifs
    · exact source_advanceBy _ c
    · exact c.source_number
    · exact c.source_stringFrom _ _
    · exact source_advanceBy _ c
    · exact c.source_sign _

/-- Reading a token leaves the text as it is, also where there is none to read. -/
theorem source_next (c : Cursor) : c.next.2.source = c.source := by
  obtain ⟨k, hk⟩ := c.skipTrivia_forward
  rw [next, source_tokenHere, hk, source_advanceBy]

/-- A place of the same text is restored whole. -/
theorem restore_eq {c saved : Cursor} (h : c.source = saved.source) : c.restore saved = saved := by
  rw [restore, h]

end Cursor

namespace Parser

variable {α β : Type}

/-! ## The state behind a parse -/

/-- The text of a state. -/
def State.text (s : State) : List Char := s.cursor.source

theorem State.restore_eq {s saved : State} (h : s.text = saved.text) : s.restore saved = saved := by
  rw [restore, Cursor.restore_eq h]

/-- The token behind the one in hand is looked at, and the state is as it was. -/
theorem peekNext_ok {s : State} {t : Token} {c : Cursor} (h : s.cursor.next = (.ok t, c)) :
    peekNext s = .ok t s := by
  have hsource : c.source = s.cursor.source := by
    rw [← s.cursor.source_next, h]
  rw [peekNext, h]
  show EStateM.Result.ok t (State.mk s.token (c.restore s.cursor)) = _
  rw [Cursor.restore_eq hsource]

/-- The token behind the one in hand cannot be read, and the cursor is where reading stopped. -/
theorem peekNext_error {s : State} {e : LexError} {c : Cursor} (h : s.cursor.next = (.error e, c)) :
    peekNext s = .error (.lexical e) ⟨s.token, c⟩ := by
  rw [peekNext, h]

/-- Where a token is behind the one in hand, it is looked at only. -/
theorem peekNext_same {s s' : State} {t : Token} (h : peekNext s = .ok t s') : s' = s := by
  rcases hnext : s.cursor.next with ⟨e | t', c⟩
  · rw [peekNext_error hnext] at h
    cases h
  · rw [peekNext_ok hnext] at h
    cases h
    rfl

/-- The state that a parser leaves, however it ends. -/
def left (p : Parser α) (s : State) : State :=
  match p s with
  | .ok _ after | .error _ after => after

/-- However a parser ends, it leaves the text as it is. -/
def KeepsText (p : Parser α) : Prop := ∀ s, (left p s).text = s.text

namespace KeepsText

theorem pure (a : α) : KeepsText (Pure.pure a : Parser α) := fun _ => rfl

theorem throw (e : ParseFault) : KeepsText (MonadExcept.throw e : Parser α) := fun _ => rfl

theorem reject (cause : ParseCause) : KeepsText (Parser.reject cause : Parser α) := fun _ => rfl

theorem bind {p : Parser α} {f : α → Parser β} (hp : KeepsText p) (hf : ∀ a, KeepsText (f a)) :
    KeepsText (p >>= f) := by
  intro s
  have hfirst := hp s
  change (left (EStateM.bind p f) s).text = s.text
  rw [left] at hfirst
  rw [left, EStateM.bind]
  cases hmid : p s with
  | ok a mid =>
      rw [hmid] at hfirst
      exact (hf a mid).trans hfirst
  | error e mid =>
      rw [hmid] at hfirst
      exact hfirst

theorem either {c : Prop} [Decidable c] {p q : Parser α} (hp : KeepsText p) (hq : KeepsText q) :
    KeepsText (if c then p else q) := by
  split
  · exact hp
  · exact hq

theorem shift : KeepsText Parser.shift := by
  intro s
  have hsource := s.cursor.source_next
  rw [left, Parser.shift]
  rcases hnext : s.cursor.next with ⟨e | t, c⟩ <;> rw [hnext] at hsource <;> exact hsource

theorem peekNext : KeepsText Parser.peekNext := by
  intro s
  have hsource := s.cursor.source_next
  rw [left, Parser.peekNext]
  rcases hnext : s.cursor.next with ⟨e | t, c⟩ <;> rw [hnext] at hsource <;> exact hsource

theorem lookAhead {p : Parser α} (hp : KeepsText p) (test : α → State → Bool) :
    KeepsText (Parser.lookAhead p test) := by
  intro s
  have htried := hp s
  rw [left] at htried ⊢
  rw [Parser.lookAhead]
  cases htry : p s <;> rw [htry] at htried <;> exact htried

/-! ### Tokens and names -/

theorem seeing {f : Kind → Parser β} (h : ∀ k, KeepsText (f k)) : KeepsText (kind >>= f) :=
  fun s => h s.token.kind s

theorem holding {f : Token → Parser β} (h : ∀ t, KeepsText (f t)) : KeepsText (inHand >>= f) :=
  fun s => h s.token s

theorem consume (k : Kind) : KeepsText (Parser.consume k) :=
  holding fun _ => either (shift.bind fun _ => .pure _) (.reject _)

/-- A token is taken. -/
theorem taking (k : Kind) {f : Token → Parser β} (h : ∀ t, KeepsText (f t)) :
    KeepsText (Parser.consume k >>= f) := (consume k).bind h

theorem lexeme (k : Kind) : KeepsText (Parser.consumeLexeme k) := taking k fun _ => .pure _

theorem identifier : KeepsText Parser.identifier := (lexeme _).bind fun _ => .pure _

end KeepsText

/-! ## Expressions keep the text -/

/-- The parsers of expressions leave the text as it is, at a depth. -/
structure ExpressionsKeepText (depth : Nat) : Prop where
  expression : KeepsText (Parser.expression depth)
  startsBoolean : KeepsText (Parser.startsBoolean depth)
  expressionList : KeepsText (Parser.expressionList depth)
  moreExpressions : KeepsText (Parser.moreExpressions depth)
  boolean : KeepsText (Parser.boolean depth)
  disjunction : KeepsText (Parser.disjunction depth)
  moreDisjuncts : ∀ left, KeepsText (Parser.moreDisjuncts depth left)
  conjunction : KeepsText (Parser.conjunction depth)
  moreConjuncts : ∀ left, KeepsText (Parser.moreConjuncts depth left)
  negation : KeepsText (Parser.negation depth)
  booleanPrimary : KeepsText (Parser.booleanPrimary depth)
  arithmetic : KeepsText (Parser.arithmetic depth)
  sum : KeepsText (Parser.sum depth)
  moreTerms : ∀ left, KeepsText (Parser.moreTerms depth left)
  product : KeepsText (Parser.product depth)
  moreFactors : ∀ left, KeepsText (Parser.moreFactors depth left)
  power : KeepsText (Parser.power depth)
  signed : KeepsText (Parser.signed depth)
  primary : KeepsText (Parser.primary depth)
  functionCall : KeepsText (Parser.functionCall depth)
  arguments : KeepsText (Parser.argumentsBeforeClose depth)

namespace ExpressionsKeepText

open KeepsText

theorem zero : ExpressionsKeepText 0 := by
  constructor <;> intros <;> exact .throw _

variable {depth : Nat} (h : ExpressionsKeepText depth)

include h

theorem succ_booleanPrimary : KeepsText (Parser.booleanPrimary (depth + 1)) := by
  refine seeing fun k => either ?_ (either ?_ ?_)
  · exact (lexeme _).bind fun _ => .pure _
  · exact taking _ fun _ => h.boolean.bind fun _ => taking _ fun _ => .pure _
  · refine h.arithmetic.bind fun _ => seeing fun _ => either ?_ (.pure _)
    exact taking _ fun _ => h.arithmetic.bind fun _ => .pure _

theorem succ_primary : KeepsText (Parser.primary (depth + 1)) := by
  refine seeing fun k => either ?_ (either ?_ (either ?_ (either ?_ (.reject _))))
  · exact (lexeme _).bind fun _ => .pure _
  · exact (lexeme _).bind fun _ => .pure _
  · exact KeepsText.peekNext.bind fun _ => either h.functionCall .identifier
  · exact taking _ fun _ => h.arithmetic.bind fun _ => taking _ fun _ => .pure _

theorem succ : ExpressionsKeepText (depth + 1) where
  expression := h.startsBoolean.bind fun _ => either h.boolean h.arithmetic
  startsBoolean := holding fun _ => h.arithmetic.lookAhead _
  expressionList := h.expression.bind fun _ => h.moreExpressions.bind fun _ => .pure _
  moreExpressions := seeing fun _ => either
    (taking _ fun _ => h.expression.bind fun _ => h.moreExpressions.bind fun _ => .pure _) (.pure _)
  boolean := h.disjunction
  disjunction := h.conjunction.bind h.moreDisjuncts
  moreDisjuncts _ := seeing fun _ => either
    (taking _ fun _ => h.conjunction.bind fun _ => h.moreDisjuncts _) (.pure _)
  conjunction := h.negation.bind h.moreConjuncts
  moreConjuncts _ := seeing fun _ => either
    (taking _ fun _ => h.negation.bind fun _ => h.moreConjuncts _) (.pure _)
  negation := seeing fun _ => either
    (taking _ fun _ => h.booleanPrimary.bind fun _ => .pure _) h.booleanPrimary
  booleanPrimary := h.succ_booleanPrimary
  arithmetic := h.sum
  sum := h.product.bind h.moreTerms
  moreTerms _ := seeing fun _ => either
    (taking _ fun _ => h.product.bind fun _ => h.moreTerms _) (.pure _)
  product := h.power.bind h.moreFactors
  moreFactors _ := seeing fun _ => either
    (taking _ fun _ => h.power.bind fun _ => h.moreFactors _) (.pure _)
  power := h.signed.bind fun _ => seeing fun _ => either
    (taking _ fun _ => h.power.bind fun _ => .pure _) (.pure _)
  signed := seeing fun _ => either
    (taking _ fun _ => h.signed.bind fun _ => .pure _) h.primary
  primary := h.succ_primary
  functionCall := KeepsText.identifier.bind fun _ => taking _ fun _ =>
    h.arguments.bind fun _ => taking _ fun _ => .pure _
  arguments := seeing fun _ => either (.pure _) h.expressionList

end ExpressionsKeepText

theorem expressionsKeepText (depth : Nat) : ExpressionsKeepText depth := by
  induction depth with
  | zero => exact .zero
  | succ depth ih => exact ih.succ

theorem keepsText_arithmetic (depth : Nat) : KeepsText (arithmetic depth) :=
  (expressionsKeepText depth).arithmetic

/-! ## A glance -/

/-- Whether a parser would succeed with an outcome that passes the test; nothing is moved. -/
def glance (p : Parser α) (test : α → State → Bool) : Parser Bool := fun s =>
  match p s with
  | .ok a after => .ok (test a after) s
  | .error _ _ => .ok true s

/-- To look ahead and restore what was moved is to glance, if nothing else was touched. -/
theorem lookAhead_eq_glance {p : Parser α} (hp : KeepsText p) (test : α → State → Bool) :
    lookAhead p test = glance p test := by
  funext s
  have htried := hp s
  rw [left] at htried
  rw [lookAhead, glance]
  cases htry : p s with
  | ok a after =>
      rw [htry] at htried
      exact congrArg (EStateM.Result.ok _) (State.restore_eq htried)
  | error e after =>
      rw [htry] at htried
      exact congrArg (EStateM.Result.ok _) (State.restore_eq htried)

/-! ## How arithmetic trees begin -/

theorem kind_bind (f : Kind → Parser β) (s : State) : (kind >>= f) s = f s.token.kind s := rfl

/-- What a parser that goes on comes to, it comes to by way of its first part. -/
theorem bind_ok {α β : Type} {p : Parser α} {f : α → Parser β} {s s' : State} {b : β}
    (h : (p >>= f) s = .ok b s') : ∃ a mid, p s = .ok a mid ∧ f a mid = .ok b s' := by
  change EStateM.bind p f s = .ok b s' at h
  rw [EStateM.bind] at h
  cases hp : p s with
  | ok a mid =>
      rw [hp] at h
      exact ⟨a, mid, rfl, h⟩
  | error e mid =>
      rw [hp] at h
      cases h

/-- No primary begins with a truth value or with `not`. -/
theorem primary_starts {depth : Nat} {s s' : State} {t : Node} (h : primary depth s = .ok t s') :
    s.token.kind ≠ .booleanLiteral ∧ s.token.kind ≠ .notWord := by
  cases depth with
  | zero => cases h
  | succ depth =>
      rw [primary, kind_bind] at h
      constructor
      · intro hk
        rw [hk] at h
        cases h
      · intro hk
        rw [hk] at h
        cases h

/-- Nor does a primary with signs before it. -/
theorem signed_starts {depth : Nat} {s s' : State} {t : Node} (h : signed depth s = .ok t s') :
    s.token.kind ≠ .booleanLiteral ∧ s.token.kind ≠ .notWord := by
  cases depth with
  | zero => cases h
  | succ depth =>
      rw [signed, kind_bind] at h
      by_cases hsign : s.token.kind.isAdditive = true
      · constructor
        · intro hk
          rw [hk] at hsign
          cases hsign
        · intro hk
          rw [hk] at hsign
          cases hsign
      · rw [if_neg hsign] at h
        exact primary_starts h

/-- No arithmetic tree begins with a truth value or with `not`: it begins with its first signed
    primary. -/
theorem arithmetic_starts {depth : Nat} {s s' : State} {t : Node}
    (h : arithmetic depth s = .ok t s') :
    s.token.kind ≠ .booleanLiteral ∧ s.token.kind ≠ .notWord := by
  -- a tree goes down four levels to its first signed primary
  rcases depth with _ | _ | _ | _ | depth
  · cases h
  · cases h
  · cases h
  · cases h
  · rw [arithmetic, sum] at h
    obtain ⟨_, _, hproduct, -⟩ := bind_ok h
    rw [product] at hproduct
    obtain ⟨_, _, hpower, -⟩ := bind_ok hproduct
    rw [power] at hpower
    obtain ⟨_, _, hsigned, -⟩ := bind_ok hpower
    exact signed_starts hsigned

/-- The attempt decides by what is behind the arithmetic tree.  That the token in hand is `not` or a
    truth value is asked for where a tree has been read, which begins with neither. -/
theorem startsBoolean_succ (depth : Nat) : startsBoolean (depth + 1) =
    glance (arithmetic depth) fun _ after => continuesBoolean after.token.kind := by
  funext s
  rw [startsBoolean]
  change lookAhead (arithmetic depth) (fun _ after => continuesBoolean after.token.kind
    || s.token.kind = .notWord || s.token.kind = .booleanLiteral) s = _
  rw [lookAhead_eq_glance (keepsText_arithmetic depth), glance, glance]
  cases htry : arithmetic depth s with
  | ok t after =>
      obtain ⟨hvalue, hnot⟩ := arithmetic_starts htry
      simp only [decide_eq_false hvalue, decide_eq_false hnot, Bool.or_false]
  | error e after => rfl

end Parser

end BraceScript
