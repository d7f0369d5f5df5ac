import BraceScript.Parser.Statement
import BraceScript.Proofs.Attempts

/-! # Likeness — parses that go the same way

    Two states can be alike without being equal: the places of their tokens may differ, or the
    blanks between them.  A likeness of states that survives taking a token survives every parser,
    at any two depths that are enough for what is ahead.

    * `Likeness`: what a likeness of states and of failures has to keep;
    * `Likeness.expressions`, `Likeness.statements`: every parser takes states that are alike to
      outcomes that are alike, whatever the depths.

    Equality is such a likeness, so the depth of a parse never shows; the likeness of texts with
    the same tokens is another. -/

namespace BraceScript

/-- Whether a kind is neither a line end nor the end of the text. -/
def Kind.isSolid : Kind → Bool
  | .newline | .endOfFile => false
  | _ => true

theorem Kind.solid {k : Kind} (h : k.isSolid = true) : k ≠ .endOfFile ∧ k ≠ .newline := by
  constructor
  · rintro rfl
    cases h
  · rintro rfl
    cases h

namespace Kind

theorem isType_solid {k : Kind} (h : k.isType = true) : k.isSolid = true := by
  cases k <;> first | rfl | cases h

theorem isComparison_solid {k : Kind} (h : k.isComparison = true) : k.isSolid = true := by
  cases k <;> first | rfl | cases h

theorem isAdditive_solid {k : Kind} (h : k.isAdditive = true) : k.isSolid = true := by
  cases k <;> first | rfl | cases h

theorem isMultiplicative_solid {k : Kind} (h : k.isMultiplicative = true) : k.isSolid = true := by
  cases k <;> first | rfl | cases h

end Kind

namespace Parser

variable {α β : Type}

/-- What a parser comes to. -/
abbrev Result (α : Type) := EStateM.Result ParseFault State α

/-- Two outcomes of parses from `s` and `t` that are alike: the same thing is made, and the states
    behind it are alike; or both fail, with failures that are alike. -/
inductive Outcomes (states : State → State → Prop)
    (faults : ParseFault → State → ParseFault → State → Prop) (s t : State) :
    Result α → Result α → Prop
  | ok {a : α} {s' t' : State} (hs : Reaches s s') (ht : Reaches t t') (h : states s' t') :
      Outcomes states faults s t (.ok a s') (.ok a t')
  | error {e e' : ParseFault} {s' t' : State} (h : faults e s' e' t') :
      Outcomes states faults s t (.error e s') (.error e' t')

/-! ## Taking tokens -/

/-- The next token is taken, or it cannot be read. -/
theorem shift_cases (s : State) :
    (∃ s', shift s = .ok () s' ∧ s.cursor.next = (.ok s'.token, s'.cursor)) ∨
      ∃ e c, shift s = .error (.lexical e) ⟨s.token, c⟩ ∧ s.cursor.next = (.error e, c) := by
  rw [shift]
  obtain ⟨e | t, c⟩ := s.cursor.next
  · exact .inr ⟨e, c, rfl, rfl⟩
  · exact .inl ⟨⟨t, c⟩, rfl, rfl⟩

theorem shift_takes {s s' : State} {u : Unit} (hkind : s.token.kind ≠ .endOfFile)
    (h : shift s = .ok u s') : Takes s s' := by
  rcases shift_cases s with ⟨s'', hshift, hnext⟩ | ⟨e, c, hshift, -⟩
  · rw [hshift] at h
    cases h
    exact ⟨hkind, hnext⟩
  · rw [hshift] at h
    cases h

/-- A token of the kind that is expected is taken. -/
theorem consume_ok {s s' : State} {u : Unit} {k : Kind} (f : Token → Parser β)
    (hkind : s.token.kind = k) (h : shift s = .ok u s') : (consume k >>= f) s = f s.token s' := by
  show EStateM.bind (consume k) f s = _
  have hconsume : consume k s = .ok s.token s' := by
    simp only [consume, bind, EStateM.bind, inHand, if_pos hkind, h]
    rfl
  rw [EStateM.bind, hconsume]

/-- Behind a token that is expected there is none that can be read. -/
theorem consume_cut {s s' : State} {e : ParseFault} {k : Kind} (f : Token → Parser β)
    (hkind : s.token.kind = k) (h : shift s = .error e s') : (consume k >>= f) s = .error e s' := by
  show EStateM.bind (consume k) f s = _
  have hconsume : consume k s = .error e s' := by
    simp only [consume, bind, EStateM.bind, inHand, if_pos hkind, h]
  rw [EStateM.bind, hconsume]

/-- A token of another kind is rejected. -/
theorem consume_ne {s : State} {k : Kind} (f : Token → Parser β) (hkind : s.token.kind ≠ k) :
    (consume k >>= f) s = .error (.syntactic ⟨.expected k.text, s.token⟩) s := by
  show EStateM.bind (consume k) f s = _
  have hconsume : consume k s = .error (.syntactic ⟨.expected k.text, s.token⟩) s := by
    simp only [consume, bind, EStateM.bind, inHand, if_neg hkind]
    rfl
  rw [EStateM.bind, hconsume]

/-! ## Likeness -/

/-- What comes of passing over the line ends in hand. -/
inductive Lines : State → Result Unit → Prop
  | none {s : State} (h : s.token.kind ≠ .newline) : Lines s (.ok () s)
  | more {s s' : State} {r : Result Unit} (h : s.token.kind = .newline)
      (hshift : shift s = .ok () s') (hmore : Lines s' r) : Lines s r
  | error {s s' : State} {e : ParseFault} (h : s.token.kind = .newline)
      (hshift : shift s = .error e s') : Lines s (.error e s')

/-- Outcomes from states farther on. -/
theorem Outcomes.behind {states : State → State → Prop}
    {faults : ParseFault → State → ParseFault → State → Prop} {s s' t t' : State}
    {r r' : Result α} (hs : Reaches s s') (ht : Reaches t t')
    (h : Outcomes states faults s' t' r r') : Outcomes states faults s t r r' := by
  cases h with
  | ok h h' hst => exact .ok (hs.trans h) (ht.trans h') hst
  | error he => exact .error he

/-- A likeness of states, with one of failures and the states they leave.  Line ends may be passed
    over at different paces, all other tokens are taken together. -/
structure Likeness where
  states : State → State → Prop
  faults : ParseFault → State → ParseFault → State → Prop
  word : ∀ {s t}, states s t → s.token.kind = t.token.kind ∧ s.token.lexeme = t.token.lexeme
  reject : ∀ {s t} (cause : ParseCause), states s t →
    faults (.syntactic ⟨cause, s.token⟩) s (.syntactic ⟨cause, t.token⟩) t
  shift : ∀ {s t}, states s t → s.token.kind ≠ .endOfFile → s.token.kind ≠ .newline →
    Outcomes states faults s t (Parser.shift s) (Parser.shift t)
  lines : ∀ {s t}, states s t → s.token.kind = .newline →
    ∃ r r', Lines s r ∧ Lines t r' ∧ Outcomes states faults s t r r'

theorem Lines.takes {s s' : State} {u : Unit} (h : Lines s (.ok u s')) :
    Reaches s s' ∧ s'.token.kind ≠ .newline := by
  generalize hr : (EStateM.Result.ok u s' : Result Unit) = r at h
  induction h with
  | none h =>
      cases hr
      exact ⟨.refl _, h⟩
  | more h hshift _ ih =>
      obtain ⟨hreaches, hkind⟩ := ih hr
      exact ⟨.trans (.single (shift_takes (by rw [h]; decide) hshift)) hreaches, hkind⟩
  | error => cases hr

namespace Likeness

variable (L : Likeness)

/-- The outcomes of two parsers from states that are alike, with at most `n` and `m` tokens
    ahead, are alike. -/
def Alike (n m : Nat) (p q : Parser α) : Prop :=
  ∀ s t, L.states s t → s.size ≤ n → t.size ≤ m → Outcomes L.states L.faults s t (p s) (q t)

variable {L} {n m : Nat}

namespace Alike

theorem pure (a : α) : L.Alike n m (Pure.pure a) (Pure.pure a) := by
  intro s t hst _ _
  exact .ok (.refl s) (.refl t) hst

theorem reject (cause : ParseCause) :
    L.Alike n m (Parser.reject cause : Parser α) (Parser.reject cause) := by
  intro s t hst _ _
  exact .error (L.reject cause hst)

/-- What follows a parser takes outcomes that are alike to outcomes that are alike. -/
theorem bindAt {p q : Parser α} {f g : α → Parser β} {s t : State}
    (h : Outcomes L.states L.faults s t (p s) (q t)) (hn : s.size ≤ n) (hm : t.size ≤ m)
    (hf : ∀ a, L.Alike n m (f a) (g a)) :
    Outcomes L.states L.faults s t ((p >>= f) s) ((q >>= g) t) := by
  show Outcomes _ _ s t (EStateM.bind p f s) (EStateM.bind q g t)
  rw [EStateM.bind, EStateM.bind]
  generalize p s = r at h ⊢
  generalize q t = r' at h ⊢
  cases h with
  | @ok a s' t' hs ht hst =>
      have hn' := Nat.le_trans hs.size_le hn
      have hm' := Nat.le_trans ht.size_le hm
      exact .behind hs ht (hf a s' t' hst hn' hm')
  | error he => exact .error he

theorem bind {p q : Parser α} {f g : α → Parser β} (hp : L.Alike n m p q)
    (hf : ∀ a, L.Alike n m (f a) (g a)) : L.Alike n m (p >>= f) (q >>= g) := by
  intro s t hst hn hm
  exact bindAt (hp s t hst hn hm) hn hm hf

theorem either {c : Prop} [Decidable c] {p p' q q' : Parser α} (hp : L.Alike n m p q)
    (hp' : L.Alike n m p' q') :
    L.Alike n m (if c then p else p') (if c then q else q') := by
  by_cases h : c
  · rw [if_pos h, if_pos h]
    exact hp
  · rw [if_neg h, if_neg h]
    exact hp'

/-- What comes next depends on the kind of the token in hand. -/
theorem seeing {f g : Kind → Parser β} (hf : ∀ k, L.Alike n m (f k) (g k)) :
    L.Alike n m (kind >>= f) (kind >>= g) := by
  intro s t hst hn hm
  show Outcomes _ _ s t (f s.token.kind s) (g t.token.kind t)
  rw [← (L.word hst).1]
  exact hf s.token.kind s t hst hn hm

/-- What comes next depends on the kind of the token in hand, which is kept in mind. -/
theorem seeingAt {f g : Kind → Parser β}
    (hf : ∀ s t, L.states s t → s.size ≤ n → t.size ≤ m →
      Outcomes L.states L.faults s t (f s.token.kind s) (g s.token.kind t)) :
    L.Alike n m (kind >>= f) (kind >>= g) := by
  intro s t hst hn hm
  show Outcomes _ _ s t (f s.token.kind s) (g t.token.kind t)
  rw [← (L.word hst).1]
  exact hf s t hst hn hm

/-- What comes next depends on the token in hand, but not on its place. -/
theorem holding {f g : Token → Parser β}
    (hf : ∀ a b : Token, a.kind = b.kind → a.lexeme = b.lexeme → L.Alike n m (f a) (g b)) :
    L.Alike n m (inHand >>= f) (inHand >>= g) := by
  intro s t hst hn hm
  obtain ⟨hkind, hlexeme⟩ := L.word hst
  exact hf s.token t.token hkind hlexeme s t hst hn hm

/-- A token is taken, if taking it keeps states alike, and fewer are ahead. -/
theorem takingBy {k : Kind} (hend : k ≠ .endOfFile)
    (hshift : ∀ s t, L.states s t → s.token.kind = k →
      Outcomes L.states L.faults s t (Parser.shift s) (Parser.shift t))
    {f g : Token → Parser β}
    (hf : ∀ n' m', n' < n → m' < m → ∀ a b : Token, a.kind = k → b.kind = k →
      a.lexeme = b.lexeme → L.Alike n' m' (f a) (g b)) :
    L.Alike n m (consume k >>= f) (consume k >>= g) := by
  intro s t hst hn hm
  obtain ⟨hkind, hlexeme⟩ := L.word hst
  by_cases hs : s.token.kind = k
  · have ht : t.token.kind = k := by rw [← hkind, hs]
    have hs' : s.token.kind ≠ .endOfFile := by rw [hs]; exact hend
    have ht' : t.token.kind ≠ .endOfFile := by rw [ht]; exact hend
    have hshift := hshift s t hst hs
    generalize hr : Parser.shift s = r at hshift
    generalize hr' : Parser.shift t = r' at hshift
    cases hshift with
    | @ok u s' t' hreaches hreaches' hst' =>
        rw [consume_ok f hs hr, consume_ok g ht hr']
        have hlt := (shift_takes hs' hr).size_lt
        have hlt' := (shift_takes ht' hr').size_lt
        exact .behind hreaches hreaches' (hf (n - 1) (m - 1) (by omega) (by omega) s.token t.token
          hs ht hlexeme s' t' hst' (by omega) (by omega))
    | error he =>
        rw [consume_cut f hs hr, consume_cut g ht hr']
        exact .error he
  · have ht : t.token.kind ≠ k := by rw [← hkind]; exact hs
    rw [consume_ne f hs, consume_ne g ht]
    exact .error (L.reject _ hst)

/-- A token is taken, and fewer are ahead. -/
theorem taking {k : Kind} (hk : k.isSolid = true) {f g : Token → Parser β}
    (hf : ∀ n' m', n' < n → m' < m → ∀ a b : Token, a.kind = k → b.kind = k →
      a.lexeme = b.lexeme → L.Alike n' m' (f a) (g b)) :
    L.Alike n m (consume k >>= f) (consume k >>= g) :=
  takingBy (Kind.solid hk).1
    (fun _ _ hst hs => L.shift hst (hs ▸ (Kind.solid hk).1) (hs ▸ (Kind.solid hk).2)) hf

/-- A token is passed over, and fewer are ahead. -/
theorem passing {k : Kind} (hk : k.isSolid = true) {p q : Parser β}
    (h : ∀ n' m', n' < n → m' < m → L.Alike n' m' p q) :
    L.Alike n m (consume k >>= fun _ => p) (consume k >>= fun _ => q) :=
  taking hk fun n' m' hn hm _ _ _ _ _ => h n' m' hn hm

/-- An operator of a class is passed over, if there is one. -/
theorem operator {isOperator : Kind → Bool} (hsolid : ∀ k, isOperator k = true → k.isSolid = true)
    {f g : Kind → Parser β} {p q : Parser β}
    (hf : ∀ k n' m', n' < n → m' < m → L.Alike n' m' (f k) (g k)) (hp : L.Alike n m p q) :
    L.Alike n m (kind >>= fun k => if isOperator k then consume k >>= fun _ => f k else p)
      (kind >>= fun k => if isOperator k then consume k >>= fun _ => g k else q) := by
  refine seeing fun k => ?_
  by_cases hk : isOperator k = true
  · rw [if_pos hk, if_pos hk]
    exact passing (hsolid k hk) (hf k)
  · rw [if_neg hk, if_neg hk]
    exact hp

theorem glance {p q : Parser α} {test : α → State → Bool} (h : L.Alike n m p q)
    (htest : ∀ a s t, L.states s t → test a s = test a t) :
    L.Alike n m (Parser.glance p test) (Parser.glance q test) := by
  intro s t hst hn hm
  have h' := h s t hst hn hm
  rw [Parser.glance, Parser.glance]
  generalize p s = r at h' ⊢
  generalize q t = r' at h' ⊢
  cases h' with
  | @ok a s' t' _ _ hst' =>
      show Outcomes _ _ s t (.ok (test a s') s) (.ok (test a t') t)
      rw [htest a s' t' hst']
      exact .ok (.refl s) (.refl t) hst
  | error _ => exact .ok (.refl s) (.refl t) hst

/-- The token behind the one in hand is looked at. -/
theorem peeking {s t : State} {f g : Token → Parser β} (hst : L.states s t)
    (hend : s.token.kind ≠ .endOfFile) (hline : s.token.kind ≠ .newline)
    (hf : ∀ a b : Token, a.kind = b.kind →
      Outcomes L.states L.faults s t (f a s) (g b t)) :
    Outcomes L.states L.faults s t ((peekNext >>= f) s) ((peekNext >>= g) t) := by
  have hshift := L.shift hst hend hline
  show Outcomes _ _ s t (EStateM.bind peekNext f s) (EStateM.bind peekNext g t)
  rw [EStateM.bind, EStateM.bind]
  rcases shift_cases s with ⟨s', hs, hnext⟩ | ⟨e, c, hs, hnext⟩ <;>
    rcases shift_cases t with ⟨t', ht, hnext'⟩ | ⟨e', c', ht, hnext'⟩ <;> rw [hs, ht] at hshift
  · cases hshift with
    | ok _ _ hst' =>
        rw [peekNext_ok hnext, peekNext_ok hnext']
        exact hf s'.token t'.token (L.word hst').1
  · cases hshift
  · cases hshift
  · cases hshift with
    | error he =>
        rw [peekNext_error hnext, peekNext_error hnext']
        exact .error he

/-! ### Names and types -/

theorem lexeme {k : Kind} (hk : k.isSolid = true) :
    L.Alike n m (consumeLexeme k) (consumeLexeme k) := by
  refine taking hk fun n' m' _ _ a b _ _ hlexeme => ?_
  rw [hlexeme]
  exact .pure _

theorem identifier : L.Alike n m Parser.identifier Parser.identifier :=
  (lexeme rfl).bind fun _ => .pure _

theorem typeName : L.Alike n m Parser.typeName Parser.typeName := by
  refine holding fun a b hkind _ => ?_
  rw [← hkind]
  by_cases h : a.kind.isType = true
  · rw [if_pos h]
    exact passing (Kind.isType_solid h) fun n' m' _ _ => .pure _
  · rw [if_neg h]
    exact .reject _

theorem parameter : L.Alike n m Parser.parameter Parser.parameter :=
  typeName.bind fun _ => identifier.bind fun _ => .pure _

theorem giveType : L.Alike n m Parser.giveType Parser.giveType :=
  passing rfl fun _ _ _ _ => typeName

end Alike

/-- Depths `d` and `e` are enough for `n` and `m` tokens ahead; the rank counts how far down a
    parser goes before it takes a token. -/
structure Enough (rank n m d e : Nat) : Prop where
  left : 16 * n + rank ≤ d
  right : 16 * m + rank ≤ e

namespace Enough

variable {rank low n' m' d e : Nat}

/-- One level down, a parser of a lower rank has enough. -/
theorem down (h : Enough rank n m (d + 1) (e + 1)) (hlow : Nat.blt low rank = true) :
    Enough low n m d e := by
  have hlow := Nat.le_of_ble_eq_true hlow
  obtain ⟨hleft, hright⟩ := h
  exact ⟨by omega, by omega⟩

/-- One level down and behind a token, any parser has enough. -/
theorem after (h : Enough rank n m (d + 1) (e + 1)) (hn : n' < n) (hm : m' < m)
    (hlow : Nat.ble low 15 = true) : Enough low n' m' d e := by
  have hlow := Nat.le_of_ble_eq_true hlow
  obtain ⟨hleft, hright⟩ := h
  exact ⟨by omega, by omega⟩

theorem keep (h : Enough rank n m d e) (hlow : Nat.ble low rank = true) : Enough low n m d e := by
  have hlow := Nat.le_of_ble_eq_true hlow
  obtain ⟨hleft, hright⟩ := h
  exact ⟨by omega, by omega⟩

/-- Behind a token, any parser has enough. -/
theorem past (h : Enough rank n m d e) (hn : n' < n) (hm : m' < m)
    (hlow : Nat.ble low 15 = true) : Enough low n' m' d e := by
  have hlow := Nat.le_of_ble_eq_true hlow
  obtain ⟨hleft, hright⟩ := h
  exact ⟨by omega, by omega⟩

end Enough

/-- Two parsers, at depths `d` and `e`, are alike wherever their depths are enough. -/
def Settled (L : Likeness) (rank d e : Nat) (p q : Parser α) : Prop :=
  ∀ ⦃n m⦄, Enough rank n m d e → L.Alike n m p q

theorem commaItems {item : Parser Node} (hitem : ∀ n m, L.Alike n m item item) :
    ∀ d e, L.Settled 1 d e (Parser.commaItems item d) (Parser.commaItems item e) := by
  intro d
  induction d with
  | zero => exact fun e n m hd => absurd hd.left (Nat.not_succ_le_zero _)
  | succ d ih =>
      intro e n m hd
      cases e with
      | zero => exact absurd hd.right (Nat.not_succ_le_zero _)
      | succ e =>
          refine .seeing fun k => .either (.passing rfl ?_) (.pure [])
          intro n' m' hn' hm'
          exact (hitem n' m').bind fun _ => (ih e (hd.after hn' hm' rfl)).bind fun _ => .pure _

theorem commaList {item : Parser Node} (hitem : ∀ n m, L.Alike n m item item) (d e : Nat) :
    L.Settled 1 d e (Parser.commaList item d) (Parser.commaList item e) := by
  intro n m hd
  exact (hitem n m).bind fun _ => (commaItems hitem d e hd).bind fun _ => .pure _

end Likeness

/-! ## Expressions -/

/-- The parsers of expressions at two depths are alike.  The ranks count how far down a parser
    goes before it takes a token. -/
structure Likeness.Expressions (L : Likeness) (d e : Nat) : Prop where
  expression : L.Settled 13 d e (Parser.expression d) (Parser.expression e)
  startsBoolean : L.Settled 8 d e (Parser.startsBoolean d) (Parser.startsBoolean e)
  expressionList : L.Settled 14 d e (Parser.expressionList d) (Parser.expressionList e)
  moreExpressions : L.Settled 1 d e (Parser.moreExpressions d) (Parser.moreExpressions e)
  boolean : L.Settled 12 d e (Parser.boolean d) (Parser.boolean e)
  disjunction : L.Settled 11 d e (Parser.disjunction d) (Parser.disjunction e)
  moreDisjuncts : ∀ left,
    L.Settled 1 d e (Parser.moreDisjuncts d left) (Parser.moreDisjuncts e left)
  conjunction : L.Settled 10 d e (Parser.conjunction d) (Parser.conjunction e)
  moreConjuncts : ∀ left,
    L.Settled 1 d e (Parser.moreConjuncts d left) (Parser.moreConjuncts e left)
  negation : L.Settled 9 d e (Parser.negation d) (Parser.negation e)
  booleanPrimary : L.Settled 8 d e (Parser.booleanPrimary d) (Parser.booleanPrimary e)
  arithmetic : L.Settled 7 d e (Parser.arithmetic d) (Parser.arithmetic e)
  sum : L.Settled 6 d e (Parser.sum d) (Parser.sum e)
  moreTerms : ∀ left, L.Settled 1 d e (Parser.moreTerms d left) (Parser.moreTerms e left)
  product : L.Settled 5 d e (Parser.product d) (Parser.product e)
  moreFactors : ∀ left, L.Settled 1 d e (Parser.moreFactors d left) (Parser.moreFactors e left)
  power : L.Settled 4 d e (Parser.power d) (Parser.power e)
  signed : L.Settled 3 d e (Parser.signed d) (Parser.signed e)
  primary : L.Settled 2 d e (Parser.primary d) (Parser.primary e)
  functionCall : L.Settled 1 d e (Parser.functionCall d) (Parser.functionCall e)
  arguments : L.Settled 15 d e (Parser.argumentsBeforeClose d) (Parser.argumentsBeforeClose e)

namespace Likeness.Expressions

open Alike

variable {L : Likeness} {d e : Nat}

/-- No depth is enough if it is zero. -/
theorem zero_left (e : Nat) : L.Expressions 0 e := by
  constructor <;> intros <;> intro n m hd <;> obtain ⟨hleft, -⟩ := hd <;> omega

theorem zero_right (d : Nat) : L.Expressions d 0 := by
  constructor <;> intros <;> intro n m hd <;> obtain ⟨-, hright⟩ := hd <;> omega

variable (h : L.Expressions d e)

include h

theorem succ_booleanPrimary :
    L.Settled 8 (d + 1) (e + 1) (Parser.booleanPrimary (d + 1))
      (Parser.booleanPrimary (e + 1)) := by
  intro n m hd
  refine seeing fun k => either ?_ (either ?_ ?_)
  · exact (lexeme rfl).bind fun _ => .pure _
  · refine passing rfl fun n' m' hn' hm' => ?_
    refine (h.boolean (hd.after hn' hm' rfl)).bind fun inner => ?_
    exact passing rfl fun _ _ _ _ => .pure inner
  · refine (h.arithmetic (hd.down rfl)).bind fun left => ?_
    refine operator (fun _ => Kind.isComparison_solid) ?_ (.pure _)
    intro k n' m' hn' hm'
    exact (h.arithmetic (hd.after hn' hm' rfl)).bind fun right => .pure _

theorem succ_primary :
    L.Settled 2 (d + 1) (e + 1) (Parser.primary (d + 1)) (Parser.primary (e + 1)) := by
  intro n m hd
  refine seeingAt fun s t hst hs ht => ?_
  by_cases hname : s.token.kind = .identifier
  · -- only here the token behind the one in hand is looked at
    rw [hname]
    refine peeking hst (by rw [hname]; decide) (by rw [hname]; decide) fun a b hkind => ?_
    rw [hkind]
    exact Alike.either (h.functionCall (hd.down rfl)) Alike.identifier s t hst hs ht
  · simp only [if_neg hname]
    refine Alike.either ?_ (either ?_ (either ?_ (.reject _))) s t hst hs ht
    · exact (lexeme rfl).bind fun _ => .pure _
    · exact (lexeme rfl).bind fun _ => .pure _
    · refine passing rfl fun n' m' hn' hm' => ?_
      refine (h.arithmetic (hd.after hn' hm' rfl)).bind fun inner => ?_
      exact passing rfl fun _ _ _ _ => .pure inner

theorem succ : L.Expressions (d + 1) (e + 1) where
  expression _ _ hd := (h.startsBoolean (hd.down rfl)).bind fun _ =>
    either (h.boolean (hd.down rfl)) (h.arithmetic (hd.down rfl))
  startsBoolean _ _ hd := by
    rw [startsBoolean_succ, startsBoolean_succ]
    exact Alike.glance (h.arithmetic (hd.down rfl)) fun _ s t hst => by rw [(L.word hst).1]
  expressionList _ _ hd := (h.expression (hd.down rfl)).bind fun _ =>
    (h.moreExpressions (hd.down rfl)).bind fun _ => .pure _
  moreExpressions _ _ hd := seeing fun _ => either
    (passing rfl fun _ _ hn hm => (h.expression (hd.after hn hm rfl)).bind fun _ =>
      (h.moreExpressions (hd.after hn hm rfl)).bind fun _ => .pure _)
    (.pure _)
  boolean _ _ hd := h.disjunction (hd.down rfl)
  disjunction _ _ hd := (h.conjunction (hd.down rfl)).bind fun left =>
    h.moreDisjuncts left (hd.down rfl)
  moreDisjuncts left _ _ hd := seeing fun _ => either
    (taking rfl fun _ _ hn hm a b ha hb _ => by
      rw [ha, hb]
      exact (h.conjunction (hd.after hn hm rfl)).bind fun right =>
        h.moreDisjuncts _ (hd.after hn hm rfl))
    (.pure left)
  conjunction _ _ hd := (h.negation (hd.down rfl)).bind fun left =>
    h.moreConjuncts left (hd.down rfl)
  moreConjuncts left _ _ hd := seeing fun _ => either
    (taking rfl fun _ _ hn hm a b ha hb _ => by
      rw [ha, hb]
      exact (h.negation (hd.after hn hm rfl)).bind fun right =>
        h.moreConjuncts _ (hd.after hn hm rfl))
    (.pure left)
  negation _ _ hd := seeing fun _ => either
    (taking rfl fun _ _ hn hm a b ha hb _ => by
      rw [ha, hb]
      exact (h.booleanPrimary (hd.after hn hm rfl)).bind fun _ => .pure _)
    (h.booleanPrimary (hd.down rfl))
  booleanPrimary := h.succ_booleanPrimary
  arithmetic _ _ hd := h.sum (hd.down rfl)
  sum _ _ hd := (h.product (hd.down rfl)).bind fun left => h.moreTerms left (hd.down rfl)
  moreTerms left _ _ hd := operator (fun _ => Kind.isAdditive_solid)
    (fun _ _ _ hn hm => (h.product (hd.after hn hm rfl)).bind fun _ =>
      h.moreTerms _ (hd.after hn hm rfl)) (.pure left)
  product _ _ hd := (h.power (hd.down rfl)).bind fun left => h.moreFactors left (hd.down rfl)
  moreFactors left _ _ hd := operator (fun _ => Kind.isMultiplicative_solid)
    (fun _ _ _ hn hm => (h.power (hd.after hn hm rfl)).bind fun _ =>
      h.moreFactors _ (hd.after hn hm rfl)) (.pure left)
  power _ _ hd := (h.signed (hd.down rfl)).bind fun left => seeing fun _ => either
    (taking rfl fun _ _ hn hm a b ha hb _ => by
      rw [ha, hb]
      exact (h.power (hd.after hn hm rfl)).bind fun _ => .pure _)
    (.pure left)
  signed _ _ hd := operator (fun _ => Kind.isAdditive_solid)
    (fun _ _ _ hn hm => (h.signed (hd.after hn hm rfl)).bind fun _ => .pure _)
    (h.primary (hd.down rfl))
  primary := h.succ_primary
  functionCall _ _ hd := Alike.identifier.bind fun _ => passing rfl fun _ _ hn hm =>
    (h.arguments (hd.after hn hm rfl)).bind fun _ => passing rfl fun _ _ _ _ => .pure _
  arguments _ _ hd := seeing fun _ => either (.pure _) (h.expressionList (hd.down rfl))

end Likeness.Expressions

/-- The parsers of expressions take states that are alike to outcomes that are alike. -/
theorem Likeness.expressions (L : Likeness) (d e : Nat) : L.Expressions d e := by
  induction d generalizing e with
  | zero => exact .zero_left e
  | succ d ih =>
      cases e with
      | zero => exact .zero_right _
      | succ e => exact (ih e).succ

/-! ## Statements -/

namespace Likeness

open Alike

variable {L : Likeness} (d e : Nat)

theorem initialValues (names : List Node) :
    L.Settled 14 d e (Parser.initialValues names d) (Parser.initialValues names e) := by
  intro n m hd
  refine ((L.expressions d e).expressionList hd).bind fun values => ?_
  exact either (.pure values) (.reject _)

theorem variableDeclaration :
    L.Settled 1 d e (Parser.variableDeclaration d) (Parser.variableDeclaration e) := by
  intro n m hd
  refine passing rfl fun n₁ m₁ hn₁ hm₁ => Alike.typeName.bind fun type => ?_
  have hd : Enough 15 n₁ m₁ d e := hd.past hn₁ hm₁ rfl
  refine (commaList (fun _ _ => Alike.identifier) d e (hd.keep rfl)).bind fun names => ?_
  refine seeing fun k => either (passing rfl fun n₂ m₂ hn₂ hm₂ => ?_) (.pure _)
  exact (initialValues d e names (hd.past hn₂ hm₂ rfl)).bind fun values => .pure _

theorem constantDeclaration :
    L.Settled 1 d e (Parser.constantDeclaration d) (Parser.constantDeclaration e) := by
  intro n m hd
  refine passing rfl fun n₁ m₁ hn₁ hm₁ => Alike.typeName.bind fun type => ?_
  have hd : Enough 15 n₁ m₁ d e := hd.past hn₁ hm₁ rfl
  refine (commaList (fun _ _ => Alike.identifier) d e (hd.keep rfl)).bind fun names => ?_
  refine passing rfl fun n₂ m₂ hn₂ hm₂ => ?_
  exact (initialValues d e names (hd.past hn₂ hm₂ rfl)).bind fun values => .pure _

theorem parametersBeforeClose :
    L.Settled 1 d e (Parser.parametersBeforeClose d) (Parser.parametersBeforeClose e) := by
  intro n m hd
  exact seeing fun k => either (.pure _) (commaList (fun _ _ => Alike.parameter) d e hd)

theorem procedureCall :
    L.Settled 1 d e (Parser.procedureCall d) (Parser.procedureCall e) := by
  intro n m hd
  refine passing rfl fun n₁ m₁ hn₁ hm₁ => Alike.identifier.bind fun callee => ?_
  have hd : Enough 15 n₁ m₁ d e := hd.past hn₁ hm₁ rfl
  refine passing rfl fun n₂ m₂ hn₂ hm₂ => ?_
  refine ((L.expressions d e).arguments (hd.past hn₂ hm₂ rfl)).bind fun arguments => ?_
  exact passing rfl fun _ _ _ _ => .pure _

theorem assignment : L.Settled 1 d e (Parser.assignment d) (Parser.assignment e) := by
  intro n m hd
  refine Alike.identifier.bind fun target => passing rfl fun n₁ m₁ hn₁ hm₁ => ?_
  exact ((L.expressions d e).expression (hd.past hn₁ hm₁ rfl)).bind fun value => .pure _

theorem giveStatement : L.Settled 1 d e (Parser.giveStatement d) (Parser.giveStatement e) := by
  intro n m hd
  refine passing rfl fun n₁ m₁ hn₁ hm₁ => seeing fun k => either (.pure _) ?_
  exact ((L.expressions d e).expression (hd.past hn₁ hm₁ rfl)).bind fun value => .pure _

theorem showStatement : L.Settled 1 d e (Parser.showStatement d) (Parser.showStatement e) := by
  intro n m hd
  refine passing rfl fun n₁ m₁ hn₁ hm₁ => ?_
  exact ((L.expressions d e).expression (hd.past hn₁ hm₁ rfl)).bind fun value => .pure _

theorem stepOption : L.Settled 1 d e (Parser.stepOption d) (Parser.stepOption e) := by
  intro n m hd
  refine seeing fun k => either (passing rfl fun n₁ m₁ hn₁ hm₁ => ?_) (.pure _)
  exact (L.expressions d e).arithmetic (hd.past hn₁ hm₁ rfl)

/-- Two parsers are alike, and both take a token, so that what follows has fewer tokens ahead. -/
def Strictly (L : Likeness) (rank d e : Nat) (p q : Parser α) : Prop :=
  ∀ ⦃n m⦄, Enough rank n m d e → ∀ {β : Type} (f g : α → Parser β),
    (∀ a n' m', n' < n → m' < m → L.Alike n' m' (f a) (g a)) → L.Alike n m (p >>= f) (q >>= g)

end Likeness

/-- The parsers of statements at two depths are alike. -/
structure Likeness.Statements (L : Likeness) (d e : Nat) : Prop where
  block : L.Settled 1 d e (Parser.block d) (Parser.block e)
  statements : L.Settled 3 d e (Parser.statements d) (Parser.statements e)
  statement : L.Settled 2 d e (Parser.statement d) (Parser.statement e)
  functionDeclaration :
    L.Settled 1 d e (Parser.functionDeclaration d) (Parser.functionDeclaration e)
  procedureDeclaration :
    L.Settled 1 d e (Parser.procedureDeclaration d) (Parser.procedureDeclaration e)
  ifStatement : L.Settled 1 d e (Parser.ifStatement d) (Parser.ifStatement e)
  elifBranches : L.Settled 2 d e (Parser.elifBranches d) (Parser.elifBranches e)
  elifBranch : L.Strictly 1 d e (Parser.elifBranch d) (Parser.elifBranch e)
  elseBranch : L.Settled 1 d e (Parser.elseBranch d) (Parser.elseBranch e)
  whileStatement : L.Settled 1 d e (Parser.whileStatement d) (Parser.whileStatement e)
  forStatement : L.Settled 1 d e (Parser.forStatement d) (Parser.forStatement e)

namespace Likeness.Statements

open Alike

variable {L : Likeness} {d e : Nat}

theorem zero_left (e : Nat) : L.Statements 0 e := by
  constructor <;> intro n m hd <;> obtain ⟨hleft, -⟩ := hd <;> omega

theorem zero_right (d : Nat) : L.Statements d 0 := by
  constructor <;> intro n m hd <;> obtain ⟨-, hright⟩ := hd <;> omega

theorem statements_newline (d : Nat) {s : State} (h : s.token.kind = .newline) :
    Parser.statements (d + 1) s = (consume .newline >>= fun _ => Parser.statements d) s := by
  rw [Parser.statements, kind_bind, h]
  rfl

/-- At a line end, the statements behind the line ends in hand are read. -/
theorem lines_run {s : State} {r : Result Unit} (h : Lines s r) (hline : s.token.kind = .newline)
    {d : Nat} (hd : 16 * s.size + 3 ≤ d) :
    (∀ u s', r = .ok u s' → ∃ d', d' < d ∧ 16 * s'.size + 3 ≤ d' ∧
      Parser.statements d s = Parser.statements d' s') ∧
    ∀ e s', r = .error e s' → Parser.statements d s = .error e s' := by
  induction h generalizing d with
  | none h => exact absurd hline h
  | @more s s' r _ hshift hmore ih =>
      cases d with
      | zero => omega
      | succ d =>
          have hlt := (shift_takes (by rw [hline]; decide) hshift).size_lt
          rw [statements_newline d hline, consume_ok _ hline hshift]
          by_cases hs' : s'.token.kind = .newline
          · obtain ⟨hok, herror⟩ := ih hs' (d := d) (by omega)
            refine ⟨fun u s'' hr => ?_, herror⟩
            obtain ⟨d', hd', henough, heq⟩ := hok u s'' hr
            exact ⟨d', by omega, henough, heq⟩
          · cases hmore with
            | none _ =>
                refine ⟨?_, ?_⟩
                · intro u s'' hr
                  cases hr
                  exact ⟨d, by omega, by omega, rfl⟩
                · intro e s'' hr
                  cases hr
            | more h _ _ => exact absurd h hs'
            | error h _ => exact absurd h hs'
  | @error s s' e _ hshift =>
      cases d with
      | zero => omega
      | succ d =>
          refine ⟨?_, ?_⟩
          · intro u s'' hr
            cases hr
          · intro e' s'' hr
            cases hr
            rw [statements_newline d hline, consume_cut _ hline hshift]

variable (h : L.Statements d e)

include h

theorem succ_statement :
    L.Settled 2 (d + 1) (e + 1) (Parser.statement (d + 1)) (Parser.statement (e + 1)) := by
  intro n m hd
  have hd : Enough 1 n m d e := hd.down rfl
  refine seeing fun k => ?_
  split
  · exact variableDeclaration d e hd
  · exact constantDeclaration d e hd
  · exact h.functionDeclaration hd
  · exact h.procedureDeclaration hd
  · exact procedureCall d e hd
  · exact assignment d e hd
  · exact giveStatement d e hd
  · exact showStatement d e hd
  · exact h.ifStatement hd
  · exact h.whileStatement hd
  · exact h.forStatement hd
  · exact passing rfl fun _ _ _ _ => .pure _
  · exact passing rfl fun _ _ _ _ => .pure _
  · exact .reject _

theorem succ_elifBranch :
    L.Strictly 1 (d + 1) (e + 1) (Parser.elifBranch (d + 1)) (Parser.elifBranch (e + 1)) := by
  intro n m hd β f g hfg
  simp only [Parser.elifBranch, bind_assoc, pure_bind]
  refine passing rfl fun n₁ m₁ hn₁ hm₁ => ?_
  have hd : Enough 15 n₁ m₁ d e := hd.after hn₁ hm₁ rfl
  refine ((L.expressions d e).boolean (hd.keep rfl)).bind fun condition => ?_
  exact (h.block (hd.keep rfl)).bind fun body => hfg (.elif condition body) n₁ m₁ hn₁ hm₁

theorem succ_ifStatement :
    L.Settled 1 (d + 1) (e + 1) (Parser.ifStatement (d + 1)) (Parser.ifStatement (e + 1)) := by
  intro n m hd
  refine passing rfl fun n₁ m₁ hn₁ hm₁ => ?_
  have hd : Enough 15 n₁ m₁ d e := hd.after hn₁ hm₁ rfl
  refine ((L.expressions d e).boolean (hd.keep rfl)).bind fun condition => ?_
  refine (h.block (hd.keep rfl)).bind fun body => ?_
  refine (h.elifBranches (hd.keep rfl)).bind fun elifs => ?_
  refine seeing fun k => either ?_ (.pure _)
  exact (h.elseBranch (hd.keep rfl)).bind fun alternative => .pure _

theorem succ_forStatement :
    L.Settled 1 (d + 1) (e + 1) (Parser.forStatement (d + 1)) (Parser.forStatement (e + 1)) := by
  intro n m hd
  refine passing rfl fun n₁ m₁ hn₁ hm₁ => ?_
  have hd : Enough 15 n₁ m₁ d e := hd.after hn₁ hm₁ rfl
  refine (assignment d e (hd.keep rfl)).bind fun initial => passing rfl fun n₂ m₂ hn₂ hm₂ => ?_
  have hd : Enough 15 n₂ m₂ d e := hd.past hn₂ hm₂ rfl
  refine ((L.expressions d e).arithmetic (hd.keep rfl)).bind fun termination => ?_
  refine (stepOption d e (hd.keep rfl)).bind fun step => ?_
  exact (h.block (hd.keep rfl)).bind fun body => .pure _

theorem succ_elifBranches :
    L.Settled 2 (d + 1) (e + 1) (Parser.elifBranches (d + 1)) (Parser.elifBranches (e + 1)) := by
  intro n m hd
  refine seeing fun k => either (h.elifBranch (hd.down rfl) _ _ ?_) (.pure _)
  intro first n₁ m₁ hn₁ hm₁
  exact (h.elifBranches (hd.after hn₁ hm₁ rfl)).bind fun rest => .pure _

theorem succ_functionDeclaration :
    L.Settled 1 (d + 1) (e + 1) (Parser.functionDeclaration (d + 1))
      (Parser.functionDeclaration (e + 1)) := by
  intro n m hd
  refine passing rfl fun n₁ m₁ hn₁ hm₁ => Alike.identifier.bind fun name => ?_
  have hd : Enough 15 n₁ m₁ d e := hd.after hn₁ hm₁ rfl
  refine passing rfl fun n₂ m₂ hn₂ hm₂ => ?_
  have hd : Enough 15 n₂ m₂ d e := hd.past hn₂ hm₂ rfl
  refine (parametersBeforeClose d e (hd.keep rfl)).bind fun parameters => ?_
  refine passing rfl fun n₃ m₃ hn₃ hm₃ => Alike.giveType.bind fun type => ?_
  exact (h.block (hd.past hn₃ hm₃ rfl)).bind fun body => .pure _

theorem succ_procedureDeclaration :
    L.Settled 1 (d + 1) (e + 1) (Parser.procedureDeclaration (d + 1))
      (Parser.procedureDeclaration (e + 1)) := by
  intro n m hd
  refine passing rfl fun n₁ m₁ hn₁ hm₁ => Alike.identifier.bind fun name => ?_
  have hd : Enough 15 n₁ m₁ d e := hd.after hn₁ hm₁ rfl
  refine passing rfl fun n₂ m₂ hn₂ hm₂ => ?_
  have hd : Enough 15 n₂ m₂ d e := hd.past hn₂ hm₂ rfl
  refine (parametersBeforeClose d e (hd.keep rfl)).bind fun parameters => ?_
  refine passing rfl fun n₃ m₃ hn₃ hm₃ => ?_
  exact (h.block (hd.past hn₃ hm₃ rfl)).bind fun body => .pure _

omit h in
/-- At line ends, both go on behind them, at depths that are smaller and still enough. -/
theorem succ_lines (hall : ∀ d' ≤ d, ∀ e', L.Statements d' e') {n m : Nat}
    (hd : Enough 3 n m (d + 1) (e + 1)) {s t : State} (hst : L.states s t) (hs : s.size ≤ n)
    (ht : t.size ≤ m) (hline : s.token.kind = .newline) :
    Outcomes L.states L.faults s t (Parser.statements (d + 1) s)
      (Parser.statements (e + 1) t) := by
  obtain ⟨hn, hm⟩ := hd
  have hline' : t.token.kind = .newline := by rw [← (L.word hst).1, hline]
  obtain ⟨r, r', hr, hr', hlike⟩ := L.lines hst hline
  obtain ⟨hok, herror⟩ := lines_run hr hline (d := d + 1) (by omega)
  obtain ⟨hok', herror'⟩ := lines_run hr' hline' (d := e + 1) (by omega)
  cases hlike with
  | @ok u s' t' hreaches hreaches' hst' =>
      obtain ⟨d', hd', henough, heq⟩ := hok u s' rfl
      obtain ⟨e', he', henough', heq'⟩ := hok' u t' rfl
      rw [heq, heq']
      exact .behind hreaches hreaches' ((hall d' (by omega) e').statements ⟨henough, henough'⟩ s' t'
        hst' (Nat.le_refl _) (Nat.le_refl _))
  | error he =>
      rw [herror _ _ rfl, herror' _ _ rfl]
      exact .error he

omit h in
theorem succ_statements (hall : ∀ d' ≤ d, ∀ e', L.Statements d' e') :
    L.Settled 3 (d + 1) (e + 1) (Parser.statements (d + 1)) (Parser.statements (e + 1)) := by
  intro n m hd s t hst hs ht
  by_cases hline : s.token.kind = .newline
  · exact succ_lines hall hd hst hs ht hline
  · rw [Parser.statements, Parser.statements, kind_bind, kind_bind, ← (L.word hst).1]
    simp only [if_neg hline]
    refine Alike.either (.pure []) ?_ s t hst hs ht
    refine ((hall d (Nat.le_refl d) e).statement (hd.down rfl)).bind fun first => ?_
    refine seeingAt fun s t hst hs ht => ?_
    by_cases hline : s.token.kind = .newline
    · rw [hline]
      -- reading on behind the line end is reading statements that begin with it
      show Outcomes _ _ s t
        ((consume .newline >>= fun _ => Parser.statements d >>= fun rest =>
          Pure.pure (first :: rest)) s)
        ((consume .newline >>= fun _ => Parser.statements e >>= fun rest =>
          Pure.pure (first :: rest)) t)
      rw [← bind_assoc, ← bind_assoc]
      refine bindAt ?_ hs ht fun rest => .pure (first :: rest)
      rw [← statements_newline d hline, ← statements_newline e (by rw [← (L.word hst).1, hline])]
      exact succ_lines hall hd hst hs ht hline
    · simp only [if_neg hline]
      exact Alike.either (.pure [first]) (.reject _) s t hst hs ht

theorem succ (hall : ∀ d' ≤ d, ∀ e', L.Statements d' e') : L.Statements (d + 1) (e + 1) where
  block _ _ hd := passing rfl fun _ _ hn hm => (h.statements (hd.after hn hm rfl)).bind fun _ =>
    passing rfl fun _ _ _ _ => .pure _
  statements := succ_statements hall
  statement := h.succ_statement
  functionDeclaration := h.succ_functionDeclaration
  procedureDeclaration := h.succ_procedureDeclaration
  ifStatement := h.succ_ifStatement
  elifBranches := h.succ_elifBranches
  elifBranch := h.succ_elifBranch
  elseBranch _ _ hd := passing rfl fun _ _ hn hm => (h.block (hd.after hn hm rfl)).bind fun _ =>
    .pure _
  whileStatement _ _ hd := passing rfl fun _ _ hn hm =>
    ((L.expressions d e).boolean (hd.after hn hm rfl)).bind fun _ =>
      (h.block (hd.after hn hm rfl)).bind fun _ => .pure _
  forStatement := h.succ_forStatement

end Likeness.Statements

/-- The parsers of statements take states that are alike to outcomes that are alike. -/
theorem Likeness.statements (L : Likeness) (d e : Nat) : L.Statements d e := by
  induction d using Nat.strong_induction_on generalizing e with
  | _ d ih =>
      cases d with
      | zero => exact .zero_left e
      | succ d =>
          have hall : ∀ d' ≤ d, ∀ e', L.Statements d' e' := fun d' hd' e' =>
            ih d' (Nat.lt_succ_of_le hd') e'
          cases e with
          | zero => exact .zero_right _
          | succ e => exact (hall d (Nat.le_refl d) e).succ hall

theorem Likeness.wholeProgram (L : Likeness) (d e : Nat) :
    L.Settled 1 d e (Parser.wholeProgram d) (Parser.wholeProgram e) := by
  intro n m hd
  refine Alike.bind (((L.statements d e).block hd).bind fun body => .pure _) fun tree => ?_
  exact .seeing fun k => .either (.pure tree) (.reject _)

end Parser

end BraceScript
