import BraceScript.Proofs.Shapes

/-! # Nesting — a parse does not leave the parentheses around it

    An expression is read with parentheses in pairs, also where it is only looked at to find out
    whether it is boolean.  So what stands behind a closing parenthesis cannot matter to a parse
    that was begun before it, however that parse ends.

    * `Word.closes`: words that close more parentheses than they open;
    * `Word.Paired`: words that open and close them in pairs;
    * `Nests`: a parser takes words in pairs, and does not see what is behind an open parenthesis
      once that is closed;
    * `nesting`: so do all the parsers of expressions. -/

namespace BraceScript

/-! ## Parentheses -/

namespace Kind

/-- Whether a kind is a parenthesis. -/
def isParenthesis : Kind → Bool
  | .leftParenthesis | .rightParenthesis => true
  | _ => false

variable {k : Kind}

theorem isComparison_plain (h : k.isComparison = true) : k.isParenthesis = false := by
  cases k <;> first | rfl | cases h

theorem isAdditive_plain (h : k.isAdditive = true) : k.isParenthesis = false := by
  cases k <;> first | rfl | cases h

theorem isMultiplicative_plain (h : k.isMultiplicative = true) : k.isParenthesis = false := by
  cases k <;> first | rfl | cases h

end Kind

namespace Word

/-- Whether words close more parentheses than they open, with a number of others open before. -/
def closes : (depth : Nat) → List Word → Bool
  | _, [] => false
  | depth, w :: ws =>
      if w.kind = .leftParenthesis then closes (depth + 1) ws
      else if w.kind = .rightParenthesis then depth == 0 || closes (depth - 1) ws
      else closes depth ws

variable {w v : Word} {ws vs : List Word}

theorem closes_plain (h : w.kind.isParenthesis = false) (depth : Nat) (ws : List Word) :
    closes depth (w :: ws) = closes depth ws := by
  rw [closes, if_neg, if_neg]
  · intro hk
    rw [hk] at h
    cases h
  · intro hk
    rw [hk] at h
    cases h

theorem closes_open (h : w.kind = .leftParenthesis) (depth : Nat) (ws : List Word) :
    closes depth (w :: ws) = closes (depth + 1) ws := by
  rw [closes, if_pos h]

theorem closes_close (h : w.kind = .rightParenthesis) (depth : Nat) (ws : List Word) :
    closes (depth + 1) (w :: ws) = closes depth ws := by
  rw [closes, if_neg (by rw [h]; decide), if_pos h]
  rfl

/-- Words that open and close parentheses in pairs. -/
def Paired (ws : List Word) : Prop := ∀ depth vs, closes depth (ws ++ vs) = closes depth vs

namespace Paired

theorem nil : Paired [] := fun _ _ => rfl

theorem append (hws : Paired ws) (hvs : Paired vs) : Paired (ws ++ vs) := by
  intro depth us
  rw [List.append_assoc, hws, hvs]

theorem plain (h : w.kind.isParenthesis = false) : Paired [w] :=
  fun depth vs => closes_plain h depth vs

theorem enclosed (hw : w.kind = .leftParenthesis) (hws : Paired ws)
    (hv : v.kind = .rightParenthesis) : Paired (w :: (ws ++ [v])) := by
  intro depth us
  rw [List.cons_append, closes_open hw, List.append_assoc, hws, List.singleton_append,
    closes_close hv]

end Paired

end Word

namespace Parser

variable {α β : Type} {s t : State}

/-! ## Words taken -/

theorem Takes.words {s s' : State} (h : Takes s s') : s.words = s.token.word :: s'.words := by
  obtain ⟨hend, hnext⟩ := h
  rw [(State.words_cons hend).1, words_of_next hnext]

/-- A word that another one follows can be taken. -/
theorem takes_of_words {w v : Word} {ws : List Word} (h : s.words = w :: v :: ws) :
    ∃ s', Takes s s' ∧ s'.words = v :: ws := by
  have hend : s.token.kind ≠ .endOfFile := by
    intro hend
    rw [State.words, if_pos hend] at h
    exact List.cons_ne_nil _ _ (List.cons.inj h).2.symm
  rcases shift_cases s with ⟨s', -, hnext⟩ | ⟨e, c, -, hnext⟩
  · have htakes : Takes s s' := ⟨hend, hnext⟩
    refine ⟨s', htakes, ?_⟩
    rw [htakes.words] at h
    exact (List.cons.inj h).2
  · rw [(State.words_cons hend).1, Cursor.words_error hnext] at h
    exact absurd (List.cons.inj h).2.symm (List.cons_ne_nil _ _)

theorem token_word {w : Word} {ws : List Word} (h : s.words = w :: ws) : s.token.word = w := by
  obtain ⟨rest, hrest⟩ := s.words_head
  rw [hrest] at h
  exact (List.cons.inj h).1

/-- The words between two states have their parentheses in pairs. -/
def Stretch (s s' : State) : Prop := ∃ ws, Word.Paired ws ∧ s.words = ws ++ s'.words

namespace Stretch

theorem refl (s : State) : Stretch s s := ⟨[], .nil, rfl⟩

theorem trans {s s' s'' : State} (h : Stretch s s') (h' : Stretch s' s'') : Stretch s s'' := by
  obtain ⟨ws, hpaired, hws⟩ := h
  obtain ⟨vs, hpaired', hvs⟩ := h'
  exact ⟨ws ++ vs, hpaired.append hpaired', by rw [hws, hvs, List.append_assoc]⟩

theorem plain {s s' : State} (h : Takes s s') (hkind : s.token.kind.isParenthesis = false) :
    Stretch s s' := ⟨[s.token.word], .plain hkind, h.words⟩

theorem enclosed {s s₁ s₂ s₃ : State} (hopen : s.token.kind = .leftParenthesis)
    (htakes : Takes s s₁) (h : Stretch s₁ s₂) (hclose : s₂.token.kind = .rightParenthesis)
    (htakes' : Takes s₂ s₃) : Stretch s s₃ := by
  obtain ⟨ws, hpaired, hws⟩ := h
  refine ⟨s.token.word :: (ws ++ [s₂.token.word]), hpaired.enclosed hopen hclose, ?_⟩
  rw [htakes.words, hws, htakes'.words]
  simp

end Stretch

/-! ## States that go together -/

/-- Two states have the same words ahead up to a parenthesis that closes one more than was opened;
    behind it are the words `x` and `y`. -/
def Abreast (depth : Nat) (x y : List Word) (s t : State) : Prop :=
  ∃ ws, s.words = ws ++ x ∧ t.words = ws ++ y ∧ Word.closes depth ws = true

namespace Abreast

variable {depth : Nat} {x y : List Word}

theorem word (h : Abreast depth x y s t) : s.token.word = t.token.word := by
  obtain ⟨ws, hs, ht, hcloses⟩ := h
  cases ws with
  | nil => cases hcloses
  | cons w ws => exact (token_word hs).trans (token_word ht).symm

theorem kind (h : Abreast depth x y s t) : t.token.kind = s.token.kind :=
  (congrArg Word.kind h.word).symm

/-- The next words are taken together, unless they close the parenthesis. -/
theorem shift (h : Abreast depth x y s t) {depth' : Nat}
    (hdepth : ∀ ws, Word.closes depth (s.token.word :: ws) = Word.closes depth' ws) :
    ∃ s' t', Takes s s' ∧ Takes t t' ∧ Abreast depth' x y s' t' := by
  obtain ⟨ws, hs, ht, hcloses⟩ := h
  cases ws with
  | nil => cases hcloses
  | cons w ws =>
      rw [← token_word hs, hdepth] at hcloses
      cases ws with
      | nil => cases hcloses
      | cons v ws =>
          obtain ⟨s', htakes, hs'⟩ := takes_of_words hs
          obtain ⟨t', htakes', ht'⟩ := takes_of_words ht
          exact ⟨s', t', htakes, htakes', v :: ws, hs', ht', hcloses⟩

theorem shiftPlain (h : Abreast depth x y s t) (hkind : s.token.kind.isParenthesis = false) :
    ∃ s' t', Takes s s' ∧ Takes t t' ∧ Abreast depth x y s' t' :=
  h.shift fun ws => Word.closes_plain hkind depth ws

end Abreast

/-- Two outcomes: the same is made and the states behind it go together, or both fail. -/
inductive Together (depth : Nat) (x y : List Word) : Result α → Result α → Prop
  | ok {a : α} {s t : State} (h : Abreast depth x y s t) :
      Together depth x y (.ok a s) (.ok a t)
  | error {e e' : ParseFault} {s t : State} : Together depth x y (.error e s) (.error e' t)

/-- A parser takes words with their parentheses in pairs, and from states that go together it comes
    to states that go together. -/
structure Nests (s : State) (p : Parser α) : Prop where
  takes : Yields s p fun _ s' => Stretch s s'
  abreast : ∀ {depth x y t}, Abreast depth x y s t → Together depth x y (p s) (p t)

namespace Nests

theorem pure (a : α) : Nests s (Pure.pure a) := ⟨.pure (.refl s), fun h => .ok h⟩

theorem reject (cause : ParseCause) : Nests s (Parser.reject cause : Parser α) :=
  ⟨.reject cause, fun _ => .error⟩

theorem exhausted : Nests s (throw .exhausted : Parser α) :=
  ⟨fun _ _ h => (by cases h), fun _ => .error⟩

theorem bind {p : Parser α} {f : α → Parser β} (hp : Nests s p) (hf : ∀ a s', Nests s' (f a)) :
    Nests s (p >>= f) where
  takes := hp.takes.bind fun a s' _ hstretch =>
    (hf a s').takes.mono fun _ _ hstretch' => hstretch.trans hstretch'
  abreast {depth x y t} h := by
    have hfirst := hp.abreast h
    show Together depth x y (EStateM.bind p f s) (EStateM.bind p f t)
    rw [EStateM.bind, EStateM.bind]
    generalize p s = r at hfirst ⊢
    generalize p t = r' at hfirst ⊢
    cases hfirst with
    | @ok a s' t' h' => exact (hf a s').abreast h'
    | error => exact .error

theorem either {c : Prop} [Decidable c] {p q : Parser α} (hp : c → Nests s p)
    (hq : ¬c → Nests s q) : Nests s (if c then p else q) := by
  by_cases h : c
  · rw [if_pos h]
    exact hp h
  · rw [if_neg h]
    exact hq h

/-- What comes next depends on the kind of the token in hand. -/
theorem seeing {f : Kind → Parser α} (h : Nests s (f s.token.kind)) : Nests s (kind >>= f) where
  takes := .seeing h.takes
  abreast {depth x y t} hst := by
    rw [kind_bind, kind_bind, hst.kind]
    exact h.abreast hst

/-- A token that is no parenthesis is taken; what comes next does not depend on its place. -/
theorem taking {k : Kind} (hend : (k == .endOfFile) = false) (hk : k.isParenthesis = false)
    {f : Token → Parser β} (hf : ∀ a b : Token, a.word = b.word → f a = f b)
    (h : ∀ a s', Nests s' (f a)) : Nests s (consume k >>= f) where
  takes := .taking hend fun hkind s' htakes =>
    (h s.token s').takes.mono fun _ _ hstretch => (Stretch.plain htakes (hkind ▸ hk)).trans hstretch
  abreast {depth x y t} hst := by
    by_cases hkind : s.token.kind = k
    · obtain ⟨s', t', htakes, htakes', hst'⟩ := hst.shiftPlain (hkind ▸ hk)
      rw [consume_ok f hkind htakes.shift, consume_ok f (hst.kind.trans hkind) htakes'.shift,
        ← hf s.token t.token hst.word]
      exact (h s.token s').abreast hst'
    · rw [consume_ne f hkind, consume_ne f (hst.kind ▸ hkind)]
      exact .error

theorem passing {k : Kind} (hend : (k == .endOfFile) = false) (hk : k.isParenthesis = false)
    {p : Parser β} (h : ∀ s', Nests s' p) : Nests s (consume k >>= fun _ => p) :=
  taking hend hk (fun _ _ _ => rfl) fun _ => h

theorem lexeme {k : Kind} (hend : (k == .endOfFile) = false) (hk : k.isParenthesis = false) :
    Nests s (consumeLexeme k) := by
  refine taking hend hk (fun a b hword => ?_) fun _ _ => .pure _
  rw [show a.lexeme = b.lexeme from congrArg Word.lexeme hword]

theorem identifier : Nests s Parser.identifier :=
  bind (lexeme rfl rfl) fun _ _ => .pure _

/-- An operator of a class without parentheses is passed over, if there is one. -/
theorem operator {isOperator : Kind → Bool}
    (hsolid : ∀ k, isOperator k = true → k.isSolid = true)
    (hplain : ∀ k, isOperator k = true → k.isParenthesis = false) {f : Kind → Parser β}
    {p : Parser β} (hf : ∀ k s', Nests s' (f k)) (hp : Nests s p) :
    Nests s (kind >>= fun k => if isOperator k then consume k >>= fun _ => f k else p) :=
  seeing (either (fun hk => passing (Kind.beq_end (hsolid _ hk)) (hplain _ hk) (hf _)) fun _ => hp)

/-- What is between parentheses is read with more of them open. -/
theorem enclosed {p : Parser α} {f : α → Parser β} (hp : ∀ s', Nests s' p)
    (hf : ∀ a s', Nests s' (f a)) :
    Nests s (consume .leftParenthesis >>= fun _ => p >>= fun a =>
      consume .rightParenthesis >>= fun _ => f a) where
  takes := by
    refine .taking rfl fun hopen s₁ htakes => (hp s₁).takes.bind fun a s₂ _ hinner => ?_
    refine .taking rfl fun hclose s₃ htakes' => (hf a s₃).takes.mono fun _ _ hstretch => ?_
    exact (Stretch.enclosed hopen htakes hinner hclose htakes').trans hstretch
  abreast {depth x y t} hst := by
    by_cases hopen : s.token.kind = .leftParenthesis
    · obtain ⟨s₁, t₁, htakes, htakes', hst₁⟩ := hst.shift fun ws => Word.closes_open hopen depth ws
      rw [consume_ok _ hopen htakes.shift, consume_ok _ (hst.kind.trans hopen) htakes'.shift]
      have hinner := (hp s₁).abreast hst₁
      show Together depth x y (EStateM.bind p _ s₁) (EStateM.bind p _ t₁)
      rw [EStateM.bind, EStateM.bind]
      generalize p s₁ = r at hinner ⊢
      generalize p t₁ = r' at hinner ⊢
      cases hinner with
      | error => exact .error
      | @ok a s₂ t₂ hst₂ =>
          show Together depth x y ((consume .rightParenthesis >>= fun _ => f a) s₂)
            ((consume .rightParenthesis >>= fun _ => f a) t₂)
          by_cases hclose : s₂.token.kind = .rightParenthesis
          · -- this parenthesis closes the one that was opened here, so the states go on together
            obtain ⟨s₃, t₃, htakes, htakes', hst₃⟩ :=
              hst₂.shift fun ws => Word.closes_close hclose depth ws
            rw [consume_ok _ hclose htakes.shift,
              consume_ok _ (hst₂.kind.trans hclose) htakes'.shift]
            exact (hf a s₃).abreast hst₃
          · rw [consume_ne _ hclose, consume_ne _ (hst₂.kind ▸ hclose)]
            exact .error
    · rw [consume_ne _ hopen, consume_ne _ (hst.kind ▸ hopen)]
      exact .error

/-- A parse that is only tried leaves the states where they are. -/
theorem glance {p : Parser α} {test : α → State → Bool} (hp : Nests s p)
    (htest : ∀ a s t, t.token.kind = s.token.kind → test a s = test a t) :
    Nests s (Parser.glance p test) where
  takes := by
    intro found s' hrun
    rw [Parser.glance] at hrun
    cases htry : p s with
    | ok a after =>
        rw [htry] at hrun
        cases hrun
        exact ⟨.refl s, .refl s⟩
    | error e after =>
        rw [htry] at hrun
        cases hrun
        exact ⟨.refl s, .refl s⟩
  abreast {depth x y t} hst := by
    have htry := hp.abreast hst
    rw [Parser.glance, Parser.glance]
    generalize p s = r at htry ⊢
    generalize p t = r' at htry ⊢
    cases htry with
    | @ok a s' t' hst' =>
        show Together depth x y (.ok (test a s') s) (.ok (test a t') t)
        rw [htest a s' t' hst'.kind]
        exact .ok hst
    | error => exact .ok hst

/-- The token behind one that is no parenthesis is looked at. -/
theorem peeking {f : Token → Parser β} (hk : s.token.kind.isParenthesis = false)
    (hf : ∀ a b : Token, a.kind = b.kind → f a = f b) (h : ∀ a, Nests s (f a)) :
    Nests s (peekNext >>= f) where
  takes := .peeking fun a => (h a).takes
  abreast {depth x y t} hst := by
    obtain ⟨s', t', htakes, htakes', hst'⟩ := hst.shiftPlain hk
    rw [bind_eq (peekNext_ok htakes.2), bind_eq (peekNext_ok htakes'.2),
      hf t'.token s'.token hst'.kind]
    exact (h s'.token).abreast hst

end Nests

/-! ## Expressions -/

/-- The parsers of expressions of a depth do not leave the parentheses around them. -/
structure Nesting (d : Nat) : Prop where
  expression : ∀ s, Nests s (expression d)
  startsBoolean : ∀ s, Nests s (startsBoolean d)
  expressionList : ∀ s, Nests s (expressionList d)
  moreExpressions : ∀ s, Nests s (moreExpressions d)
  boolean : ∀ s, Nests s (boolean d)
  disjunction : ∀ s, Nests s (disjunction d)
  moreDisjuncts : ∀ left s, Nests s (moreDisjuncts d left)
  conjunction : ∀ s, Nests s (conjunction d)
  moreConjuncts : ∀ left s, Nests s (moreConjuncts d left)
  negation : ∀ s, Nests s (negation d)
  booleanPrimary : ∀ s, Nests s (booleanPrimary d)
  arithmetic : ∀ s, Nests s (arithmetic d)
  sum : ∀ s, Nests s (sum d)
  moreTerms : ∀ left s, Nests s (moreTerms d left)
  product : ∀ s, Nests s (product d)
  moreFactors : ∀ left s, Nests s (moreFactors d left)
  power : ∀ s, Nests s (power d)
  signed : ∀ s, Nests s (signed d)
  primary : ∀ s, Nests s (primary d)
  functionCall : ∀ s, Nests s (functionCall d)
  arguments : ∀ s, Nests s (argumentsBeforeClose d)

namespace Nesting

open Nests

theorem zero : Nesting 0 := by
  constructor <;> intros <;> exact .exhausted

/-- An operation is read with the operator in the middle, of which only the kind is used. -/
theorem joined {k : Kind} (hend : (k == .endOfFile) = false) (hk : k.isParenthesis = false)
    {p : Parser Node} {f : Token → Node → Parser Node}
    (hf : ∀ a b : Token, a.kind = b.kind → f a = f b) (hp : ∀ s, Nests s p)
    (hmore : ∀ a right s, Nests s (f a right)) (s : State) :
    Nests s (consume k >>= fun token => p >>= fun right => f token right) :=
  taking hend hk (fun a b hword => by rw [hf a b (congrArg Word.kind hword)])
    fun token s' => (hp s').bind fun right s'' => hmore token right s''

variable {d : Nat} (h : Nesting d)

include h

theorem succ_booleanPrimary (s : State) : Nests s (Parser.booleanPrimary (d + 1)) := by
  refine seeing (either (fun _ => ?_) fun _ => either (fun _ => ?_) fun _ => ?_)
  · exact (lexeme rfl rfl).bind fun _ _ => .pure _
  · exact enclosed h.boolean fun inner _ => .pure inner
  · refine (h.arithmetic s).bind fun left s' => ?_
    refine operator (fun _ => Kind.isComparison_solid) (fun _ => Kind.isComparison_plain) ?_
      (.pure _)
    exact fun k s'' => (h.arithmetic s'').bind fun _ _ => .pure _

theorem succ_primary (s : State) : Nests s (Parser.primary (d + 1)) := by
  refine seeing (either (fun _ => ?_) fun _ => either (fun _ => ?_) fun _ =>
    either (fun hk => ?_) fun _ => either (fun _ => ?_) fun _ => .reject _)
  · exact (lexeme rfl rfl).bind fun _ _ => .pure _
  · exact (lexeme rfl rfl).bind fun _ _ => .pure _
  · refine peeking (by rw [hk]; rfl) (fun a b hkind => by rw [hkind]) fun ahead => ?_
    exact either (fun _ => h.functionCall s) fun _ => Nests.identifier
  · exact enclosed h.arithmetic fun inner _ => .pure inner

theorem succ : Nesting (d + 1) where
  expression s := (h.startsBoolean s).bind fun _ s' =>
    either (fun _ => h.boolean s') fun _ => h.arithmetic s'
  startsBoolean s := by
    rw [startsBoolean_succ]
    exact (h.arithmetic s).glance fun _ _ _ hkind => by rw [hkind]
  expressionList s := (h.expression s).bind fun _ s' =>
    (h.moreExpressions s').bind fun _ _ => .pure _
  moreExpressions s := seeing (either
    (fun _ => passing rfl rfl fun s' => (h.expression s').bind fun _ s'' =>
      (h.moreExpressions s'').bind fun _ _ => .pure _)
    fun _ => .pure _)
  boolean := h.disjunction
  disjunction s := (h.conjunction s).bind fun left s' => h.moreDisjuncts left s'
  moreDisjuncts left s := seeing (either
    (fun _ => joined rfl rfl (fun a b hkind => by rw [hkind]) h.conjunction
      (fun _ _ s' => h.moreDisjuncts _ s') s)
    fun _ => .pure left)
  conjunction s := (h.negation s).bind fun left s' => h.moreConjuncts left s'
  moreConjuncts left s := seeing (either
    (fun _ => joined rfl rfl (fun a b hkind => by rw [hkind]) h.negation
      (fun _ _ s' => h.moreConjuncts _ s') s)
    fun _ => .pure left)
  negation s := seeing (either
    (fun _ => joined rfl rfl (fun a b hkind => by rw [hkind]) h.booleanPrimary
      (fun _ _ _ => .pure _) s)
    fun _ => h.booleanPrimary s)
  booleanPrimary := h.succ_booleanPrimary
  arithmetic := h.sum
  sum s := (h.product s).bind fun left s' => h.moreTerms left s'
  moreTerms left s := operator (fun _ => Kind.isAdditive_solid) (fun _ => Kind.isAdditive_plain)
    (fun _ s' => (h.product s').bind fun _ s'' => h.moreTerms _ s'') (.pure left)
  product s := (h.power s).bind fun left s' => h.moreFactors left s'
  moreFactors left s := operator (fun _ => Kind.isMultiplicative_solid)
    (fun _ => Kind.isMultiplicative_plain)
    (fun _ s' => (h.power s').bind fun _ s'' => h.moreFactors _ s'') (.pure left)
  power s := (h.signed s).bind fun left s' => seeing (either
    (fun _ => joined rfl rfl (fun a b hkind => by rw [hkind]) h.power (fun _ _ _ => .pure _) s')
    fun _ => .pure left)
  signed s := operator (fun _ => Kind.isAdditive_solid) (fun _ => Kind.isAdditive_plain)
    (fun _ s' => (h.signed s').bind fun _ _ => .pure _) (h.primary s)
  primary := h.succ_primary
  functionCall _ := Nests.identifier.bind fun _ _ => enclosed h.arguments fun _ _ => .pure _
  arguments s := seeing (either (fun _ => .pure _) fun _ => h.expressionList s)

end Nesting

/-- The parsers of expressions do not leave the parentheses around them. -/
theorem nesting (d : Nat) : Nesting d := by
  induction d with
  | zero => exact .zero
  | succ d ih => exact ih.succ

/-- A parser with a bound that is enough for the tokens ahead goes as it goes without one. -/
theorem free_eq {f : Nat → Parser α} {rank d : Nat}
    (hf : ∀ d e, same.Settled rank d e (f d) (f e)) (hrank : Nat.ble rank 15 = true)
    (hd : 16 * s.size + 15 ≤ d) : free f s = f d s :=
  ((settled hd hf hrank : same.Alike s.size s.size (f d) (free f)) s s rfl (Nat.le_refl _)
    (Nat.le_refl _)).eq.symm

/-- What nests at every depth nests without a bound. -/
theorem Nests.free {f : Nat → Parser α} {rank : Nat}
    (hf : ∀ d e, same.Settled rank d e (f d) (f e)) (hrank : Nat.ble rank 15 = true)
    (h : ∀ d, Nests s (f d)) : Nests s (free f) where
  takes := (h (depthBound s)).takes
  abreast {depth x y t} hst := by
    have hs : 16 * s.size + 15 ≤ 16 * (s.size + t.size) + 15 := by omega
    have ht : 16 * t.size + 15 ≤ 16 * (s.size + t.size) + 15 := by omega
    rw [free_eq hf hrank hs, free_eq hf hrank ht]
    exact (h _).abreast hst

end Parser

end BraceScript
