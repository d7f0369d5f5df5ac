import BraceScript.Proofs.Rendering
import BraceScript.Proofs.Rules
import BraceScript.Proofs.Verdicts

/-! # Shapes — every tree that is read has the shape of a program's

    What a parser makes is followed token by token: each tree is of the shape of its phrase, the
    level of an arithmetic tree that was read without parentheses is that of its parser, and an
    expression is read as boolean only if it is not the truth of an arithmetic one.

    * `Yields`: what a parser makes from a state, and where it leaves off;
    * `expressionShapes`, `statementShapes`: the shapes that the parsers make;
    * `parse_shaped`: every tree that is parsed has the shape of a program. -/

namespace BraceScript

namespace Parser

variable {α β : Type}

/-! ## What parsers make -/

/-- Whatever a parser makes from a state has the property `Q`, together with the state behind it. -/
def Yields (s : State) (p : Parser α) (Q : α → State → Prop) : Prop :=
  ∀ a s', p s = .ok a s' → Reaches s s' ∧ Q a s'

namespace Yields

variable {s : State} {P Q : α → State → Prop} {R : β → State → Prop}

theorem pure {a : α} (h : Q a s) : Yields s (Pure.pure a) Q := by
  intro b s' hrun
  cases hrun
  exact ⟨.refl s, h⟩

theorem mono {p : Parser α} (h : Yields s p P) (hPQ : ∀ a s', P a s' → Q a s') : Yields s p Q := by
  intro a s' hrun
  obtain ⟨hreaches, ha⟩ := h a s' hrun
  exact ⟨hreaches, hPQ a s' ha⟩

theorem bind {p : Parser α} {f : α → Parser β} (hp : Yields s p P)
    (hf : ∀ a s', Reaches s s' → P a s' → Yields s' (f a) R) : Yields s (p >>= f) R := by
  intro b s'' hrun
  obtain ⟨a, s', hmid, hrest⟩ := bind_ok hrun
  obtain ⟨hreaches, ha⟩ := hp a s' hmid
  obtain ⟨hreaches', hb⟩ := hf a s' hreaches ha b s'' hrest
  exact ⟨hreaches.trans hreaches', hb⟩

theorem either {c : Prop} [Decidable c] {p q : Parser α} (hp : c → Yields s p Q)
    (hq : ¬c → Yields s q Q) : Yields s (if c then p else q) Q := by
  by_cases h : c
  · rw [if_pos h]
    exact hp h
  · rw [if_neg h]
    exact hq h

/-- What is made can be traced back to the run that made it. -/
theorem traced {p : Parser α} (h : Yields s p Q) :
    Yields s p fun a s' => Q a s' ∧ p s = .ok a s' := by
  intro a s' hrun
  obtain ⟨hreaches, ha⟩ := h a s' hrun
  exact ⟨hreaches, ha, hrun⟩

theorem reject (cause : ParseCause) : Yields s (Parser.reject cause : Parser α) Q := by
  intro a s' hrun
  cases hrun

/-- What comes next depends on the kind of the token in hand. -/
theorem seeing {f : Kind → Parser α} (h : Yields s (f s.token.kind) Q) :
    Yields s (kind >>= f) Q := h

/-- What comes next depends on the token in hand. -/
theorem holding {f : Token → Parser α} (h : Yields s (f s.token) Q) : Yields s (inHand >>= f) Q := h

/-- A token is taken, and fewer are ahead. -/
theorem taking {k : Kind} (hk : (k == .endOfFile) = false) {f : Token → Parser β}
    (h : s.token.kind = k → ∀ s', Takes s s' → Yields s' (f s.token) R) :
    Yields s (consume k >>= f) R := by
  intro b s'' hrun
  by_cases hkind : s.token.kind = k
  · have hend : s.token.kind ≠ .endOfFile := by
      rw [hkind]
      simpa using hk
    cases hshift : shift s with
    | ok u s' =>
        rw [consume_ok f hkind hshift] at hrun
        have htakes := shift_takes hend hshift
        obtain ⟨hreaches, hb⟩ := h hkind s' htakes b s'' hrun
        exact ⟨.trans (.single htakes) hreaches, hb⟩
    | error e s' =>
        rw [consume_cut f hkind hshift] at hrun
        cases hrun
  · rw [consume_ne f hkind] at hrun
    cases hrun

/-- A token is passed over, and fewer are ahead. -/
theorem passing {k : Kind} (hk : (k == .endOfFile) = false) {p : Parser β}
    (h : ∀ s', Takes s s' → Yields s' p R) : Yields s (consume k >>= fun _ => p) R :=
  taking hk fun _ => h

/-- The lexeme of a token is taken. -/
theorem lexeme {k : Kind} (hk : (k == .endOfFile) = false) {f : String → Parser β}
    (h : s.token.kind = k → ∀ s', Takes s s' → Yields s' (f (s.token.lexeme.getD "")) R) :
    Yields s (consumeLexeme k >>= f) R := by
  rw [consumeLexeme, bind_assoc]
  refine taking hk fun hkind s' htakes => ?_
  rw [pure_bind]
  exact h hkind s' htakes

/-- The token behind the one in hand is looked at. -/
theorem peeking {f : Token → Parser β} (h : ∀ t, Yields s (f t) R) :
    Yields s (peekNext >>= f) R := by
  intro b s' hrun
  obtain ⟨t, s'', hpeek, hrest⟩ := bind_ok hrun
  obtain rfl := peekNext_same hpeek
  exact h t b s' hrest

end Yields

theorem spelled_of_reaches {s s' : State} (h : s.token.Spelled) (hreaches : Reaches s s') :
    s'.token.Spelled := by
  cases hreaches with
  | refl => exact h
  | tail _ htakes => exact Cursor.spelled_next htakes.2

/-- A token in hand that can be read, with fewer than `n` tokens ahead. -/
def Ready (n : Nat) (s : State) : Prop := s.size < n ∧ s.token.Spelled

theorem Ready.takes {n : Nat} {s s' : State} (h : Ready (n + 1) s) (htakes : Takes s s') :
    Ready n s' :=
  ⟨Nat.lt_of_lt_of_le htakes.size_lt (Nat.le_of_lt_succ h.1), Cursor.spelled_next htakes.2⟩

theorem Ready.reaches {n : Nat} {s s' : State} (h : Ready n s) (hreaches : Reaches s s') :
    Ready n s' :=
  ⟨Nat.lt_of_le_of_lt hreaches.size_le h.1, spelled_of_reaches h.2 hreaches⟩

/-! ## Names and types -/

theorem yields_identifier {s : State} (h : s.token.Spelled) :
    Yields s identifier fun t _ => Shaped .name t := by
  refine Yields.lexeme rfl fun hkind s' _ => .pure ?_
  rw [Token.Spelled, hkind] at h
  obtain ⟨name, hname, hword, hwordy⟩ := h
  rw [hname]
  exact .name hword hwordy

theorem yields_typeName (s : State) : Yields s typeName fun t _ => Shaped .type t := by
  refine Yields.holding (.either (fun hk => .passing ?_ fun s' _ => .pure (.type hk))
    fun _ => .reject _)
  rw [beq_eq_false_iff_ne]
  exact (Kind.solid (Kind.isType_solid hk)).1

theorem yields_parameter {s : State} (h : s.token.Spelled) :
    Yields s parameter fun t _ => Shaped .parameter t := by
  refine (yields_typeName s).bind fun type s' hreaches htype => ?_
  refine (yields_identifier (spelled_of_reaches h hreaches)).bind fun name s'' _ hname => ?_
  exact .pure (.parameter htype hname)

/-! ## Arithmetic -/

/-- An arithmetic tree, read with a token of the kind `k` in hand.  If that is no parenthesis, the
    tree holds together at the given level, and it does not begin with a parenthesis. -/
def Fits (level : Nat) (k : Kind) (t : Node) : Prop :=
  Shaped .arithmetic t ∧ (k ≠ .leftParenthesis →
    level ≤ t.level ∧ Word.firstKind t.words ≠ .leftParenthesis)

namespace Fits

variable {level : Nat} {k : Kind} {t : Node}

theorem mono {level' : Nat} (h : Fits level k t) (hlevel : level' ≤ level) : Fits level' k t :=
  ⟨h.1, fun hk => ⟨hlevel.trans (h.2 hk).1, (h.2 hk).2⟩⟩

/-- A tree between parentheses. -/
theorem inside (h : Shaped .arithmetic t) : Fits level .leftParenthesis t :=
  ⟨h, fun hk => absurd rfl hk⟩

/-- A tree that begins with a word and needs no parentheses. -/
theorem word (first : Kind) (h : Shaped .arithmetic t) (hlevel : t.level = 8)
    (hfirst : Word.firstKind t.words = first) (hk : first ≠ .leftParenthesis) : Fits 8 k t :=
  ⟨h, fun _ => ⟨hlevel.ge, hfirst ▸ hk⟩⟩

/-- An operation begins where its left operand does. -/
theorem binary {left right : Node} (op : Kind) (hop : op.isArithmetic = true)
    (hleft : Fits op.leftLevel k left) (hright : Shaped .arithmetic right) :
    Fits (op.reach - 1) k (.binary left op.text right) := by
  refine ⟨.binary hop hleft.1 hright, fun hk => ⟨?_, ?_⟩⟩
  · rw [Node.level, Kind.ofText_text]
  · obtain ⟨hlevel, hfirst⟩ := hleft.2 hk
    have hop' : op ≠ .leftParenthesis := by
      rintro rfl
      cases hop
    rw [Node.words, Kind.ofText_text]
    simp only [Word.enclose, decide_eq_true_eq, if_neg (Nat.not_lt.mpr hlevel)]
    cases hwords : left.words with
    | nil => exact hop'
    | cons w ws =>
        rw [hwords] at hfirst
        exact hfirst

theorem additive {left right : Node} {op : Kind} (hop : op.isAdditive = true)
    (hleft : Fits 4 k left) (hright : Shaped .arithmetic right) :
    Fits 4 k (.binary left op.text right) := by
  cases op with
  | plus => exact binary .plus rfl hleft hright
  | minus => exact binary .minus rfl hleft hright
  | _ => cases hop

theorem multiplicative {left right : Node} {op : Kind} (hop : op.isMultiplicative = true)
    (hleft : Fits 5 k left) (hright : Shaped .arithmetic right) :
    Fits 5 k (.binary left op.text right) := by
  cases op with
  | multiply => exact binary .multiply rfl hleft hright
  | divide => exact binary .divide rfl hleft hright
  | floorDivide => exact binary .floorDivide rfl hleft hright
  | modulo => exact binary .modulo rfl hleft hright
  | _ => cases hop

theorem unary {operand : Node} {op : Kind} (hop : op.isAdditive = true)
    (hoperand : Shaped .arithmetic operand) : Fits 7 k (.unary op.text operand) := by
  refine ⟨.unary hop hoperand, fun _ => ⟨Nat.le_refl 7, ?_⟩⟩
  rw [Node.words, Kind.ofText_text]
  rintro rfl
  cases hop

end Fits

/-! ### Where a tree is complete -/

theorem Takes.shift {s s' : State} (h : Takes s s') : Parser.shift s = .ok () s' := by
  rw [Parser.shift, h.2]

theorem bind_eq {p : Parser α} {f : α → Parser β} {s s' : State} {a : α} (h : p s = .ok a s') :
    (p >>= f) s = f a s' := by
  show EStateM.bind p f s = _
  rw [EStateM.bind, h]

theorem moreTerms_stop {s : State} (hk : s.token.kind.reach ≤ 4) (left : Node) :
    free (moreTerms · left) s = .ok left s := by
  have hadditive : s.token.kind.isAdditive = false := by
    cases h : s.token.kind <;> rw [h] at hk <;> first | rfl | exact absurd hk (by decide)
  rw [free_moreTerms, kind_bind, hadditive]
  rfl

theorem moreFactors_stop {s : State} (hk : s.token.kind.reach ≤ 5) (left : Node) :
    free (moreFactors · left) s = .ok left s := by
  have hmultiplicative : s.token.kind.isMultiplicative = false := by
    cases h : s.token.kind <;> rw [h] at hk <;> first | rfl | exact absurd hk (by decide)
  rw [free_moreFactors, kind_bind, hmultiplicative]
  rfl

theorem power_stop {s s' : State} {t : Node} (h : free signed s = .ok t s')
    (hk : s'.token.kind.reach ≤ 6) : free power s = .ok t s' := by
  have hpower : s'.token.kind ≠ .power := by
    intro heq
    rw [heq] at hk
    exact absurd hk (by decide)
  rw [free_power, bind_eq h, kind_bind, if_neg hpower]
  rfl

/-- What is between parentheses is an arithmetic tree where no operator follows. -/
theorem arithmetic_parentheses {s s₁ s₂ s₃ : State} {e : Node} (htakes : Takes s s₁)
    (hopen : s.token.kind = .leftParenthesis) (h : free arithmetic s₁ = .ok e s₂)
    (hclose : s₂.token.kind = .rightParenthesis) (htakes' : Takes s₂ s₃)
    (hk : s₃.token.kind.reach ≤ 4) : free arithmetic s = .ok e s₃ := by
  have hprimary : free primary s = .ok e s₃ := by
    rw [free_primary, kind_bind, hopen, if_neg (by decide), if_neg (by decide), if_neg (by decide),
      if_pos rfl, consume_ok _ hopen htakes.shift, bind_eq h, consume_ok _ hclose htakes'.shift]
    rfl
  have hsigned : free signed s = .ok e s₃ := by
    rw [free_signed, kind_bind, hopen]
    exact hprimary
  have hpower := power_stop hsigned (by omega)
  have hproduct : free product s = .ok e s₃ := by
    rw [free_product, bind_eq hpower, moreFactors_stop (by omega)]
  rw [free_arithmetic, free_sum, bind_eq hproduct, moreTerms_stop hk]

/-! ## Expressions -/

/-- Values are made, if the word behind them belongs to none of them. -/
def ShapesValues (nodes : List Node) (s : State) : Prop :=
  s.token.kind.reach = 0 → ∀ v ∈ nodes, Shaped .value v

/-- What a boolean tree tells about the state it is read from: the truth of an arithmetic tree is
    read where that tree can be read, up to the same word. -/
def Tells (s : State) (t : Node) (s' : State) : Prop :=
  ∀ e, t = .truth e → s'.token.kind.reach = 0 → free arithmetic s = .ok e s'

/-- A boolean tree is made. -/
abbrev YieldsBoolean (p : Parser Node) (s : State) : Prop :=
  Yields s p fun t s' => Shaped .boolean t ∧ Tells s t s'

/-- A boolean tree is made that begins with `left`; it is the truth of something only if it is
    `left` itself. -/
abbrev YieldsMore (p : Parser Node) (left : Node) (s : State) : Prop :=
  Yields s p fun t s' => Shaped .boolean t ∧ (t.isTruth = true → t = left ∧ s' = s)

/-- The shapes that the parsers of expressions make with fewer than `n` tokens ahead. -/
structure ExpressionShapes (n : Nat) : Prop where
  signed : ∀ {s}, Ready n s → Yields s (free signed) fun t _ => Fits 7 s.token.kind t
  power : ∀ {s}, Ready n s → Yields s (free power) fun t _ => Fits 6 s.token.kind t
  moreFactors : ∀ {s k left}, Ready n s → Fits 5 k left →
    Yields s (free (moreFactors · left)) fun t _ => Fits 5 k t
  product : ∀ {s}, Ready n s → Yields s (free product) fun t _ => Fits 5 s.token.kind t
  moreTerms : ∀ {s k left}, Ready n s → Fits 4 k left →
    Yields s (free (moreTerms · left)) fun t _ => Fits 4 k t
  arithmetic : ∀ {s}, Ready n s → Yields s (free arithmetic) fun t _ => Fits 4 s.token.kind t
  booleanPrimary : ∀ {s}, Ready n s → YieldsBoolean (free booleanPrimary) s
  negation : ∀ {s}, Ready n s → YieldsBoolean (free negation) s
  moreConjuncts : ∀ {s left}, Ready n s → Shaped .boolean left →
    YieldsMore (free (moreConjuncts · left)) left s
  conjunction : ∀ {s}, Ready n s → YieldsBoolean (free conjunction) s
  moreDisjuncts : ∀ {s left}, Ready n s → Shaped .boolean left →
    YieldsMore (free (moreDisjuncts · left)) left s
  boolean : ∀ {s}, Ready n s → YieldsBoolean (free boolean) s
  expression : ∀ {s}, Ready n s →
    Yields s (free expression) fun t s' => s'.token.kind.reach = 0 → Shaped .value t
  moreExpressions : ∀ {s}, Ready n s → Yields s (free moreExpressions) fun vs s' =>
    s'.token.kind.reach = 0 → s.token.kind.reach = 0 ∧ ∀ v ∈ vs, Shaped .value v
  expressionList : ∀ {s}, Ready n s → Yields s (free expressionList) ShapesValues
  arguments : ∀ {s}, Ready n s → Yields s (free argumentsBeforeClose) ShapesValues

section

variable {n : Nat} {s : State}

theorem Kind.beq_end {k : Kind} (h : k.isSolid = true) : (k == .endOfFile) = false :=
  beq_eq_false_iff_ne.mpr (Kind.solid h).1

/-! ### Arithmetic -/

theorem yields_functionCall (h : ExpressionShapes n) (hs : Ready (n + 1) s) :
    Yields s (free functionCall) fun t _ => Fits 8 s.token.kind t := by
  rw [free_functionCall]
  refine (yields_identifier hs.2).bind fun callee s₁ hreaches hcallee => ?_
  refine .passing rfl fun s₂ htakes => ?_
  refine (h.arguments ((hs.reaches hreaches).takes htakes)).bind fun arguments s₃ _ hvalues => ?_
  refine .taking rfl fun hclose s₄ _ => .pure ?_
  have harguments := hvalues (by rw [hclose]; rfl)
  cases hcallee with
  | name hword hwordy =>
      exact .word .identifier (.functionCall (.name hword hwordy) harguments) rfl rfl (by decide)

theorem yields_primary (h : ExpressionShapes n) (hs : Ready (n + 1) s) :
    Yields s (free primary) fun t _ => Fits 8 s.token.kind t := by
  have hspelled := hs.2
  rw [Token.Spelled] at hspelled
  rw [free_primary]
  refine .seeing (.either (fun hk => ?_) fun _ => .either (fun hk => ?_) fun _ =>
    .either (fun hk => ?_) fun _ => .either (fun hk => ?_) fun _ => .reject _)
  · rw [hk] at hspelled
    obtain ⟨l, hl, hnumeral⟩ := hspelled
    refine .lexeme rfl fun _ s' _ => .pure ?_
    rw [hl]
    exact .word .numberLiteral (.number hnumeral) rfl rfl (by decide)
  · rw [hk] at hspelled
    obtain ⟨l, hl, hquotation⟩ := hspelled
    refine .lexeme rfl fun _ s' _ => .pure ?_
    rw [hl]
    exact .word .stringLiteral (.string hquotation) rfl rfl (by decide)
  · refine .peeking fun ahead => .either (fun _ => yields_functionCall h hs) fun _ => ?_
    refine (yields_identifier hs.2).mono fun t _ ht => ?_
    cases ht with
    | name hword hwordy =>
        exact .word .identifier (.identifier (.name hword hwordy)) rfl rfl (by decide)
  · rw [hk]
    refine .passing rfl fun s₁ htakes => ?_
    refine (h.arithmetic (hs.takes htakes)).bind fun inner s₂ _ hinner => ?_
    exact .passing rfl fun _ _ => .pure (.inside hinner.1)

theorem yields_signed (h : ExpressionShapes n) (hs : Ready (n + 1) s) :
    Yields s (free signed) fun t _ => Fits 7 s.token.kind t := by
  rw [free_signed]
  refine .seeing (.either (fun hk => ?_) fun _ => ?_)
  · refine .passing (Kind.beq_end (Kind.isAdditive_solid hk)) fun s₁ htakes => ?_
    exact (h.signed (hs.takes htakes)).bind fun operand _ _ hoperand => .pure (.unary hk hoperand.1)
  · exact (yields_primary h hs).mono fun t _ ht => ht.mono (by decide)

theorem yields_power (h : ExpressionShapes n) (hs : Ready (n + 1) s) :
    Yields s (free power) fun t _ => Fits 6 s.token.kind t := by
  rw [free_power]
  refine (yields_signed h hs).bind fun left s₁ hreaches hleft => ?_
  refine .seeing (.either (fun _ => ?_) fun _ => .pure (hleft.mono (by decide)))
  refine .taking rfl fun hk s₂ htakes => ?_
  rw [hk]
  refine (h.power ((hs.reaches hreaches).takes htakes)).bind fun right _ _ hright => .pure ?_
  exact .binary .power rfl hleft hright.1

theorem yields_moreFactors (h : ExpressionShapes n) (hs : Ready (n + 1) s) {k : Kind} {left : Node}
    (hleft : Fits 5 k left) : Yields s (free (moreFactors · left)) fun t _ => Fits 5 k t := by
  rw [free_moreFactors]
  refine .seeing (.either (fun hk => ?_) fun _ => .pure hleft)
  refine .passing (Kind.beq_end (Kind.isMultiplicative_solid hk)) fun s₁ htakes => ?_
  have hs₁ := hs.takes htakes
  refine (h.power hs₁).bind fun right s₂ hreaches hright => ?_
  exact h.moreFactors (hs₁.reaches hreaches) (.multiplicative hk hleft hright.1)

theorem yields_product (h : ExpressionShapes n) (hs : Ready (n + 1) s) :
    Yields s (free product) fun t _ => Fits 5 s.token.kind t := by
  rw [free_product]
  refine (yields_power h hs).bind fun left s₁ hreaches hleft => ?_
  exact yields_moreFactors h (hs.reaches hreaches) (hleft.mono (by decide))

theorem yields_moreTerms (h : ExpressionShapes n) (hs : Ready (n + 1) s) {k : Kind} {left : Node}
    (hleft : Fits 4 k left) : Yields s (free (moreTerms · left)) fun t _ => Fits 4 k t := by
  rw [free_moreTerms]
  refine .seeing (.either (fun hk => ?_) fun _ => .pure hleft)
  refine .passing (Kind.beq_end (Kind.isAdditive_solid hk)) fun s₁ htakes => ?_
  have hs₁ := hs.takes htakes
  refine (h.product hs₁).bind fun right s₂ hreaches hright => ?_
  exact h.moreTerms (hs₁.reaches hreaches) (.additive hk hleft hright.1)

theorem yields_arithmetic (h : ExpressionShapes n) (hs : Ready (n + 1) s) :
    Yields s (free arithmetic) fun t _ => Fits 4 s.token.kind t := by
  rw [free_arithmetic, free_sum]
  refine (yields_product h hs).bind fun left s₁ hreaches hleft => ?_
  exact yields_moreTerms h (hs.reaches hreaches) (hleft.mono (by decide))

/-! ### Truth values -/

/-- Only the truth of an arithmetic tree tells anything. -/
theorem tells_other {t : Node} {s s' : State} (h : t.isTruth = false) : Tells s t s' := by
  rintro e rfl
  cases h

theorem yields_booleanPrimary (h : ExpressionShapes n) (hs : Ready (n + 1) s) :
    YieldsBoolean (free booleanPrimary) s := by
  have hspelled := hs.2
  rw [Token.Spelled] at hspelled
  rw [free_booleanPrimary]
  refine .seeing (.either (fun hk => ?_) fun _ => .either (fun hk => ?_) fun hopen => ?_)
  · rw [hk] at hspelled
    refine .lexeme rfl fun _ s' _ => .pure ⟨.boolean ?_, tells_other rfl⟩
    rcases hspelled with hl | hl
    · exact .inl (by rw [hl]; rfl)
    · exact .inr (by rw [hl]; rfl)
  · refine .passing rfl fun s₁ htakes => ?_
    refine (h.boolean (hs.takes htakes)).bind fun inner s₂ _ hinner => ?_
    refine .taking rfl fun hclose s₃ htakes' => .pure ⟨hinner.1, fun e he hreach => ?_⟩
    have hrun := hinner.2 e he (by rw [hclose]; rfl)
    exact arithmetic_parentheses htakes hk hrun hclose htakes' (by omega)
  · refine (yields_arithmetic h hs).traced.bind fun left s₁ hreaches hleft => ?_
    obtain ⟨⟨hshaped, hfirst⟩, hrun⟩ := hleft
    refine .seeing (.either (fun hk => ?_) fun _ => ?_)
    · refine .passing (Kind.beq_end (Kind.isComparison_solid hk)) fun s₂ htakes => ?_
      refine (h.arithmetic ((hs.reaches hreaches).takes htakes)).bind fun right s₃ _ hright => ?_
      exact .pure ⟨.comparison hk hshaped hright.1 (hfirst hopen).2, tells_other rfl⟩
    · refine .pure ⟨.truth hshaped (hfirst hopen).2, ?_⟩
      rintro e ⟨⟩ _
      exact hrun

theorem yields_negation (h : ExpressionShapes n) (hs : Ready (n + 1) s) :
    YieldsBoolean (free negation) s := by
  rw [free_negation]
  refine .seeing (.either (fun _ => ?_) fun _ => yields_booleanPrimary h hs)
  refine .taking rfl fun hk s₁ htakes => ?_
  rw [hk]
  refine (h.booleanPrimary (hs.takes htakes)).bind fun operand s₂ _ hoperand => ?_
  exact .pure ⟨.negation hoperand.1, tells_other rfl⟩

/-- What goes on behind an operation is no longer a truth of its own. -/
theorem YieldsMore.behind {p : Parser Node} {left left' : Node} {s s' : State}
    (h : YieldsMore p left' s') (hleft' : left'.isTruth = false) :
    Yields s' p fun t s'' => Shaped .boolean t ∧ (t.isTruth = true → t = left ∧ s'' = s) := by
  refine h.mono fun t s'' ht => ⟨ht.1, fun htruth => ?_⟩
  rw [(ht.2 htruth).1, hleft'] at htruth
  cases htruth

theorem yields_moreConjuncts (h : ExpressionShapes n) (hs : Ready (n + 1) s) {left : Node}
    (hleft : Shaped .boolean left) : YieldsMore (free (moreConjuncts · left)) left s := by
  rw [free_moreConjuncts]
  refine .seeing (.either (fun _ => ?_) fun _ => .pure ⟨hleft, fun _ => ⟨rfl, rfl⟩⟩)
  refine .taking rfl fun hk s₁ htakes => ?_
  rw [hk]
  have hs₁ := hs.takes htakes
  refine (h.negation hs₁).bind fun right s₂ hreaches hright => ?_
  exact (h.moreConjuncts (hs₁.reaches hreaches) (.logical rfl hleft hright.1)).behind rfl

theorem yields_moreDisjuncts (h : ExpressionShapes n) (hs : Ready (n + 1) s) {left : Node}
    (hleft : Shaped .boolean left) : YieldsMore (free (moreDisjuncts · left)) left s := by
  rw [free_moreDisjuncts]
  refine .seeing (.either (fun _ => ?_) fun _ => .pure ⟨hleft, fun _ => ⟨rfl, rfl⟩⟩)
  refine .taking rfl fun hk s₁ htakes => ?_
  rw [hk]
  have hs₁ := hs.takes htakes
  refine (h.conjunction hs₁).bind fun right s₂ hreaches hright => ?_
  exact (h.moreDisjuncts (hs₁.reaches hreaches) (.logical rfl hleft hright.1)).behind rfl

/-- What begins with a boolean tree and goes on tells what that tree tells. -/
theorem YieldsBoolean.more {p : Parser Node} {f : Node → Parser Node} (hp : YieldsBoolean p s)
    (hf : ∀ left s', Reaches s s' → Shaped .boolean left → YieldsMore (f left) left s') :
    YieldsBoolean (p >>= f) s := by
  refine Yields.bind hp fun left s₁ hreaches hleft => ?_
  refine (hf left s₁ hreaches hleft.1).mono fun t s' ht => ⟨ht.1, ?_⟩
  rintro e rfl hreach
  obtain ⟨hsame, rfl⟩ := ht.2 rfl
  exact hleft.2 e hsame.symm hreach

theorem yields_conjunction (h : ExpressionShapes n) (hs : Ready (n + 1) s) :
    YieldsBoolean (free conjunction) s := by
  rw [free_conjunction]
  exact (yields_negation h hs).more fun left s₁ hreaches =>
    yields_moreConjuncts h (hs.reaches hreaches)

theorem yields_boolean (h : ExpressionShapes n) (hs : Ready (n + 1) s) :
    YieldsBoolean (free boolean) s := by
  rw [free_boolean, free_disjunction]
  exact (yields_conjunction h hs).more fun left s₁ hreaches =>
    yields_moreDisjuncts h (hs.reaches hreaches)

/-! ### Any expression -/

theorem continuesBoolean_of_reach {k : Kind} (h : k.reach = 0) : continuesBoolean k = false := by
  cases k <;> first | rfl | cases h

/-- An expression is taken as boolean only if no arithmetic tree can be read that is complete. -/
theorem yields_startsBoolean (s : State) : Yields s (free startsBoolean) fun starts s' =>
    s' = s ∧ (starts = true → ∀ e s'', free arithmetic s = .ok e s'' →
      s''.token.kind.reach ≠ 0) := by
  intro starts s' hrun
  rw [free_startsBoolean, glance] at hrun
  cases harithmetic : free arithmetic s with
  | ok e s₁ =>
      rw [harithmetic] at hrun
      cases hrun
      refine ⟨.refl s, rfl, fun hstarts e' s'' heq hreach => ?_⟩
      cases heq
      rw [continuesBoolean_of_reach hreach] at hstarts
      cases hstarts
  | error e s₁ =>
      rw [harithmetic] at hrun
      cases hrun
      refine ⟨.refl s, rfl, fun _ e' s'' heq => ?_⟩
      cases heq

theorem yields_expression (h : ExpressionShapes n) (hs : Ready (n + 1) s) :
    Yields s (free expression) fun t s' => s'.token.kind.reach = 0 → Shaped .value t := by
  rw [free_expression]
  refine (yields_startsBoolean s).bind fun starts s₁ _ hstarts => ?_
  obtain ⟨rfl, hstarts⟩ := hstarts
  refine .either (fun hboolean => ?_) fun _ => ?_
  · refine (yields_boolean h hs).mono fun t s' ht hreach => .ofBoolean ht.1 ?_
    cases t with
    | truth e => exact absurd hreach (hstarts hboolean e s' (ht.2 e rfl hreach))
    | _ => rfl
  · exact (yields_arithmetic h hs).mono fun t s' ht _ => .ofArithmetic ht.1

theorem yields_moreExpressions (h : ExpressionShapes n) (hs : Ready (n + 1) s) :
    Yields s (free moreExpressions) fun vs s' =>
      s'.token.kind.reach = 0 → s.token.kind.reach = 0 ∧ ∀ v ∈ vs, Shaped .value v := by
  rw [free_moreExpressions]
  refine .seeing (.either (fun hk => ?_) fun _ => ?_)
  · refine .passing rfl fun s₁ htakes => ?_
    have hs₁ := hs.takes htakes
    refine (h.expression hs₁).bind fun first s₂ hreaches hfirst => ?_
    refine (h.moreExpressions (hs₁.reaches hreaches)).bind fun rest s₃ _ hrest => ?_
    refine .pure fun hreach => ⟨by rw [hk]; rfl, ?_⟩
    obtain ⟨hmid, hvalues⟩ := hrest hreach
    exact List.forall_mem_cons.mpr ⟨hfirst hmid, hvalues⟩
  · exact .pure fun hreach => ⟨hreach, fun v hv => absurd hv List.not_mem_nil⟩

theorem yields_expressionList (h : ExpressionShapes n) (hs : Ready (n + 1) s) :
    Yields s (free expressionList) ShapesValues := by
  rw [free_expressionList]
  refine (yields_expression h hs).bind fun first s₁ hreaches hfirst => ?_
  refine (yields_moreExpressions h (hs.reaches hreaches)).bind fun rest s₂ _ hrest => ?_
  refine .pure fun hreach => ?_
  obtain ⟨hmid, hvalues⟩ := hrest hreach
  exact List.forall_mem_cons.mpr ⟨hfirst hmid, hvalues⟩

theorem yields_arguments (h : ExpressionShapes n) (hs : Ready (n + 1) s) :
    Yields s (free argumentsBeforeClose) ShapesValues := by
  rw [free_argumentsBeforeClose]
  refine .seeing (.either (fun _ => ?_) fun _ => yields_expressionList h hs)
  exact .pure fun _ v hv => absurd hv List.not_mem_nil

end

/-- The parsers of expressions make the shapes of expressions. -/
theorem expressionShapes (n : Nat) : ExpressionShapes n := by
  induction n with
  | zero => constructor <;> intros <;> exact absurd (And.left ‹Ready 0 _›) (Nat.not_lt_zero _)
  | succ n h =>
      exact ⟨yields_signed h, yields_power h, fun hs => yields_moreFactors h hs, yields_product h,
        fun hs => yields_moreTerms h hs, yields_arithmetic h, yields_booleanPrimary h,
        yields_negation h, fun hs => yields_moreConjuncts h hs, yields_conjunction h,
        fun hs => yields_moreDisjuncts h hs, yields_boolean h, yields_expression h,
        yields_moreExpressions h, yields_expressionList h, yields_arguments h⟩

/-! ## Statements -/

theorem ready {s : State} (h : s.token.Spelled) : Ready (s.size + 1) s := ⟨Nat.lt_succ_self _, h⟩

/-- More items are made like the first. -/
theorem yields_commaItems {item : Parser Node} {P : Node → Prop}
    (hsame : ∀ n m, same.Alike n m item item)
    (hitem : ∀ s, s.token.Spelled → Yields s item fun t _ => P t) (n : Nat) :
    ∀ s, Ready n s → Yields s (free (commaItems item)) fun ts _ => ∀ t ∈ ts, P t := by
  induction n with
  | zero => exact fun s hs => absurd hs.1 (Nat.not_lt_zero _)
  | succ n ih =>
      intro s hs
      rw [free_commaItems hsame]
      refine .seeing (.either (fun _ => ?_) fun _ => ?_)
      · refine .passing rfl fun s₁ htakes => ?_
        have hs₁ := hs.takes htakes
        refine (hitem s₁ hs₁.2).bind fun first s₂ hreaches hfirst => ?_
        refine (ih s₂ (hs₁.reaches hreaches)).bind fun rest _ _ hrest => ?_
        exact .pure (List.forall_mem_cons.mpr ⟨hfirst, hrest⟩)
      · exact .pure fun t ht => absurd ht List.not_mem_nil

theorem yields_commaList {item : Parser Node} {P : Node → Prop}
    (hsame : ∀ n m, same.Alike n m item item)
    (hitem : ∀ s, s.token.Spelled → Yields s item fun t _ => P t) {s : State}
    (hs : s.token.Spelled) :
    Yields s (free (commaList item)) fun ts _ => ts ≠ [] ∧ ∀ t ∈ ts, P t := by
  rw [free_commaList hsame]
  refine (hitem s hs).bind fun first s₁ hreaches hfirst => ?_
  have hs₁ := ready (spelled_of_reaches hs hreaches)
  refine (yields_commaItems hsame hitem _ s₁ hs₁).bind fun rest _ _ hrest => ?_
  exact .pure ⟨List.cons_ne_nil _ _, List.forall_mem_cons.mpr ⟨hfirst, hrest⟩⟩

theorem yields_names {s : State} (hs : s.token.Spelled) :
    Yields s (free identifierList) fun ts _ => ts ≠ [] ∧ ∀ t ∈ ts, Shaped .name t :=
  yields_commaList (fun _ _ => Likeness.Alike.identifier) (fun _ => yields_identifier) hs

/-- A statement is made, if the word behind it does not belong to it. -/
def ShapesStatement (t : Node) (s : State) : Prop :=
  s.token.kind.reach = 0 → Shaped .statement t

section

variable {s : State} (hs : s.token.Spelled)

include hs

theorem yields_initialValues (names : List Node) : Yields s (free (initialValues names))
    fun values s' => ShapesValues values s' ∧ names.length = values.length := by
  rw [free_initialValues]
  refine ((expressionShapes _).expressionList (ready hs)).bind fun values s₁ _ hvalues => ?_
  exact .either (fun hlength => .pure ⟨hvalues, hlength⟩) fun _ => .reject _

theorem yields_variableDeclaration : Yields s (free variableDeclaration) ShapesStatement := by
  rw [free_variableDeclaration]
  refine .passing rfl fun s₁ htakes => ?_
  have hs₁ := spelled_of_reaches hs (.single htakes)
  refine (yields_typeName s₁).bind fun type s₂ hreaches htype => ?_
  have hs₂ := spelled_of_reaches hs₁ hreaches
  refine (yields_names hs₂).bind fun names s₃ hreaches hnames => ?_
  refine .seeing (.either (fun _ => .passing rfl fun s₄ htakes => ?_) fun _ => ?_)
  · have hs₄ := spelled_of_reaches (spelled_of_reaches hs₂ hreaches) (.single htakes)
    refine (yields_initialValues hs₄ names).bind fun values s₅ _ hvalues => .pure fun hreach => ?_
    exact .variableDecl htype hnames.1 hnames.2 (hvalues.1 hreach) (.inr hvalues.2)
  · exact .pure fun _ => .variableDecl htype hnames.1 hnames.2
      (fun v hv => absurd hv List.not_mem_nil) (.inl rfl)

theorem yields_constantDeclaration : Yields s (free constantDeclaration) ShapesStatement := by
  rw [free_constantDeclaration]
  refine .passing rfl fun s₁ htakes => ?_
  have hs₁ := spelled_of_reaches hs (.single htakes)
  refine (yields_typeName s₁).bind fun type s₂ hreaches htype => ?_
  have hs₂ := spelled_of_reaches hs₁ hreaches
  refine (yields_names hs₂).bind fun names s₃ hreaches hnames => .passing rfl fun s₄ htakes => ?_
  have hs₄ := spelled_of_reaches (spelled_of_reaches hs₂ hreaches) (.single htakes)
  refine (yields_initialValues hs₄ names).bind fun values s₅ _ hvalues => .pure fun hreach => ?_
  exact .constantDecl htype hnames.1 hnames.2 (hvalues.1 hreach) hvalues.2

theorem yields_parameters : Yields s (free parametersBeforeClose) fun ts _ =>
    ∀ t ∈ ts, Shaped .parameter t := by
  rw [free_parametersBeforeClose]
  refine .seeing (.either (fun _ => .pure fun t ht => absurd ht List.not_mem_nil) fun _ => ?_)
  exact (yields_commaList (fun _ _ => Likeness.Alike.parameter) (fun _ => yields_parameter)
    hs).mono fun ts _ hts => hts.2

theorem yields_procedureCall : Yields s (free procedureCall) ShapesStatement := by
  rw [free_procedureCall]
  refine .passing rfl fun s₁ htakes => ?_
  have hs₁ := spelled_of_reaches hs (.single htakes)
  refine (yields_identifier hs₁).bind fun callee s₂ hreaches hcallee => ?_
  refine .passing rfl fun s₃ htakes => ?_
  have hs₃ := spelled_of_reaches (spelled_of_reaches hs₁ hreaches) (.single htakes)
  refine ((expressionShapes _).arguments (ready hs₃)).bind fun arguments s₄ _ hvalues => ?_
  refine .taking rfl fun hclose s₅ _ => .pure fun _ => .procedureCall hcallee (hvalues ?_)
  rw [hclose]
  rfl

theorem yields_assignment : Yields s (free assignment) fun t s' => ∃ target value,
    t = .assignment target value ∧ Shaped .name target ∧
      (s'.token.kind.reach = 0 → Shaped .value value) := by
  rw [free_assignment]
  refine (yields_identifier hs).bind fun target s₁ hreaches htarget => ?_
  refine .passing rfl fun s₂ htakes => ?_
  have hs₂ := spelled_of_reaches (spelled_of_reaches hs hreaches) (.single htakes)
  refine ((expressionShapes _).expression (ready hs₂)).bind fun value s₃ _ hvalue => ?_
  exact .pure ⟨target, value, rfl, htarget, hvalue⟩

theorem yields_giveStatement : Yields s (free giveStatement) ShapesStatement := by
  rw [free_giveStatement]
  refine .passing rfl fun s₁ htakes => .seeing (.either (fun _ => .pure fun _ => .giveNothing) ?_)
  have hs₁ := spelled_of_reaches hs (.single htakes)
  refine fun _ => ((expressionShapes _).expression (ready hs₁)).bind fun value s₂ _ hvalue => ?_
  exact .pure fun hreach => .give (hvalue hreach)

theorem yields_showStatement : Yields s (free showStatement) ShapesStatement := by
  rw [free_showStatement]
  refine .passing rfl fun s₁ htakes => ?_
  have hs₁ := spelled_of_reaches hs (.single htakes)
  refine ((expressionShapes _).expression (ready hs₁)).bind fun value s₂ _ hvalue => ?_
  exact .pure fun hreach => .display (hvalue hreach)

theorem yields_stepOption : Yields s (free stepOption) fun t _ => Shaped .step t := by
  rw [free_stepOption]
  refine .seeing (.either (fun _ => .passing rfl fun s₁ htakes => ?_) fun _ => .pure .noStep)
  have hs₁ := spelled_of_reaches hs (.single htakes)
  exact ((expressionShapes _).arithmetic (ready hs₁)).mono fun t _ ht => .step ht.1

theorem yields_condition : Yields s (free boolean) fun t _ => Shaped .boolean t :=
  ((expressionShapes _).boolean (ready hs)).mono fun _ _ ht => ht.1

end

/-- The shapes that the parsers of statements make with fewer than `n` tokens ahead. -/
structure StatementShapes (n : Nat) : Prop where
  block : ∀ {s}, Ready n s → Yields s (free block) fun t _ => Shaped .block t
  statements : ∀ {s}, Ready n s → Yields s (free statements) fun ts _ =>
    ∀ t ∈ ts, Shaped .statement t
  elifBranches : ∀ {s}, Ready n s → Yields s (free elifBranches) fun ts _ =>
    ∀ t ∈ ts, Shaped .elif t

section

variable {n : Nat} {s : State}

/-- A word, a condition and a block: what most branches are made of. -/
theorem yields_guarded (h : StatementShapes n) (hs : Ready (n + 1) s) {k : Kind}
    (hk : (k == .endOfFile) = false) {f : Node → Node → Parser β} {R : β → State → Prop}
    (hf : ∀ condition body s', Ready n s' → Shaped .boolean condition → Shaped .block body →
      Yields s' (f condition body) R) :
    Yields s (do
      let _ ← consume k
      let condition ← free boolean
      let body ← free block
      f condition body) R := by
  refine .passing hk fun s₁ htakes => ?_
  have hs₁ := hs.takes htakes
  refine (yields_condition hs₁.2).bind fun condition s₂ hreaches hcondition => ?_
  have hs₂ := hs₁.reaches hreaches
  refine (h.block hs₂).bind fun body s₃ hreaches hbody => ?_
  exact hf condition body s₃ (hs₂.reaches hreaches) hcondition hbody

theorem yields_functionDeclaration (h : StatementShapes n) (hs : Ready (n + 1) s) :
    Yields s (free functionDeclaration) ShapesStatement := by
  rw [free_functionDeclaration]
  refine .passing rfl fun s₁ htakes => ?_
  have hs₁ := hs.takes htakes
  refine (yields_identifier hs₁.2).bind fun name s₂ hreaches hname => ?_
  refine .passing rfl fun s₃ htakes => ?_
  have hs₃ := (hs₁.reaches hreaches).reaches (.single htakes)
  refine (yields_parameters hs₃.2).bind fun parameters s₄ hreaches hparameters => ?_
  refine .passing rfl fun s₅ htakes => ?_
  have hs₅ := (hs₃.reaches hreaches).reaches (.single htakes)
  refine Yields.bind (P := fun t _ => Shaped .type t) ?_ fun type s₆ hreaches htype => ?_
  · exact .passing rfl fun s₆ _ => yields_typeName s₆
  · refine (h.block (hs₅.reaches hreaches)).bind fun body s₇ _ hbody => ?_
    exact .pure fun _ => .functionDecl hname hparameters htype hbody

theorem yields_procedureDeclaration (h : StatementShapes n) (hs : Ready (n + 1) s) :
    Yields s (free procedureDeclaration) ShapesStatement := by
  rw [free_procedureDeclaration]
  refine .passing rfl fun s₁ htakes => ?_
  have hs₁ := hs.takes htakes
  refine (yields_identifier hs₁.2).bind fun name s₂ hreaches hname => ?_
  refine .passing rfl fun s₃ htakes => ?_
  have hs₃ := (hs₁.reaches hreaches).reaches (.single htakes)
  refine (yields_parameters hs₃.2).bind fun parameters s₄ hreaches hparameters => ?_
  refine .passing rfl fun s₅ htakes => ?_
  have hs₅ := (hs₃.reaches hreaches).reaches (.single htakes)
  refine (h.block hs₅).bind fun body s₆ _ hbody => ?_
  exact .pure fun _ => .procedureDecl hname hparameters hbody

theorem yields_elseBranch (h : StatementShapes n) (hs : Ready (n + 1) s) :
    Yields s (free elseBranch) fun t _ => Shaped .alternative t := by
  rw [free_elseBranch]
  refine .passing rfl fun s₁ htakes => ?_
  exact (h.block (hs.takes htakes)).bind fun body _ _ hbody => .pure (.otherwise hbody)

theorem yields_ifStatement (h : StatementShapes n) (hs : Ready (n + 1) s) :
    Yields s (free ifStatement) ShapesStatement := by
  rw [free_ifStatement]
  refine yields_guarded h hs rfl fun condition body s₁ hs₁ hcondition hbody => ?_
  refine (h.elifBranches hs₁).bind fun elifs s₂ hreaches helifs => ?_
  have hs₂ : Ready (n + 1) s₂ :=
    ⟨Nat.lt_succ_of_lt (hs₁.reaches hreaches).1, (hs₁.reaches hreaches).2⟩
  refine .seeing (.either (fun _ => ?_) fun _ => ?_)
  · refine (yields_elseBranch h hs₂).bind fun alternative _ _ halternative => ?_
    exact .pure fun _ => .ifElse hcondition hbody helifs halternative
  · exact .pure fun _ => .ifElse hcondition hbody helifs .noAlternative

theorem yields_elifBranches (h : StatementShapes n) (hs : Ready (n + 1) s) :
    Yields s (free elifBranches) fun ts _ => ∀ t ∈ ts, Shaped .elif t := by
  rw [free_elifBranches]
  refine .seeing (.either (fun _ => ?_) fun _ => .pure fun t ht => absurd ht List.not_mem_nil)
  rw [free_elifBranch]
  simp only [bind_assoc, pure_bind]
  refine yields_guarded h hs rfl fun condition body s₁ hs₁ hcondition hbody => ?_
  refine (h.elifBranches hs₁).bind fun rest _ _ hrest => ?_
  exact .pure (List.forall_mem_cons.mpr ⟨.elif hcondition hbody, hrest⟩)

theorem yields_whileStatement (h : StatementShapes n) (hs : Ready (n + 1) s) :
    Yields s (free whileStatement) ShapesStatement := by
  rw [free_whileStatement]
  exact yields_guarded h hs rfl fun condition body s₁ _ hcondition hbody =>
    .pure fun _ => .whileLoop hcondition hbody

theorem yields_forStatement (h : StatementShapes n) (hs : Ready (n + 1) s) :
    Yields s (free forStatement) ShapesStatement := by
  rw [free_forStatement]
  refine .passing rfl fun s₁ htakes => ?_
  have hs₁ := hs.takes htakes
  refine (yields_assignment hs₁.2).bind fun initial s₂ hreaches hinitial => ?_
  obtain ⟨target, value, rfl, htarget, hvalue⟩ := hinitial
  refine .taking rfl fun hto s₃ htakes => ?_
  have hs₃ := (hs₁.reaches hreaches).reaches (.single htakes)
  refine ((expressionShapes _).arithmetic (ready hs₃.2)).bind
    fun termination s₄ hreaches hterm => ?_
  have hs₄ := hs₃.reaches hreaches
  refine (yields_stepOption hs₄.2).bind fun step s₅ hreaches hstep => ?_
  refine (h.block (hs₄.reaches hreaches)).bind fun body _ _ hbody => .pure fun _ => ?_
  exact .forLoop htarget (hvalue (by rw [hto]; rfl)) hterm.1 hstep hbody

theorem yields_statement (h : StatementShapes n) (hs : Ready (n + 1) s) :
    Yields s (free statement) ShapesStatement := by
  rw [free_statement]
  refine .seeing ?_
  cases s.token.kind with
  | letWord => exact yields_variableDeclaration hs.2
  | keepWord => exact yields_constantDeclaration hs.2
  | funcWord => exact yields_functionDeclaration h hs
  | procWord => exact yields_procedureDeclaration h hs
  | execWord => exact yields_procedureCall hs.2
  | identifier =>
      refine (yields_assignment hs.2).mono fun t s' ht hreach => ?_
      obtain ⟨target, value, rfl, htarget, hvalue⟩ := ht
      exact .assignment htarget (hvalue hreach)
  | giveWord => exact yields_giveStatement hs.2
  | showWord => exact yields_showStatement hs.2
  | ifWord => exact yields_ifStatement h hs
  | whileWord => exact yields_whileStatement h hs
  | forWord => exact yields_forStatement h hs
  | skipWord => exact .passing rfl fun _ _ => .pure fun _ => .skip
  | stopWord => exact .passing rfl fun _ _ => .pure fun _ => .stop
  | _ => exact .reject _

theorem yields_statements (h : StatementShapes n) (hs : Ready (n + 1) s) :
    Yields s (free statements) fun ts _ => ∀ t ∈ ts, Shaped .statement t := by
  rw [free_statements]
  refine .seeing (.either (fun _ => .pure fun t ht => absurd ht List.not_mem_nil) fun _ =>
    .either (fun _ => .passing rfl fun s₁ htakes => h.statements (hs.takes htakes)) fun _ => ?_)
  refine (yields_statement h hs).bind fun first s₁ hreaches hfirst => ?_
  refine .seeing (.either (fun hk => ?_) fun _ => .either (fun hk => ?_) fun _ => .reject _)
  · refine .passing rfl fun s₂ htakes => ?_
    refine (h.statements ((hs.reaches hreaches).takes htakes)).bind fun rest _ _ hrest => ?_
    exact .pure (List.forall_mem_cons.mpr ⟨hfirst (by rw [hk]; rfl), hrest⟩)
  · exact .pure (List.forall_mem_singleton.mpr (hfirst (by rw [hk]; rfl)))

theorem yields_block (h : StatementShapes n) (hs : Ready (n + 1) s) :
    Yields s (free block) fun t _ => Shaped .block t := by
  rw [free_block]
  refine .passing rfl fun s₁ htakes => ?_
  refine (h.statements (hs.takes htakes)).bind fun items s₂ _ hitems => ?_
  exact .passing rfl fun _ _ => .pure (.block hitems)

end

/-- The parsers of statements make the shapes of statements. -/
theorem statementShapes (n : Nat) : StatementShapes n := by
  induction n with
  | zero => constructor <;> intros <;> exact absurd (And.left ‹Ready 0 _›) (Nat.not_lt_zero _)
  | succ n h => exact ⟨yields_block h, yields_statements h, yields_elifBranches h⟩

theorem yields_wholeProgram {s : State} (hs : s.token.Spelled) :
    Yields s (free wholeProgram) fun t _ => Shaped .program t := by
  rw [free_wholeProgram]
  refine ((statementShapes _).block (ready hs)).bind fun body s₁ _ hbody => ?_
  exact .seeing (.either (fun _ => .pure (.program hbody)) fun _ => .reject _)

end Parser

/-- Every tree that is parsed has the shape of a program. -/
theorem parse_shaped {source : String} {tree : Node} (h : parse source = .ok tree) :
    Shaped .program tree := by
  rcases Parser.parse_cases source with ⟨body, s, s', hparse, hstart, hrun, -⟩ | ⟨e, hparse, -⟩
  · rw [hparse] at h
    cases h
    have hspelled := Cursor.spelled_next (Parser.next_of_start hstart)
    exact (Parser.yields_wholeProgram hspelled _ _ hrun).2
  · rw [hparse] at h
    cases h

end BraceScript
