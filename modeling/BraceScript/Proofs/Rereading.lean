import BraceScript.Proofs.Shapes

/-! # Rereading — the text of a tree is read as that tree

    A tree that has the shape of a program is read back from its words: each operand at the level
    of its place, with what follows it left alone.  An expression that is not the truth of another
    is taken as boolean again, because no arithmetic tree can be read where it stands, or only one
    that goes on with a comparison, `and` or `or`.

    * `Leads`: a parser goes on as another one, behind some of the words;
    * `ReadsAt`: a tree is read from its words at a level;
    * `ReadsArithmetic`, `ReadsBoolean`: wherever it can stand, in parentheses if it must;
    * `DeclinesTree`: a boolean tree is not taken as an arithmetic one;
    * `ReadsValue`: an expression is read where either can stand. -/

namespace BraceScript

namespace Parser

variable {α β : Type}

/-! ## Known words ahead -/

/-- The words in hand and ahead, up to the end of the text. -/
def Shows (s : State) (ws : List Word) : Prop := s.words = ws ∧ s.failure = none

theorem Shows.kind {s : State} {ws : List Word} (h : Shows s ws) :
    s.token.kind = Word.firstKind ws := by
  obtain ⟨rest, hrest⟩ := s.words_head
  rw [← h.1, hrest]
  rfl

theorem Shows.lexeme {s : State} {w : Word} {ws : List Word} (h : Shows s (w :: ws)) :
    s.token.lexeme = w.lexeme := by
  obtain ⟨rest, hrest⟩ := s.words_head
  have hword := h.1
  rw [hrest] at hword
  exact congrArg Word.lexeme (List.cons.inj hword).1

/-- The next word is taken in hand. -/
theorem Shows.shift {s : State} {w : Word} {ws : List Word} (h : Shows s (w :: ws))
    (hw : w.kind ≠ .endOfFile) : ∃ s', Parser.shift s = .ok () s' ∧
      s.cursor.next = (.ok s'.token, s'.cursor) ∧ Shows s' ws := by
  have hend : s.token.kind ≠ .endOfFile := by
    rw [h.kind]
    exact hw
  obtain ⟨hcons, hfailure⟩ := State.words_cons hend
  obtain ⟨hwords, hnone⟩ := h
  rw [hcons] at hwords
  rw [hfailure] at hnone
  rcases shift_cases s with ⟨s', hshift, hnext⟩ | ⟨e, c, hshift, hnext⟩
  · refine ⟨s', hshift, hnext, ?_, ?_⟩
    · rw [← (List.cons.inj hwords).2, words_of_next hnext]
    · rw [← hnone, words_of_next hnext]
  · rw [Cursor.words_error hnext] at hnone
    cases hnone

/-- A parser with the words `ws` ahead goes on as another with the words `vs` ahead. -/
def Leads (p : Parser α) (ws : List Word) (q : Parser α) (vs : List Word) : Prop :=
  ∀ s, Shows s ws → ∃ s', Shows s' vs ∧ p s = q s'

namespace Leads

variable {p q r : Parser α} {ws vs us : List Word}

theorem refl (p : Parser α) (ws : List Word) : Leads p ws p ws := fun s hs => ⟨s, hs, rfl⟩

theorem trans (h : Leads p ws q vs) (h' : Leads q vs r us) : Leads p ws r us := by
  intro s hs
  obtain ⟨s', hs', heq⟩ := h s hs
  obtain ⟨s'', hs'', heq'⟩ := h' s' hs'
  exact ⟨s'', hs'', heq.trans heq'⟩

theorem bind (h : Leads p ws q vs) (f : α → Parser β) : Leads (p >>= f) ws (q >>= f) vs := by
  intro s hs
  obtain ⟨s', hs', heq⟩ := h s hs
  refine ⟨s', hs', ?_⟩
  show EStateM.bind p f s = EStateM.bind q f s'
  rw [EStateM.bind, EStateM.bind, heq]

/-- What has been read is handed on. -/
theorem andThen {a : α} {f : α → Parser β} {q : Parser β} (h : Leads p ws (pure a) vs)
    (h' : Leads (f a) vs q us) : Leads (p >>= f) ws q us := by
  have hbind := h.bind f
  rw [pure_bind] at hbind
  exact hbind.trans h'

/-- What comes next depends on the kind of the first word. -/
theorem seeing {f : Kind → Parser α} (k : Kind) (hk : Word.firstKind ws = k)
    (h : Leads (f k) ws q vs) : Leads (kind >>= f) ws q vs := by
  intro s hs
  rw [kind_bind, hs.kind, hk]
  exact h s hs

/-- A word is taken; of the token only the kind is used. -/
theorem taking {k : Kind} {w : Word} (hk : k ≠ .endOfFile) (hw : w.kind = k)
    {f : Token → Parser β} {q : Parser β} (h : ∀ t : Token, t.kind = k → Leads (f t) ws q vs) :
    Leads (consume k >>= f) (w :: ws) q vs := by
  intro s hs
  obtain ⟨s', hshift, -, hs'⟩ := hs.shift (hw ▸ hk)
  have hkind : s.token.kind = k := hs.kind.trans hw
  rw [consume_ok f hkind hshift]
  exact h s.token hkind s' hs'

/-- A word is passed over. -/
theorem passing {k : Kind} (hk : k ≠ .endOfFile) {p q : Parser β} (h : Leads p ws q vs) :
    Leads (consume k >>= fun _ => p) (Word.sign k :: ws) q vs := taking hk rfl fun _ _ => h

/-- The lexeme of a word is read. -/
theorem lexeme {k : Kind} (hk : k ≠ .endOfFile) (l : String) (ws : List Word) :
    Leads (consumeLexeme k) (⟨k, some l⟩ :: ws) (pure l) ws := by
  intro s hs
  obtain ⟨s', hshift, -, hs'⟩ := hs.shift hk
  have hkind : s.token.kind = k := hs.kind
  refine ⟨s', hs', ?_⟩
  rw [consumeLexeme, consume_ok _ hkind hshift, hs.lexeme]
  rfl

/-- The word behind the first is looked at; only its kind is used. -/
theorem peeking {w : Word} (hw : w.kind ≠ .endOfFile) {f : Token → Parser β} {q : Parser β}
    (h : ∀ t : Token, t.kind = Word.firstKind ws → Leads (f t) (w :: ws) q vs) :
    Leads (peekNext >>= f) (w :: ws) q vs := by
  intro s hs
  obtain ⟨s', -, hnext, hs'⟩ := hs.shift hw
  rw [bind_eq (peekNext_ok hnext)]
  exact h s'.token hs'.kind s hs

end Leads

/-! ## Levels -/

/-- The parser of a level. -/
def reader : (level : Nat) → Parser Node
  | 0 => free disjunction
  | 1 => free conjunction
  | 2 => free negation
  | 3 => free booleanPrimary
  | 4 => free sum
  | 5 => free product
  | 6 => free power
  | 7 => free signed
  | _ => free primary

/-- What the parser of a level does when it has read a tree: the levels that group to the left look
    for more. -/
def onward : (level : Nat) → Node → Parser Node
  | 0, t => free (moreDisjuncts · t)
  | 1, t => free (moreConjuncts · t)
  | 4, t => free (moreTerms · t)
  | 5, t => free (moreFactors · t)
  | _, t => pure t

/-- How far the word behind a tree may reach for the tree to be complete at a level. -/
def bound : (level : Nat) → Nat
  | 0 => 1
  | 1 => 2
  | 4 => 5
  | 5 => 6
  | level => level

/-- A tree is read at a level from the given words, whatever follows that does not belong to it. -/
def ReadsAt (level : Nat) (ws : List Word) (t : Node) : Prop :=
  ∀ rest, (Word.firstKind rest).reach ≤ bound level →
    Leads (reader level) (ws ++ rest) (onward level t) rest

/-- A tree is read before an operator. -/
theorem ReadsAt.before {level : Nat} {ws : List Word} {t : Node} (h : ReadsAt level ws t) {k : Kind}
    (hk : k.reach ≤ bound level) (vs : List Word) :
    Leads (reader level) (ws ++ Word.sign k :: vs) (onward level t) (Word.sign k :: vs) := h _ hk

theorem firstKind_append {ws : List Word} (h : ws ≠ []) (rest : List Word) :
    Word.firstKind (ws ++ rest) = Word.firstKind ws := by
  obtain ⟨w, ws, rfl⟩ := List.exists_cons_of_ne_nil h
  rfl

/-! ### Where nothing more is found -/

theorem leads_moreTerms_stop {rest : List Word} (h : (Word.firstKind rest).reach ≤ 4) (t : Node) :
    Leads (free (moreTerms · t)) rest (pure t) rest := by
  intro s hs
  exact ⟨s, hs, moreTerms_stop (by rw [hs.kind]; exact h) t⟩

theorem leads_moreFactors_stop {rest : List Word} (h : (Word.firstKind rest).reach ≤ 5) (t : Node) :
    Leads (free (moreFactors · t)) rest (pure t) rest := by
  intro s hs
  exact ⟨s, hs, moreFactors_stop (by rw [hs.kind]; exact h) t⟩

theorem leads_moreConjuncts_stop {rest : List Word} (h : (Word.firstKind rest).reach ≤ 1)
    (t : Node) : Leads (free (moreConjuncts · t)) rest (pure t) rest := by
  rw [free_moreConjuncts]
  refine .seeing _ rfl ?_
  rw [if_neg]
  · exact .refl _ _
  · intro hk
    rw [hk] at h
    exact absurd h (by decide)

theorem leads_moreDisjuncts_stop {rest : List Word} (h : (Word.firstKind rest).reach = 0)
    (t : Node) : Leads (free (moreDisjuncts · t)) rest (pure t) rest := by
  rw [free_moreDisjuncts]
  refine .seeing _ rfl ?_
  rw [if_neg]
  · exact .refl _ _
  · intro hk
    rw [hk] at h
    cases h

namespace ReadsAt

variable {ws : List Word} {t : Node}

/-! ### From one level to the next below -/

theorem signed (h : ReadsAt 8 ws t) (hne : ws ≠ [])
    (hfirst : (Word.firstKind ws).isAdditive = false) : ReadsAt 7 ws t := by
  intro rest hrest
  show Leads (free Parser.signed) _ _ _
  rw [free_signed]
  refine .seeing _ (firstKind_append hne rest) ?_
  rw [hfirst]
  exact h rest (Nat.le_trans hrest (by decide))

theorem power (h : ReadsAt 7 ws t) : ReadsAt 6 ws t := by
  intro rest hrest
  show Leads (free Parser.power) _ _ _
  rw [free_power]
  refine (h rest (Nat.le_trans hrest (by decide))).andThen (.seeing _ rfl ?_)
  rw [if_neg]
  · exact .refl _ _
  · intro hk
    rw [hk] at hrest
    exact absurd hrest (by decide)

theorem product (h : ReadsAt 6 ws t) : ReadsAt 5 ws t := by
  intro rest hrest
  show Leads (free Parser.product) _ _ _
  rw [free_product]
  exact (h rest hrest).andThen (.refl _ _)

theorem sum (h : ReadsAt 5 ws t) : ReadsAt 4 ws t := by
  intro rest hrest
  show Leads (free Parser.sum) _ _ _
  rw [free_sum]
  have hread := h rest (Nat.le_trans hrest (by decide))
  exact (hread.trans (leads_moreFactors_stop hrest t)).andThen (.refl _ _)

theorem negation (h : ReadsAt 3 ws t) (hne : ws ≠ []) (hfirst : Word.firstKind ws ≠ .notWord) :
    ReadsAt 2 ws t := by
  intro rest hrest
  show Leads (free Parser.negation) _ _ _
  rw [free_negation]
  refine .seeing _ (firstKind_append hne rest) ?_
  rw [if_neg hfirst]
  exact h rest (Nat.le_trans hrest (by decide))

theorem conjunction (h : ReadsAt 2 ws t) : ReadsAt 1 ws t := by
  intro rest hrest
  show Leads (free Parser.conjunction) _ _ _
  rw [free_conjunction]
  exact (h rest hrest).andThen (.refl _ _)

theorem disjunction (h : ReadsAt 1 ws t) : ReadsAt 0 ws t := by
  intro rest hrest
  show Leads (free Parser.disjunction) _ _ _
  rw [free_disjunction]
  have hread := h rest (Nat.le_trans hrest (by decide))
  exact (hread.trans (leads_moreConjuncts_stop hrest t)).andThen (.refl _ _)

/-! ### Whole expressions -/

theorem arithmetic (h : ReadsAt 4 ws t) {rest : List Word}
    (hrest : (Word.firstKind rest).reach ≤ 4) :
    Leads (free Parser.arithmetic) (ws ++ rest) (pure t) rest := by
  rw [free_arithmetic]
  exact (h rest (Nat.le_trans hrest (by decide))).trans (leads_moreTerms_stop hrest t)

theorem boolean (h : ReadsAt 0 ws t) {rest : List Word}
    (hrest : (Word.firstKind rest).reach = 0) :
    Leads (free Parser.boolean) (ws ++ rest) (pure t) rest := by
  rw [free_boolean]
  have hread := h rest (by rw [hrest]; exact Nat.zero_le _)
  exact hread.trans (leads_moreDisjuncts_stop hrest t)

/-! ### Parentheses -/

theorem arithmetic_enclosed (h : ReadsAt 4 ws t) :
    ReadsAt 8 (Word.sign .leftParenthesis :: (ws ++ [Word.sign .rightParenthesis])) t := by
  intro rest _
  show Leads (free primary) _ _ _
  rw [free_primary, List.cons_append, List.append_assoc]
  refine .seeing .leftParenthesis rfl ?_
  rw [if_neg (by decide), if_neg (by decide), if_neg (by decide), if_pos rfl]
  refine .passing (by decide) ((h.arithmetic ?_).andThen ?_)
  · exact Nat.zero_le 4
  · exact .passing (by decide) (.refl _ _)

theorem boolean_enclosed (h : ReadsAt 0 ws t) :
    ReadsAt 3 (Word.sign .leftParenthesis :: (ws ++ [Word.sign .rightParenthesis])) t := by
  intro rest _
  show Leads (free booleanPrimary) _ _ _
  rw [free_booleanPrimary, List.cons_append, List.append_assoc]
  refine .seeing .leftParenthesis rfl ?_
  rw [if_neg (by decide), if_pos rfl]
  refine .passing (by decide) ((h.boolean ?_).andThen ?_)
  · rfl
  · exact .passing (by decide) (.refl _ _)

/-- A tree that is read at a level is read at those below, down to the lowest of its kind. -/
theorem below {low level : Nat} (h : ReadsAt level ws t) (hne : ws ≠ [])
    (hsign : level = 8 → (Word.firstKind ws).isAdditive = false)
    (hnot : level = 3 → Word.firstKind ws ≠ .notWord)
    (hrange : (4 ≤ low ∧ level ≤ 8) ∨ level ≤ 3) (hle : low ≤ level) : ReadsAt low ws t := by
  obtain ⟨d, rfl⟩ := Nat.exists_eq_add_of_le hle
  induction d generalizing low with
  | zero => exact h
  | succ d ih =>
      have hnext : ReadsAt (low + 1) ws t := by
        rw [show low + (d + 1) = low + 1 + d by omega] at h hsign hnot hrange hle
        exact ih h hsign hnot (hrange.imp (fun hr => ⟨by omega, hr.2⟩) id) (by omega)
      have hlow : low = 0 ∨ low = 1 ∨ low = 2 ∨ low = 4 ∨ low = 5 ∨ low = 6 ∨ low = 7 := by omega
      rcases hlow with rfl | rfl | rfl | rfl | rfl | rfl | rfl
      · exact hnext.disjunction
      · exact hnext.conjunction
      · exact hnext.negation hne (hnot (by omega))
      · exact hnext.sum
      · exact hnext.product
      · exact hnext.power
      · exact hnext.signed hne (hsign (by omega))

end ReadsAt

/-- An arithmetic tree is read wherever one can stand, in parentheses if it must. -/
def ReadsArithmetic (t : Node) : Prop :=
  ∀ level, 4 ≤ level → level ≤ 8 → ReadsAt level (t.operand level) t

/-- A boolean tree is read wherever one can stand, in parentheses if it must. -/
def ReadsBoolean (t : Node) : Prop := ∀ level, level ≤ 3 → ReadsAt level (t.operand level) t

theorem operand_of_le {t : Node} {level : Nat} (h : level ≤ t.level) :
    t.operand level = t.words := by
  rw [Node.operand, decide_eq_false (Nat.not_lt.mpr h)]
  rfl

theorem operand_of_lt {t : Node} {level : Nat} (h : t.level < level) : t.operand level =
    Word.sign .leftParenthesis :: (t.words ++ [Word.sign .rightParenthesis]) := by
  rw [Node.operand, decide_eq_true h]
  rfl

/-- What is read at its own level is read at all. -/
theorem ReadsAt.readsArithmetic {t : Node} (h : ReadsAt t.level t.words t) (hne : t.words ≠ [])
    (hlevel : 4 ≤ t.level ∧ t.level ≤ 8)
    (hsign : t.level = 8 → (Word.firstKind t.words).isAdditive = false) : ReadsArithmetic t := by
  intro level hlow hhigh
  by_cases hle : level ≤ t.level
  · rw [operand_of_le hle]
    exact h.below hne hsign (by omega) (.inl ⟨hlow, hlevel.2⟩) hle
  · rw [operand_of_lt (by omega)]
    have hsum : ReadsAt 4 t.words t :=
      h.below hne hsign (by omega) (.inl ⟨by omega, hlevel.2⟩) hlevel.1
    exact hsum.arithmetic_enclosed.below (List.cons_ne_nil _ _) (fun _ => rfl) (by omega)
      (.inl ⟨hlow, by omega⟩) hhigh

theorem ReadsAt.readsBoolean {t : Node} (h : ReadsAt t.level t.words t) (hne : t.words ≠ [])
    (hlevel : t.level ≤ 3) (hnot : t.level = 3 → Word.firstKind t.words ≠ .notWord) :
    ReadsBoolean t := by
  intro level hhigh
  by_cases hle : level ≤ t.level
  · rw [operand_of_le hle]
    exact h.below hne (by omega) hnot (.inr hlevel) hle
  · rw [operand_of_lt (by omega)]
    have hall : ReadsAt 0 t.words t := h.below hne (by omega) hnot (.inr hlevel) (Nat.zero_le _)
    have hfirst : Word.firstKind (Word.sign .leftParenthesis :: (t.words
        ++ [Word.sign .rightParenthesis])) ≠ .notWord := by
      intro hk
      cases hk
    exact hall.boolean_enclosed.below (List.cons_ne_nil _ _) (by omega) (fun _ => hfirst)
      (.inr (by omega)) hhigh

/-! ## How trees begin -/

end Parser

/-- The kinds of word that an arithmetic tree can begin with. -/
def Kind.startsArithmetic : Kind → Bool
  | .numberLiteral | .stringLiteral | .identifier | .leftParenthesis | .plus | .minus => true
  | _ => false

/-- The kinds of word that an expression can begin with. -/
def Kind.startsExpression : Kind → Bool
  | .booleanLiteral | .notWord => true
  | k => k.startsArithmetic

theorem Kind.startsArithmetic_expression {k : Kind} (h : k.startsArithmetic = true) :
    k.startsExpression = true := by
  cases k <;> first | rfl | cases h

/-- An operand that is put in parentheses begins with one. -/
theorem Word.firstKind_enclose (inside : Bool) {ws vs : List Word} {starts : Kind → Bool}
    (hopen : starts .leftParenthesis = true) (hend : starts .endOfFile = false)
    (h : starts (Word.firstKind ws) = true) :
    starts (Word.firstKind (Word.enclose inside ws ++ vs)) = true := by
  cases inside with
  | true => exact hopen
  | false =>
      cases ws with
      | nil =>
          rw [show Word.firstKind [] = .endOfFile from rfl, hend] at h
          cases h
      | cons w ws => exact h

/-- An arithmetic tree begins as one. -/
theorem Shaped.startsArithmetic {node : Node} (h : Shaped .arithmetic node) :
    (Word.firstKind node.words).startsArithmetic = true := by
  generalize hp : Phrase.arithmetic = p at h
  induction h with
  | identifier h =>
      cases h
      rfl
  | number _ | string _ => rfl
  | functionCall hcallee _ =>
      cases hcallee
      rfl
  | binary _ _ _ hleft _ =>
      rw [Node.words]
      exact Word.firstKind_enclose _ rfl rfl (hleft rfl)
  | @unary _ k hk _ _ =>
      rw [Node.words, Kind.ofText_text]
      show k.startsArithmetic = true
      cases k <;> first | rfl | cases hk
  | _ => cases hp

theorem Shaped.startsBoolean {node : Node} (h : Shaped .boolean node) :
    (Word.firstKind node.words).startsExpression = true := by
  generalize hp : Phrase.boolean = p at h
  induction h with
  | boolean _ => rfl
  | logical _ _ _ hleft _ =>
      rw [Node.words]
      exact Word.firstKind_enclose _ rfl rfl (hleft rfl)
  | negation _ _ =>
      rw [Node.words, Kind.ofText_text]
      rfl
  | comparison _ hleft _ _ _ _ =>
      rw [Node.words]
      exact Word.firstKind_enclose false rfl rfl
        (Kind.startsArithmetic_expression hleft.startsArithmetic)
  | truth h _ _ => exact Kind.startsArithmetic_expression h.startsArithmetic
  | _ => cases hp

theorem Shaped.startsValue {node : Node} (h : Shaped .value node) :
    (Word.firstKind node.words).startsExpression = true := by
  cases h with
  | ofArithmetic h => exact Kind.startsArithmetic_expression h.startsArithmetic
  | ofBoolean h _ => exact h.startsBoolean

/-- Words that begin with a word of any kind but the end are some. -/
theorem Word.ne_nil_of_starts {ws : List Word} {starts : Kind → Bool}
    (hend : starts .endOfFile = false) (h : starts (Word.firstKind ws) = true) : ws ≠ [] := by
  rintro rfl
  rw [show Word.firstKind [] = .endOfFile from rfl, hend] at h
  cases h

/-- The levels of arithmetic trees; at the highest a tree begins with no sign. -/
theorem Shaped.levelArithmetic {node : Node} (h : Shaped .arithmetic node) :
    (4 ≤ node.level ∧ node.level ≤ 8) ∧
      (node.level = 8 → (Word.firstKind node.words).isAdditive = false) := by
  have hword : 4 ≤ 8 ∧ 8 ≤ 8 := by decide
  cases h with
  | identifier h =>
      cases h
      exact ⟨hword, fun _ => rfl⟩
  | number _ | string _ => exact ⟨hword, fun _ => rfl⟩
  | functionCall hcallee _ =>
      cases hcallee
      exact ⟨hword, fun _ => rfl⟩
  | @binary _ _ k hk _ _ =>
      rw [Node.level, Kind.ofText_text]
      cases k with
      | plus | minus | multiply | divide | floorDivide | modulo | power =>
          exact ⟨by decide, fun h => absurd h (by decide)⟩
      | _ => cases hk
  | unary _ _ =>
      refine ⟨⟨Nat.le_of_ble_eq_true rfl, Nat.le_of_ble_eq_true rfl⟩, fun h => ?_⟩
      cases h

/-- The levels of boolean trees; at the highest a tree does not begin with `not`. -/
theorem Shaped.levelBoolean {node : Node} (h : Shaped .boolean node) :
    node.level ≤ 3 ∧ (node.level = 3 → Word.firstKind node.words ≠ .notWord) := by
  have hstarts : ∀ {left : Node}, Shaped .arithmetic left → ∀ rest,
      Word.firstKind (left.words ++ rest) ≠ .notWord := by
    intro left hleft rest hk
    have hbegins : (Word.firstKind (left.words ++ rest)).startsArithmetic = true :=
      Word.firstKind_enclose false rfl rfl hleft.startsArithmetic
    rw [hk] at hbegins
    cases hbegins
  cases h with
  | boolean _ => exact ⟨Nat.le_of_ble_eq_true rfl, fun _ hk => by cases hk⟩
  | @logical _ _ k hk _ _ =>
      rw [Node.level, Kind.ofText_text]
      cases k with
      | orWord | andWord => exact ⟨by decide, fun h => absurd h (by decide)⟩
      | _ => cases hk
  | negation _ => exact ⟨Nat.le_of_ble_eq_true rfl, fun h => by cases h⟩
  | comparison _ hleft _ _ =>
      rw [Node.words]
      exact ⟨Nat.le_of_ble_eq_true rfl, fun _ => hstarts hleft _⟩
  | @truth left h _ =>
      refine ⟨Nat.le_of_ble_eq_true rfl, fun _ => ?_⟩
      rw [Node.words, ← List.append_nil left.words]
      exact hstarts h []

namespace Parser

/-! ## Names and arithmetic -/

theorem leads_identifier (name : String) (rest : List Word) :
    Leads identifier ((Node.identifier name).words ++ rest) (pure (.identifier name)) rest :=
  (Leads.lexeme (by decide) name rest).andThen (.refl _ _)

/-- What is read at its own level is read wherever an arithmetic tree can stand. -/
theorem Shaped.readsArithmetic {t : Node} (h : Shaped .arithmetic t)
    (hread : ReadsAt t.level t.words t) : ReadsArithmetic t :=
  hread.readsArithmetic (Word.ne_nil_of_starts rfl h.startsArithmetic) h.levelArithmetic.1
    h.levelArithmetic.2

theorem reads_number (lexeme : String) :
    ReadsAt 8 (Node.number lexeme).words (.number lexeme) := by
  intro rest _
  show Leads (free primary) _ _ _
  rw [free_primary]
  refine .seeing .numberLiteral rfl ?_
  rw [if_pos rfl]
  exact (Leads.lexeme (by decide) lexeme rest).andThen (.refl _ _)

theorem reads_string (lexeme : String) :
    ReadsAt 8 (Node.string lexeme).words (.string lexeme) := by
  intro rest _
  show Leads (free primary) _ _ _
  rw [free_primary]
  refine .seeing .stringLiteral rfl ?_
  rw [if_neg (by decide), if_pos rfl]
  exact (Leads.lexeme (by decide) lexeme rest).andThen (.refl _ _)

theorem reads_identifier (name : String) :
    ReadsAt 8 (Node.identifier name).words (.identifier name) := by
  intro rest hrest
  show Leads (free primary) _ _ _
  rw [free_primary]
  refine .seeing .identifier rfl ?_
  rw [if_neg (by decide), if_neg (by decide), if_pos rfl]
  refine .peeking (w := ⟨.identifier, some name⟩) (fun h => by cases h) fun ahead hahead => ?_
  rw [if_neg]
  · exact leads_identifier name rest
  · intro hopen
    rw [show Word.firstKind rest = .leftParenthesis from hahead.symm.trans hopen] at hrest
    exact absurd hrest (by decide)

/-! ### Lists -/

/-- Items are read with commas between them, if each can be read before a comma and the last before
    what follows them all. -/
theorem leads_items (follows : Kind → Prop) {item : Parser Node} {more : Parser (List Node)}
    (hmore : more = (do
      if (← kind) = .comma then
        let _ ← consume .comma
        let first ← item
        let rest ← more
        return first :: rest
      else
        return [])) (hfollows : follows .comma) {items : List Node}
    (h : ∀ n ∈ items, ∀ rest, follows (Word.firstKind rest) →
      Leads item (n.words ++ rest) (pure n) rest)
    {rest : List Word} (hcomma : Word.firstKind rest ≠ .comma)
    (hrest : follows (Word.firstKind rest)) :
    Leads more (Node.eachWords [Word.sign .comma] [] items ++ rest) (pure items) rest := by
  induction items with
  | nil =>
      rw [hmore]
      refine .seeing _ rfl ?_
      show Leads (if Word.firstKind rest = .comma then _ else _) _ _ _
      rw [if_neg hcomma]
      exact .refl _ _
  | cons n items ih =>
      obtain ⟨hn, hitems⟩ := List.forall_mem_cons.mp h
      rw [hmore, Node.eachWords, List.singleton_append, List.nil_append, List.cons_append,
        List.append_assoc]
      refine .seeing .comma rfl ?_
      rw [if_pos rfl]
      refine .passing (by decide) ((hn _ ?_).andThen ((ih hitems).andThen (.refl _ _)))
      cases items with
      | nil => exact hrest
      | cons _ _ => exact hfollows

theorem leads_list (follows : Kind → Prop) {item : Parser Node} {more : Parser (List Node)}
    (hmore : more = (do
      if (← kind) = .comma then
        let _ ← consume .comma
        let first ← item
        let rest ← more
        return first :: rest
      else
        return [])) (hfollows : follows .comma) {items : List Node}
    (h : ∀ n ∈ items, ∀ rest, follows (Word.firstKind rest) →
      Leads item (n.words ++ rest) (pure n) rest) (hne : items ≠ [])
    {rest : List Word} (hcomma : Word.firstKind rest ≠ .comma)
    (hrest : follows (Word.firstKind rest)) :
    Leads (do
      let first ← item
      let rest ← more
      return first :: rest) (Node.commaWords items ++ rest) (pure items) rest := by
  obtain ⟨n, items, rfl⟩ := List.exists_cons_of_ne_nil hne
  obtain ⟨hn, hitems⟩ := List.forall_mem_cons.mp h
  rw [Node.commaWords, List.append_assoc]
  refine (hn _ ?_).andThen
    ((leads_items follows hmore hfollows hitems hcomma hrest).andThen (.refl _ _))
  cases items with
  | nil => exact hrest
  | cons _ _ => exact hfollows

/-- A value is read before any word that does not belong to it. -/
def ReadsValue (t : Node) : Prop := ∀ rest, (Word.firstKind rest).reach = 0 →
  Leads (free expression) (t.words ++ rest) (pure t) rest

theorem leads_expressionList {values : List Node} (h : ∀ v ∈ values, ReadsValue v)
    (hne : values ≠ []) (rest : List Word) (hcomma : Word.firstKind rest ≠ .comma)
    (hrest : (Word.firstKind rest).reach = 0) :
    Leads (free expressionList) (Node.commaWords values ++ rest) (pure values) rest := by
  rw [free_expressionList]
  exact leads_list (fun k => k.reach = 0) free_moreExpressions rfl h hne hcomma hrest

/-- The arguments of a call are read up to the closing parenthesis. -/
theorem leads_arguments {arguments : List Node} (hshaped : ∀ a ∈ arguments, Shaped .value a)
    (h : ∀ a ∈ arguments, ReadsValue a) (rest : List Word) :
    Leads (free argumentsBeforeClose)
      (Node.commaWords arguments ++ Word.sign .rightParenthesis :: rest) (pure arguments)
      (Word.sign .rightParenthesis :: rest) := by
  rw [free_argumentsBeforeClose]
  cases arguments with
  | nil =>
      refine .seeing .rightParenthesis rfl ?_
      rw [if_pos rfl]
      exact .refl _ _
  | cons a arguments =>
      have hstarts := (hshaped a List.mem_cons_self).startsValue
      have hne : a.words ≠ [] := Word.ne_nil_of_starts rfl hstarts
      have hlist := leads_expressionList h (List.cons_ne_nil _ _)
        (Word.sign .rightParenthesis :: rest) (fun hk => by cases hk) rfl
      refine .seeing (Word.firstKind a.words) ?_ ?_
      · rw [Node.commaWords, List.append_assoc, firstKind_append hne]
      · rw [if_neg]
        · exact hlist
        · intro hk
          rw [hk] at hstarts
          cases hstarts

theorem reads_functionCall {name : String} {arguments : List Node}
    (hshaped : ∀ a ∈ arguments, Shaped .value a) (h : ∀ a ∈ arguments, ReadsValue a) :
    ReadsAt 8 (Node.functionCall (.identifier name) arguments).words
      (.functionCall (.identifier name) arguments) := by
  intro rest _
  show Leads (free primary) _ _ _
  rw [free_primary, Node.words, List.append_assoc, List.cons_append, List.append_assoc]
  refine .seeing .identifier rfl ?_
  rw [if_neg (by decide), if_neg (by decide), if_pos rfl]
  refine .peeking (w := ⟨.identifier, some name⟩) (fun h => by cases h) fun ahead hahead => ?_
  rw [if_pos (show ahead.kind = .leftParenthesis from hahead), free_functionCall]
  refine (leads_identifier name _).andThen (.passing (by decide) ?_)
  exact (leads_arguments hshaped h rest).andThen (.passing (by decide) (.refl _ _))

/-! ### Operations -/

theorem words_binary (left right : Node) (k : Kind) : (Node.binary left k.text right).words =
    left.operand k.leftLevel ++ Word.sign k :: right.operand k.rightLevel := by
  rw [Node.words, Kind.ofText_text]
  rfl

theorem words_logical (left right : Node) (k : Kind) : (Node.logical left k.text right).words =
    left.operand k.leftLevel ++ Word.sign k :: right.operand k.rightLevel := by
  rw [Node.words, Kind.ofText_text]
  rfl

section

variable {left right operand : Node} {k : Kind}

theorem reads_unary (hk : k.isAdditive = true) (h : ReadsAt 7 (operand.operand 7) operand) :
    ReadsAt 7 (Node.unary k.text operand).words (.unary k.text operand) := by
  intro rest hrest
  show Leads (free signed) _ _ _
  rw [free_signed, Node.words, Kind.ofText_text, List.cons_append]
  refine .seeing k rfl ?_
  rw [if_pos hk]
  exact .passing (Kind.solid (Kind.isAdditive_solid hk)).1 ((h rest hrest).andThen (.refl _ _))

theorem reads_power (hleft : ReadsAt 7 (left.operand 7) left)
    (hright : ReadsAt 6 (right.operand 6) right) :
    ReadsAt 6 (left.operand 7 ++ Word.sign .power :: right.operand 6)
      (.binary left Kind.power.text right) := by
  intro rest hrest
  show Leads (free power) _ _ _
  rw [free_power, List.append_assoc, List.cons_append]
  refine (hleft.before (k := .power) (Nat.le_refl 7) _).andThen (.seeing .power rfl ?_)
  rw [if_pos rfl]
  refine .taking (by decide) rfl fun t ht => ?_
  rw [ht]
  exact (hright rest hrest).andThen (.refl _ _)

theorem reads_multiplicative (hk : k.isMultiplicative = true) (hreach : k.reach = 6)
    (hleft : ReadsAt 5 (left.operand 5) left) (hright : ReadsAt 6 (right.operand 6) right) :
    ReadsAt 5 (left.operand 5 ++ Word.sign k :: right.operand 6)
      (.binary left k.text right) := by
  intro rest hrest
  rw [List.append_assoc, List.cons_append]
  refine (hleft.before hreach.le _).trans ?_
  show Leads (free (moreFactors · left)) _ _ _
  rw [free_moreFactors]
  refine .seeing k rfl ?_
  rw [if_pos hk]
  refine .passing (Kind.solid (Kind.isMultiplicative_solid hk)).1 ?_
  exact (hright rest hrest).andThen (.refl _ _)

theorem reads_additive (hk : k.isAdditive = true) (hreach : k.reach = 5)
    (hleft : ReadsAt 4 (left.operand 4) left) (hright : ReadsAt 5 (right.operand 5) right) :
    ReadsAt 4 (left.operand 4 ++ Word.sign k :: right.operand 5)
      (.binary left k.text right) := by
  intro rest hrest
  rw [List.append_assoc, List.cons_append]
  refine (hleft.before hreach.le _).trans ?_
  show Leads (free (moreTerms · left)) _ _ _
  rw [free_moreTerms]
  refine .seeing k rfl ?_
  rw [if_pos hk]
  refine .passing (Kind.solid (Kind.isAdditive_solid hk)).1 ?_
  have hread := hright rest (Nat.le_trans hrest (by decide))
  exact (hread.trans (leads_moreFactors_stop hrest right)).andThen (.refl _ _)

theorem reads_binary (hk : k.isArithmetic = true) (hleft : ReadsArithmetic left)
    (hright : ReadsArithmetic right) :
    ReadsAt (Node.binary left k.text right).level (Node.binary left k.text right).words
      (.binary left k.text right) := by
  rw [Node.level, Kind.ofText_text, words_binary]
  cases k with
  | plus | minus =>
      exact reads_additive rfl rfl (hleft 4 (by decide) (by decide))
        (hright 5 (by decide) (by decide))
  | multiply | divide | floorDivide | modulo =>
      exact reads_multiplicative rfl rfl (hleft 5 (by decide) (by decide))
        (hright 6 (by decide) (by decide))
  | power => exact reads_power (hleft 7 (by decide) (by decide)) (hright 6 (by decide) (by decide))
  | _ => cases hk

/-! ## Truth values -/

/-- What is read at its own level is read wherever a boolean tree can stand. -/
theorem Shaped.readsBoolean {t : Node} (h : Shaped .boolean t)
    (hread : ReadsAt t.level t.words t) : ReadsBoolean t :=
  hread.readsBoolean (Word.ne_nil_of_starts rfl h.startsBoolean) h.levelBoolean.1 h.levelBoolean.2

theorem reads_boolean (lexeme : String) :
    ReadsAt 3 (Node.boolean lexeme).words (.boolean lexeme) := by
  intro rest _
  show Leads (free booleanPrimary) _ _ _
  rw [free_booleanPrimary]
  refine .seeing .booleanLiteral rfl ?_
  rw [if_pos rfl]
  exact (Leads.lexeme (by decide) lexeme rest).andThen (.refl _ _)

/-- Where an arithmetic tree begins without a parenthesis, it is read before anything else. -/
theorem leads_booleanPrimary {ws vs : List Word} {q : Parser Node}
    (hstarts : (Word.firstKind ws).startsArithmetic = true)
    (hopen : Word.firstKind ws ≠ .leftParenthesis) (rest : List Word)
    (h : Leads (do
      let left ← free arithmetic
      let k ← kind
      if k.isComparison then
        let _ ← consume k
        let right ← free arithmetic
        return .comparison left k.text right
      else
        return .truth left) (ws ++ rest) q vs) : Leads (free booleanPrimary) (ws ++ rest) q vs := by
  rw [free_booleanPrimary]
  refine .seeing _ (firstKind_append (Word.ne_nil_of_starts rfl hstarts) rest) ?_
  rw [if_neg, if_neg hopen]
  · exact h
  · intro hk
    rw [hk] at hstarts
    cases hstarts

theorem reads_comparison (hk : k.isComparison = true) (hstarts : Shaped .arithmetic left)
    (hopen : Word.firstKind left.words ≠ .leftParenthesis) (hleft : ReadsAt 4 left.words left)
    (hright : ReadsAt 4 right.words right) :
    ReadsAt 3 (Node.comparison left k.text right).words (.comparison left k.text right) := by
  intro rest hrest
  rw [Node.words, Kind.ofText_text, List.append_assoc, List.cons_append]
  refine leads_booleanPrimary hstarts.startsArithmetic hopen _ ?_
  refine (hleft.arithmetic ?_).andThen (.seeing k rfl ?_)
  · show k.reach ≤ 4
    cases k <;> first | decide | cases hk
  · rw [if_pos hk]
    refine .passing (Kind.solid (Kind.isComparison_solid hk)).1 ?_
    exact (hright.arithmetic (Nat.le_trans hrest (by decide))).andThen (.refl _ _)

theorem reads_truth (hstarts : Shaped .arithmetic left)
    (hopen : Word.firstKind left.words ≠ .leftParenthesis) (hleft : ReadsAt 4 left.words left) :
    ReadsAt 3 (Node.truth left).words (.truth left) := by
  intro rest hrest
  rw [Node.words]
  refine leads_booleanPrimary hstarts.startsArithmetic hopen _ ?_
  refine (hleft.arithmetic (Nat.le_trans hrest (by decide))).andThen (.seeing _ rfl ?_)
  have hcomparison : (Word.firstKind rest).isComparison = false := by
    cases h : Word.firstKind rest <;> rw [h] at hrest <;>
      first | rfl | exact absurd hrest (by decide)
  rw [hcomparison]
  exact .refl _ _

theorem reads_negation (h : ReadsAt 3 (operand.operand 3) operand) :
    ReadsAt 2 (Node.negation Kind.notWord.text operand).words
      (.negation Kind.notWord.text operand) := by
  intro rest hrest
  show Leads (free negation) _ _ _
  rw [free_negation, Node.words, Kind.ofText_text, List.cons_append]
  refine .seeing .notWord rfl ?_
  rw [if_pos rfl]
  refine .taking (by decide) rfl fun t ht => ?_
  rw [ht]
  exact (h rest (Nat.le_trans hrest (by decide))).andThen (.refl _ _)

theorem reads_conjunction (hleft : ReadsAt 1 (left.operand 1) left)
    (hright : ReadsAt 2 (right.operand 2) right) :
    ReadsAt 1 (left.operand 1 ++ Word.sign .andWord :: right.operand 2)
      (.logical left Kind.andWord.text right) := by
  intro rest hrest
  rw [List.append_assoc, List.cons_append]
  refine (hleft.before (k := .andWord) (Nat.le_refl 2) _).trans ?_
  show Leads (free (moreConjuncts · left)) _ _ _
  rw [free_moreConjuncts]
  refine .seeing .andWord rfl ?_
  rw [if_pos rfl]
  refine .taking (by decide) rfl fun t ht => ?_
  rw [ht]
  exact (hright rest hrest).andThen (.refl _ _)

theorem reads_disjunction (hleft : ReadsAt 0 (left.operand 0) left)
    (hright : ReadsAt 1 (right.operand 1) right) :
    ReadsAt 0 (left.operand 0 ++ Word.sign .orWord :: right.operand 1)
      (.logical left Kind.orWord.text right) := by
  intro rest hrest
  rw [List.append_assoc, List.cons_append]
  refine (hleft.before (k := .orWord) (Nat.le_refl 1) _).trans ?_
  show Leads (free (moreDisjuncts · left)) _ _ _
  rw [free_moreDisjuncts]
  refine .seeing .orWord rfl ?_
  rw [if_pos rfl]
  refine .taking (by decide) rfl fun t ht => ?_
  rw [ht]
  have hread := hright rest (Nat.le_trans hrest (by decide))
  exact (hread.trans (leads_moreConjuncts_stop hrest right)).andThen (.refl _ _)

theorem reads_logical (hk : k.isLogical = true) (hleft : ReadsBoolean left)
    (hright : ReadsBoolean right) :
    ReadsAt (Node.logical left k.text right).level (Node.logical left k.text right).words
      (.logical left k.text right) := by
  rw [Node.level, Kind.ofText_text, words_logical]
  cases k with
  | orWord => exact reads_disjunction (hleft 0 (by decide)) (hright 1 (by decide))
  | andWord => exact reads_conjunction (hleft 1 (by decide)) (hright 2 (by decide))
  | _ => cases hk

end

/-! ## Taking an expression as boolean again -/

/-- No arithmetic tree can be read from the words, unless what follows it shows that it is part of a
    boolean one. -/
def Declines (ws : List Word) : Prop :=
  ∀ s, Shows s ws → ∀ e s', free arithmetic s = .ok e s' → continuesBoolean s'.token.kind = true

theorem Declines.startsBoolean {ws : List Word} (h : Declines ws) :
    Leads (free Parser.startsBoolean) ws (pure true) ws := by
  intro s hs
  refine ⟨s, hs, ?_⟩
  rw [free_startsBoolean, glance]
  cases harithmetic : free arithmetic s with
  | ok e s' =>
      show EStateM.Result.ok (continuesBoolean s'.token.kind) s = .ok true s
      rw [h s hs e s' harithmetic]
  | error e s' => rfl

/-- Where an arithmetic tree is read, an expression goes on with what follows. -/
theorem Leads.startsBoolean {ws rest : List Word} {t : Node}
    (h : Leads (free arithmetic) (ws ++ rest) (pure t) rest) :
    Leads (free Parser.startsBoolean) (ws ++ rest) (pure (continuesBoolean (Word.firstKind rest)))
      (ws ++ rest) := by
  intro s hs
  obtain ⟨s', hs', heq⟩ := h s hs
  refine ⟨s, hs, ?_⟩
  rw [free_startsBoolean, glance, heq, ← hs'.kind]
  rfl

theorem Leads.declines {ws rest : List Word} {t : Node}
    (h : Leads (free arithmetic) (ws ++ rest) (pure t) rest)
    (hrest : continuesBoolean (Word.firstKind rest) = true) : Declines (ws ++ rest) := by
  intro s hs e s' hrun
  obtain ⟨s'', hs'', heq⟩ := h s hs
  rw [heq] at hrun
  cases hrun
  rw [hs''.kind]
  exact hrest

/-- An arithmetic tree begins with a primary, or with a sign. -/
theorem primary_of_arithmetic {s s' : State} {e : Node} (h : free arithmetic s = .ok e s')
    (hsign : s.token.kind.isAdditive = false) : ∃ t mid, free primary s = .ok t mid := by
  rw [free_arithmetic, free_sum] at h
  obtain ⟨_, _, h, -⟩ := bind_ok h
  rw [free_product] at h
  obtain ⟨_, _, h, -⟩ := bind_ok h
  rw [free_power] at h
  obtain ⟨t, mid, h, -⟩ := bind_ok h
  rw [free_signed, kind_bind, hsign] at h
  exact ⟨t, mid, h⟩

/-- No arithmetic tree begins with a truth value or with `not`. -/
theorem declines_word {ws : List Word}
    (h : Word.firstKind ws = .booleanLiteral ∨ Word.firstKind ws = .notWord) : Declines ws := by
  intro s hs e s' hrun
  rw [← hs.kind] at h
  obtain ⟨hvalue, hnot⟩ := arithmetic_starts hrun
  rcases h with h | h
  · exact absurd h hvalue
  · exact absurd h hnot

/-- No arithmetic tree is between parentheses if it goes on as a boolean one before they close. -/
theorem declines_enclosed {ws : List Word} (h : Declines ws) :
    Declines (Word.sign .leftParenthesis :: ws) := by
  intro s hs e s' hrun
  have hopen : s.token.kind = .leftParenthesis := hs.kind
  obtain ⟨t, mid, hprimary⟩ := primary_of_arithmetic hrun (by rw [hopen]; rfl)
  obtain ⟨s₁, hshift, -, hs₁⟩ := hs.shift (by decide)
  rw [free_primary, kind_bind, hopen, if_neg (by decide), if_neg (by decide), if_neg (by decide),
    if_pos rfl, consume_ok _ hopen hshift] at hprimary
  obtain ⟨inner, s₂, hinner, hclose⟩ := bind_ok hprimary
  have hgoes := h s₁ hs₁ inner s₂ hinner
  by_cases hk : s₂.token.kind = .rightParenthesis
  · rw [hk] at hgoes
    cases hgoes
  · rw [consume_ne _ hk] at hclose
    cases hclose

/-- A boolean tree is not taken as an arithmetic one, unless it is the truth of one and nothing
    shows that it goes on. -/
def DeclinesTree (t : Node) : Prop :=
  ∀ rest, t.isTruth = false ∨ continuesBoolean (Word.firstKind rest) = true →
    Declines (t.words ++ rest)

section

variable {left right : Node} {k : Kind}

theorem reach_of_continuesBoolean (h : continuesBoolean k = true) : k.reach ≤ 4 := by
  cases k <;> first | decide | cases h

theorem declines_comparison (hk : k.isComparison = true) (hleft : ReadsAt 4 left.words left) :
    DeclinesTree (.comparison left k.text right) := by
  intro rest _
  have hgoes : continuesBoolean k = true := by
    rw [continuesBoolean, hk]
    rfl
  rw [Node.words, Kind.ofText_text, List.append_assoc, List.cons_append]
  refine Leads.declines (hleft.arithmetic ?_) hgoes
  exact reach_of_continuesBoolean hgoes

theorem declines_truth (hleft : ReadsAt 4 left.words left) : DeclinesTree (.truth left) := by
  intro rest hrest
  rcases hrest with htruth | hgoes
  · cases htruth
  · exact Leads.declines (hleft.arithmetic (reach_of_continuesBoolean hgoes)) hgoes

theorem declines_logical (hk : k.isLogical = true) (hleft : DeclinesTree left) :
    DeclinesTree (.logical left k.text right) := by
  intro rest _
  have hgoes : continuesBoolean k = true := by
    cases k <;> first | rfl | cases hk
  rw [words_logical, List.append_assoc, List.cons_append]
  by_cases hlevel : left.level < k.leftLevel
  · -- only a disjunction is put in parentheses here, and it is the truth of nothing
    rw [operand_of_lt hlevel, List.cons_append, List.append_assoc]
    refine declines_enclosed (hleft _ (.inl ?_))
    cases left with
    | truth _ =>
        have hlow : k.leftLevel ≤ 1 := by
          cases k <;> first | decide | cases hk
        exact absurd (Nat.lt_of_lt_of_le hlevel hlow) (by rw [Node.level]; decide)
    | _ => rfl
  · rw [operand_of_le (Nat.not_lt.mp hlevel)]
    exact hleft _ (.inr hgoes)

end

/-! ## Values -/

theorem ReadsAt.value {t : Node} (h : ReadsAt 4 t.words t) : ReadsValue t := by
  intro rest hrest
  have hread : Leads (free Parser.arithmetic) (t.words ++ rest) (pure t) rest :=
    h.arithmetic (by rw [hrest]; exact Nat.zero_le 4)
  rw [free_expression]
  refine hread.startsBoolean.andThen ?_
  rw [continuesBoolean_of_reach hrest]
  exact hread

theorem DeclinesTree.value {t : Node} (hdeclines : DeclinesTree t) (htruth : t.isTruth = false)
    (h : ReadsAt 0 t.words t) : ReadsValue t := by
  intro rest hrest
  rw [free_expression]
  exact (hdeclines rest (.inl htruth)).startsBoolean.andThen (h.boolean hrest)

end Parser

end BraceScript
