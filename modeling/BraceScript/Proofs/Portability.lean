import BraceScript.Proofs.Nesting
import BraceScript.Proofs.RoundTrip

/-! # Portability — an arithmetic tree does not depend on what follows its words

    What the arithmetic parsers make of some words they make of the same words in any other state,
    if the word behind them is of the same kind as before or is one that no arithmetic tree can go
    on with.  Calls and parentheses look no further than the parenthesis that closes them, which
    nesting tells; everything else looks at one word at a time.

    * `Portable`: the words that a parser has taken can be moved;
    * `solid_primary` … `solid_arithmetic`: so it is with the arithmetic parsers;
    * `ReadAs`: words that are read as an arithmetic tree, wherever that may be;
    * `arithmetic_of_words`: an arithmetic tree is read from its words, and no further. -/

namespace BraceScript

/-! ## Words that end an arithmetic tree -/

namespace Kind

variable {k : Kind}

theorem isAdditive_stop (h : k.reach ≤ 4) : ¬k.isAdditive = true := by
  cases k <;> first | decide | exact absurd h (by decide)

theorem isMultiplicative_stop (h : k.reach ≤ 4) : ¬k.isMultiplicative = true := by
  cases k <;> first | decide | exact absurd h (by decide)

theorem power_stop (h : k.reach ≤ 4) : k ≠ .power := by
  rintro rfl
  exact absurd h (by decide)

/-- Only the arithmetic operators and the parenthesis of a call belong to an arithmetic tree. -/
theorem reach_of_not_arithmetic (h : k.isArithmetic = false) (hopen : k ≠ .leftParenthesis) :
    k.reach ≤ 4 := by
  cases k <;> first | decide | exact absurd rfl hopen | cases h

end Kind

namespace Parser

variable {α β : Type} {s : State}

/-- A token that has been taken was of the kind that was asked for. -/
theorem consume_taken {k : Kind} (hend : (k == .endOfFile) = false) {f : Token → Parser β} {b : β}
    {s'' : State} (h : (consume k >>= f) s = .ok b s'') :
    s.token.kind = k ∧ ∃ s', Takes s s' ∧ f s.token s' = .ok b s'' := by
  have hkind : s.token.kind = k := by
    by_contra hne
    rw [consume_ne f hne] at h
    cases h
  refine ⟨hkind, ?_⟩
  cases hshift : shift s with
  | error e s' =>
      rw [consume_cut f hkind hshift] at h
      cases h
  | ok u s' =>
      rw [consume_ok f hkind hshift] at h
      exact ⟨s', shift_takes (by rw [hkind]; simpa using hend) hshift, h⟩

/-! ## Words that can be moved -/

/-- Words that can stand behind an arithmetic tree that was read up to a word of the kind `k`. -/
def Follows (k : Kind) (vs : List Word) : Prop :=
  vs ≠ [] ∧ (Word.firstKind vs = k ∨ (Word.firstKind vs).reach ≤ 4)

/-- A parser makes `a` of the words `ws`, between the states `s` and `s'` and wherever they
    stand. -/
def Moves (p : Parser α) (s s' : State) (a : α) (ws : List Word) : Prop :=
  s.words = ws ++ s'.words ∧ ∀ t vs, t.words = ws ++ vs → Follows s'.token.kind vs →
    ∃ t', p t = .ok a t' ∧ t'.words = vs

/-- What a parser makes from a state, it makes of the same words anywhere. -/
def Portable (s : State) (p : Parser α) : Prop :=
  ∀ a s', p s = .ok a s' → ∃ ws, Moves p s s' a ws

/-- What is made can be moved, and it is made of one word at least. -/
def Solid (s : State) (p : Parser α) : Prop :=
  ∀ a s', p s = .ok a s' → ∃ w ws, Moves p s s' a (w :: ws)

theorem Solid.portable {p : Parser α} (h : Solid s p) : Portable s p := by
  intro a s' hrun
  obtain ⟨w, ws, hmoves⟩ := h a s' hrun
  exact ⟨w :: ws, hmoves⟩

theorem firstKind_words (s : State) : Word.firstKind s.words = s.token.kind := by
  obtain ⟨ws, hws⟩ := s.words_head
  rw [hws]
  rfl

/-- What is behind the first part of some words can follow it. -/
theorem Follows.append {s s' : State} {ws vs : List Word} (hs : s.words = ws ++ s'.words)
    (h : Follows s'.token.kind vs) : Follows s.token.kind (ws ++ vs) := by
  refine ⟨fun hnil => h.1 (List.append_eq_nil_iff.mp hnil).2, ?_⟩
  rw [← firstKind_words s, hs]
  cases ws with
  | nil =>
      rw [List.nil_append, List.nil_append, firstKind_words]
      exact h.2
  | cons w ws => exact .inl rfl

theorem Moves.bind {p : Parser α} {f : α → Parser β} {s s' s'' : State} {a : α} {b : β}
    {ws vs : List Word} (hp : Moves p s s' a ws) (hf : Moves (f a) s' s'' b vs) :
    Moves (p >>= f) s s'' b (ws ++ vs) := by
  obtain ⟨hs, hp⟩ := hp
  obtain ⟨hs', hf⟩ := hf
  refine ⟨by rw [hs, hs', List.append_assoc], fun t us ht hus => ?_⟩
  rw [List.append_assoc] at ht
  obtain ⟨t', hrun, ht'⟩ := hp t (vs ++ us) ht (.append hs' hus)
  obtain ⟨t'', hrun', ht''⟩ := hf t' us ht' hus
  exact ⟨t'', (bind_eq hrun).trans hrun', ht''⟩

namespace Portable

theorem pure (a : α) : Portable s (Pure.pure a) := by
  intro b s' hrun
  cases hrun
  exact ⟨[], rfl, fun t vs ht _ => ⟨t, rfl, ht⟩⟩

/-- More is looked for: a parser goes on if it is at an operator, and ends otherwise. -/
theorem more {c : Kind → Prop} [DecidablePred c] (hstop : ∀ k : Kind, k.reach ≤ 4 → ¬c k)
    {f : Kind → Parser α} {a : α} (hf : c s.token.kind → Solid s (f s.token.kind)) :
    Portable s (kind >>= fun k => if c k then f k else Pure.pure a) := by
  intro b s' hrun
  rw [kind_bind] at hrun
  by_cases hc : c s.token.kind
  · rw [if_pos hc] at hrun
    obtain ⟨w, ws, hs, hmoves⟩ := hf hc b s' hrun
    refine ⟨w :: ws, hs, fun t vs ht hvs => ?_⟩
    have hword : t.token.word = s.token.word := (token_word ht).trans (token_word hs).symm
    rw [kind_bind, show t.token.kind = s.token.kind from congrArg Word.kind hword, if_pos hc]
    exact hmoves t vs ht hvs
  · rw [if_neg hc] at hrun
    cases hrun
    refine ⟨[], rfl, fun t vs ht hvs => ⟨t, ?_, ht⟩⟩
    have hkind := firstKind_words t
    rw [ht, List.nil_append] at hkind
    have hc' : ¬c t.token.kind := by
      rw [← hkind]
      rcases hvs.2 with hsame | hreach
      · rwa [hsame]
      · exact hstop _ hreach
    rw [kind_bind, if_neg hc']
    rfl

end Portable

namespace Solid

theorem bind {p : Parser α} {f : α → Parser β} (hp : Solid s p)
    (hf : ∀ a s', s'.words.length < s.words.length → Portable s' (f a)) : Solid s (p >>= f) := by
  intro b s'' hrun
  obtain ⟨a, s', hmid, hrest⟩ := bind_ok hrun
  obtain ⟨w, ws, hmoves⟩ := hp a s' hmid
  have hlength : s'.words.length < s.words.length := by
    rw [hmoves.1, List.length_append, List.length_cons]
    omega
  obtain ⟨vs, hmoves'⟩ := hf a s' hlength b s'' hrest
  exact ⟨w, ws ++ vs, hmoves.bind hmoves'⟩

theorem either {c : Prop} [Decidable c] {p q : Parser α} (hp : c → Solid s p)
    (hq : ¬c → Solid s q) : Solid s (if c then p else q) := by
  by_cases h : c
  · rw [if_pos h]
    exact hp h
  · rw [if_neg h]
    exact hq h

theorem reject (cause : ParseCause) : Solid s (Parser.reject cause : Parser α) := by
  intro a s' hrun
  cases hrun

/-- What comes next depends on the kind of the word that is taken first. -/
theorem seeing {f : Kind → Parser α} (h : Solid s (f s.token.kind)) : Solid s (kind >>= f) := by
  intro a s' hrun
  obtain ⟨w, ws, hs, hmoves⟩ := h a s' hrun
  refine ⟨w, ws, hs, fun t vs ht hvs => ?_⟩
  have hword : t.token.word = s.token.word := (token_word ht).trans (token_word hs).symm
  rw [kind_bind, show t.token.kind = s.token.kind from congrArg Word.kind hword]
  exact hmoves t vs ht hvs

/-- A word is taken; what comes next does not depend on its place. -/
theorem taking {k : Kind} (hend : (k == .endOfFile) = false) {f : Token → Parser β}
    (hf : ∀ a b : Token, a.word = b.word → f a = f b)
    (h : ∀ s', s'.words.length < s.words.length → Portable s' (f s.token)) :
    Solid s (consume k >>= f) := by
  intro b s'' hrun
  obtain ⟨hkind, s', htakes, hrest⟩ := consume_taken hend hrun
  have hwords := htakes.words
  obtain ⟨ws, hs, hmoves⟩ := h s' (by rw [hwords, List.length_cons]; omega) b s'' hrest
  refine ⟨s.token.word, ws, by rw [hwords, hs, List.cons_append], fun t vs ht hvs => ?_⟩
  obtain ⟨v, us, hus⟩ := List.exists_cons_of_ne_nil (Follows.append hs hvs).1
  rw [List.cons_append, hus] at ht
  obtain ⟨t', htakes', ht'⟩ := takes_of_words ht
  have hword : t.token.word = s.token.word := token_word ht
  rw [consume_ok f ((congrArg Word.kind hword).trans hkind) htakes'.shift,
    hf t.token s.token hword]
  exact hmoves t' vs (ht'.trans hus.symm) hvs

theorem passing {k : Kind} (hend : (k == .endOfFile) = false) {p : Parser β}
    (h : ∀ s', s'.words.length < s.words.length → Portable s' p) :
    Solid s (consume k >>= fun _ => p) := taking hend (fun _ _ _ => rfl) h

theorem lexeme {k : Kind} (hend : (k == .endOfFile) = false) : Solid s (consumeLexeme k) := by
  refine taking hend (fun a b hword => ?_) fun _ _ => .pure _
  rw [show a.lexeme = b.lexeme from congrArg Word.lexeme hword]

theorem identifier : Solid s Parser.identifier := (lexeme rfl).bind fun _ _ _ => .pure _

/-- What is between parentheses does not see what is behind them. -/
theorem enclosed {p : Parser α} (hp : ∀ s', Nests s' p) (f : α → β) :
    Solid s (consume .leftParenthesis >>= fun _ => p >>= fun a =>
      consume .rightParenthesis >>= fun _ => Pure.pure (f a)) := by
  refine passing rfl fun s₁ _ b s₃ hrun => ?_
  obtain ⟨a, s₂, hinner, hrest⟩ := bind_ok hrun
  obtain ⟨-, ws, hpaired, hws⟩ := (hp s₁).takes a s₂ hinner
  -- the closing parenthesis is taken by a parser of its own, so it can be moved too
  have hclose : Solid s₂ (consume .rightParenthesis >>= fun _ => Pure.pure (f a)) :=
    passing rfl fun _ _ => .pure _
  have hkind := (consume_taken rfl hrest).1
  obtain ⟨w, us, hs₂, hmoves⟩ := hclose b s₃ hrest
  refine ⟨ws ++ w :: us, by rw [hws, hs₂, List.append_assoc], fun t vs ht hvs => ?_⟩
  have hw : w.kind = .rightParenthesis := by
    rw [← hkind, ← token_word hs₂]
    rfl
  have hcloses : Word.closes 0 (ws ++ w :: us) = true := by
    rw [hpaired, Word.closes, if_neg (by rw [hw]; decide), if_pos hw]
    rfl
  have habreast : Abreast 0 s₃.words vs s₁ t :=
    ⟨ws ++ w :: us, by rw [hws, hs₂, List.append_assoc], ht, hcloses⟩
  have htogether := (hp s₁).abreast habreast
  rw [hinner] at htogether
  generalize hrun' : p t = r at htogether
  cases htogether with
  | @ok _ _ t₂ h =>
      obtain ⟨xs, hxs, ht₂, -⟩ := h
      obtain rfl : w :: us = xs := List.append_cancel_right (hs₂.symm.trans hxs)
      obtain ⟨t₃, hrun₃, ht₃⟩ := hmoves t₂ vs ht₂ hvs
      exact ⟨t₃, (bind_eq hrun').trans hrun₃, ht₃⟩

end Solid

/-! ## Arithmetic -/

theorem nests_arithmetic (s : State) : Nests s (free arithmetic) :=
  .free (fun d e => (same.expressions d e).arithmetic) rfl fun d => (nesting d).arithmetic s

theorem nests_arguments (s : State) : Nests s (free argumentsBeforeClose) :=
  .free (fun d e => (same.expressions d e).arguments) rfl fun d => (nesting d).arguments s

theorem solid_functionCall (s : State) : Solid s (free functionCall) := by
  rw [free_functionCall]
  exact Solid.identifier.bind fun callee s' _ =>
    (Solid.enclosed nests_arguments (Node.functionCall callee)).portable

theorem identifier_takes {t : Node} {s' : State} (h : identifier s = .ok t s') : Takes s s' := by
  have hyields : Yields s identifier fun _ s' => Takes s s' :=
    Yields.lexeme rfl fun _ _ htakes => .pure htakes
  exact (hyields t s' h).2

/-- A call has a parenthesis behind its name. -/
theorem functionCall_opens {t : Node} {s' : State} (h : free functionCall s = .ok t s') :
    ∃ s₁, Takes s s₁ ∧ s₁.token.kind = .leftParenthesis := by
  rw [free_functionCall] at h
  obtain ⟨callee, s₁, hname, hrest⟩ := bind_ok h
  exact ⟨s₁, identifier_takes hname, (consume_taken rfl hrest).1⟩

theorem Takes.peek {s s' : State} (h : Takes s s') : peekNext s = .ok s'.token s :=
  peekNext_ok h.2

/-- A name is a call or not by the word behind it, which can be moved as well. -/
theorem solid_name (s : State) : Solid s (do
    let ahead ← peekNext
    if ahead.kind = .leftParenthesis then free functionCall else identifier) := by
  intro a s' hrun
  obtain ⟨ahead, s₁, hpeek, hrest⟩ := bind_ok hrun
  obtain rfl := peekNext_same hpeek
  by_cases hopen : ahead.kind = .leftParenthesis
  · rw [if_pos hopen] at hrest
    obtain ⟨w, ws, hs, hmoves⟩ := solid_functionCall s₁ a s' hrest
    refine ⟨w, ws, hs, fun t vs ht hvs => ?_⟩
    obtain ⟨t', hcall, ht'⟩ := hmoves t vs ht hvs
    obtain ⟨t₁, htakes, hopen'⟩ := functionCall_opens hcall
    refine ⟨t', ?_, ht'⟩
    rw [bind_eq htakes.peek, if_pos hopen', hcall]
  · rw [if_neg hopen] at hrest
    have hahead : s'.token = ahead := by
      have hpeek' := (identifier_takes hrest).peek
      rw [hpeek] at hpeek'
      cases hpeek'
      rfl
    obtain ⟨w, ws, hs, hmoves⟩ := Solid.identifier a s' hrest
    refine ⟨w, ws, hs, fun t vs ht hvs => ?_⟩
    obtain ⟨t', hname, ht'⟩ := hmoves t vs ht hvs
    have hclosed : t'.token.kind ≠ .leftParenthesis := by
      rw [← firstKind_words, ht']
      rcases hvs.2 with hsame | hreach
      · rwa [hsame, hahead]
      · intro hopen'
        rw [hopen'] at hreach
        exact absurd hreach (by decide)
    refine ⟨t', ?_, ht'⟩
    rw [bind_eq (identifier_takes hname).peek, if_neg hclosed, hname]

theorem solid_primary (s : State) : Solid s (free primary) := by
  rw [free_primary]
  refine .seeing (.either (fun _ => ?_) fun _ => .either (fun _ => ?_) fun _ =>
    .either (fun _ => solid_name s) fun _ => .either (fun _ => ?_) fun _ => .reject _)
  · exact (Solid.lexeme rfl).bind fun _ _ _ => .pure _
  · exact (Solid.lexeme rfl).bind fun _ _ _ => .pure _
  · exact .enclosed nests_arithmetic id

theorem solid_signed (s : State) : Solid s (free signed) := by
  induction hn : s.words.length using Nat.strong_induction_on generalizing s with
  | _ n ih =>
      rw [free_signed]
      refine .seeing (.either (fun hk => ?_) fun _ => solid_primary s)
      refine .passing (Kind.beq_end (Kind.isAdditive_solid hk)) fun s' hlt => ?_
      exact ((ih _ (hn ▸ hlt) s' rfl).bind fun _ _ _ => .pure _).portable

theorem solid_power (s : State) : Solid s (free power) := by
  induction hn : s.words.length using Nat.strong_induction_on generalizing s with
  | _ n ih =>
      rw [free_power]
      refine (solid_signed s).bind fun left s' hlt => .more (fun _ => Kind.power_stop) fun _ => ?_
      refine .taking rfl (fun a b hword => ?_) fun s'' hlt' => ?_
      · rw [show a.kind = b.kind from congrArg Word.kind hword]
      · exact ((ih _ (by omega) s'' rfl).bind fun _ _ _ => .pure _).portable

theorem portable_moreFactors (left : Node) (s : State) :
    Portable s (free (moreFactors · left)) := by
  induction hn : s.words.length using Nat.strong_induction_on generalizing s left with
  | _ n ih =>
      rw [free_moreFactors]
      refine .more (fun _ => Kind.isMultiplicative_stop) fun hk => ?_
      refine .passing (Kind.beq_end (Kind.isMultiplicative_solid hk)) fun s' hlt => ?_
      exact ((solid_power s').bind fun right s'' hlt' => ih _ (by omega) _ s'' rfl).portable

theorem solid_product (s : State) : Solid s (free product) := by
  rw [free_product]
  exact (solid_power s).bind fun left s' _ => portable_moreFactors left s'

theorem portable_moreTerms (left : Node) (s : State) : Portable s (free (moreTerms · left)) := by
  induction hn : s.words.length using Nat.strong_induction_on generalizing s left with
  | _ n ih =>
      rw [free_moreTerms]
      refine .more (fun _ => Kind.isAdditive_stop) fun hk => ?_
      refine .passing (Kind.beq_end (Kind.isAdditive_solid hk)) fun s' hlt => ?_
      exact ((solid_product s').bind fun right s'' hlt' => ih _ (by omega) _ s'' rfl).portable

theorem solid_arithmetic (s : State) : Solid s (free arithmetic) := by
  rw [free_arithmetic, free_sum]
  exact (solid_product s).bind fun left s' _ => portable_moreTerms left s'

/-! ## Words that are read as arithmetic trees -/

/-- Words that are read completely as an arithmetic tree, wherever that may be. -/
def ReadAs (ws : List Word) (e : Node) : Prop :=
  ∃ s s', free arithmetic s = .ok e s' ∧ s.words = ws ++ s'.words

theorem ReadAs.ne_nil {ws : List Word} {e : Node} (h : ReadAs ws e) : ws ≠ [] := by
  obtain ⟨s, s', hrun, hs⟩ := h
  obtain ⟨w, us, hs', -⟩ := solid_arithmetic s e s' hrun
  rw [List.append_cancel_right (hs.symm.trans hs')]
  exact List.cons_ne_nil w us

/-- Words that are read as an arithmetic tree are read so before any word that cannot belong to
    it. -/
theorem ReadAs.run {ws : List Word} {e : Node} (h : ReadAs ws e) {w : Word}
    (hw : w.kind.reach ≤ 4) {s : State} {rest : List Word} (hs : s.words = ws ++ w :: rest) :
    ∃ s', free arithmetic s = .ok e s' ∧ s'.words = w :: rest := by
  obtain ⟨t, t', hrun, ht⟩ := h
  obtain ⟨v, us, ht', hmoves⟩ := solid_arithmetic t e t' hrun
  obtain rfl : ws = v :: us := List.append_cancel_right (ht.symm.trans ht')
  exact hmoves s (w :: rest) hs ⟨List.cons_ne_nil w rest, .inr hw⟩

/-- The state at the beginning of a text whose words are known. -/
theorem start_of_words {source : String} {ws : List Word}
    (h : (Cursor.ofString source).words = (ws, none)) : ∃ s, start source = .ok s ∧ Shows s ws := by
  rcases start_cases source with ⟨s, hstart, hnext⟩ | ⟨e, c, -, hnext⟩
  · rw [words_of_next hnext] at h
    obtain ⟨hshows, hfailure⟩ := Prod.mk.inj h
    exact ⟨s, hstart, hshows, hfailure⟩
  · rw [Cursor.words_error hnext] at h
    cases (Prod.mk.inj h).2

/-- The words of an arithmetic tree are read as that tree. -/
theorem readAs_words {e : Node} (h : Shaped .arithmetic e) : ReadAs e.words e := by
  obtain ⟨s, -, hs⟩ := start_of_words (Cursor.words_print h.legible)
  have hreads : Leads (free arithmetic) (e.words ++ [Word.last]) (pure e) [Word.last] :=
    (ReadsArithmetic.sum (Shaped.reads h) h).arithmetic (Nat.zero_le 4)
  obtain ⟨s', hs', hrun⟩ := hreads s hs
  exact ⟨s, s', hrun, by rw [hs.1, hs'.1]⟩

/-- An arithmetic tree is read from its words, which have parentheses only around the operands that
    need them, before any word that is no arithmetic operator and no parenthesis, and that word is
    then in hand. -/
theorem arithmetic_of_words {e : Node} (h : Shaped .arithmetic e) {s : State} {follow : Word}
    {rest : List Word} (hs : s.words = e.words ++ follow :: rest)
    (hoperator : follow.kind.isArithmetic = false) (hopen : follow.kind ≠ .leftParenthesis) :
    ∃ s', free arithmetic s = .ok e s' ∧ s'.token.word = follow ∧ s'.words = follow :: rest := by
  have hreach := Kind.reach_of_not_arithmetic hoperator hopen
  obtain ⟨s', hrun, hs'⟩ := (readAs_words h).run hreach hs
  exact ⟨s', hrun, token_word hs', hs'⟩

/-- Signs bind more tightly than powers, and the right operand of a difference keeps its
    parentheses. -/
theorem arithmetic_of_words_mixed :
    ∃ s s', start "-a ** -2 - (b - c()) \x7b show 1" = .ok s ∧
      free arithmetic s = .ok (.binary
        (.binary (.unary "-" (.identifier "a")) "**" (.unary "-" (.number "2"))) "-"
        (.binary (.identifier "b") "-" (.functionCall (.identifier "c") []))) s' ∧
      s'.token.word = Word.sign .leftBrace := by
  let e := Node.binary
    (.binary (.unary "-" (.identifier "a")) "**" (.unary "-" (.number "2"))) "-"
    (.binary (.identifier "b") "-" (.functionCall (.identifier "c") []))
  have hshaped : Shaped .arithmetic e := by
    refine .binary (k := .minus) rfl (.binary (k := .power) rfl ?_ ?_)
      (.binary (k := .minus) rfl ?_ ?_)
    · exact .unary (k := .minus) rfl (.identifier (.name (by decide) (by decide)))
    · exact .unary (k := .minus) rfl (.number (.of_digits (by decide) rfl))
    · exact .identifier (.name (by decide) (by decide))
    · exact .functionCall (.name (by decide) (by decide)) (by simp)
  have hwords : (Cursor.ofString "-a ** -2 - (b - c()) \x7b show 1").words =
      (e.words ++ Word.sign .leftBrace ::
        [Word.sign .showWord, ⟨.numberLiteral, some "1"⟩, Word.last], none) := by cbv
  obtain ⟨s, hstart, hs, -⟩ := start_of_words hwords
  obtain ⟨s', hrun, hword, -⟩ := arithmetic_of_words hshaped hs rfl (by decide)
  exact ⟨s, s', hstart, hrun, hword⟩

end Parser

end BraceScript
