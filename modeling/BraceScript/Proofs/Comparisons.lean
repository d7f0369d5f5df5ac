import BraceScript.Proofs.Portability

/-! # Comparisons — which comparisons of arithmetic trees are read

    A boolean expression that begins with two arithmetic trees and a comparison between them is read
    as that comparison, with one exception.  A parenthesis at the front is taken as the parenthesis
    of a boolean expression: what is inside it becomes a truth value, and what comes behind it is
    not looked at.

    * `truth_of_parenthesis`: only a truth value is read from an arithmetic parenthesis;
    * `comparison_read_iff`: a comparison is read if and only if no parenthesis is at its front. -/

namespace BraceScript

namespace Kind

variable {k : Kind}

theorem isArithmetic_not_logical (h : k.isArithmetic = true) : k.isLogical = false := by
  cases k <;> first | rfl | cases h

theorem isComparison_not_logical (h : k.isComparison = true) : k.isLogical = false := by
  cases k <;> first | rfl | cases h

end Kind

namespace Parser

variable {s s' : State}

/-! ## From primaries to boolean expressions -/

/-- A boolean expression without a `not` at its front is its first primary, if no `and` or `or`
    follows. -/
theorem boolean_stop {b : Node} (hnot : s.token.kind ≠ .notWord)
    (h : free booleanPrimary s = .ok b s') (hstop : s'.token.kind.isLogical = false) :
    free boolean s = .ok b s' := by
  have hand : s'.token.kind ≠ .andWord := by
    intro hk
    rw [hk] at hstop
    cases hstop
  have hor : s'.token.kind ≠ .orWord := by
    intro hk
    rw [hk] at hstop
    cases hstop
  have hnegation : free negation s = .ok b s' := by
    rw [free_negation, kind_bind, if_neg hnot, h]
  have hconjunction : free conjunction s = .ok b s' := by
    rw [free_conjunction, bind_eq hnegation, free_moreConjuncts, kind_bind, if_neg hand]
    rfl
  rw [free_boolean, free_disjunction, bind_eq hconjunction, free_moreDisjuncts, kind_bind,
    if_neg hor]
  rfl

/-- A boolean expression without a `not` at its front begins with a primary. -/
theorem primary_of_boolean {b : Node} (hnot : s.token.kind ≠ .notWord)
    (h : free boolean s = .ok b s') : ∃ c mid, free booleanPrimary s = .ok c mid := by
  rw [free_boolean, free_disjunction] at h
  obtain ⟨_, _, h, -⟩ := bind_ok h
  rw [free_conjunction] at h
  obtain ⟨c, mid, h, -⟩ := bind_ok h
  rw [free_negation, kind_bind, if_neg hnot] at h
  exact ⟨c, mid, h⟩

/-- An arithmetic tree that does not begin with a parenthesis is read as a truth value, if no
    comparison follows. -/
theorem booleanPrimary_truth {e : Node} (hopen : s.token.kind ≠ .leftParenthesis)
    (h : free arithmetic s = .ok e s') (hstop : s'.token.kind.isComparison = false) :
    free booleanPrimary s = .ok (.truth e) s' := by
  rw [free_booleanPrimary, kind_bind, if_neg (arithmetic_starts h).1, if_neg hopen, bind_eq h,
    kind_bind, hstop]
  rfl

/-! ## A parenthesis at the front -/

/-- An arithmetic tree that begins with a parenthesis ends where that is closed, or goes on with an
    operator. -/
theorem arithmetic_opens {e : Node} (hopen : s.token.kind = .leftParenthesis)
    (h : free arithmetic s = .ok e s') : ∃ s₁ s₂ s₃ inner, Takes s s₁ ∧
      free arithmetic s₁ = .ok inner s₂ ∧ s₂.token.kind = .rightParenthesis ∧ Takes s₂ s₃ ∧
      (s₃.token.kind.isArithmetic = true ∨ s₃ = s') := by
  rw [free_arithmetic, free_sum] at h
  obtain ⟨term, m₁, h, hterms⟩ := bind_ok h
  rw [free_product] at h
  obtain ⟨factor, m₂, h, hfactors⟩ := bind_ok h
  rw [free_power] at h
  obtain ⟨base, m₃, h, hpower⟩ := bind_ok h
  rw [free_signed, kind_bind, hopen, if_neg (by decide), free_primary, kind_bind, hopen,
    if_neg (by decide), if_neg (by decide), if_neg (by decide), if_pos rfl] at h
  obtain ⟨-, s₁, htakes, h⟩ := consume_taken rfl h
  obtain ⟨_, s₂, hinner, h⟩ := bind_ok h
  obtain ⟨hclose, _, htakes', h⟩ := consume_taken rfl h
  cases h
  refine ⟨s₁, s₂, m₃, base, htakes, hinner, hclose, htakes', ?_⟩
  by_cases hk : m₃.token.kind.isArithmetic = true
  · exact .inl hk
  · simp only [Kind.isArithmetic, Bool.or_eq_true, decide_eq_true_eq, not_or] at hk
    obtain ⟨⟨hadditive, hmultiplicative⟩, hpower'⟩ := hk
    rw [kind_bind, if_neg hpower'] at hpower
    cases hpower
    rw [free_moreFactors, kind_bind, if_neg hmultiplicative] at hfactors
    cases hfactors
    rw [free_moreTerms, kind_bind, if_neg hadditive] at hterms
    cases hterms
    exact .inr rfl

/-- From an arithmetic parenthesis only a truth value is read, up to where the parenthesis is
    closed. -/
theorem truth_of_parenthesis {s s' s'' : State} {e b : Node}
    (hopen : s.token.kind = .leftParenthesis) (h : free arithmetic s = .ok e s')
    (hb : free booleanPrimary s = .ok b s'') :
    (∃ inner, b = .truth inner) ∧ (s''.token.kind.isArithmetic = true ∨ s'' = s') := by
  induction hn : s.words.length using Nat.strong_induction_on generalizing s s' s'' e b with
  | _ n ih =>
      obtain ⟨s₁, s₂, s₃, inner, htakes, hinner, hclose, htakes', hend⟩ := arithmetic_opens hopen h
      rw [free_booleanPrimary, kind_bind, hopen, if_neg (by decide), if_pos rfl,
        consume_ok _ hopen htakes.shift] at hb
      obtain ⟨c, m, hboolean, hb⟩ := bind_ok hb
      obtain ⟨hclose', m', hm, hb⟩ := consume_taken rfl hb
      cases hb
      have hnot := (arithmetic_starts hinner).2
      -- inside there is a parenthesis again, or a tree that is complete where this one is closed
      have hinside : ∃ x mid, free booleanPrimary s₁ = .ok (.truth x) mid ∧
          (mid.token.kind.isArithmetic = true ∨ mid = s₂) := by
        by_cases hopen' : s₁.token.kind = .leftParenthesis
        · obtain ⟨c', mid, hprimary⟩ := primary_of_boolean hnot hboolean
          have hlt : s₁.words.length < n := by
            rw [← hn, htakes.words, List.length_cons]
            omega
          obtain ⟨⟨x, rfl⟩, hmid⟩ := ih _ hlt hopen' hinner hprimary rfl
          exact ⟨x, mid, hprimary, hmid⟩
        · exact ⟨inner, s₂, booleanPrimary_truth hopen' hinner (by rw [hclose]; rfl), .inr rfl⟩
      obtain ⟨x, mid, hprimary, hmid⟩ := hinside
      have hstop : mid.token.kind.isLogical = false := by
        rcases hmid with hk | rfl
        · exact Kind.isArithmetic_not_logical hk
        · rw [hclose]
          rfl
      rw [boolean_stop hnot hprimary hstop] at hboolean
      cases hboolean
      obtain rfl : m = s₂ := hmid.resolve_left (by rw [hclose']; decide)
      have hsame := hm.shift
      rw [htakes'.shift] at hsame
      cases hsame
      exact ⟨⟨x, rfl⟩, hend⟩

/-! ## Comparisons -/

/-- Two arithmetic trees with a comparison between them, before a brace, are read as that comparison
    up to the brace, if and only if no parenthesis is at the front. -/
theorem comparison_read_iff {l r : List Word} {left right : Node} (hleft : ReadAs l left)
    (hright : ReadAs r right) {op : Kind} (hop : op.isComparison = true) {s : State}
    {rest : List Word}
    (hs : s.words = l ++ Word.sign op :: (r ++ Word.sign .leftBrace :: rest)) :
    (∃ s', free boolean s = .ok (.comparison left op.text right) s' ∧
      s'.words = Word.sign .leftBrace :: rest) ↔ Word.firstKind l ≠ .leftParenthesis := by
  have hreach : op.reach ≤ 4 := reach_of_continuesBoolean (by rw [continuesBoolean, hop]; rfl)
  obtain ⟨s₁, hrun, hs₁⟩ := hleft.run hreach hs
  have hkind : s.token.kind = Word.firstKind l := by
    rw [← firstKind_words, hs, firstKind_append hleft.ne_nil]
  have hkind₁ : s₁.token.kind = op := by
    rw [← firstKind_words, hs₁]
    rfl
  have hnot := (arithmetic_starts hrun).2
  constructor
  · rintro ⟨s', hboolean, -⟩ hopen
    obtain ⟨c, mid, hprimary⟩ := primary_of_boolean hnot hboolean
    obtain ⟨⟨x, rfl⟩, hmid⟩ := truth_of_parenthesis (hkind.trans hopen) hrun hprimary
    have hstop : mid.token.kind.isLogical = false := by
      rcases hmid with hk | rfl
      · exact Kind.isArithmetic_not_logical hk
      · rw [hkind₁]
        exact Kind.isComparison_not_logical hop
    rw [boolean_stop hnot hprimary hstop] at hboolean
    cases hboolean
  · intro hopen
    have hne : r ++ Word.sign .leftBrace :: rest ≠ [] :=
      List.append_ne_nil_of_left_ne_nil hright.ne_nil _
    obtain ⟨v, us, hus⟩ := List.exists_cons_of_ne_nil hne
    rw [hus] at hs₁
    obtain ⟨s₂, htakes, hs₂⟩ := takes_of_words hs₁
    obtain ⟨s₃, hrun', hs₃⟩ :=
      hright.run (by decide : Kind.leftBrace.reach ≤ 4) (hs₂.trans hus.symm)
    refine ⟨s₃, boolean_stop hnot ?_ ?_, hs₃⟩
    · rw [free_booleanPrimary, kind_bind, if_neg (arithmetic_starts hrun).1,
        if_neg (hkind ▸ hopen), bind_eq hrun, kind_bind, hkind₁, if_pos hop,
        consume_ok _ hkind₁ htakes.shift, bind_eq hrun']
      rfl
    · rw [← firstKind_words, hs₃]
      rfl

/-- A parenthesis at the front of the right side does no harm. -/
theorem comparison_read_iff_signed :
    ∃ s s', start "-a <= (b - 1) * 2 \x7b" = .ok s ∧
      free boolean s = .ok (.comparison (.unary "-" (.identifier "a")) "<="
        (.binary (.binary (.identifier "b") "-" (.number "1")) "*" (.number "2"))) s' ∧
      s'.words = [Word.sign .leftBrace, Word.last] := by
  let left := Node.unary "-" (.identifier "a")
  let right := Node.binary (.binary (.identifier "b") "-" (.number "1")) "*" (.number "2")
  have hleft : Shaped .arithmetic left :=
    .unary (k := .minus) rfl (.identifier (.name (by decide) (by decide)))
  have hright : Shaped .arithmetic right := by
    refine .binary (k := .multiply) rfl (.binary (k := .minus) rfl ?_ ?_) ?_
    · exact .identifier (.name (by decide) (by decide))
    · exact .number (.of_digits (by decide) rfl)
    · exact .number (.of_digits (by decide) rfl)
  have hwords : (Cursor.ofString "-a <= (b - 1) * 2 \x7b").words =
      (left.words ++ Word.sign .lessEqual ::
        (right.words ++ Word.sign .leftBrace :: [Word.last]), none) := by cbv
  obtain ⟨s, hstart, hs, -⟩ := start_of_words hwords
  obtain ⟨s', hrun, hs'⟩ :=
    (comparison_read_iff (readAs_words hleft) (readAs_words hright) rfl hs).mpr (by decide)
  exact ⟨s, s', hstart, hrun, hs'⟩

/-- A product that begins with a parenthesis is an arithmetic tree, but compared with another it is
    not read as a comparison. -/
theorem comparison_lost_in_parenthesis :
    ∃ s left right l r, start "(1 + 2) * 3 < 4 \x7b" = .ok s ∧ ReadAs l left ∧ ReadAs r right ∧
      s.words = l ++ Word.sign .less :: (r ++ [Word.sign .leftBrace, Word.last]) ∧
      ∀ s', free boolean s ≠ .ok (.comparison left "<" right) s' := by
  let left := Node.binary (.binary (.number "1") "+" (.number "2")) "*" (.number "3")
  let right := Node.number "4"
  have hleft : Shaped .arithmetic left := by
    refine .binary (k := .multiply) rfl (.binary (k := .plus) rfl ?_ ?_) ?_
    · exact .number (.of_digits (by decide) rfl)
    · exact .number (.of_digits (by decide) rfl)
    · exact .number (.of_digits (by decide) rfl)
  have hright : Shaped .arithmetic right := .number (.of_digits (by decide) rfl)
  have hwords : (Cursor.ofString "(1 + 2) * 3 < 4 \x7b").words =
      (left.words ++ Word.sign .less :: (right.words ++ [Word.sign .leftBrace, Word.last]),
        none) := by cbv
  have htruth : (start "(1 + 2) * 3 < 4 \x7b").map (fun s => Result.value (free boolean s)) =
      .ok (.ok (.truth (.binary (.number "1") "+" (.number "2")))) := by cbv
  obtain ⟨s, hstart, hs, -⟩ := start_of_words hwords
  refine ⟨s, left, right, _, _, hstart, readAs_words hleft, readAs_words hright, hs, ?_⟩
  intro s' hrun
  rw [hstart] at htruth
  simp [Except.map, hrun, Result.value] at htruth

end Parser

end BraceScript
