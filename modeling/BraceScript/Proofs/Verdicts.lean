import BraceScript.Proofs.Streams

/-! # Verdicts — how a parse ends

    A parse of any text ends: with a tree, after the last token of the text, or with a failure that
    names an invalid character, an unterminated string, an unexpected token or a wrong number of
    expressions.  The tokens that it is made of are all well made.

    * `Parser.mem_tokens_of_reaches`, `Parser.whole_of_reaches`: what the tokens taken say about
      the text;
    * `parse_ends_cleanly`: the ways in which a parse can end. -/

namespace BraceScript

namespace Cursor

/-- Every token of a text passes its check and is spelled as its kind can be. -/
theorem tokens_check {c : Cursor} (hc : c.Placed) :
    ∀ t ∈ c.tokens.1, t.check = .ok t ∧ t.Spelled := by
  induction hn : c.rest.length using Nat.strong_induction_on generalizing c with
  | _ n ih =>
      intro t ht
      cases hnext : c.next with
      | mk result after =>
          cases result with
          | error e =>
              rw [tokens_error hnext] at ht
              cases ht
          | ok first =>
              obtain ⟨hcheck, hplaced⟩ := check_next hc hnext
              have hspelled := spelled_next hnext
              by_cases hend : first.kind = .endOfFile
              · rw [tokens_end hnext hend] at ht
                obtain rfl := List.mem_singleton.mp ht
                exact ⟨hcheck, hspelled⟩
              · rw [tokens_cons hnext hend] at ht
                rcases List.mem_cons.mp ht with rfl | ht
                · exact ⟨hcheck, hspelled⟩
                · exact ih after.rest.length (hn ▸ next_shorter hnext hend) hplaced rfl t ht

/-- What makes a text unreadable is an invalid character or an unterminated string. -/
theorem tokens_code {c : Cursor} {e : LexError} (h : c.tokens.2.1 = some e) :
    e.cause.code = .invalidCharacter ∨ e.cause.code = .unterminatedString := by
  induction hn : c.rest.length using Nat.strong_induction_on generalizing c with
  | _ n ih =>
      cases hnext : c.next with
      | mk result after =>
          cases result with
          | error e' =>
              rw [tokens_error hnext] at h
              obtain rfl := Option.some.inj h
              exact code_next hnext
          | ok first =>
              by_cases hend : first.kind = .endOfFile
              · rw [tokens_end hnext hend] at h
                cases h
              · rw [tokens_cons hnext hend] at h
                exact ih after.rest.length (hn ▸ next_shorter hnext hend) h rfl

end Cursor

namespace Parser

theorem mem_tokens_of_next {c : Cursor} {s : State} (h : c.next = (.ok s.token, s.cursor)) :
    s.token ∈ c.tokens.1 := by
  by_cases hend : s.token.kind = .endOfFile
  · rw [Cursor.tokens_end h hend]
    exact List.mem_singleton.mpr rfl
  · rw [Cursor.tokens_cons h hend]
    exact List.mem_cons_self

/-- What is in hand is a token of the text. -/
theorem mem_tokens_of_reaches {c : Cursor} {s s' : State}
    (h : c.next = (.ok s.token, s.cursor)) (hreaches : Reaches s s') :
    s'.token ∈ c.tokens.1 := by
  induction hreaches using Relation.ReflTransGen.head_induction_on generalizing c with
  | refl => exact mem_tokens_of_next h
  | head htakes _ ih =>
      obtain ⟨hend, hnext⟩ := htakes
      rw [Cursor.tokens_cons h hend]
      exact List.mem_cons_of_mem _ (ih hnext)

/-- A text whose end is in hand was readable, and nothing of it is left. -/
theorem whole_of_reaches {c : Cursor} {s s' : State} (h : c.next = (.ok s.token, s.cursor))
    (hreaches : Reaches s s') (hend : s'.token.kind = .endOfFile) :
    c.tokens.2.1 = none ∧ s'.cursor.rest = [] := by
  induction hreaches using Relation.ReflTransGen.head_induction_on generalizing c with
  | refl => exact ⟨by rw [Cursor.tokens_end h hend], Cursor.next_atEnd h hend⟩
  | head htakes _ ih =>
      obtain ⟨hgoes, hnext⟩ := htakes
      rw [Cursor.tokens_cons h hgoes]
      exact ih hnext

/-- A program is read up to the end of the text. -/
theorem wholeProgram_ok {depth : Nat} {s s' : State} {tree : Node}
    (h : wholeProgram depth s = .ok tree s') :
    ∃ body, tree = .program body ∧ s'.token.kind = .endOfFile := by
  obtain ⟨tree', mid, hprogram, hrest⟩ := bind_ok h
  obtain ⟨body, mid', -, hbody⟩ := bind_ok hprogram
  cases hbody
  rw [kind_bind] at hrest
  by_cases hend : mid.token.kind = .endOfFile
  · rw [if_pos hend] at hrest
    cases hrest
    exact ⟨body, rfl, hend⟩
  · rw [if_neg hend] at hrest
    cases hrest

/-- A parse from a state ends with a program behind the end of the text, or with a failure of the
    text. -/
theorem runFrom_wholeProgram (s : State) :
    (∃ body s', runFrom wholeProgram s = .ok (.program body) s' ∧ Reaches s s' ∧
      s'.token.kind = .endOfFile) ∨
    ∃ e s', runFrom wholeProgram s = .error e s' ∧ e.IsClean := by
  have hbound := depthBound_ge s
  rcases ends (d := depthBound s) same.wholeProgram (s := s) (by omega) with
    ⟨tree, s', hrun, hreaches⟩ | hfails
  · obtain ⟨body, rfl, hend⟩ := wholeProgram_ok hrun
    exact .inl ⟨body, s', hrun, hreaches, hend⟩
  · exact .inr hfails

/-- With more depth than the bound a parse does nothing else. -/
theorem wholeProgram_stable {s : State} {depth : Nat} (h : depthBound s ≤ depth) :
    wholeProgram depth s = runFrom wholeProgram s := by
  have hbound := depthBound_ge s
  exact (same.wholeProgram depth (depthBound s) ⟨by omega, by omega⟩ s s rfl
    (Nat.le_refl s.size) (Nat.le_refl s.size)).eq

theorem next_of_start {source : String} {s : State} (h : start source = .ok s) :
    (Cursor.ofString source).next = (.ok s.token, s.cursor) := by
  rcases start_cases source with ⟨s', hstart, hnext⟩ | ⟨e, c, hstart, -⟩
  · rw [hstart] at h
    cases h
    exact hnext
  · rw [hstart] at h
    cases h

/-- The parse of a text ends with a program, behind the end of the text, or with a failure of the
    text. -/
theorem parse_cases (source : String) :
    (∃ body s s', parse source = .ok (.program body) ∧ start source = .ok s ∧
      runFrom wholeProgram s = .ok (.program body) s' ∧ Reaches s s' ∧
      s'.token.kind = .endOfFile) ∨
    ∃ e, parse source = .error e ∧ e.IsClean := by
  rcases start_cases source with ⟨s, hstart, hnext⟩ | ⟨e, c, hstart, hnext⟩
  · rcases runFrom_wholeProgram s with ⟨body, s', hrun, hreaches, hend⟩ | ⟨e, s', hrun, hclean⟩
    · refine .inl ⟨body, s, s', ?_, hstart, hrun, hreaches, hend⟩
      rw [parse_of_start hstart, hrun]
      rfl
    · refine .inr ⟨e, ?_, hclean⟩
      rw [parse_of_start hstart, hrun]
      rfl
  · exact .inr ⟨_, parse_of_cut hstart, Cursor.code_next hnext⟩

/-- How a parse of any text ends: with a program, after every token up to the end of the text has
    been taken, or with one of four codes.  Every token that the parse can come to passes its check
    and has the lexeme of its kind, no more depth than the bound is ever used, and a text that
    cannot be read to its end has no tree. -/
theorem parse_ends_cleanly (source : String) :
    ((∃ body s s', parse source = .ok (.program body) ∧ start source = .ok s ∧
        runFrom wholeProgram s = .ok (.program body) s' ∧ Reaches s s' ∧
        s'.token.kind = .endOfFile ∧ s'.cursor.rest = []) ∨
      (∃ e, parse source = .error (.lexical e) ∧
        (e.cause.code = .invalidCharacter ∨ e.cause.code = .unterminatedString)) ∨
      ∃ e, parse source = .error (.syntactic e) ∧
        (e.report.code = .unexpectedToken ∨ e.report.code = .wrongNumberOfExpressions)) ∧
    (∀ s, start source = .ok s →
      (∀ s', Reaches s s' → s'.token.check = .ok s'.token ∧ s'.token.Spelled) ∧
      ∀ depth, depthBound s ≤ depth → wholeProgram depth s = runFrom wholeProgram s) ∧
    ∀ e, (Cursor.ofString source).tokens.2.1 = some e →
      (e.cause.code = .invalidCharacter ∨ e.cause.code = .unterminatedString) ∧
      ∀ tree, parse source ≠ .ok tree := by
  refine ⟨?_, ?_, ?_⟩
  · rcases parse_cases source with
      ⟨body, s, s', hparse, hstart, hrun, hreaches, hend⟩ | ⟨e, hparse, hclean⟩
    · obtain ⟨-, hrest⟩ := whole_of_reaches (next_of_start hstart) hreaches hend
      exact .inl ⟨body, s, s', hparse, hstart, hrun, hreaches, hend, hrest⟩
    · cases e with
      | lexical e => exact .inr (.inl ⟨e, hparse, hclean⟩)
      | syntactic e => exact .inr (.inr ⟨e, hparse, hclean⟩)
      | exhausted => exact absurd hclean id
  · intro s hstart
    refine ⟨fun s' hreaches => ?_, fun depth => wholeProgram_stable⟩
    have hmem := mem_tokens_of_reaches (next_of_start hstart) hreaches
    exact Cursor.tokens_check (Cursor.placed_start _) s'.token hmem
  · intro e he
    refine ⟨Cursor.tokens_code he, fun tree htree => ?_⟩
    rcases parse_cases source with
      ⟨body, s, s', -, hstart, -, hreaches, hend⟩ | ⟨e', hparse, -⟩
    · obtain ⟨hwhole, -⟩ := whole_of_reaches (next_of_start hstart) hreaches hend
      rw [hwhole] at he
      cases he
    · rw [hparse] at htree
      cases htree

example : ∃ s s', start "\x7b show x # last\n\x7d" = .ok s ∧
    runFrom wholeProgram s = .ok (.program (.block [.display (.identifier "x")])) s' ∧
    s'.token.kind = .endOfFile ∧ s'.cursor.rest = [] :=
  ⟨_, _, rfl, rfl, rfl, rfl⟩

end Parser

end BraceScript
