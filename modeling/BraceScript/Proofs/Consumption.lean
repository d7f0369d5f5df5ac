import Mathlib.Data.List.TakeWhile
import Mathlib.Logic.Relation
import BraceScript.Parser.Basic
import BraceScript.Token.Literal

/-! # Consumption — what reading a token takes from the text

    Reading goes forward: a token takes the characters it is read from, and only the end of the
    text is read from none.  So the tokens of a text can be counted against its characters, and
    every reader that goes on token by token comes to an end.

    * `Cursor.Reading`: what is known of a token that was read;
    * `Cursor.reading_next`, `Cursor.code_next`: every token that is read is such a token, and
      every failure is an invalid character or an unterminated string;
    * `Parser.Reaches`: the states that a parser can come to by taking tokens. -/

namespace BraceScript

namespace Cursor

/-! ## Moving forward -/

theorem advance_rest (c : Cursor) : c.advance.rest = c.rest.tail := by
  rw [advance]
  split
  · next h => rw [h]; rfl
  · next h => rw [h]; rfl
  · next h => rw [h]; rfl

theorem advanceBy_rest (k : Nat) (c : Cursor) : (advanceBy k c).rest = c.rest.drop k := by
  induction k generalizing c with
  | zero => rfl
  | succ k ih =>
      show (advanceBy k c.advance).rest = _
      rw [ih, advance_rest, ← List.drop_one, List.drop_drop, Nat.add_comm]

theorem advanceBy_add (j k : Nat) (c : Cursor) :
    advanceBy k (advanceBy j c) = advanceBy (j + k) c := by
  induction j generalizing c with
  | zero => rw [Nat.zero_add]; rfl
  | succ j ih =>
      show advanceBy k (advanceBy j c.advance) = _
      rw [ih, Nat.add_right_comm]
      rfl

/-- A place that can be shown: lines and columns count from one. -/
def Placed (c : Cursor) : Prop := 1 ≤ c.line ∧ 1 ≤ c.column

theorem placed_start (source : List Char) : (start source).Placed := ⟨Nat.le_refl 1, Nat.le_refl 1⟩

theorem Placed.advance {c : Cursor} (h : c.Placed) : c.advance.Placed := by
  obtain ⟨hline, hcolumn⟩ := h
  rw [Cursor.advance]
  split
  · exact ⟨Nat.le_succ_of_le hline, Nat.le_refl 1⟩
  · exact ⟨hline, Nat.le_succ_of_le hcolumn⟩
  · exact ⟨hline, Nat.le_succ_of_le hcolumn⟩

theorem Placed.advanceBy {c : Cursor} (k : Nat) (h : c.Placed) : (advanceBy k c).Placed := by
  induction k generalizing c with
  | zero => exact h
  | succ k ih => exact ih h.advance

/-- Blanks and a comment are passed over step by step. -/
theorem skipTrivia_forward (c : Cursor) : ∃ k, c.skipTrivia = advanceBy k c := by
  show ∃ k, (if c.skipSpace.current = some '#' then c.skipSpace.skipComment else c.skipSpace)
    = advanceBy k c
  obtain ⟨j, hj⟩ : ∃ j, c.skipSpace = advanceBy j c := ⟨_, rfl⟩
  obtain ⟨k, hk⟩ : ∃ k, c.skipSpace.skipComment = advanceBy (1 + k) c.skipSpace :=
    ⟨_, (advanceBy_add 1 _ _)⟩
  by_cases h : c.skipSpace.current = some '#'
  · rw [if_pos h, hk, hj, advanceBy_add]
    exact ⟨_, rfl⟩
  · rw [if_neg h]
    exact ⟨j, hj⟩

end Cursor

/-! ## The spelling of tokens -/

/-- What an identifier can be: no keyword and no truth value. -/
def IsWord (name : String) : Prop := Kind.ofWord name = .identifier

instance (name : String) : Decidable (IsWord name) :=
  inferInstanceAs (Decidable (Kind.ofWord name = .identifier))

/-- Digits, and a point with digits behind it or not; digits before the point may be left out. -/
def IsNumeral (cs : List Char) : Prop :=
  (cs ≠ [] ∧ ∀ d ∈ cs, isDigit d = true) ∨
    ∃ whole fraction, cs = whole ++ '.' :: fraction ∧ fraction ≠ [] ∧
      (∀ d ∈ whole, isDigit d = true) ∧ ∀ d ∈ fraction, isDigit d = true

theorem IsNumeral.of_digits {cs : List Char} (hne : cs ≠ []) (h : cs.all isDigit = true) :
    IsNumeral cs :=
  .inl ⟨hne, List.all_eq_true.mp h⟩

/-- A text between two quotes of one kind; escapes stand for what they mean. -/
def IsQuotation (cs : List Char) : Prop :=
  ∃ quote body, isQuote quote = true ∧ cs = quote :: (body ++ [quote])

/-- The characters of an identifier, a keyword or a truth value. -/
def IsWordy : List Char → Prop
  | [] => False
  | c :: cs => isWordStart c = true ∧ ∀ d ∈ cs, isWordPart d = true

instance (cs : List Char) : Decidable (IsWordy cs) :=
  match cs with
  | [] => inferInstanceAs (Decidable False)
  | c :: cs =>
      haveI := List.decidableBAll (fun d => isWordPart d = true) cs
      inferInstanceAs (Decidable (isWordStart c = true ∧ ∀ d ∈ cs, isWordPart d = true))

/-- The lexemes that a token of each kind can have. -/
def Kind.Spells : Kind → Option String → Prop
  | .numberLiteral, lexeme => ∃ l, lexeme = some l ∧ IsNumeral l.toList
  | .stringLiteral, lexeme => ∃ l, lexeme = some l ∧ IsQuotation l.toList
  | .booleanLiteral, lexeme => lexeme = some "true" ∨ lexeme = some "false"
  | .identifier, lexeme => ∃ l, lexeme = some l ∧ IsWord l ∧ IsWordy l.toList
  | _, lexeme => lexeme = none

/-- A token with a lexeme that its kind can have. -/
def Token.Spelled (t : Token) : Prop := t.kind.Spells t.lexeme

/-- The kinds of token that are written in one way only. -/
def Kind.isFixed : Kind → Bool
  | .numberLiteral | .stringLiteral | .booleanLiteral | .identifier | .newline | .endOfFile => false
  | _ => true

namespace Kind

theorem spells_none {k : Kind} (h : k.isFixed = true) : k.Spells none := by
  cases k <;> first | rfl | cases h

theorem ne_endOfFile {k : Kind} (h : k.isFixed = true) : k ≠ .endOfFile := by
  rintro rfl
  cases h

/-- No lexeme is empty. -/
theorem Spells.ne_empty {k : Kind} {lexeme : Option String} (h : k.Spells lexeme) :
    lexeme ≠ some "" := by
  rintro rfl
  cases k with
  | numberLiteral =>
      obtain ⟨l, hl, ⟨hne, -⟩ | ⟨whole, fraction, heq, -⟩⟩ := h
      · obtain rfl := Option.some.inj hl
        exact hne rfl
      · obtain rfl := Option.some.inj hl
        exact absurd heq.symm (by simp)
  | stringLiteral =>
      obtain ⟨l, hl, quote, body, -, hbody⟩ := h
      obtain rfl := Option.some.inj hl
      cases hbody
  | booleanLiteral => rcases h with h | h <;> exact absurd (Option.some.inj h) (by decide)
  | identifier =>
      obtain ⟨l, hl, -, hwordy⟩ := h
      obtain rfl := Option.some.inj hl
      exact hwordy
  | _ => cases h

/-- What holds of every kind in a table holds of the kinds found in it. -/
theorem lookup_forall {table : List (String × Kind)} {P : Kind → Prop} {lexeme : String} {k : Kind}
    (htable : ∀ entry ∈ table, P entry.2) (h : table.lookup lexeme = some k) : P k := by
  obtain ⟨before, after, heq, -⟩ := List.lookup_eq_some_iff.mp h
  have hmem : (lexeme, k) ∈ table := by rw [heq]; simp
  exact htable (lexeme, k) hmem

theorem isFixed_ofPair {a b : Char} {k : Kind} (h : ofPair? a b = some k) : k.isFixed = true :=
  lookup_forall (P := fun k => k.isFixed = true) (by decide) h

theorem isFixed_ofChar {c : Char} {k : Kind} (h : ofChar? c = some k) : k.isFixed = true :=
  lookup_forall (P := fun k => k.isFixed = true) (by decide) h

/-- A word is a truth value, an identifier or a keyword. -/
theorem ofWord_cases (word : String) :
    (ofWord word = .booleanLiteral ∧ (word = "true" ∨ word = "false")) ∨
      ofWord word = .identifier ∨ (ofWord word).isFixed = true := by
  by_cases h : word = "true" ∨ word = "false"
  · exact .inl ⟨by rw [ofWord, if_pos h], h⟩
  · refine .inr ?_
    rw [ofWord, if_neg h]
    cases hk : keywords.lookup word with
    | none => exact .inl rfl
    | some k => exact .inr (lookup_forall (P := fun k => k.isFixed = true) (by decide) hk)

end Kind

namespace Cursor

/-! ## What is read -/

/-- What is known of a token that is read from `k` characters at the cursor. -/
structure Reading (c : Cursor) (t : Token) (k : Nat) : Prop where
  line : t.line = c.line
  column : t.column = c.column
  spelled : t.Spelled
  taken : (t.kind = .endOfFile ∧ k = 0 ∧ c.rest = []) ∨
    (t.kind ≠ .endOfFile ∧ 0 < k ∧ k ≤ c.rest.length)

/-- A token of a fixed kind is read. -/
theorem reading_fixed {c : Cursor} {kind : Kind} {k : Nat} (hkind : kind.isFixed = true)
    (hpos : 0 < k) (hk : k ≤ c.rest.length) : Reading c (c.token kind) k :=
  ⟨rfl, rfl, Kind.spells_none hkind, .inr ⟨Kind.ne_endOfFile hkind, hpos, hk⟩⟩

/-! ### Numbers -/

/-- The characters of a number are the next ones. -/
theorem numberLexeme_begins (cs : List Char) : numberLexeme cs <+: cs := by
  have hsplit : cs.takeWhile isDigit ++ cs.dropWhile isDigit = cs := List.takeWhile_append_dropWhile
  rw [numberLexeme]
  split
  · next d more hdrop =>
      rw [hdrop] at hsplit
      by_cases hd : isDigit d = true
      · rw [if_pos hd]
        obtain ⟨after, hafter⟩ := List.takeWhile_prefix (l := d :: more) isDigit
        refine ⟨after, ?_⟩
        rw [List.append_assoc, List.cons_append, hafter, hsplit]
      · rw [if_neg hd]
        exact List.takeWhile_prefix isDigit
  · exact List.takeWhile_prefix isDigit

/-- A number begins with a digit, or with a point and a digit. -/
theorem startsNumber_cases {cs : List Char} (h : startsNumber cs = true) :
    (∃ d ds, cs = d :: ds ∧ isDigit d = true) ∨
      ∃ d ds, cs = '.' :: d :: ds ∧ isDigit d = true := by
  rw [startsNumber.eq_def] at h
  split at h
  · next d ds => exact .inr ⟨d, ds, rfl, h⟩
  · next d ds _ => exact .inl ⟨d, ds, rfl, h⟩
  · cases h

theorem takeWhile_ne_nil {p : Char → Bool} {d : Char} (ds : List Char) (h : p d = true) :
    (d :: ds).takeWhile p ≠ [] := by
  rw [List.takeWhile_cons, if_pos h]
  exact List.cons_ne_nil _ _

/-- Where a number begins, one is read. -/
theorem isNumeral_numberLexeme {cs : List Char} (h : startsNumber cs = true) :
    IsNumeral (numberLexeme cs) := by
  have hwhole : ∀ d ∈ cs.takeWhile isDigit, isDigit d = true := fun d => List.mem_takeWhile_imp
  -- a point is followed by a digit, or the digits before it are the number
  rw [numberLexeme]
  split
  · next d more hdrop =>
      by_cases hd : isDigit d = true
      · rw [if_pos hd]
        exact .inr ⟨_, _, rfl, takeWhile_ne_nil more hd, hwhole, fun d => List.mem_takeWhile_imp⟩
      · rw [if_neg hd]
        rcases startsNumber_cases h with ⟨e, es, rfl, he⟩ | ⟨e, es, rfl, he⟩
        · exact .inl ⟨takeWhile_ne_nil es he, hwhole⟩
        · have heq : '.' :: e :: es = '.' :: d :: more := hdrop
          cases heq
          exact absurd he hd
  · next hno =>
      rcases startsNumber_cases h with ⟨e, es, rfl, he⟩ | ⟨e, es, rfl, he⟩
      · exact .inl ⟨takeWhile_ne_nil es he, hwhole⟩
      · exact absurd rfl (hno e es)

theorem number_reading {c c' : Cursor} {result : Except LexError Token}
    (hstart : startsNumber c.rest = true) (h : c.number = (result, c')) :
    ∃ t k, result = .ok t ∧ Reading c t k ∧ c' = advanceBy k c := by
  have hnumeral := isNumeral_numberLexeme hstart
  have hne : numberLexeme c.rest ≠ [] := by
    rcases hnumeral with ⟨hne, -⟩ | ⟨whole, fraction, heq, -⟩
    · exact hne
    · rw [heq]
      simp
  have hlength := (numberLexeme_begins c.rest).length_le
  rw [number, if_neg (by simpa using hne)] at h
  obtain ⟨rfl, rfl⟩ := Prod.mk.inj h
  refine ⟨_, _, rfl, ⟨rfl, rfl, ⟨_, rfl, ?_⟩, .inr ⟨?_, List.length_pos_iff.mpr hne, hlength⟩⟩, rfl⟩
  · rw [String.toList_ofList]
    exact hnumeral
  · intro hkind
    cases hkind

/-! ### Strings -/

/-- What stands in a string takes characters up to its closing quote; else the string is
    unterminated. -/
theorem stringBody_forward (quote : Char) (xs done : List Char) (c : Cursor)
    (hrest : c.rest = xs) :
    (∃ body k, stringBody quote xs done c = (.ok body, advanceBy k c) ∧ 0 < k ∧ k ≤ xs.length) ∨
      ∃ e c', stringBody quote xs done c = (.error e, c') ∧ e.cause.code = .unterminatedString := by
  fun_induction stringBody quote xs done c with
  | case1 done c => exact .inr ⟨_, _, rfl, rfl⟩
  | case2 xs done c => exact .inl ⟨_, 1, rfl, Nat.one_pos, Nat.le_add_left 1 _⟩
  | case3 xs done c _ => exact .inr ⟨_, _, rfl, rfl⟩
  | case4 done c _ _ => exact .inr ⟨_, _, rfl, rfl⟩
  | case5 done c y ys _ _ ih =>
      have hys : c.advance.advance.rest = ys := by rw [advance_rest, advance_rest, hrest]; rfl
      rcases ih hys with ⟨body, k, heq, hpos, hk⟩ | herror
      · refine .inl ⟨body, 2 + k, ?_, by omega, by simp only [List.length_cons]; omega⟩
        rw [heq, ← advanceBy_add]
        rfl
      · exact .inr herror
  | case6 x xs done c _ _ _ ih =>
      have hxs : c.advance.rest = xs := by rw [advance_rest, hrest]; rfl
      rcases ih hxs with ⟨body, k, heq, hpos, hk⟩ | herror
      · refine .inl ⟨body, 1 + k, ?_, by omega, by simp only [List.length_cons]; omega⟩
        rw [heq, ← advanceBy_add]
        rfl
      · exact .inr herror

theorem stringFrom_reading {c c' : Cursor} {quote : Char} {rest : List Char}
    {result : Except LexError Token} (hrest : c.rest = quote :: rest)
    (hquote : isQuote quote = true) (h : c.stringFrom quote rest = (result, c')) :
    (∃ t k, result = .ok t ∧ Reading c t k ∧ c' = advanceBy k c) ∨
      ∃ e, result = .error e ∧ e.cause.code = .unterminatedString := by
  have hadvance : c.advance.rest = rest := by rw [advance_rest, hrest]; rfl
  rw [stringFrom] at h
  rcases stringBody_forward quote rest [] c.advance hadvance with
    ⟨body, k, heq, hpos, hk⟩ | ⟨e, after, heq, hcode⟩
  · rw [heq] at h
    obtain ⟨rfl, rfl⟩ := Prod.mk.inj h
    refine .inl ⟨_, 1 + k, rfl,
      ⟨rfl, rfl, ⟨_, rfl, quote, body, hquote, ?_⟩, .inr ⟨?_, ?_, ?_⟩⟩, ?_⟩
    · rw [String.toList_ofList]
    · intro hkind
      cases hkind
    · omega
    · rw [hrest, List.length_cons]
      omega
    · rw [← advanceBy_add]
      rfl
  · rw [heq] at h
    obtain ⟨rfl, rfl⟩ := Prod.mk.inj h
    exact .inr ⟨e, rfl, hcode⟩

/-! ### Words and signs -/

theorem reading_wordToken {c : Cursor} {word : List Char} (hwordy : IsWordy word)
    (hlength : word.length ≤ c.rest.length) : Reading c (c.wordToken word) word.length := by
  have hpos : 0 < word.length := by
    cases word with
    | nil => exact absurd hwordy id
    | cons x xs => exact Nat.succ_pos _
  rw [wordToken]
  rcases Kind.ofWord_cases (String.ofList word) with ⟨hk, hvalue⟩ | hk | hk
  · rw [hk]
    refine ⟨rfl, rfl, hvalue.imp (congrArg some) (congrArg some), .inr ⟨?_, hpos, hlength⟩⟩
    intro hkind
    cases hkind
  · rw [hk]
    refine ⟨rfl, rfl, ⟨_, rfl, hk, ?_⟩, .inr ⟨?_, hpos, hlength⟩⟩
    · rw [String.toList_ofList]
      exact hwordy
    · intro hkind
      cases hkind
  · split
    · next h => rw [h] at hk; cases hk
    · next h => rw [h] at hk; cases hk
    · exact reading_fixed hk hpos hlength

theorem word_reading {c : Cursor} {first : Char} {rest : List Char} (hrest : c.rest = first :: rest)
    (hfirst : isWordStart first = true) :
    ∃ k, Reading c c.word.1 k ∧ c.word.2 = advanceBy k c := by
  have hrun : c.rest.takeWhile isWordPart = first :: rest.takeWhile isWordPart := by
    rw [hrest, List.takeWhile_cons, if_pos (by rw [isWordPart, hfirst, Bool.or_true])]
  have hwordy : IsWordy (c.rest.takeWhile isWordPart) := by
    rw [hrun]
    exact ⟨hfirst, fun d hd => List.mem_takeWhile_imp hd⟩
  have hbegins : c.rest.takeWhile isWordPart <+: c.rest := List.takeWhile_prefix isWordPart
  exact ⟨_, reading_wordToken hwordy hbegins.length_le, rfl⟩

theorem pairSign_cases (c : Cursor) :
    (∃ kind, c.pairSign = (some (c.token kind), advanceBy 2 c) ∧ kind.isFixed = true ∧
      2 ≤ c.rest.length) ∨ c.pairSign = (none, c) := by
  rw [pairSign]
  split
  · next a b rest hrest =>
      cases hk : Kind.ofPair? a b with
      | none => exact .inr rfl
      | some kind => exact .inl ⟨kind, rfl, Kind.isFixed_ofPair hk, by rw [hrest]; simp⟩
  · exact .inr rfl

theorem sign_reading {c c' : Cursor} {first : Char} {result : Except LexError Token}
    (hne : 1 ≤ c.rest.length) (h : c.sign first = (result, c')) :
    (∃ t k, result = .ok t ∧ Reading c t k ∧ c' = advanceBy k c) ∨
      ∃ e, result = .error e ∧ e.cause.code = .invalidCharacter := by
  rw [sign] at h
  rcases pairSign_cases c with ⟨kind, hpair, hfixed, hlength⟩ | hpair
  · rw [hpair] at h
    obtain ⟨rfl, rfl⟩ := Prod.mk.inj h
    exact .inl ⟨_, 2, rfl, reading_fixed hfixed (Nat.succ_pos 1) hlength, rfl⟩
  · rw [hpair] at h
    cases hk : Kind.ofChar? first with
    | none =>
        simp only [hk] at h
        obtain ⟨rfl, rfl⟩ := Prod.mk.inj h
        exact .inr ⟨_, rfl, rfl⟩
    | some kind =>
        simp only [hk] at h
        obtain ⟨rfl, rfl⟩ := Prod.mk.inj h
        exact .inl ⟨_, 1, rfl, reading_fixed (Kind.isFixed_ofChar hk) Nat.one_pos hne, rfl⟩

/-! ### Any token -/

/-- A token is read at the cursor itself, or an invalid character or an unterminated string
    stands there. -/
theorem reading_tokenHere {c c' : Cursor} {result : Except LexError Token}
    (h : c.tokenHere = (result, c')) :
    (∃ t k, result = .ok t ∧ Reading c t k ∧ c' = advanceBy k c) ∨
      ∃ e, result = .error e ∧
        (e.cause.code = .invalidCharacter ∨ e.cause.code = .unterminatedString) := by
  rw [tokenHere] at h
  split at h
  · next hrest =>
      obtain ⟨rfl, rfl⟩ := Prod.mk.inj h
      exact .inl ⟨_, 0, rfl, ⟨rfl, rfl, rfl, .inl ⟨rfl, rfl, hrest⟩⟩, rfl⟩
  · next first rest hrest =>
      have hlength : 1 ≤ c.rest.length := by rw [hrest]; exact Nat.le_add_left 1 _
      split_ifs at h with hline hnumber hquote hword
      · obtain ⟨rfl, rfl⟩ := Prod.mk.inj h
        have htake : c.rest.takeWhile (· == '\n') ≠ [] := by
          rw [hrest]
          exact takeWhile_ne_nil rest (by simp [hline])
        have hbegins : c.rest.takeWhile (· == '\n') <+: c.rest := List.takeWhile_prefix _
        refine .inl ⟨_, _, rfl, ⟨rfl, rfl, rfl, .inr ⟨?_, List.length_pos_iff.mpr htake, ?_⟩⟩, rfl⟩
        · intro hkind
          cases hkind
        · exact hbegins.length_le
      · exact .inl (number_reading hnumber h)
      · rcases stringFrom_reading hrest hquote h with hread | ⟨e, he, hcode⟩
        · exact .inl hread
        · exact .inr ⟨e, he, .inr hcode⟩
      · obtain ⟨rfl, rfl⟩ := Prod.mk.inj h
        obtain ⟨k, hread, hafter⟩ := word_reading hrest hword
        exact .inl ⟨_, k, rfl, hread, hafter⟩
      · rcases sign_reading hlength h with hread | ⟨e, he, hcode⟩
        · exact .inl hread
        · exact .inr ⟨e, he, .inl hcode⟩

/-- A token is read behind blanks and a comment. -/
theorem next_ok {c c' : Cursor} {t : Token} (h : c.next = (.ok t, c')) :
    ∃ j k, Reading (advanceBy j c) t k ∧ c' = advanceBy (j + k) c := by
  obtain ⟨j, hj⟩ := skipTrivia_forward c
  rcases reading_tokenHere h with ⟨t', k, ht, hread, hafter⟩ | ⟨e, he, -⟩
  · obtain rfl := Except.ok.inj ht
    rw [hj] at hread hafter
    exact ⟨j, k, hread, by rw [hafter, advanceBy_add]⟩
  · cases he

/-- What makes a token unreadable is an invalid character or an unterminated string. -/
theorem code_next {c c' : Cursor} {e : LexError} (h : c.next = (.error e, c')) :
    e.cause.code = .invalidCharacter ∨ e.cause.code = .unterminatedString := by
  rcases reading_tokenHere h with ⟨t, k, ht, -⟩ | ⟨e', he, hcode⟩
  · cases ht
  · obtain rfl := Except.error.inj he
    exact hcode

theorem spelled_next {c c' : Cursor} {t : Token} (h : c.next = (.ok t, c')) : t.Spelled := by
  obtain ⟨j, k, hread, -⟩ := next_ok h
  exact hread.spelled

/-- Every token but the end of the text takes a character. -/
theorem next_shorter {c c' : Cursor} {t : Token} (h : c.next = (.ok t, c'))
    (hkind : t.kind ≠ .endOfFile) : c'.rest.length < c.rest.length := by
  obtain ⟨j, k, hread, rfl⟩ := next_ok h
  rcases hread.taken with ⟨hend, -⟩ | ⟨-, hpos, hk⟩
  · exact absurd hend hkind
  · rw [advanceBy_rest, List.length_drop] at hk ⊢
    omega

/-- The end of the text is read only where nothing is left. -/
theorem next_atEnd {c c' : Cursor} {t : Token} (h : c.next = (.ok t, c'))
    (hkind : t.kind = .endOfFile) : c'.rest = [] := by
  obtain ⟨j, k, hread, rfl⟩ := next_ok h
  rcases hread.taken with ⟨-, rfl, hrest⟩ | ⟨hend, -⟩
  · exact hrest
  · exact absurd hkind hend

/-- Every token that is read passes its check, and its place is one that can be shown. -/
theorem check_next {c c' : Cursor} {t : Token} (hc : c.Placed) (h : c.next = (.ok t, c')) :
    t.check = .ok t ∧ c'.Placed := by
  obtain ⟨j, k, hread, rfl⟩ := next_ok h
  obtain ⟨hline, hcolumn⟩ := hc.advanceBy j
  refine ⟨?_, hc.advanceBy _⟩
  have hempty := hread.spelled.ne_empty
  have hl := hread.line
  have hcol := hread.column
  rw [Token.check, if_neg (by omega), if_neg (by omega), if_neg hempty]

end Cursor

/-! ## Taking tokens in hand -/

namespace Parser

/-- A bound on the tokens ahead, the one in hand included and the end of the text not. -/
def State.size (s : State) : Nat :=
  if s.token.kind = .endOfFile then 0 else s.cursor.rest.length + 1

/-- One state comes from another by taking the next token in hand. -/
def Takes (s s' : State) : Prop :=
  s.token.kind ≠ .endOfFile ∧ s.cursor.next = (.ok s'.token, s'.cursor)

/-- One state comes from another by taking tokens in hand. -/
def Reaches : State → State → Prop := Relation.ReflTransGen Takes

theorem State.size_le (s : State) : s.size ≤ s.cursor.rest.length + 1 := by
  rw [size]
  split <;> omega

theorem Takes.size_lt {s s' : State} (h : Takes s s') : s'.size < s.size := by
  obtain ⟨hkind, hnext⟩ := h
  rw [State.size, State.size, if_neg hkind]
  split
  · exact Nat.succ_pos _
  · next hkind' => exact Nat.succ_lt_succ (Cursor.next_shorter hnext hkind')

namespace Reaches

theorem refl (s : State) : Reaches s s := Relation.ReflTransGen.refl

theorem trans {s t u : State} (h : Reaches s t) (h' : Reaches t u) : Reaches s u :=
  Relation.ReflTransGen.trans h h'

theorem single {s t : State} (h : Takes s t) : Reaches s t := Relation.ReflTransGen.single h

theorem size_le {s t : State} (h : Reaches s t) : t.size ≤ s.size := by
  induction h with
  | refl => exact Nat.le_refl _
  | tail _ htakes ih => exact Nat.le_of_lt (Nat.lt_of_lt_of_le htakes.size_lt ih)

end Reaches

theorem depthBound_ge (s : State) : 16 * s.size + 16 ≤ depthBound s := by
  have h := s.size_le
  rw [depthBound]
  omega

end Parser

end BraceScript
