import BraceScript.Proofs.Depth

/-! # Streams — a parse sees words, not places

    What a parser can see of a text is the stream of its words: the kinds and lexemes of the
    tokens, up to the end of the text or the first failure to read one.  Where a token stands,
    what blanks and comments are between two, and how many blank lines follow a line end, makes no
    difference.

    * `Cursor.words`: the words ahead, and the code of the failure behind them, if there is one;
    * `Word.joinLines`: the words with line ends in a row joined;
    * `parse_of_stream`: texts with the same stream have the same tree, or both fail, in the same
      way. -/

namespace BraceScript

/-- A token without its place. -/
structure Word where
  kind : Kind
  lexeme : Option String
  deriving DecidableEq, Repr

/-- The word that a token is. -/
def Token.word (t : Token) : Word := ⟨t.kind, t.lexeme⟩

/-- Words with line ends in a row joined; `after` tells that a line end stands before them. -/
def Word.joinLines : (after : Bool) → List Word → List Word
  | _, [] => []
  | after, w :: ws =>
      if w.kind = .newline then
        if after then joinLines true ws else w :: joinLines true ws
      else w :: joinLines false ws

namespace Word

theorem joinLines_word {w : Word} (h : w.kind ≠ .newline) (after : Bool) (ws : List Word) :
    joinLines after (w :: ws) = w :: joinLines false ws := by
  rw [joinLines, if_neg h]

theorem joinLines_line {w : Word} (h : w.kind = .newline) (ws : List Word) :
    joinLines false (w :: ws) = w :: joinLines true ws := by
  rw [joinLines, if_pos h]
  rfl

theorem joinLines_lines {w : Word} (h : w.kind = .newline) (ws : List Word) :
    joinLines true (w :: ws) = joinLines true ws := by
  rw [joinLines, if_pos h]
  rfl

/-- The first word stays the first. -/
theorem head_joinLines (w : Word) (ws : List Word) :
    ∃ ws', joinLines false (w :: ws) = w :: ws' := by
  by_cases h : w.kind = .newline
  · exact ⟨_, joinLines_line h ws⟩
  · exact ⟨_, joinLines_word h false ws⟩

end Word

/-! ## The words ahead -/

namespace Cursor

/-- Reading goes the same way with any bound that is more than the characters ahead. -/
theorem readAll_enough (n : Nat) :
    ∀ c : Cursor, c.rest.length < n → readAll n c = c.tokens := by
  have hboth : ∀ (n m : Nat) (c : Cursor), c.rest.length < n → c.rest.length < m →
      readAll n c = readAll m c := by
    intro n
    induction n with
    | zero => intro m c hn; omega
    | succ n ih =>
        intro m c hn hm
        cases m with
        | zero => omega
        | succ m =>
            rw [readAll, readAll]
            cases hnext : c.next with
            | mk result after =>
                cases result with
                | error e => rfl
                | ok t =>
                    show (if t.kind = .endOfFile then _ else _)
                      = (if t.kind = .endOfFile then _ else _)
                    by_cases hend : t.kind = .endOfFile
                    · rw [if_pos hend, if_pos hend]
                    · have hlt := next_shorter hnext hend
                      rw [if_neg hend, if_neg hend, ih m after (by omega) (by omega)]
  intro c hn
  exact hboth n (c.rest.length + 1) c hn (Nat.lt_succ_self _)

/-- The words ahead up to the end of the text or a failure, and the code of the failure. -/
def words (c : Cursor) : List Word × Option Code :=
  (c.tokens.1.map Token.word, c.tokens.2.1.map fun e => e.cause.code)

theorem tokens_error {c after : Cursor} {e : LexError} (h : c.next = (.error e, after)) :
    c.tokens = ([], some e, after) := by
  rw [tokens, readAll, h]

theorem tokens_end {c after : Cursor} {t : Token} (h : c.next = (.ok t, after))
    (hend : t.kind = .endOfFile) : c.tokens = ([t], none, after) := by
  rw [tokens, readAll, h]
  exact if_pos hend

theorem words_error {c after : Cursor} {e : LexError} (h : c.next = (.error e, after)) :
    c.words = ([], some e.cause.code) := by
  rw [words, tokens_error h]
  rfl

theorem words_end {c after : Cursor} {t : Token} (h : c.next = (.ok t, after))
    (hend : t.kind = .endOfFile) : c.words = ([t.word], none) := by
  rw [words, tokens_end h hend]
  rfl

theorem tokens_cons {c after : Cursor} {t : Token} (h : c.next = (.ok t, after))
    (hend : t.kind ≠ .endOfFile) : c.tokens = (t :: after.tokens.1, after.tokens.2) := by
  have hlt := next_shorter h hend
  rw [tokens, readAll, h]
  show (if t.kind = .endOfFile then _ else _) = _
  rw [if_neg hend, readAll_enough c.rest.length after hlt]

theorem words_cons {c after : Cursor} {t : Token} (h : c.next = (.ok t, after))
    (hend : t.kind ≠ .endOfFile) : c.words = (t.word :: after.words.1, after.words.2) := by
  rw [words, tokens_cons h hend]
  rfl

end Cursor

/-- The stream of a text: its words up to the end or the first failure, with line ends in a row
    joined, and the code of the failure. -/
def stream (source : String) : List Word × Option Code :=
  let ahead := (Cursor.ofString source).words
  (Word.joinLines false ahead.1, ahead.2)

/-- Failures of the same class with the same code. -/
def ParseFault.Alike : ParseFault → ParseFault → Prop
  | .lexical e, .lexical e' => e.cause.code = e'.cause.code
  | .syntactic e, .syntactic e' => e.report.code = e'.report.code
  | _, _ => False

namespace Parser

variable {α : Type}

/-- The words in hand and ahead. -/
def State.words (s : State) : List Word :=
  if s.token.kind = .endOfFile then [s.token.word] else s.token.word :: s.cursor.words.1

/-- The code of the failure behind the words ahead. -/
def State.failure (s : State) : Option Code :=
  if s.token.kind = .endOfFile then none else s.cursor.words.2

theorem State.words_head (s : State) : ∃ ws, s.words = s.token.word :: ws := by
  rw [words]
  split
  · exact ⟨_, rfl⟩
  · exact ⟨_, rfl⟩

theorem State.words_cons {s : State} (h : s.token.kind ≠ .endOfFile) :
    s.words = s.token.word :: s.cursor.words.1 ∧ s.failure = s.cursor.words.2 := by
  rw [words, failure, if_neg h, if_neg h]
  exact ⟨rfl, rfl⟩

/-- The words behind a place are those of the state there. -/
theorem words_of_next {c : Cursor} {s : State} (h : c.next = (.ok s.token, s.cursor)) :
    c.words = (s.words, s.failure) := by
  by_cases hend : s.token.kind = .endOfFile
  · rw [Cursor.words_end h hend, State.words, State.failure, if_pos hend, if_pos hend]
  · obtain ⟨hwords, hfailure⟩ := State.words_cons hend
    rw [Cursor.words_cons h hend, hwords, hfailure]

/-! ## Passing over line ends -/

/-- What comes of passing over line ends, seen in the words ahead. -/
theorem lines_words {s : State} (hline : s.token.kind = .newline) :
    (∃ s', Lines s (.ok () s') ∧
      Word.joinLines true s.cursor.words.1 = Word.joinLines false s'.words ∧
      s.cursor.words.2 = s'.failure) ∨
    ∃ e s', Lines s (.error (.lexical e) s') ∧ Word.joinLines true s.cursor.words.1 = [] ∧
      s.cursor.words.2 = some e.cause.code := by
  induction hn : s.size using Nat.strong_induction_on generalizing s with
  | _ n ih =>
      have hend : s.token.kind ≠ .endOfFile := by rw [hline]; decide
      rcases shift_cases s with ⟨s', hshift, hnext⟩ | ⟨e, c, hshift, hnext⟩
      · have hwords := words_of_next hnext
        by_cases hline' : s'.token.kind = .newline
        · obtain ⟨hcons, hfailure⟩ := State.words_cons (s := s') (by rw [hline']; decide)
          have hskip : Word.joinLines true s.cursor.words.1
              = Word.joinLines true s'.cursor.words.1 := by
            rw [hwords, hcons]
            exact Word.joinLines_lines hline' _
          have hlt := (shift_takes hend hshift).size_lt
          have hfail : s.cursor.words.2 = s'.cursor.words.2 := by rw [hwords, hfailure]
          rcases ih s'.size (by omega) hline' rfl with
            ⟨s'', hlines, hjoin, hcode⟩ | ⟨e, s'', hlines, hjoin, hcode⟩
          · exact .inl ⟨s'', .more hline hshift hlines, by rw [hskip, hjoin],
              by rw [hfail, hcode]⟩
          · exact .inr ⟨e, s'', .more hline hshift hlines, by rw [hskip, hjoin],
              by rw [hfail, hcode]⟩
        · refine .inl ⟨s', .more hline hshift (.none hline'), ?_, by rw [hwords]⟩
          obtain ⟨ws, hws⟩ := s'.words_head
          rw [hwords, hws, Word.joinLines_word hline', Word.joinLines_word hline']
      · refine .inr ⟨e, _, .error hline hshift, ?_, ?_⟩
        · rw [Cursor.words_error hnext]
          rfl
        · rw [Cursor.words_error hnext]

/-! ## Likeness of streams -/

/-- States with the same words ahead, line ends in a row joined, and the same failure. -/
def SameStream (s t : State) : Prop :=
  Word.joinLines false s.words = Word.joinLines false t.words ∧ s.failure = t.failure

theorem SameStream.word {s t : State} (h : SameStream s t) : s.token.word = t.token.word := by
  obtain ⟨ws, hws⟩ := s.words_head
  obtain ⟨ws', hws'⟩ := t.words_head
  obtain ⟨vs, hvs⟩ := Word.head_joinLines s.token.word ws
  obtain ⟨vs', hvs'⟩ := Word.head_joinLines t.token.word ws'
  have hjoin := h.1
  rw [hws, hws', hvs, hvs'] at hjoin
  exact (List.cons.inj hjoin).1

/-- There is always a word in hand. -/
theorem joinLines_words_ne_nil (s : State) : Word.joinLines false s.words ≠ [] := by
  obtain ⟨ws, hws⟩ := s.words_head
  obtain ⟨vs, hvs⟩ := Word.head_joinLines s.token.word ws
  rw [hws, hvs]
  exact List.cons_ne_nil _ _

theorem SameStream.shift {s t : State} (h : SameStream s t) (hend : s.token.kind ≠ .endOfFile)
    (hline : s.token.kind ≠ .newline) :
    Outcomes SameStream (fun e _ e' _ => e.Alike e') s t (Parser.shift s) (Parser.shift t) := by
  have hword := h.word
  have hkind : s.token.kind = t.token.kind := congrArg Word.kind hword
  have hend' : t.token.kind ≠ .endOfFile := by rw [← hkind]; exact hend
  have hline' : t.token.kind ≠ .newline := by rw [← hkind]; exact hline
  obtain ⟨hjoin, hfailure⟩ := h
  obtain ⟨hcons, hfail⟩ := State.words_cons hend
  obtain ⟨hcons', hfail'⟩ := State.words_cons hend'
  rw [hcons, hcons', Word.joinLines_word hline, Word.joinLines_word hline'] at hjoin
  have hrest := (List.cons.inj hjoin).2
  rw [hfail, hfail'] at hfailure
  rcases shift_cases s with ⟨s', hshift, hnext⟩ | ⟨e, c, hshift, hnext⟩
  · rw [words_of_next hnext] at hrest hfailure
    rcases shift_cases t with ⟨t', hshift', hnext'⟩ | ⟨e', c', hshift', hnext'⟩
    · rw [words_of_next hnext'] at hrest hfailure
      rw [hshift, hshift']
      exact .ok (.single ⟨hend, hnext⟩) (.single ⟨hend', hnext'⟩) ⟨hrest, hfailure⟩
    · rw [Cursor.words_error hnext'] at hrest
      exact absurd hrest (joinLines_words_ne_nil s')
  · rw [Cursor.words_error hnext] at hrest hfailure
    rcases shift_cases t with ⟨t', hshift', hnext'⟩ | ⟨e', c', hshift', hnext'⟩
    · rw [words_of_next hnext'] at hrest
      exact absurd hrest.symm (joinLines_words_ne_nil t')
    · rw [Cursor.words_error hnext'] at hfailure
      rw [hshift, hshift']
      exact .error (Option.some.inj hfailure)

theorem SameStream.lines {s t : State} (h : SameStream s t) (hline : s.token.kind = .newline) :
    ∃ r r', Lines s r ∧ Lines t r' ∧
      Outcomes SameStream (fun e _ e' _ => e.Alike e') s t r r' := by
  have hkind : s.token.kind = t.token.kind := congrArg Word.kind h.word
  have hline' : t.token.kind = .newline := by rw [← hkind, hline]
  obtain ⟨hjoin, hfailure⟩ := h
  obtain ⟨hcons, hfail⟩ := State.words_cons (s := s) (by rw [hline]; decide)
  obtain ⟨hcons', hfail'⟩ := State.words_cons (s := t) (by rw [hline']; decide)
  rw [hcons, hcons', Word.joinLines_line hline, Word.joinLines_line hline'] at hjoin
  have hrest := (List.cons.inj hjoin).2
  rw [hfail, hfail'] at hfailure
  rcases lines_words hline with ⟨s', hlines, hwords, hcode⟩ | ⟨e, s', hlines, hwords, hcode⟩
  · rcases lines_words hline' with ⟨t', hlines', hwords', hcode'⟩ | ⟨e', t', hlines', hwords', -⟩
    · refine ⟨_, _, hlines, hlines', .ok hlines.takes.1 hlines'.takes.1 ⟨?_, ?_⟩⟩
      · rw [← hwords, ← hwords', hrest]
      · rw [← hcode, ← hcode', hfailure]
    · rw [hwords, hwords'] at hrest
      exact absurd hrest (joinLines_words_ne_nil s')
  · rcases lines_words hline' with ⟨t', hlines', hwords', -⟩ | ⟨e', t', hlines', -, hcode'⟩
    · rw [hwords, hwords'] at hrest
      exact absurd hrest.symm (joinLines_words_ne_nil t')
    · refine ⟨_, _, hlines, hlines', .error ?_⟩
      rw [hcode, hcode'] at hfailure
      exact Option.some.inj hfailure

/-- States with the same stream are alike. -/
def streamed : Likeness where
  states := SameStream
  faults e _ e' _ := e.Alike e'
  word h := ⟨congrArg Word.kind h.word, congrArg Word.lexeme h.word⟩
  reject cause _ := by cases cause <;> rfl
  shift h hend hline := h.shift hend hline
  lines h hline := h.lines hline

/-- Parses from states with the same stream come to the same tree or to failures that are alike. -/
theorem runFrom_of_stream {s t : State} (h : SameStream s t) :
    Outcomes SameStream (fun e _ e' _ => e.Alike e') s t (runFrom wholeProgram s)
      (runFrom wholeProgram t) := by
  have hs := depthBound_ge s
  have ht := depthBound_ge t
  exact streamed.wholeProgram (depthBound s) (depthBound t) ⟨by omega, by omega⟩ s t h
    (Nat.le_refl s.size) (Nat.le_refl t.size)

/-- The first token of a text is in hand, or it cannot be read. -/
theorem start_cases (source : String) :
    (∃ s, start source = .ok s ∧ (Cursor.ofString source).next = (.ok s.token, s.cursor)) ∨
      ∃ e c, start source = .error e ∧ (Cursor.ofString source).next = (.error e, c) := by
  rw [start]
  obtain ⟨e | t, c⟩ := (Cursor.ofString source).next
  · exact .inr ⟨e, c, rfl, rfl⟩
  · exact .inl ⟨⟨t, c⟩, rfl, rfl⟩

/-- What is made, or the failure, without the state behind it. -/
def Result.value : Result α → Except ParseFault α
  | .ok a _ => .ok a
  | .error e _ => .error e

theorem parse_of_start {source : String} {s : State} (h : start source = .ok s) :
    parse source = Result.value (runFrom wholeProgram s) := by
  rw [parse, parsePart, h]
  cases hrun : runFrom wholeProgram s with
  | ok tree s' =>
      simp only [hrun]
      rfl
  | error e s' =>
      simp only [hrun]
      rfl

theorem parse_of_cut {source : String} {e : LexError} (h : start source = .error e) :
    parse source = .error (.lexical e) := by
  rw [parse, parsePart, h]

end Parser

/-- Two parses come to the same tree, or both fail, with failures of one class and code. -/
inductive SameVerdict : Except ParseFault Node → Except ParseFault Node → Prop
  | ok (tree : Node) : SameVerdict (.ok tree) (.ok tree)
  | error {e e' : ParseFault} (h : e.Alike e') : SameVerdict (.error e) (.error e')

theorem sameVerdict_of_stream {source source' : String} (h : stream source = stream source') :
    SameVerdict (parse source) (parse source') := by
  obtain ⟨hjoin, hfailure⟩ := Prod.mk.inj h
  rcases Parser.start_cases source with ⟨s, hstart, hnext⟩ | ⟨e, c, hstart, hnext⟩
  · rw [Parser.words_of_next hnext] at hjoin hfailure
    rcases Parser.start_cases source' with ⟨t, hstart', hnext'⟩ | ⟨e', c', hstart', hnext'⟩
    · rw [Parser.words_of_next hnext'] at hjoin hfailure
      have hrun := Parser.runFrom_of_stream ⟨hjoin, hfailure⟩
      rw [Parser.parse_of_start hstart, Parser.parse_of_start hstart']
      generalize Parser.runFrom Parser.wholeProgram s = r at hrun ⊢
      generalize Parser.runFrom Parser.wholeProgram t = r' at hrun ⊢
      cases hrun with
      | @ok tree _ _ _ _ _ => exact .ok tree
      | error he => exact .error he
    · rw [Cursor.words_error hnext'] at hjoin
      exact absurd hjoin (Parser.joinLines_words_ne_nil s)
  · rw [Cursor.words_error hnext] at hjoin hfailure
    rcases Parser.start_cases source' with ⟨t, hstart', hnext'⟩ | ⟨e', c', hstart', hnext'⟩
    · rw [Parser.words_of_next hnext'] at hjoin
      exact absurd hjoin.symm (Parser.joinLines_words_ne_nil t)
    · rw [Cursor.words_error hnext'] at hfailure
      rw [Parser.parse_of_cut hstart, Parser.parse_of_cut hstart']
      exact .error (Option.some.inj hfailure)

/-- A tree that one text has, every text with the same stream has. -/
theorem parse_ok_of_stream {source source' : String} {tree : Node}
    (h : stream source = stream source') (hparse : parse source = .ok tree) :
    parse source' = .ok tree := by
  have hsame := sameVerdict_of_stream h
  rw [hparse] at hsame
  generalize parse source' = verdict at hsame ⊢
  cases hsame
  rfl

/-- Texts with the same stream have the same tree, or both fail, with failures of one class and
    code. -/
theorem parse_of_stream {source source' : String} (h : stream source = stream source') :
    (∃ tree, parse source = .ok tree ∧ parse source' = .ok tree) ∨
      ∃ e e', parse source = .error e ∧ parse source' = .error e' ∧ e.Alike e' := by
  have hsame := sameVerdict_of_stream h
  generalize parse source = verdict at hsame ⊢
  generalize parse source' = verdict' at hsame ⊢
  cases hsame with
  | ok tree => exact .inl ⟨tree, rfl, rfl⟩
  | error he => exact .inr ⟨_, _, rfl, rfl, he⟩

/-- A text with blanks, comments and blank lines, and one without, which have one tree. -/
theorem parse_of_stream_blanks :
    stream "\x7bshow x\n\x7d" = stream "\x7b show\tx # one\n # two\n\n\x7d" ∧
      parse "\x7bshow x\n\x7d" = .ok (.program (.block [.display (.identifier "x")])) ∧
      parse "\x7b show\tx # one\n # two\n\n\x7d" =
        .ok (.program (.block [.display (.identifier "x")])) := by
  have hstream : stream "\x7bshow x\n\x7d" = stream "\x7b show\tx # one\n # two\n\n\x7d" := by
    decide +kernel
  have hparse : parse "\x7bshow x\n\x7d" =
      .ok (.program (.block [.display (.identifier "x")])) := by
    rfl
  rcases parse_of_stream hstream with ⟨tree, htree, htree'⟩ | ⟨e, e', herror, -⟩
  · rw [hparse] at htree
    cases htree
    exact ⟨hstream, hparse, htree'⟩
  · rw [hparse] at herror
    cases herror

end BraceScript
