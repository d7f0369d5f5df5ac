import Mathlib.Data.List.Basic
import BraceScript.Proofs.Streams

/-! # Printing — words written as a text that reads back

    A list of words is written with one blank between any two, a line end as such, and every string
    with what cannot stand in it escaped.  Reading that text gives the words again: no two run
    together, and none falls apart.

    * `Word.chars`, `Word.print`: the writing of a word, and of a list of words;
    * `Cursor.next_chars`: the word at the cursor is read, whatever stands behind it;
    * `Cursor.words_print`: the words of a written list are those of the list;
    * `Cursor.tokens_written`: so the tokens of the writings of words, put side by side with a blank
      between any two, are these words and the end of the text. -/

namespace BraceScript

/-! ## Writing -/

/-- How a character is written in a string with the given quotes. -/
def escape (quote c : Char) : List Char :=
  if c = '\n' then [Text.backslash, 'n']
  else if c = quote ∨ c = Text.backslash then [Text.backslash, c]
  else [c]

/-- The writing of a string, given with its quotes. -/
def escaped : List Char → List Char
  | [] => []
  | quote :: rest => quote :: (rest.dropLast.flatMap (escape quote) ++ [quote])

namespace Word

/-- The writing of a word. -/
def chars (w : Word) : List Char :=
  if w.kind = .newline then ['\n']
  else
    match w.lexeme with
    | none => w.kind.text.toList
    | some lexeme => if w.kind = .stringLiteral then escaped lexeme.toList else lexeme.toList

/-- The writing of words behind another: a blank before each. -/
def trail (ws : List Word) : List Char := ws.flatMap fun w => ' ' :: w.chars

/-- The writing of words, with one blank between any two. -/
def print : List Word → String
  | [] => ""
  | w :: ws => String.ofList (w.chars ++ trail ws)

/-- The word that ends a text. -/
def last : Word := ⟨.endOfFile, none⟩

/-- A word with a lexeme that its kind can have, other than the end of a text. -/
def Spelled (w : Word) : Prop := w.kind.Spells w.lexeme ∧ w.kind ≠ .endOfFile

end Word

/-! ## Where a word begins -/

/-- What can stand before a token on its line: blanks, and the beginning of a comment. -/
def blanks : List Char := [' ', '\t', '\r', '\x0c', '\x0b', '#']

theorem mem_blanks {c : Char} (h : isInlineSpace c = true ∨ c = '#') : c ∈ blanks := by
  rcases h with h | rfl
  · simp only [isInlineSpace, isSpace, Bool.and_eq_true, Bool.or_eq_true, decide_eq_true_eq,
      bne_iff_ne, ne_eq] at h
    obtain ⟨((((rfl | rfl) | rfl) | rfl) | rfl) | rfl, hline⟩ := h
    · decide
    · decide
    · exact absurd rfl hline
    · decide
    · decide
    · decide
  · decide

/-- A class with no blank in it. -/
theorem not_mem_blanks {p : Char → Bool} (hp : blanks.any p = false) {c : Char}
    (h : p c = true) : c ∉ blanks :=
  fun hc => List.any_eq_false.mp hp c hc h

/-- Nothing, or a blank and more: what stands behind a word. -/
def Parted (rest : List Char) : Prop := ∀ c ∈ rest.head?, c = ' '

theorem parted_trail (ws : List Word) : Parted (Word.trail ws) := by
  cases ws with
  | nil => intro c hc; cases hc
  | cons w ws =>
      intro c hc
      exact (Option.some.inj hc).symm

/-- A run of characters of a class ends where a word does. -/
theorem Parted.run {p : Char → Bool} {rest : List Char} (hrest : Parted rest) (hp : p ' ' = false)
    (xs : List Char) (hxs : ∀ x ∈ xs, p x = true) :
    (xs ++ rest).takeWhile p = xs ∧ (xs ++ rest).dropWhile p = rest := by
  rw [List.takeWhile_append_of_pos hxs, List.dropWhile_append_of_pos hxs]
  cases rest with
  | nil => exact ⟨List.append_nil xs, rfl⟩
  | cons c cs =>
      obtain rfl : c = ' ' := hrest c rfl
      rw [List.takeWhile_cons, List.dropWhile_cons, hp]
      exact ⟨List.append_nil xs, rfl⟩

namespace Cursor

/-- The word stands at the cursor itself, with the given characters behind it. -/
def ReadsHere (c : Cursor) (w : Word) (rest : List Char) : Prop :=
  (∃ first more, c.rest = first :: more ∧ first ∉ blanks) ∧
    ∃ t c', c.tokenHere = (.ok t, c') ∧ t.word = w ∧ c'.rest = rest

theorem drop_chars {c : Cursor} (xs : List Char) {rest : List Char} (h : c.rest = xs ++ rest) :
    (advanceBy xs.length c).rest = rest := by
  rw [advanceBy_rest, h, List.drop_left]

/-! ### Line ends and numbers -/

theorem readsHere_newline {c : Cursor} {rest : List Char} (hc : c.rest = '\n' :: rest)
    (hrest : Parted rest) : c.ReadsHere ⟨.newline, none⟩ rest := by
  have hrun : c.rest.takeWhile (· == '\n') = ['\n'] := by
    rw [hc]
    exact (hrest.run (p := (· == '\n')) rfl ['\n'] (List.forall_mem_singleton.mpr rfl)).1
  refine ⟨⟨_, _, hc, by decide⟩, c.token .newline, c.skipNewlines, ?_, rfl, ?_⟩
  · rw [tokenHere, hc]
    rfl
  · show (advanceBy (c.rest.takeWhile (· == '\n')).length c).rest = rest
    rw [hrun]
    exact drop_chars ['\n'] hc

/-- A number goes on behind its point where a digit stands there. -/
theorem numberLexeme_point {whole : List Char} (hwhole : ∀ d ∈ whole, isDigit d = true) {d : Char}
    (hd : isDigit d = true) (rest : List Char) :
    numberLexeme (whole ++ '.' :: d :: rest)
      = whole ++ '.' :: (d :: rest).takeWhile isDigit := by
  have htake : (whole ++ '.' :: d :: rest).takeWhile isDigit = whole := by
    rw [List.takeWhile_append_of_pos hwhole, List.takeWhile_cons]
    exact List.append_nil whole
  have hdrop : (whole ++ '.' :: d :: rest).dropWhile isDigit = '.' :: d :: rest := by
    rw [List.dropWhile_append_of_pos hwhole, List.dropWhile_cons]
    rfl
  rw [numberLexeme, htake, hdrop]
  exact if_pos hd

theorem numberLexeme_append {xs rest : List Char} (hxs : IsNumeral xs) (hrest : Parted rest) :
    numberLexeme (xs ++ rest) = xs := by
  rcases hxs with ⟨-, hdigits⟩ | ⟨whole, fraction, rfl, hne, hwhole, hfraction⟩
  · obtain ⟨htake, hdrop⟩ := hrest.run (by decide) _ hdigits
    rw [numberLexeme, htake, hdrop]
    split
    · exact absurd (hrest '.' rfl) (by decide)
    · rfl
  · obtain ⟨d, ds, rfl⟩ := List.exists_cons_of_ne_nil hne
    obtain ⟨htake, -⟩ := hrest.run (by decide) _ hfraction
    rw [List.append_assoc]
    refine (numberLexeme_point hwhole (hfraction d List.mem_cons_self) (ds ++ rest)).trans ?_
    rw [← List.cons_append, htake]

/-- A number begins with a digit, or with a point and a digit. -/
theorem startsNumber_append {xs : List Char} (hxs : IsNumeral xs) (rest : List Char) :
    startsNumber (xs ++ rest) = true ∧ ∃ first more, xs = first :: more ∧ first ≠ '\n' ∧
      first ∉ blanks := by
  have hdigit : ∀ d, isDigit d = true → d ≠ '\n' ∧ d ∉ blanks := by
    intro d hd
    refine ⟨?_, not_mem_blanks rfl hd⟩
    rintro rfl
    cases hd
  have hstarts : ∀ d ds, isDigit d = true → startsNumber (d :: ds) = true := by
    intro d ds hd
    rw [startsNumber.eq_def]
    split
    · next h => cases h; cases hd
    · next h => cases h; exact hd
    · next h => cases h
  rcases hxs with ⟨hne, hdigits⟩ | ⟨whole, fraction, rfl, hne, hwhole, hfraction⟩
  · obtain ⟨d, ds, rfl⟩ := List.exists_cons_of_ne_nil hne
    have hd := hdigits d List.mem_cons_self
    exact ⟨hstarts d _ hd, d, ds, rfl, hdigit d hd⟩
  · cases whole with
    | nil =>
        obtain ⟨d, ds, rfl⟩ := List.exists_cons_of_ne_nil hne
        exact ⟨hfraction d List.mem_cons_self, '.', d :: ds, rfl, by decide, by decide⟩
    | cons d ds =>
        have hd := hwhole d List.mem_cons_self
        exact ⟨hstarts d _ hd, d, _, rfl, hdigit d hd⟩

/-- A number is read where its characters are those that a number has there. -/
theorem readsHere_numeral {c : Cursor} {lexeme : String} {rest : List Char}
    (hlexeme : IsNumeral lexeme.toList) (hc : c.rest = lexeme.toList ++ rest)
    (hread : numberLexeme c.rest = lexeme.toList) :
    c.ReadsHere ⟨.numberLiteral, some lexeme⟩ rest := by
  obtain ⟨hstarts, first, more, hfirst, hline, hblank⟩ := startsNumber_append hlexeme rest
  have hnumber : c.tokenHere = c.number := by
    rw [← hc] at hstarts
    rw [tokenHere]
    simp only [hc, hfirst, List.cons_append, if_neg hline]
    rw [hfirst, List.cons_append] at hc
    rw [← hc, if_pos hstarts]
  refine ⟨⟨first, more ++ rest, by rw [hc, hfirst]; rfl, hblank⟩,
    c.lexemeToken .numberLiteral lexeme.toList, advanceBy lexeme.toList.length c, ?_, ?_,
    drop_chars _ hc⟩
  · have hne : lexeme.toList.isEmpty = false := by
      rw [hfirst]
      rfl
    rw [hnumber, number, hread, hne]
    rfl
  · exact congrArg (fun l => Word.mk .numberLiteral (some l)) String.ofList_toList

theorem readsHere_number {c : Cursor} {lexeme : String} {rest : List Char}
    (hlexeme : IsNumeral lexeme.toList) (hc : c.rest = lexeme.toList ++ rest)
    (hrest : Parted rest) : c.ReadsHere ⟨.numberLiteral, some lexeme⟩ rest :=
  readsHere_numeral hlexeme hc (by rw [hc, numberLexeme_append hlexeme hrest])

/-- No number begins with another character than a digit or a point. -/
theorem startsNumber_eq_false {first : Char} (hdigit : isDigit first = false)
    (hpoint : first ≠ '.') (rest : List Char) : startsNumber (first :: rest) = false := by
  rw [startsNumber.eq_def]
  split
  · next h => exact absurd (List.cons.inj h).1 hpoint
  · next h =>
      cases h
      exact hdigit
  · rfl

/-! ### Strings -/

theorem isQuote_cases {quote : Char} (h : isQuote quote = true) :
    quote = Text.singleQuote ∨ quote = Text.doubleQuote := by
  rw [isQuote, Bool.or_eq_true, decide_eq_true_eq, decide_eq_true_eq] at h
  exact h

/-- An escaped character is read as itself. -/
theorem stringBody_escape {quote : Char} (hquote : isQuote quote = true) (x : Char)
    (rest done : List Char) {c : Cursor} (hc : c.rest = escape quote x ++ rest) :
    ∃ c', stringBody quote (escape quote x ++ rest) done c = stringBody quote rest (x :: done) c' ∧
      c'.rest = rest := by
  have hslash : Text.backslash ≠ quote := by
    rintro rfl
    exact absurd hquote (by decide)
  have hplain : ∀ y, stringBody quote (Text.backslash :: y :: rest) done c
      = stringBody quote rest (unescape y :: done) c.advance.advance := by
    intro y
    rw [stringBody, if_neg hslash, if_neg (by decide), if_pos rfl]
  rw [escape] at hc ⊢
  by_cases hline : x = '\n'
  · rw [if_pos hline] at hc ⊢
    refine ⟨c.advance.advance, ?_, by rw [advance_rest, advance_rest, hc]; rfl⟩
    rw [hline]
    exact hplain 'n'
  · rw [if_neg hline] at hc ⊢
    by_cases hmark : x = quote ∨ x = Text.backslash
    · rw [if_pos hmark] at hc ⊢
      refine ⟨c.advance.advance, ?_, by rw [advance_rest, advance_rest, hc]; rfl⟩
      have hsame : unescape x = x := by
        rcases hmark with rfl | rfl
        · rcases isQuote_cases hquote with rfl | rfl <;> decide
        · decide
      exact (hplain x).trans (by rw [hsame])
    · rw [if_neg hmark] at hc ⊢
      refine ⟨c.advance, ?_, by rw [advance_rest, hc]; rfl⟩
      rw [not_or] at hmark
      show stringBody quote (x :: rest) done c = _
      rw [stringBody.eq_def]
      simp only [if_neg hmark.1, if_neg hline, if_neg hmark.2]

theorem stringBody_escaped {quote : Char} (hquote : isQuote quote = true)
    (body done rest : List Char) {c : Cursor}
    (hc : c.rest = body.flatMap (escape quote) ++ quote :: rest) :
    ∃ c', stringBody quote (body.flatMap (escape quote) ++ quote :: rest) done c
      = (.ok (done.reverse ++ body), c') ∧ c'.rest = rest := by
  induction body generalizing done c with
  | nil =>
      refine ⟨c.advance, ?_, by rw [advance_rest, hc]; rfl⟩
      show stringBody quote (quote :: rest) done c = _
      rw [stringBody.eq_def]
      simp only [if_pos, List.append_nil]
  | cons x body ih =>
      rw [List.flatMap_cons, List.append_assoc] at hc ⊢
      obtain ⟨c', heq, hc'⟩ := stringBody_escape hquote x _ done hc
      obtain ⟨c'', heq', hrest⟩ := ih (x :: done) hc'
      refine ⟨c'', ?_, hrest⟩
      rw [heq, heq', List.reverse_cons, List.append_assoc]
      rfl

theorem readsHere_string {c : Cursor} {lexeme : String} {rest : List Char}
    (hlexeme : IsQuotation lexeme.toList) (hc : c.rest = escaped lexeme.toList ++ rest) :
    c.ReadsHere ⟨.stringLiteral, some lexeme⟩ rest := by
  obtain ⟨quote, body, hquote, hbody⟩ := hlexeme
  rw [hbody, escaped, List.dropLast_concat, List.cons_append, List.append_assoc] at hc
  have hadvance : c.advance.rest = body.flatMap (escape quote) ++ quote :: rest := by
    rw [advance_rest, hc]
    rfl
  obtain ⟨c', heq, hrest⟩ := stringBody_escaped hquote body [] rest hadvance
  refine ⟨⟨_, _, hc, not_mem_blanks rfl hquote⟩,
    c.lexemeToken .stringLiteral lexeme.toList, c', ?_, ?_, hrest⟩
  · have hline : quote ≠ '\n' := by rintro rfl; cases hquote
    have hnumber : ∀ cs, startsNumber (quote :: cs) = false := by
      rcases isQuote_cases hquote with rfl | rfl <;> exact fun cs => rfl
    rw [tokenHere]
    simp only [hc]
    rw [if_neg hline, hnumber, if_neg (by decide), if_pos hquote, stringFrom]
    simp only [List.singleton_append, heq, hbody]
    rfl
  · exact congrArg (fun l => Word.mk .stringLiteral (some l)) String.ofList_toList

/-! ### Words -/

/-- What begins a word begins nothing else. -/
theorem isWordStart_only {c : Char} (h : isWordStart c = true) :
    c ≠ '\n' ∧ isDigit c = false ∧ c ≠ '.' ∧ isQuote c = false ∧ c ∉ blanks := by
  refine ⟨?_, ?_, ?_, ?_, not_mem_blanks rfl h⟩
  · rintro rfl
    cases h
  · rw [Bool.eq_false_iff]
    intro hdigit
    simp only [isDigit, isWordStart, Bool.and_eq_true, Bool.or_eq_true, decide_eq_true_eq,
      Char.le_def, UInt32.le_iff_toNat_le] at h hdigit
    rcases h with ((h | h) | rfl) | rfl
    · exact absurd (h.1.trans hdigit.2) (by decide)
    · exact absurd (h.1.trans hdigit.2) (by decide)
    · exact absurd hdigit.2 (by decide)
    · exact absurd hdigit.1 (by decide)
  · rintro rfl
    cases h
  · rw [Bool.eq_false_iff]
    intro hquote
    rcases isQuote_cases hquote with rfl | rfl <;> cases h

theorem readsHere_word {c : Cursor} {word rest : List Char} (hword : IsWordy word)
    (hc : c.rest = word ++ rest) (hrest : Parted rest) :
    c.ReadsHere (c.wordToken word).word rest := by
  cases word with
  | nil => exact absurd hword id
  | cons first more =>
      obtain ⟨hfirst, hmore⟩ := hword
      obtain ⟨hline, hdigit, hpoint, hquote, hblank⟩ := isWordStart_only hfirst
      have hparts : ∀ x ∈ first :: more, isWordPart x = true := by
        intro x hx
        rcases List.mem_cons.mp hx with rfl | hx
        · rw [isWordPart, hfirst, Bool.or_true]
        · exact hmore x hx
      have hrun : c.rest.takeWhile isWordPart = first :: more := by
        rw [hc]
        exact (hrest.run (by decide) _ hparts).1
      have hread : c.word = (c.wordToken (first :: more), advanceBy (first :: more).length c) := by
        show (c.wordToken (c.rest.takeWhile isWordPart),
          advanceBy (c.rest.takeWhile isWordPart).length c) = _
        rw [hrun]
      refine ⟨⟨_, _, hc, hblank⟩, c.wordToken (first :: more), advanceBy (first :: more).length c,
        ?_, rfl, drop_chars _ hc⟩
      rw [tokenHere]
      simp only [hc, List.cons_append]
      rw [if_neg hline, startsNumber_eq_false hdigit hpoint, if_neg (by decide), hquote,
        if_neg (by decide), if_pos hfirst, hread]

theorem wordToken_identifier {c : Cursor} {name : String} (h : IsWord name) :
    (c.wordToken name.toList).word = ⟨.identifier, some name⟩ := by
  rw [wordToken, String.ofList_toList, show Kind.ofWord name = .identifier from h]
  exact congrArg (fun l => Word.mk .identifier (some l)) String.ofList_toList

theorem wordToken_boolean {c : Cursor} {lexeme : String} (h : lexeme = "true" ∨ lexeme = "false") :
    (c.wordToken lexeme.toList).word = ⟨.booleanLiteral, some lexeme⟩ := by
  rw [wordToken, String.ofList_toList, Kind.ofWord, if_pos h]
  exact congrArg (fun l => Word.mk .booleanLiteral (some l)) String.ofList_toList

theorem wordToken_keyword {c : Cursor} {k : Kind} (hfixed : k.isFixed = true)
    (h : Kind.ofWord k.text = k) : (c.wordToken k.text.toList).word = ⟨k, none⟩ := by
  rw [wordToken, String.ofList_toList, h]
  split
  · cases hfixed
  · cases hfixed
  · rfl

/-! ### Signs -/

/-- Whether a sign can begin with a character: nothing else does. -/
def startsSign (c : Char) : Bool :=
  c != '\n' && !isDigit c && c != '.' && !isQuote c && !isWordStart c && !blanks.contains c

theorem startsSign_blank {c : Char} (h : startsSign c = true) : c ∉ blanks := by
  simp only [startsSign, Bool.and_eq_true, Bool.not_eq_true'] at h
  simpa using h.2

theorem tokenHere_sign {c : Cursor} {first : Char} {rest : List Char} (hc : c.rest = first :: rest)
    (h : startsSign first = true) : c.tokenHere = c.sign first := by
  simp only [startsSign, Bool.and_eq_true, bne_iff_ne, ne_eq, Bool.not_eq_true'] at h
  obtain ⟨⟨⟨⟨⟨hline, hdigit⟩, hpoint⟩, hquote⟩, hword⟩, -⟩ := h
  rw [tokenHere]
  simp only [hc]
  rw [if_neg hline, startsNumber_eq_false hdigit hpoint, if_neg (by decide), hquote,
    if_neg (by decide), hword, if_neg (by decide)]

theorem readsHere_pairSign {c : Cursor} {a b : Char} {rest : List Char} {k : Kind}
    (hk : Kind.ofPair? a b = some k) (ha : startsSign a = true) (hc : c.rest = a :: b :: rest) :
    c.ReadsHere ⟨k, none⟩ rest := by
  refine ⟨⟨_, _, hc, startsSign_blank ha⟩, c.token k, advanceBy 2 c, ?_, rfl,
    drop_chars [a, b] hc⟩
  rw [tokenHere_sign hc ha, sign, pairSign]
  simp only [hc, hk]
  rfl

/-- A sign of one character is read where no sign of two is. -/
theorem readsHere_alone {c : Cursor} {a : Char} {rest : List Char} {k : Kind}
    (hk : Kind.ofChar? a = some k) (ha : startsSign a = true) (hc : c.rest = a :: rest)
    (hnone : c.pairSign = (none, c)) : c.ReadsHere ⟨k, none⟩ rest := by
  refine ⟨⟨_, _, hc, startsSign_blank ha⟩, c.token k, advanceBy 1 c, ?_, rfl,
    drop_chars [a] hc⟩
  rw [tokenHere_sign hc ha, sign, hnone]
  simp only [hk]
  rfl

theorem readsHere_singleSign {c : Cursor} {a : Char} {rest : List Char} {k : Kind}
    (hk : Kind.ofChar? a = some k) (hpair : Kind.ofPair? a ' ' = none) (ha : startsSign a = true)
    (hc : c.rest = a :: rest) (hrest : Parted rest) : c.ReadsHere ⟨k, none⟩ rest := by
  refine readsHere_alone hk ha hc ?_
  rw [pairSign]
  cases rest with
  | nil => simp only [hc]
  | cons b more =>
      obtain rfl : b = ' ' := hrest b rfl
      simp only [hc, hpair]

end Cursor

namespace Kind

theorem mem_all (k : Kind) : k ∈ all := by
  cases k <;> decide

/-- A kind that is written in one way is a keyword or a sign. -/
theorem keyword_or_sign {k : Kind} (h : k.isFixed = true) :
    (k.text, k) ∈ keywords ∨ (k.text, k) ∈ pairSigns ∨ (k.text, k) ∈ singleSigns := by
  have hall : ∀ k ∈ all, k.isFixed = true →
      (k.text, k) ∈ keywords ∨ (k.text, k) ∈ pairSigns ∨ (k.text, k) ∈ singleSigns := by
    decide +kernel
  exact hall k (mem_all k) h

theorem keywords_spelled : ∀ e ∈ keywords, ofWord e.1 = e.2 ∧ IsWordy e.1.toList := by
  decide +kernel

theorem pairSigns_spelled : ∀ e ∈ pairSigns, pairSigns.lookup e.1 = some e.2 ∧
    e.1.toList.length = 2 ∧ (e.1.toList.take 1).all Cursor.startsSign = true := by
  decide +kernel

theorem singleSigns_spelled : ∀ e ∈ singleSigns, singleSigns.lookup e.1 = some e.2 ∧
    e.1.toList.length = 1 ∧ e.1.toList.all Cursor.startsSign = true ∧
      e.1.toList.all (fun a => (ofPair? a ' ').isNone) = true := by
  decide +kernel

end Kind

namespace Cursor

theorem readsHere_fixed {c : Cursor} {k : Kind} {rest : List Char} (hk : k.isFixed = true)
    (hc : c.rest = k.text.toList ++ rest) (hrest : Parted rest) : c.ReadsHere ⟨k, none⟩ rest := by
  rcases Kind.keyword_or_sign hk with hword | hpair | hsingle
  · obtain ⟨hof, hwordy⟩ := Kind.keywords_spelled _ hword
    have hread := readsHere_word hwordy hc hrest
    rwa [wordToken_keyword hk hof] at hread
  · obtain ⟨hof, hlength, hstart⟩ := Kind.pairSigns_spelled _ hpair
    obtain ⟨a, b, hab⟩ := List.length_eq_two.mp hlength
    have hsign : Cursor.startsSign a = true := by simpa [hab] using hstart
    refine readsHere_pairSign ?_ hsign (by rw [hc, hab]; rfl)
    rw [Kind.ofPair?, ← hab, String.ofList_toList]
    exact hof
  · obtain ⟨hof, hlength, hstart, halone⟩ := Kind.singleSigns_spelled _ hsingle
    obtain ⟨a, ha⟩ := List.length_eq_one_iff.mp hlength
    have hsign : Cursor.startsSign a = true := by simpa [ha] using hstart
    have hpair : Kind.ofPair? a ' ' = none := by simpa [ha] using halone
    refine readsHere_singleSign ?_ hpair hsign (by rw [hc, ha]; rfl) hrest
    rw [Kind.ofChar?, ← ha, String.ofList_toList]
    exact hof

/-! ### Any word -/

theorem readsHere_chars {c : Cursor} {w : Word} {rest : List Char} (hw : w.Spelled)
    (hc : c.rest = w.chars ++ rest) (hrest : Parted rest) : c.ReadsHere w rest := by
  obtain ⟨kind, lexeme⟩ := w
  obtain ⟨hspells, hend⟩ := hw
  cases kind with
  | numberLiteral =>
      obtain ⟨l, rfl, hl⟩ := hspells
      exact readsHere_number hl hc hrest
  | stringLiteral =>
      obtain ⟨l, rfl, hl⟩ := hspells
      exact readsHere_string hl hc
  | booleanLiteral =>
      obtain ⟨l, rfl, hl⟩ : ∃ l, lexeme = some l ∧ (l = "true" ∨ l = "false") := by
        rcases hspells with rfl | rfl
        · exact ⟨_, rfl, .inl rfl⟩
        · exact ⟨_, rfl, .inr rfl⟩
      have hwordy : IsWordy l.toList := by
        rcases hl with rfl | rfl <;> decide
      have hread := readsHere_word hwordy hc hrest
      rwa [wordToken_boolean hl] at hread
  | identifier =>
      obtain ⟨l, rfl, hword, hwordy⟩ := hspells
      have hread := readsHere_word hwordy hc hrest
      rwa [wordToken_identifier hword] at hread
  | newline =>
      obtain rfl : lexeme = none := hspells
      exact readsHere_newline hc hrest
  | endOfFile => exact absurd rfl hend
  | _ =>
      obtain rfl : lexeme = none := hspells
      exact readsHere_fixed rfl hc hrest

/-- Before a token there is nothing to pass over. -/
theorem next_here {c : Cursor} {first : Char} {more : List Char} (hc : c.rest = first :: more)
    (hfirst : first ∉ blanks) : c.next = c.tokenHere := by
  have hspace : isInlineSpace first = false := by
    rw [Bool.eq_false_iff]
    exact fun h => hfirst (mem_blanks (.inl h))
  have hskip : c.skipSpace = c := by
    show advanceBy (c.rest.takeWhile isInlineSpace).length c = c
    rw [hc, List.takeWhile_cons, hspace]
    rfl
  have hcomment : c.current ≠ some '#' := by
    rw [current, hc]
    rintro ⟨⟩
    exact hfirst (by decide)
  rw [next, skipTrivia]
  simp only [hskip, if_neg hcomment]

/-- A blank is passed over. -/
theorem next_blank {c : Cursor} {more : List Char} (hc : c.rest = ' ' :: more) :
    c.next = c.advance.next := by
  have hadvance : c.advance.rest = more := by rw [advance_rest, hc]; rfl
  have hskip : c.skipSpace = c.advance.skipSpace := by
    show advanceBy (c.rest.takeWhile isInlineSpace).length c
      = advanceBy (c.advance.rest.takeWhile isInlineSpace).length c.advance
    rw [hadvance, hc]
    rfl
  rw [next, next, skipTrivia, skipTrivia, hskip]

/-- A word that is written at the cursor, or behind a blank, is read, and what is written behind it
    is left. -/
theorem next_chars {c : Cursor} {w : Word} {rest : List Char} (hw : w.Spelled)
    (hc : c.rest = w.chars ++ rest ∨ c.rest = ' ' :: (w.chars ++ rest)) (hrest : Parted rest) :
    ∃ t c', c.next = (.ok t, c') ∧ t.word = w ∧ c'.rest = rest := by
  rcases hc with hc | hc
  · obtain ⟨⟨first, more, hfirst, hblank⟩, hread⟩ := readsHere_chars hw hc hrest
    rw [next_here hfirst hblank]
    exact hread
  · have hadvance : c.advance.rest = w.chars ++ rest := by rw [advance_rest, hc]; rfl
    obtain ⟨⟨first, more, hfirst, hblank⟩, hread⟩ := readsHere_chars hw hadvance hrest
    rw [next_blank hc, next_here hfirst hblank]
    exact hread

/-! ## Reading what is written -/

theorem words_nil {c : Cursor} (hc : c.rest = []) : c.words = ([Word.last], none) := by
  have hnext : c.next = (.ok (c.token .endOfFile), c) := by
    have hskip : c.skipSpace = c := by
      show advanceBy (c.rest.takeWhile isInlineSpace).length c = c
      rw [hc]
      rfl
    rw [next, skipTrivia]
    simp only [hskip, current, hc, List.head?_nil, reduceCtorEq, if_false, tokenHere]
  exact words_end hnext rfl

theorem words_trail {ws : List Word} (hws : ∀ w ∈ ws, w.Spelled) {c : Cursor}
    (hc : c.rest = Word.trail ws) : c.words = (ws ++ [Word.last], none) := by
  induction ws generalizing c with
  | nil => exact words_nil hc
  | cons w ws ih =>
      obtain ⟨hw, hrest⟩ := List.forall_mem_cons.mp hws
      obtain ⟨t, c', hnext, rfl, hc'⟩ := next_chars hw (.inr hc) (parted_trail ws)
      rw [words_cons hnext hw.2, ih hrest hc']
      rfl

/-- The words of a written list are those of the list. -/
theorem words_print {ws : List Word} (hws : ∀ w ∈ ws, w.Spelled) :
    (ofString (Word.print ws)).words = (ws ++ [Word.last], none) := by
  cases ws with
  | nil => exact words_nil rfl
  | cons w ws =>
      obtain ⟨hw, hrest⟩ := List.forall_mem_cons.mp hws
      have hc : (ofString (Word.print (w :: ws))).rest = w.chars ++ Word.trail ws :=
        String.toList_ofList
      obtain ⟨t, c', hnext, rfl, hc'⟩ := next_chars hw (.inl hc) (parted_trail ws)
      rw [words_cons hnext hw.2, words_trail hrest hc']
      rfl

end Cursor

/-- The writing of words is that of each, with a blank between any two. -/
theorem Word.print_eq (ws : List Word) :
    print ws = " ".intercalate (ws.map fun w => String.ofList w.chars) := by
  apply String.toList_injective
  rw [String.toList_intercalate, List.map_map]
  cases ws with
  | nil => rfl
  | cons w ws =>
      rw [print, String.toList_ofList]
      induction ws generalizing w with
      | nil => simp [trail]
      | cons next ws ih =>
          have htrail : trail (next :: ws) = ' ' :: (next.chars ++ trail ws) := by
            rw [trail, List.flatMap_cons, ← trail, List.cons_append]
          rw [htrail, ih next]
          simp [List.intercalate_cons_cons]

/-- Take any words that are no end of a text: keywords, signs, line ends, truth values, names,
    numbers and strings.  Write them with one blank between any two, and read the tokens of that
    text: they are the same words, and then the end of the text. -/
theorem Cursor.tokens_written {ws : List Word} (hws : ∀ w ∈ ws, w.Spelled) :
    ∃ ts behind,
      (ofString (" ".intercalate (ws.map fun w => String.ofList w.chars))).tokens
        = (ts, none, behind) ∧
      ts.map Token.word = ws ++ [Word.last] := by
  have hwords := words_print hws
  rw [Word.print_eq] at hwords
  generalize ofString (" ".intercalate (ws.map fun w => String.ofList w.chars)) = c at hwords ⊢
  obtain ⟨hts, hfailure⟩ := Prod.mk.inj hwords
  have hnone : c.tokens.2.1 = none := Option.map_eq_none_iff.mp hfailure
  exact ⟨c.tokens.1, c.tokens.2.2, by rw [← hnone], hts⟩

/-- Line ends in a row, a point before digits, signs that could run together, a word that begins
    like a keyword, and a string of its own quote, the other one, a backslash and a line end. -/
theorem Cursor.tokens_written_side_by_side :
    let ws : List Word := [⟨.newline, none⟩, ⟨.newline, none⟩, ⟨.numberLiteral, some "1"⟩,
      ⟨.numberLiteral, some ".5"⟩, ⟨.less, none⟩, ⟨.assign, none⟩, ⟨.letWord, none⟩,
      ⟨.identifier, some "let$1"⟩, ⟨.booleanLiteral, some "true"⟩,
      ⟨.stringLiteral, some "''\"\\\n'"⟩]
    " ".intercalate (ws.map fun w => String.ofList w.chars)
        = "\n \n 1 .5 < = let let$1 true '\\'\"\\\\\\n'" ∧
      (∀ w ∈ ws, w.Spelled) ∧
      ∃ ts behind,
        (ofString (" ".intercalate (ws.map fun w => String.ofList w.chars))).tokens
          = (ts, none, behind) ∧
        ts.map Token.word = ws ++ [Word.last] := by
  intro ws
  have hspelled : ∀ w ∈ ws, w.Spelled := by
    have hdigits : IsNumeral "1".toList := .of_digits (by decide) rfl
    have hpoint : IsNumeral ".5".toList :=
      .inr ⟨[], ['5'], rfl, by decide, List.forall_mem_nil _, List.forall_mem_singleton.mpr rfl⟩
    have hstring : IsQuotation "''\"\\\n'".toList :=
      ⟨Text.singleQuote, "'\"\\\n".toList, by decide, by decide⟩
    simp only [ws, List.forall_mem_cons, List.not_mem_nil, false_implies, implies_true, and_true]
    refine ⟨⟨rfl, ?_⟩, ⟨rfl, ?_⟩, ⟨⟨_, rfl, hdigits⟩, ?_⟩, ⟨⟨_, rfl, hpoint⟩, ?_⟩, ⟨rfl, ?_⟩,
      ⟨rfl, ?_⟩, ⟨rfl, ?_⟩, ⟨⟨_, rfl, ?_, ?_⟩, ?_⟩, ⟨.inl rfl, ?_⟩, ⟨⟨_, rfl, hstring⟩, ?_⟩⟩ <;>
      decide
  exact ⟨by decide, hspelled, tokens_written hspelled⟩

end BraceScript
