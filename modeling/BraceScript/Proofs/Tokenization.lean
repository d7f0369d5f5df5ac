import Mathlib.Data.List.TakeWhile
import BraceScript.Proofs.Printing

/-! # Tokenization — every character is read once

    Reading token after token goes over a text from its beginning, and leaves nothing out: what is
    passed over before each token and what the tokens are read from are the text, piece by piece.

    * `Kind.WrittenAs`: which characters write a token, kind by kind;
    * `Consumes`: a token that is read from the longest beginning of a text that writes one;
    * `Cursor.settles_tokenHere`: at every place such a token is read, or none begins there;
    * `Cursor.reading_lossless`: the pieces of any number of readings, in a row. -/

namespace BraceScript

/-! ## What writes a token -/

/-- The writing of what stands in a string with the given quotes, and what it stands for.  A
    backslash and the character behind it are one; the quote and the line end do not stand alone. -/
inductive Escapes (quote : Char) : (raw body : List Char) → Prop
  | nil : Escapes quote [] []
  | plain {c : Char} {raw body : List Char} (hquote : c ≠ quote) (hslash : c ≠ Text.backslash)
      (hline : c ≠ '\n') (h : Escapes quote raw body) : Escapes quote (c :: raw) (c :: body)
  | pair (c : Char) {raw body : List Char} (h : Escapes quote raw body) :
      Escapes quote (Text.backslash :: c :: raw) (unescape c :: body)

/-- Characters that write a token of a kind, with its lexeme if the kind has one. -/
inductive Kind.WrittenAs : Kind → Option String → List Char → Prop
  | newline {cs : List Char} (hne : cs ≠ []) (h : ∀ c ∈ cs, c = '\n') :
      WrittenAs .newline none cs
  | number {cs : List Char} (h : IsNumeral cs) :
      WrittenAs .numberLiteral (some (String.ofList cs)) cs
  | string {quote : Char} {raw body : List Char} (hquote : isQuote quote = true)
      (h : Escapes quote raw body) :
      WrittenAs .stringLiteral (some (String.ofList (quote :: (body ++ [quote]))))
        (quote :: (raw ++ [quote]))
  | truth {cs : List Char} (h : cs = "true".toList ∨ cs = "false".toList) :
      WrittenAs .booleanLiteral (some (String.ofList cs)) cs
  | keyword {cs : List Char} {k : Kind} (h : (String.ofList cs, k) ∈ keywords) :
      WrittenAs k none cs
  | identifier {cs : List Char} (h : IsWordy cs)
      (htruth : cs ≠ "true".toList ∧ cs ≠ "false".toList)
      (hkeyword : ∀ k, (String.ofList cs, k) ∉ keywords) :
      WrittenAs .identifier (some (String.ofList cs)) cs
  | sign {cs : List Char} {k : Kind} (h : (String.ofList cs, k) ∈ pairSigns ++ singleSigns) :
      WrittenAs k none cs

/-- Some token begins a text. -/
def Begins (text : List Char) : Prop :=
  ∃ (k : Kind) (lexeme : Option String) (cs : List Char), k.WrittenAs lexeme cs ∧ cs <+: text

/-- A token is read from the longest beginning of a text that writes one. -/
structure Consumes (text : List Char) (t : Token) (span : List Char) : Prop where
  written : t.kind.WrittenAs t.lexeme span
  begins : span <+: text
  longest : ∀ (k : Kind) lexeme cs, k.WrittenAs lexeme cs → cs <+: text → cs.length ≤ span.length

/-- The closing quote of a string is the first one that is not part of a pair. -/
theorem Escapes.length_eq {quote : Char} {raw raw' body body' more more' : List Char}
    (hquote : quote ≠ Text.backslash) (h : Escapes quote raw body) (h' : Escapes quote raw' body')
    (heq : raw ++ quote :: more = raw' ++ quote :: more') : raw.length = raw'.length := by
  induction h generalizing raw' body' with
  | nil =>
      cases h' with
      | nil => rfl
      | plain hplain _ _ _ => exact absurd (List.cons.inj heq).1.symm hplain
      | pair _ _ => exact absurd (List.cons.inj heq).1 hquote
  | plain hplain hslash _ _ ih =>
      cases h' with
      | nil => exact absurd (List.cons.inj heq).1 hplain
      | plain _ _ _ h' => exact congrArg (· + 1) (ih h' (List.cons.inj heq).2)
      | pair _ _ => exact absurd (List.cons.inj heq).1 hslash
  | pair c _ ih =>
      cases h' with
      | nil => exact absurd (List.cons.inj heq).1.symm hquote
      | plain _ hslash _ _ => exact absurd (List.cons.inj heq).1.symm hslash
      | pair d h' =>
          have htail := (List.cons.inj (List.cons.inj heq).2).2
          exact congrArg (· + 2) (ih h' htail)

/-! ### How tokens begin -/

/-- The sorts of token, told apart by how they begin. -/
inductive TokenSort where
  | line | number | string | word | sign
  deriving DecidableEq

/-- The sort of the tokens that can begin a text. -/
def sortAt : List Char → TokenSort
  | [] => .line
  | first :: rest =>
      if first = '\n' then .line
      else if Cursor.startsNumber (first :: rest) then .number
      else if isQuote first then .string
      else if isWordStart first then .word
      else .sign

/-- The characters that tokens of a sort are written with. -/
def TokenSort.Shape : TokenSort → List Char → Prop
  | .line, cs => ∀ c ∈ cs, c = '\n'
  | .number, cs => IsNumeral cs
  | .string, cs => ∃ quote raw body, Escapes quote raw body ∧ cs = quote :: (raw ++ [quote])
  | .word, cs => IsWordy cs
  | .sign, cs => ∃ k, (String.ofList cs, k) ∈ Kind.pairSigns ++ Kind.singleSigns

/-- What is found in a table stands in it. -/
theorem Kind.mem_of_lookup {table : List (String × Kind)} {text : String} {k : Kind}
    (h : table.lookup text = some k) : (text, k) ∈ table := by
  obtain ⟨before, after, heq, -⟩ := List.lookup_eq_some_iff.mp h
  rw [heq]
  exact List.mem_append_right _ List.mem_cons_self

theorem keywords_wordy : ∀ entry ∈ Kind.keywords, IsWordy entry.1.toList := by decide +kernel

theorem signs_begin : ∀ entry ∈ Kind.pairSigns ++ Kind.singleSigns, entry.1.toList ≠ [] ∧
    (entry.1.toList.take 1).all Cursor.startsSign = true := by
  decide +kernel

theorem IsWordy.sortAt_append {cs : List Char} (h : IsWordy cs) (rest : List Char) :
    sortAt (cs ++ rest) = .word := by
  cases cs with
  | nil => exact absurd h id
  | cons first more =>
      obtain ⟨hline, hdigit, hpoint, hquote, -⟩ := Cursor.isWordStart_only h.1
      rw [List.cons_append, sortAt, if_neg hline, Cursor.startsNumber_eq_false hdigit hpoint,
        if_neg (by decide), hquote, if_neg (by decide), if_pos h.1]

theorem sortAt_sign {first : Char} (h : Cursor.startsSign first = true) (rest : List Char) :
    sortAt (first :: rest) = .sign := by
  simp only [Cursor.startsSign, Bool.and_eq_true, bne_iff_ne, ne_eq, Bool.not_eq_true'] at h
  obtain ⟨⟨⟨⟨⟨hline, hdigit⟩, hpoint⟩, hquote⟩, hword⟩, -⟩ := h
  rw [sortAt, if_neg hline, Cursor.startsNumber_eq_false hdigit hpoint, if_neg (by decide), hquote,
    if_neg (by decide), hword, if_neg (by decide)]

/-- Whatever token begins a text is of the sort that can begin it. -/
theorem Kind.WrittenAs.shape {k : Kind} {lexeme : Option String} {cs text : List Char}
    (h : k.WrittenAs lexeme cs) (hbegins : cs <+: text) : (sortAt text).Shape cs := by
  obtain ⟨rest, rfl⟩ := hbegins
  cases h with
  | newline hne h =>
      obtain ⟨first, more, rfl⟩ := List.exists_cons_of_ne_nil hne
      obtain rfl := h first List.mem_cons_self
      exact h
  | number h =>
      obtain ⟨hstarts, first, more, rfl, hline, -⟩ := Cursor.startsNumber_append h rest
      rw [List.cons_append] at hstarts ⊢
      rw [sortAt, if_neg hline, if_pos hstarts]
      exact h
  | @string quote raw body hquote h =>
      have hsort : sortAt (quote :: (raw ++ [quote]) ++ rest) = .string := by
        rcases Cursor.isQuote_cases hquote with rfl | rfl <;> rfl
      rw [hsort]
      exact ⟨quote, raw, body, h, rfl⟩
  | truth h =>
      have hwordy : IsWordy cs := by rcases h with rfl | rfl <;> decide
      rw [hwordy.sortAt_append]
      exact hwordy
  | keyword h =>
      have hwordy := keywords_wordy _ h
      rw [String.toList_ofList] at hwordy
      rw [hwordy.sortAt_append]
      exact hwordy
  | identifier h =>
      rw [h.sortAt_append]
      exact h
  | sign h =>
      obtain ⟨hne, hstarts⟩ := signs_begin _ h
      rw [String.toList_ofList] at hne hstarts
      obtain ⟨first, more, rfl⟩ := List.exists_cons_of_ne_nil hne
      rw [List.cons_append, sortAt_sign (List.all_eq_true.mp hstarts first List.mem_cons_self)]
      exact ⟨k, h⟩

theorem tables_without_end :
    ∀ entry ∈ Kind.keywords ++ (Kind.pairSigns ++ Kind.singleSigns), entry.2 ≠ .endOfFile := by
  decide +kernel

/-- The end of a text is not written, and what is written has characters. -/
theorem Kind.WrittenAs.proper {k : Kind} {lexeme : Option String} {cs : List Char}
    (h : k.WrittenAs lexeme cs) : k ≠ .endOfFile ∧ cs ≠ [] := by
  cases h with
  | newline hne _ => exact ⟨by decide, hne⟩
  | number h =>
      obtain ⟨-, first, more, rfl, -⟩ := Cursor.startsNumber_append h []
      exact ⟨by decide, List.cons_ne_nil _ _⟩
  | string _ _ => exact ⟨by decide, List.cons_ne_nil _ _⟩
  | truth h => exact ⟨by decide, by rcases h with rfl | rfl <;> decide⟩
  | keyword h =>
      refine ⟨tables_without_end _ (List.mem_append_left _ h), ?_⟩
      rintro rfl
      exact keywords_wordy _ h
  | identifier h =>
      refine ⟨by decide, ?_⟩
      rintro rfl
      exact h
  | sign h =>
      refine ⟨tables_without_end _ (List.mem_append_right _ h), ?_⟩
      rintro rfl
      exact (signs_begin _ h).1 rfl

/-! ## What is read at a place -/

namespace Cursor

/-- A reading that is right: it takes the longest beginning of what is ahead that writes a token, or
    no token begins there, and the failure is that of a string if a quote stands there. -/
inductive Settles (c : Cursor) : Except LexError Token × Cursor → Prop
  | read {t : Token} (span : List Char) (hread : Consumes c.rest t span) (hline : t.line = c.line)
      (hcolumn : t.column = c.column) : Settles c (.ok t, advanceBy span.length c)
  | failed {e : LexError} (k : Nat) (hnone : ¬ Begins c.rest) (hk : k ≤ c.rest.length)
      (hcode : e.cause.code =
        if c.rest.head?.any isQuote then .unterminatedString else .invalidCharacter) :
      Settles c (.error e, advanceBy k c)

/-! ### Runs of characters -/

theorem length_le_takeWhile {p : Char → Bool} {cs text : List Char} (hbegins : cs <+: text)
    (h : ∀ c ∈ cs, p c = true) : cs.length ≤ (text.takeWhile p).length := by
  obtain ⟨rest, rfl⟩ := hbegins
  rw [List.takeWhile_append_of_pos h, List.length_append]
  exact Nat.le_add_right _ _

theorem settles_newline {c : Cursor} {rest : List Char} (hc : c.rest = '\n' :: rest) :
    c.Settles (.ok (c.token .newline), c.skipNewlines) := by
  have hrun : c.rest.takeWhile (· == '\n') ≠ [] := by
    rw [hc]
    exact takeWhile_ne_nil rest rfl
  refine .read (c.rest.takeWhile (· == '\n')) ⟨?_, List.takeWhile_prefix _, ?_⟩ rfl rfl
  · exact .newline hrun fun x hx => beq_iff_eq.mp (List.mem_takeWhile_imp (p := (· == '\n')) hx)
  · intro k lexeme cs hwritten hbegins
    have hshape := hwritten.shape hbegins
    rw [hc] at hshape
    exact length_le_takeWhile hbegins fun x hx => beq_iff_eq.mpr (hshape x hx)

/-- No number is longer than the one that is read. -/
theorem length_le_numberLexeme {cs text : List Char} (h : IsNumeral cs) (hbegins : cs <+: text) :
    cs.length ≤ (numberLexeme text).length := by
  rcases h with ⟨-, hdigits⟩ | ⟨whole, fraction, rfl, hne, hwhole, hfraction⟩
  · refine (length_le_takeWhile hbegins hdigits).trans ?_
    rw [numberLexeme]
    split
    · split
      · rw [List.length_append]
        exact Nat.le_add_right _ _
      · exact Nat.le_refl _
    · exact Nat.le_refl _
  · obtain ⟨rest, rfl⟩ := hbegins
    obtain ⟨d, ds, rfl⟩ := List.exists_cons_of_ne_nil hne
    have hlexeme : numberLexeme (whole ++ '.' :: (d :: ds) ++ rest)
        = whole ++ '.' :: (d :: ds ++ rest).takeWhile isDigit := by
      rw [List.append_assoc]
      exact numberLexeme_point hwhole (hfraction d List.mem_cons_self) (ds ++ rest)
    rw [hlexeme, List.takeWhile_append_of_pos hfraction]
    simp only [List.length_append, List.length_cons]
    omega

theorem settles_number {c : Cursor} (hline : c.rest.head? ≠ some '\n')
    (h : startsNumber c.rest = true) : c.Settles c.number := by
  have hnumeral := isNumeral_numberLexeme h
  have hne : numberLexeme c.rest ≠ [] := by
    rintro hnil
    rw [hnil] at hnumeral
    exact absurd (startsNumber_append hnumeral []).2 (by simp)
  have hsort : sortAt c.rest = .number := by
    obtain ⟨first, rest, hc⟩ : ∃ first rest, c.rest = first :: rest := by
      rcases startsNumber_cases h with ⟨d, ds, hc, -⟩ | ⟨d, ds, hc, -⟩ <;> exact ⟨_, _, hc⟩
    rw [hc] at h hline ⊢
    rw [sortAt, if_neg (by simpa using hline), if_pos h]
  rw [number, if_neg (by simpa using hne)]
  refine .read (numberLexeme c.rest) ⟨.number hnumeral, numberLexeme_begins _, ?_⟩ rfl rfl
  intro k lexeme cs hwritten hbegins
  have hshape := hwritten.shape hbegins
  rw [hsort] at hshape
  exact length_le_numberLexeme hshape hbegins

/-! ### Strings -/

/-- What stands in a string up to its closing quote is read as what it stands for; if it is not
    closed, or a line ends in it, the string is unterminated. -/
theorem stringBody_spec {quote : Char} (hquote : isQuote quote = true) (xs done : List Char)
    (c : Cursor) (hrest : c.rest = xs) :
    (∃ raw body more, Escapes quote raw body ∧ xs = raw ++ quote :: more ∧
      stringBody quote xs done c = (.ok (done.reverse ++ body), advanceBy (raw.length + 1) c)) ∨
    (∀ raw body more, Escapes quote raw body → xs ≠ raw ++ quote :: more) ∧
      ∃ e k, stringBody quote xs done c = (.error e, advanceBy k c) ∧ k ≤ xs.length ∧
        e.cause.code = .unterminatedString := by
  have hslash : Text.backslash ≠ quote := by
    rintro rfl
    exact absurd hquote (by decide)
  fun_induction stringBody quote xs done c with
  | case1 done c =>
      refine .inr ⟨fun raw body more _ hxs => ?_, _, 0, rfl, Nat.le_refl _, rfl⟩
      simp at hxs
  | case2 xs done c =>
      refine .inl ⟨[], [], xs, .nil, rfl, ?_⟩
      rw [List.append_nil]
      rfl
  | case3 xs done c hline =>
      refine .inr ⟨fun raw body more h hxs => ?_, _, 0, rfl, Nat.zero_le _, rfl⟩
      cases h with
      | nil => exact hline (List.cons.inj hxs).1
      | plain _ _ hplain _ => exact hplain (List.cons.inj hxs).1.symm
      | pair y h => exact absurd (List.cons.inj hxs).1 (by decide)
  | case4 done c _ _ =>
      refine .inr ⟨fun raw body more h hxs => ?_, _, 1, rfl, Nat.le_refl _, rfl⟩
      cases h with
      | nil => exact hslash (List.cons.inj hxs).1
      | plain _ hplain _ _ => exact hplain (List.cons.inj hxs).1.symm
      | pair y h => cases hxs
  | case5 done c y ys _ _ ih =>
      have hys : c.advance.advance.rest = ys := by rw [advance_rest, advance_rest, hrest]; rfl
      rcases ih hys with ⟨raw, body, more, h, rfl, heq⟩ | ⟨hnone, e, k, heq, hk, hcode⟩
      · refine .inl ⟨Text.backslash :: y :: raw, unescape y :: body, more, .pair y h, rfl, ?_⟩
        rw [heq, List.reverse_cons, List.append_assoc]
        rfl
      · refine .inr ⟨fun raw body more h hxs => ?_, e, k + 2, ?_, Nat.add_le_add_right hk 2, hcode⟩
        · cases h with
          | nil => exact hslash (List.cons.inj hxs).1
          | plain _ hplain _ _ => exact hplain (List.cons.inj hxs).1.symm
          | pair z h =>
              obtain ⟨-, hxs⟩ := List.cons.inj hxs
              exact hnone _ _ more h (List.cons.inj hxs).2
        · rw [heq]
          rfl
  | case6 x xs done c hx hline hplain ih =>
      have hxs : c.advance.rest = xs := by rw [advance_rest, hrest]; rfl
      rcases ih hxs with ⟨raw, body, more, h, rfl, heq⟩ | ⟨hnone, e, k, heq, hk, hcode⟩
      · refine .inl ⟨x :: raw, x :: body, more, .plain hx hplain hline h, rfl, ?_⟩
        rw [heq, List.reverse_cons, List.append_assoc]
        rfl
      · refine .inr ⟨fun raw body more h hxs => ?_, e, k + 1, ?_, Nat.add_le_add_right hk 1, hcode⟩
        · cases h with
          | nil => exact hx (List.cons.inj hxs).1
          | plain _ _ _ h => exact hnone _ _ more h (List.cons.inj hxs).2
          | pair z h => exact hplain (List.cons.inj hxs).1
        · rw [heq]
          rfl

theorem settles_string {c : Cursor} {quote : Char} {rest : List Char} (hc : c.rest = quote :: rest)
    (hquote : isQuote quote = true) : c.Settles (c.stringFrom quote rest) := by
  have hadvance : c.advance.rest = rest := by rw [advance_rest, hc]; rfl
  have hslash : quote ≠ Text.backslash := by
    rintro rfl
    cases hquote
  have hsort : sortAt c.rest = .string := by
    rw [hc]
    rcases isQuote_cases hquote with rfl | rfl <;> rfl
  -- a string that begins here is closed by the first quote that stands alone
  have hshape : ∀ (k : Kind) lexeme cs, k.WrittenAs lexeme cs → cs <+: c.rest →
      ∃ raw body more, Escapes quote raw body ∧ rest = raw ++ quote :: more ∧
        cs.length = raw.length + 2 := by
    intro k lexeme cs hwritten hbegins
    have hshape := hwritten.shape hbegins
    rw [hsort] at hshape
    obtain ⟨other, raw, body, h, rfl⟩ := hshape
    obtain ⟨more, hmore⟩ := hbegins
    rw [hc, List.cons_append, List.append_assoc] at hmore
    obtain ⟨rfl, rfl⟩ := List.cons.inj hmore
    exact ⟨raw, body, more, h, rfl, by simp⟩
  rw [stringFrom]
  rcases stringBody_spec hquote rest [] c.advance hadvance with
    ⟨raw, body, more, h, hrest, heq⟩ | ⟨hnone, e, k, heq, hk, hcode⟩
  · rw [heq]
    have hlength : raw.length + 2 = (quote :: (raw ++ [quote])).length := by simp
    show c.Settles (_, advanceBy (raw.length + 2) c)
    rw [hlength]
    refine .read _ ⟨.string hquote h, ⟨more, ?_⟩, ?_⟩ rfl rfl
    · rw [hc, hrest, List.cons_append, List.append_assoc]
      rfl
    · intro k lexeme cs hwritten hbegins
      obtain ⟨raw', body', more', h', hrest', hlength'⟩ := hshape k lexeme cs hwritten hbegins
      rw [hlength', ← hlength, h'.length_eq hslash h (hrest'.symm.trans hrest)]
  · rw [heq]
    refine .failed (k + 1) ?_ ?_ ?_
    · rintro ⟨kind, lexeme, cs, hwritten, hbegins⟩
      obtain ⟨raw, body, more, h, hrest, -⟩ := hshape kind lexeme cs hwritten hbegins
      exact hnone raw body more h hrest
    · rw [hc]
      exact Nat.succ_le_succ hk
    · rw [hc, List.head?_cons, Option.any_some, hquote]
      exact hcode

/-! ### Words -/

/-- The token of a word is one that the word writes. -/
theorem written_wordToken {c : Cursor} {word : List Char} (h : IsWordy word) :
    (c.wordToken word).kind.WrittenAs (c.wordToken word).lexeme word := by
  have htext : ∀ s : String, String.ofList word = s ↔ word = s.toList := by
    intro s
    rw [← String.ofList_toList (s := s), String.ofList_inj, String.toList_ofList]
  rw [wordToken]
  by_cases htruth : String.ofList word = "true" ∨ String.ofList word = "false"
  · rw [Kind.ofWord, if_pos htruth]
    rw [htext, htext] at htruth
    exact .truth htruth
  · rw [Kind.ofWord, if_neg htruth]
    cases hk : Kind.keywords.lookup (String.ofList word) with
    | none =>
        rw [htext, htext, not_or] at htruth
        refine .identifier h htruth fun k hmem => ?_
        exact absurd rfl (bne_iff_ne.mp (List.lookup_eq_none_iff.mp hk _ hmem))
    | some k =>
        have hfixed := Kind.lookup_forall (P := fun k => k.isFixed = true) (by decide) hk
        have hmem := Kind.mem_of_lookup hk
        cases k <;> first | exact .keyword hmem | cases hfixed

theorem place_wordToken (c : Cursor) (word : List Char) :
    (c.wordToken word).line = c.line ∧ (c.wordToken word).column = c.column := by
  rw [wordToken]
  split <;> exact ⟨rfl, rfl⟩

theorem settles_word {c : Cursor} {first : Char} {rest : List Char} (hc : c.rest = first :: rest)
    (hfirst : isWordStart first = true) : c.Settles (.ok c.word.1, c.word.2) := by
  have hrun : c.rest.takeWhile isWordPart = first :: rest.takeWhile isWordPart := by
    rw [hc, List.takeWhile_cons, if_pos (by rw [isWordPart, hfirst, Bool.or_true])]
  have hwordy : IsWordy (c.rest.takeWhile isWordPart) := by
    rw [hrun]
    exact ⟨hfirst, fun d hd => List.mem_takeWhile_imp hd⟩
  have hsort : sortAt c.rest = .word := by
    have hone : IsWordy [first] := ⟨hfirst, fun d hd => absurd hd List.not_mem_nil⟩
    rw [hc]
    exact hone.sortAt_append rest
  refine .read (c.rest.takeWhile isWordPart)
    ⟨written_wordToken hwordy, List.takeWhile_prefix _, ?_⟩ ?_ ?_
  · intro k lexeme cs hwritten hbegins
    have hshape := hwritten.shape hbegins
    rw [hsort] at hshape
    cases cs with
    | nil => exact Nat.zero_le _
    | cons x xs =>
        refine length_le_takeWhile hbegins (List.forall_mem_cons.mpr ⟨?_, hshape.2⟩)
        rw [isWordPart, hshape.1, Bool.or_true]
  · exact (place_wordToken c _).1
  · exact (place_wordToken c _).2

/-! ### Signs -/

theorem signs_short : ∀ entry ∈ Kind.pairSigns ++ Kind.singleSigns, entry.1.toList.length ≤ 2 := by
  decide +kernel

/-- A sign of two characters is read where it stands. -/
theorem pairSign_eq {c : Cursor} {cs : List Char} {k : Kind}
    (h : (String.ofList cs, k) ∈ Kind.pairSigns) (hbegins : cs <+: c.rest) :
    c.pairSign = (some (c.token k), advanceBy 2 c) := by
  obtain ⟨hlookup, hlength, -⟩ := Kind.pairSigns_spelled _ h
  rw [String.toList_ofList] at hlength
  obtain ⟨a, b, rfl⟩ := List.length_eq_two.mp hlength
  obtain ⟨more, hmore⟩ := hbegins
  have hpair : Kind.ofPair? a b = some k := hlookup
  rw [pairSign, ← hmore]
  simp only [List.cons_append, hpair]
  rfl

theorem settles_sign {c : Cursor} {first : Char} {rest : List Char} (hc : c.rest = first :: rest)
    (hquote : isQuote first = false) (hsort : sortAt c.rest = .sign) :
    c.Settles (c.sign first) := by
  have hsigns : ∀ (k : Kind) lexeme cs, k.WrittenAs lexeme cs → cs <+: c.rest →
      ∃ k, (String.ofList cs, k) ∈ Kind.pairSigns ++ Kind.singleSigns := by
    intro k lexeme cs hwritten hbegins
    have hshape := hwritten.shape hbegins
    rw [hsort] at hshape
    exact hshape
  rw [sign]
  by_cases hpair : ∃ b more k, rest = b :: more ∧ Kind.ofPair? first b = some k
  · obtain ⟨b, more, k, rfl, hk⟩ := hpair
    have hmem := Kind.mem_of_lookup hk
    have hbegins : [first, b] <+: c.rest := ⟨more, hc.symm⟩
    rw [pairSign_eq hmem hbegins]
    refine .read [first, b] ⟨.sign (List.mem_append_left _ hmem), hbegins, ?_⟩ rfl rfl
    intro k lexeme cs hwritten hother
    obtain ⟨k, hk⟩ := hsigns k lexeme cs hwritten hother
    have hshort := signs_short _ hk
    rwa [String.toList_ofList] at hshort
  · have hnone : c.pairSign = (none, c) := by
      rw [pairSign]
      split
      · next a b more hrest =>
          rw [hc] at hrest
          obtain ⟨rfl, rfl⟩ := List.cons.inj hrest
          cases hk : Kind.ofPair? first b with
          | none => rfl
          | some k => exact absurd ⟨b, more, k, rfl, hk⟩ hpair
      · rfl
    -- a sign that stands here is one of a single character
    have hsingle : ∀ (k : Kind) lexeme cs, k.WrittenAs lexeme cs → cs <+: c.rest →
        cs = [first] ∧ ∃ k, Kind.ofChar? first = some k := by
      intro k lexeme cs hwritten hbegins
      obtain ⟨k, hk⟩ := hsigns k lexeme cs hwritten hbegins
      rcases List.mem_append.mp hk with hk | hk
      · have hread := pairSign_eq hk hbegins
        rw [hnone] at hread
        cases hread
      · obtain ⟨hlookup, hlength, -⟩ := Kind.singleSigns_spelled _ hk
        rw [String.toList_ofList] at hlength
        obtain ⟨a, rfl⟩ := List.length_eq_one_iff.mp hlength
        obtain ⟨more, hmore⟩ := hbegins
        rw [hc] at hmore
        obtain ⟨rfl, -⟩ := List.cons.inj hmore
        exact ⟨rfl, k, hlookup⟩
    rw [hnone]
    cases hk : Kind.ofChar? first with
    | some k =>
        have hmem := Kind.mem_of_lookup hk
        refine .read [first] ⟨.sign (List.mem_append_right _ hmem), ⟨rest, hc.symm⟩, ?_⟩ rfl rfl
        intro k lexeme cs hwritten hbegins
        rw [(hsingle k lexeme cs hwritten hbegins).1]
    | none =>
        have hcode : c.rest.head?.any isQuote = false := by
          rw [hc, List.head?_cons, Option.any_some, hquote]
        refine .failed 0 ?_ (Nat.zero_le _) (by rw [hcode]; rfl)
        rintro ⟨k, lexeme, cs, hwritten, hbegins⟩
        obtain ⟨-, k, hfound⟩ := hsingle k lexeme cs hwritten hbegins
        rw [hk] at hfound
        cases hfound

/-! ### Any token -/

theorem settles_tokenHere {c : Cursor} (h : c.rest ≠ []) : c.Settles c.tokenHere := by
  obtain ⟨first, rest, hc⟩ := List.exists_cons_of_ne_nil h
  rw [tokenHere]
  simp only [hc]
  split_ifs with hline hnumber hquote hword
  · exact settles_newline (by rw [hc, hline])
  · rw [← hc] at hnumber
    exact settles_number (by rw [hc]; simpa using hline) hnumber
  · exact settles_string hc hquote
  · exact settles_word hc hword
  · refine settles_sign hc (Bool.eq_false_iff.mpr hquote) ?_
    rw [hc, sortAt, if_neg hline, if_neg hnumber, if_neg hquote, if_neg hword]

/-! ## What is passed over -/

/-- Blanks, and a comment up to the end of its line. -/
def IsTrivia (cs : List Char) : Prop :=
  ∃ spaces comment, cs = spaces ++ comment ∧ (∀ c ∈ spaces, isInlineSpace c = true) ∧
    (comment = [] ∨ ∃ text, comment = '#' :: text ∧ '\n' ∉ text)

/-- Where passing over stops, there is neither a blank nor a comment. -/
theorem skipTrivia_spec (c : Cursor) :
    ∃ trivia rest, c.rest = trivia ++ rest ∧ IsTrivia trivia ∧ (∀ x ∈ rest.head?, x ∉ blanks) ∧
      c.skipTrivia = advanceBy trivia.length c := by
  have hsplit : c.rest.takeWhile isInlineSpace ++ c.rest.dropWhile isInlineSpace = c.rest :=
    List.takeWhile_append_dropWhile
  have hspaces : ∀ x ∈ c.rest.takeWhile isInlineSpace, isInlineSpace x = true :=
    fun x => List.mem_takeWhile_imp
  have hskip : c.skipSpace = advanceBy (c.rest.takeWhile isInlineSpace).length c := rfl
  have hbehind : c.skipSpace.rest = c.rest.dropWhile isInlineSpace := by
    rw [hskip, advanceBy_rest]
    nth_rewrite 2 [← hsplit]
    exact List.drop_left
  by_cases hcomment : c.skipSpace.current = some '#'
  · obtain ⟨more, hmore⟩ : ∃ more, c.rest.dropWhile isInlineSpace = '#' :: more := by
      rw [current, hbehind] at hcomment
      exact List.head?_eq_some_iff.mp hcomment
    have hadvance : c.skipSpace.advance.rest = more := by
      rw [advance_rest, hbehind, hmore]
      rfl
    refine ⟨c.rest.takeWhile isInlineSpace ++ '#' :: more.takeWhile (· != '\n'),
      more.dropWhile (· != '\n'), ?_, ⟨_, _, rfl, hspaces, .inr ⟨_, rfl, ?_⟩⟩, ?_, ?_⟩
    · rw [List.append_assoc, List.cons_append, List.takeWhile_append_dropWhile, ← hmore, hsplit]
    · intro hline
      have hstop := List.mem_takeWhile_imp (p := (· != '\n')) hline
      exact absurd hstop (by decide)
    · intro x hx
      have hstop := List.head?_dropWhile_not (· != '\n') more
      rw [hx] at hstop
      obtain rfl : x = '\n' := by simpa using hstop
      decide
    · show (if c.skipSpace.current = some '#' then c.skipSpace.skipComment else c.skipSpace) = _
      rw [if_pos hcomment]
      show advanceBy (c.skipSpace.advance.rest.takeWhile (· != '\n')).length c.skipSpace.advance = _
      rw [hadvance, List.length_append, ← advanceBy_add, ← hskip]
      rfl
  · refine ⟨_, _, hsplit.symm, ⟨_, [], (List.append_nil _).symm, hspaces, .inl rfl⟩, ?_, ?_⟩
    · intro x hx hblank
      have hstop := List.head?_dropWhile_not isInlineSpace c.rest
      rw [hx] at hstop
      have hcases : blanks.all (fun x => isInlineSpace x = true ∨ x = '#') = true := rfl
      rcases of_decide_eq_true (List.all_eq_true.mp hcases x hblank) with hspace | rfl
      · exact absurd (hspace.symm.trans hstop) (by decide)
      · rw [current, hbehind] at hcomment
        exact hcomment hx
    · show (if c.skipSpace.current = some '#' then c.skipSpace.skipComment else c.skipSpace) = _
      rw [if_neg hcomment, hskip]

/-! ## Places -/

/-- The line behind some characters. -/
def lineBehind (cs : List Char) : Nat := cs.count '\n' + 1

/-- The column behind some characters: one more than the characters behind the last line end. -/
def columnBehind (cs : List Char) : Nat := (cs.reverse.takeWhile (· != '\n')).length + 1

/-- A cursor that stands in a text as its counts say. -/
structure StandsIn (c : Cursor) (text : List Char) : Prop where
  source : c.source = text
  within : c.position ≤ text.length
  rest : c.rest = text.drop c.position
  line : c.line = lineBehind (text.take c.position)
  column : c.column = columnBehind (text.take c.position)

theorem standsIn_start (text : List Char) : (start text).StandsIn text :=
  ⟨rfl, Nat.zero_le _, rfl, rfl, rfl⟩

theorem StandsIn.advance {c : Cursor} {text : List Char} (h : c.StandsIn text)
    (hne : c.rest ≠ []) : c.advance.StandsIn text ∧ c.advance.position = c.position + 1 := by
  obtain ⟨x, xs, hc⟩ := List.exists_cons_of_ne_nil hne
  have hdrop : text.drop c.position = x :: xs := h.rest.symm.trans hc
  have hrest : text.drop (c.position + 1) = xs := by
    rw [← List.drop_drop, hdrop]
    rfl
  have htake : text.take (c.position + 1) = text.take c.position ++ [x] := by
    rw [List.take_add, hdrop]
    rfl
  have hwithin : c.position + 1 ≤ text.length := by
    have hlength := congrArg List.length hdrop
    rw [List.length_drop, List.length_cons] at hlength
    omega
  by_cases hx : x = '\n'
  · have hadvance : c.advance = ⟨c.source, c.position + 1, c.line + 1, 1, xs⟩ := by
      rw [Cursor.advance, hc, hx]
      rfl
    rw [hadvance]
    refine ⟨⟨h.source, hwithin, hrest.symm, ?_, ?_⟩, rfl⟩
    · show c.line + 1 = lineBehind (text.take (c.position + 1))
      rw [htake, h.line, hx]
      simp [lineBehind]
    · show 1 = columnBehind (text.take (c.position + 1))
      rw [htake, hx]
      simp [columnBehind]
  · have hadvance : c.advance = ⟨c.source, c.position + 1, c.line, c.column + 1, xs⟩ := by
      rw [Cursor.advance, hc]
      split
      · next heq => exact absurd (List.cons.inj heq).1 hx
      · next heq => rw [(List.cons.inj heq).2]
      · next heq => cases heq
    rw [hadvance]
    refine ⟨⟨h.source, hwithin, hrest.symm, ?_, ?_⟩, rfl⟩
    · show c.line = lineBehind (text.take (c.position + 1))
      rw [htake, h.line]
      simp [lineBehind, hx]
    · show c.column + 1 = columnBehind (text.take (c.position + 1))
      rw [htake, h.column]
      simp [columnBehind, hx]

theorem StandsIn.advanceBy {text : List Char} (k : Nat) {c : Cursor} (h : c.StandsIn text)
    (hk : k ≤ c.rest.length) :
    (advanceBy k c).StandsIn text ∧ (advanceBy k c).position = c.position + k := by
  induction k generalizing c with
  | zero => exact ⟨h, rfl⟩
  | succ k ih =>
      have hne : c.rest ≠ [] := List.ne_nil_of_length_pos (by omega)
      obtain ⟨hadvance, hposition⟩ := h.advance hne
      have hlength : k ≤ c.advance.rest.length := by
        rw [advance_rest, List.length_tail]
        omega
      obtain ⟨hstands, hsum⟩ := ih hadvance hlength
      exact ⟨hstands, hsum.trans (by rw [hposition]; omega)⟩

/-! ## Reading after reading -/

/-- The characters of a text from one position up to another. -/
def piece (text : List Char) (i j : Nat) : List Char := (text.drop i).take (j - i)

/-- What a reading passes over. -/
def passed (c : Cursor) : List Char := piece c.source c.position c.skipTrivia.position

/-- What a reading takes behind that, for a token or up to a failure. -/
def spanned (c : Cursor) : List Char := piece c.source c.skipTrivia.position c.next.2.position

/-- The cursor behind a number of readings, each of a token or a failure. -/
def behind (c : Cursor) : Nat → Cursor
  | 0 => c
  | n + 1 => (c.behind n).next.2

/-- What a number of readings have gone over, reading by reading. -/
def goneOver (c : Cursor) (n : Nat) : List Char :=
  (List.range n).flatMap fun i => (c.behind i).passed ++ (c.behind i).spanned

theorem piece_append {text : List Char} {i j k : Nat} (hij : i ≤ j) (hjk : j ≤ k) :
    piece text i j ++ piece text j k = piece text i k := by
  obtain ⟨a, rfl⟩ := Nat.exists_eq_add_of_le hij
  obtain ⟨b, rfl⟩ := Nat.exists_eq_add_of_le hjk
  rw [piece, piece, piece, Nat.add_sub_cancel_left, Nat.add_sub_cancel_left, Nat.add_assoc,
    Nat.add_sub_cancel_left, List.take_add, List.drop_drop]

/-- A reading passes over blanks and a comment, as far as there are any. -/
theorem StandsIn.passes {c : Cursor} {text : List Char} (h : c.StandsIn text) :
    c.skipTrivia.StandsIn text ∧ c.position ≤ c.skipTrivia.position ∧ IsTrivia c.passed ∧
      ∀ x ∈ (text.drop c.skipTrivia.position).head?, x ∉ blanks := by
  obtain ⟨trivia, rest, hrest, htrivia, hstop, hskip⟩ := skipTrivia_spec c
  have hlength : trivia.length ≤ c.rest.length := by
    rw [hrest, List.length_append]
    exact Nat.le_add_right _ _
  obtain ⟨hstands, hposition⟩ := h.advanceBy trivia.length hlength
  rw [← hskip] at hstands hposition
  refine ⟨hstands, by omega, ?_, ?_⟩
  · rw [passed, piece, hposition, Nat.add_sub_cancel_left, h.source, ← h.rest, hrest,
      List.take_left]
    exact htrivia
  · rw [hposition, ← List.drop_drop, ← h.rest, hrest, List.drop_left]
    exact hstop

/-- A reading takes a beginning of what is ahead behind the blanks, and leaves the cursor there. -/
theorem StandsIn.spans {c : Cursor} {text : List Char} (h : c.StandsIn text) {k : Nat}
    (hk : k ≤ c.skipTrivia.rest.length) (hnext : c.next.2 = Cursor.advanceBy k c.skipTrivia) :
    c.next.2.StandsIn text ∧ c.next.2.position = c.skipTrivia.position + k ∧
      c.spanned = c.skipTrivia.rest.take k := by
  obtain ⟨hhere, -⟩ := h.passes
  obtain ⟨hstands, hposition⟩ := hhere.advanceBy k hk
  rw [← hnext] at hstands hposition
  refine ⟨hstands, hposition, ?_⟩
  rw [spanned, piece, hposition, Nat.add_sub_cancel_left, h.source, ← hhere.rest]

/-- A reading in a text is accounted for: blanks and a comment are passed over, as far as there are
    any, and what is ahead of them gives a token, with the place of its first character, or the
    failure to find one. -/
structure Accounts (c : Cursor) (text : List Char) : Prop where
  passed : IsTrivia c.passed
  stops : ∀ x ∈ (text.drop c.skipTrivia.position).head?, x ∉ blanks
  place : ∀ t, c.next.1 = .ok t → t.line = lineBehind (text.take c.skipTrivia.position) ∧
    t.column = columnBehind (text.take c.skipTrivia.position)
  ended : ∀ t, c.next.1 = .ok t → t.kind = .endOfFile →
    c.spanned = [] ∧ c.next.2.position = text.length
  read : ∀ t, c.next.1 = .ok t → t.kind ≠ .endOfFile →
    c.spanned ≠ [] ∧ Consumes (text.drop c.skipTrivia.position) t c.spanned
  failed : (∃ e, c.next.1 = .error e) ↔
    text.drop c.skipTrivia.position ≠ [] ∧ ¬ Begins (text.drop c.skipTrivia.position)
  code : ∀ e, c.next.1 = .error e → e.cause.code =
    if (text.drop c.skipTrivia.position).head?.any isQuote then .unterminatedString
    else .invalidCharacter

/-- Where nothing is ahead, the end of the text is read. -/
theorem StandsIn.accounts_end {c : Cursor} {text : List Char} (h : c.StandsIn text)
    (hahead : c.skipTrivia.rest = []) :
    c.Accounts text ∧ c.next.2.StandsIn text ∧ c.skipTrivia.position ≤ c.next.2.position := by
  obtain ⟨hhere, -, hpassed, hstops⟩ := h.passes
  have hnext : c.next = (.ok (c.skipTrivia.token .endOfFile), c.skipTrivia) := by
    rw [next, tokenHere]
    simp only [hahead]
  obtain ⟨hstands, hposition, hspan⟩ := h.spans (Nat.zero_le _) (congrArg Prod.snd hnext)
  have hdrop : text.drop c.skipTrivia.position = [] := hhere.rest.symm.trans hahead
  have hend : c.skipTrivia.position = text.length :=
    Nat.le_antisymm hhere.within (List.drop_eq_nil_iff.mp hdrop)
  refine ⟨⟨hpassed, hstops, ?_, ?_, ?_, ?_, ?_⟩, hstands, hposition.ge⟩
  · intro t ht
    rw [hnext] at ht
    cases ht
    exact ⟨congrArg Nat.cast hhere.line, congrArg Nat.cast hhere.column⟩
  · intro t ht _
    exact ⟨hspan, hposition.trans hend⟩
  · intro t ht hkind
    rw [hnext] at ht
    cases ht
    exact absurd rfl hkind
  · rw [hnext, hdrop]
    constructor
    · rintro ⟨_, he⟩
      cases he
    · exact fun hne => absurd rfl hne.1
  · intro e he
    rw [hnext] at he
    cases he

/-- One reading keeps the cursor in the text, and accounts for what it goes over. -/
theorem StandsIn.accounts {c : Cursor} {text : List Char} (h : c.StandsIn text) :
    c.Accounts text ∧ c.next.2.StandsIn text ∧ c.skipTrivia.position ≤ c.next.2.position := by
  by_cases hahead : c.skipTrivia.rest = []
  · exact h.accounts_end hahead
  obtain ⟨hhere, -, hpassed, hstops⟩ := h.passes
  have hsettles : c.skipTrivia.Settles c.next := settles_tokenHere hahead
  generalize hnext : c.next = outcome at hsettles
  cases hsettles with
  | @read t span hread hline hcolumn =>
      obtain ⟨hstands, hposition, hspan⟩ := h.spans hread.begins.length_le (congrArg Prod.snd hnext)
      rw [← List.prefix_iff_eq_take.mp hread.begins] at hspan
      rw [hnext] at hstands hposition
      obtain ⟨hkind, hne⟩ := hread.written.proper
      have hbegins : Begins c.skipTrivia.rest := ⟨_, _, _, hread.written, hread.begins⟩
      rw [hhere.rest] at hread hbegins
      refine ⟨⟨hpassed, hstops, ?_, ?_, ?_, ?_, ?_⟩, hstands, by omega⟩
      · rw [hnext]
        rintro t ⟨⟩
        exact ⟨hline.trans (congrArg Nat.cast hhere.line),
          hcolumn.trans (congrArg Nat.cast hhere.column)⟩
      · rw [hnext]
        rintro t ⟨⟩ hend
        exact absurd hend hkind
      · rw [hnext, hspan]
        rintro t ⟨⟩ -
        exact ⟨hne, hread⟩
      · rw [hnext]
        constructor
        · rintro ⟨_, he⟩
          cases he
        · exact fun hnone => absurd hbegins hnone.2
      · rw [hnext]
        rintro e ⟨⟩
  | @failed e k hnone hk hcode =>
      obtain ⟨hstands, hposition, -⟩ := h.spans hk (congrArg Prod.snd hnext)
      rw [hnext] at hstands hposition
      rw [hhere.rest] at hnone hcode hahead
      refine ⟨⟨hpassed, hstops, ?_, ?_, ?_, ?_, ?_⟩, hstands, by omega⟩
      · rw [hnext]
        rintro t ⟨⟩
      · rw [hnext]
        rintro t ⟨⟩
      · rw [hnext]
        rintro t ⟨⟩
      · rw [hnext]
        exact ⟨fun _ => ⟨hahead, hnone⟩, fun _ => ⟨e, rfl⟩⟩
      · rw [hnext]
        rintro e ⟨⟩
        exact hcode

theorem standsIn_behind (text : List Char) (n : Nat) : ((start text).behind n).StandsIn text := by
  induction n with
  | zero => exact standsIn_start text
  | succ n ih => exact ih.accounts.2.1

/-- The pieces that readings go over are the text up to the cursor. -/
theorem goneOver_eq (text : List Char) (n : Nat) :
    (start text).goneOver n = text.take ((start text).behind n).position := by
  induction n with
  | zero => exact List.take_zero.symm
  | succ n ih =>
      have hstands := standsIn_behind text n
      obtain ⟨-, hle, -⟩ := hstands.passes
      obtain ⟨-, -, hle'⟩ := hstands.accounts
      have hpiece : piece text _ _ ++ piece text _ _ = piece text _ _ := piece_append hle hle'
      have hgone : (start text).goneOver (n + 1) = (start text).goneOver n ++
          (((start text).behind n).passed ++ ((start text).behind n).spanned) := by
        rw [goneOver, List.range_succ, List.flatMap_append, List.flatMap_singleton]
        rfl
      rw [hgone, ih, Cursor.passed, Cursor.spanned, hstands.source, hpiece, piece, ← List.take_add,
        Nat.add_sub_cancel' (hle.trans hle')]
      rfl

/-- However many tokens are read from a source, what was passed over before them and what they were
    read from is in order the source up to the cursor, all of it once the end is read; and every
    reading passes over blanks and a comment only, gives its token the place where its characters
    begin, reads it from the longest characters there that write one, and fails exactly where no
    token begins. -/
theorem reading_lossless (source : String) (n : Nat) :
    (ofString source).goneOver n = source.toList.take ((ofString source).behind n).position ∧
    ((ofString source).behind n).Accounts source.toList ∧
    ∀ t, ((ofString source).behind n).next.1 = .ok t → t.kind = .endOfFile →
      (ofString source).goneOver (n + 1) = source.toList := by
  have haccounts := (standsIn_behind source.toList n).accounts.1
  refine ⟨goneOver_eq _ n, haccounts, ?_⟩
  intro t ht hkind
  have hend : ((ofString source).behind (n + 1)).position = source.toList.length :=
    (haccounts.ended t ht hkind).2
  exact (goneOver_eq _ (n + 1)).trans (by rw [← ofString, hend, List.take_length])

end Cursor

end BraceScript
