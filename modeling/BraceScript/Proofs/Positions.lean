import BraceScript.Proofs.Tokenization

/-! # Positions — lines and columns are those of the text

    A cursor counts lines and columns as it goes, and tokens and failures take theirs from it.  All
    of them are what the text itself says: one more than the line ends before a position, and one
    more than the characters behind the last of them.  That rests on no step being taken past the
    end.

    * `Cursor.IsPlace`: a position in a text with its line and column;
    * `Cursor.next_fails`: a reading fails where it leaves the cursor;
    * `Cursor.readings_tracked`: the counts of the cursor, of tokens and of failures, after any
      number of readings. -/

namespace BraceScript.Cursor

/-- The line and column of a position in a text. -/
structure IsPlace (text : List Char) (position : Nat) (line column : Int) : Prop where
  within : position ≤ text.length
  line : line = lineBehind (text.take position)
  column : column = columnBehind (text.take position)

theorem StandsIn.isPlace {c : Cursor} {text : List Char} (h : c.StandsIn text) :
    IsPlace text c.position c.line c.column :=
  ⟨h.within, congrArg Nat.cast h.line, congrArg Nat.cast h.column⟩

/-- The character at a cursor is the one at its position. -/
theorem StandsIn.current {c : Cursor} {text : List Char} (h : c.StandsIn text) :
    c.current = text[c.position]? := by
  rw [Cursor.current, h.rest, List.head?_drop]

/-! ## Where a reading fails -/

theorem stringBody_fails {quote : Char} {xs done : List Char} {c c' : Cursor} {e : LexError}
    (h : stringBody quote xs done c = (.error e, c')) : ∃ cause, e = c'.fail cause := by
  fun_induction stringBody quote xs done c with
  | case1 done c =>
      cases h
      exact ⟨_, rfl⟩
  | case2 xs done c => cases h
  | case3 xs done c _ =>
      cases h
      exact ⟨_, rfl⟩
  | case4 done c _ _ =>
      cases h
      exact ⟨_, rfl⟩
  | case5 done c y ys _ _ ih => exact ih h
  | case6 x xs done c _ _ _ ih => exact ih h

theorem stringFrom_fails {c c' : Cursor} {quote : Char} {rest : List Char} {e : LexError}
    (h : c.stringFrom quote rest = (.error e, c')) : ∃ cause, e = c'.fail cause := by
  rw [stringFrom] at h
  split at h
  · cases h
  · next heq =>
      cases h
      exact stringBody_fails heq

theorem number_fails {c c' : Cursor} {e : LexError} (h : c.number = (.error e, c')) :
    ∃ cause, e = c'.fail cause := by
  rw [number] at h
  split at h
  · cases h
    exact ⟨_, rfl⟩
  · cases h

theorem sign_fails {c c' : Cursor} {first : Char} {e : LexError}
    (h : c.sign first = (.error e, c')) : ∃ cause, e = c'.fail cause := by
  rw [sign] at h
  split at h
  · cases h
  · split at h
    · cases h
    · cases h
      exact ⟨_, rfl⟩

/-- A reading that fails says where it leaves the cursor. -/
theorem next_fails {c c' : Cursor} {e : LexError} (h : c.next = (.error e, c')) :
    ∃ cause, e = c'.fail cause := by
  rw [next, tokenHere] at h
  split at h
  · cases h
  · split_ifs at h
    · cases h
    · exact number_fails h
    · exact stringFrom_fails h
    · cases h
    · exact sign_fails h

/-! ## Reading after reading -/

/-- A cursor and its next reading say where they are in a text: the cursor at its position, a token
    at its first character, and a failure where the reading stopped. -/
structure Tracks (c : Cursor) (text : List Char) : Prop where
  place : IsPlace text c.position c.line c.column
  current : c.current = text[c.position]?
  ended : c.current = none ↔ c.position = text.length
  span : c.position ≤ c.skipTrivia.position ∧ c.skipTrivia.position ≤ c.next.2.position
  token : ∀ t, c.next.1 = .ok t → IsPlace text c.skipTrivia.position t.line t.column
  failure : ∀ e, c.next.1 = .error e →
    e.position = c.next.2.position ∧ IsPlace text e.position e.line e.column

theorem StandsIn.tracks {c : Cursor} {text : List Char} (h : c.StandsIn text) :
    c.Tracks text := by
  obtain ⟨hhere, hpassed, -⟩ := h.passes
  obtain ⟨haccounts, hnext, hspanned⟩ := h.accounts
  refine ⟨h.isPlace, h.current, ?_, ⟨hpassed, hspanned⟩, ?_, ?_⟩
  · rw [h.current, List.getElem?_eq_none_iff]
    exact ⟨fun hle => Nat.le_antisymm h.within hle, fun heq => heq.ge⟩
  · intro t ht
    obtain ⟨hline, hcolumn⟩ := haccounts.place t ht
    exact ⟨hhere.within, hline, hcolumn⟩
  · intro e he
    obtain ⟨cause, rfl⟩ := next_fails (Prod.ext he rfl : c.next = (.error e, c.next.2))
    exact ⟨rfl, hnext.isPlace⟩

/-- However many tokens and failures are read from a source, the cursor stays in it: the character
    at the cursor is the one at its position, and none exactly at the end; its line is one more than
    the line ends before the position, and its column one more than the characters behind the last
    of them.  The place of a token or a failure is in the same way that of a position which its
    reading went over. -/
theorem readings_tracked (source : String) (n : Nat) :
    ((ofString source).behind n).Tracks source.toList :=
  (standsIn_behind source.toList n).tracks

/-- An escaped line end within a string counts as a line: the failure at the end of this text is on
    its second line. -/
example : (ofString "'a\\\nb").next.1 =
    .error ⟨.stringUnclosed Text.singleQuote, 5, 2, 2⟩ := by rfl

end BraceScript.Cursor
