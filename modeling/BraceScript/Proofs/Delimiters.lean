import Mathlib.Data.List.TakeWhile
import BraceScript.Text.Quoted

/-! # Delimiters — where a written part ends

    A written form puts its parts one behind the other.  What a part is and where it ends can be
    told from the whole: a word goes on up to the first delimiter, and a quoted text up to the quote
    that closes it, since what stands between the quotes is read back character by character.

    * `Text.cut_word`: two words that are followed by delimiters;
    * `Text.unquoteChar_quotedChar`: one character of a quoted text is read back;
    * `Text.cut_quoted`: two quoted texts, whatever follows them. -/

namespace BraceScript.Text

/-! ## Words -/

/-- Characters that are at their end or go on with a delimiter. -/
def Stops (p : Char → Bool) (rest : List Char) : Prop := ∀ c ∈ rest.head?, p c = true

theorem stops_nil (p : Char → Bool) : Stops p [] := fun _ hc => by cases hc

theorem stops_cons {p : Char → Bool} {c : Char} (h : p c = true) (rest : List Char) :
    Stops p (c :: rest) := by
  rintro d ⟨⟩
  exact h

theorem takeWhile_stops {p : Char → Bool} {word rest : List Char} (hword : ∀ c ∈ word, p c = false)
    (hrest : Stops p rest) : (word ++ rest).takeWhile (fun c => !p c) = word := by
  rw [List.takeWhile_append_of_pos fun c hc => by rw [hword c hc]; rfl]
  cases rest with
  | nil => exact List.append_nil word
  | cons c rest =>
      have hc : p c = true := hrest c rfl
      rw [List.takeWhile_cons, hc, Bool.not_true, if_neg (by decide), List.append_nil]

/-- Two words without delimiters that are followed by delimiters are the same where the texts
    are. -/
theorem cut_word {p : Char → Bool} {word word' rest rest' : List Char}
    (hword : ∀ c ∈ word, p c = false) (hword' : ∀ c ∈ word', p c = false) (hrest : Stops p rest)
    (hrest' : Stops p rest') (h : word ++ rest = word' ++ rest') : word = word' ∧ rest = rest' := by
  have heq : word = word' := by
    rw [← takeWhile_stops hword hrest, h, takeWhile_stops hword' hrest']
  subst heq
  exact ⟨rfl, List.append_cancel_left h⟩

/-! ## Quoted texts -/

/-- The value of a hexadecimal digit in lower case. -/
def hexValue (c : Char) : Nat := if c.toNat < 58 then c.toNat - 48 else c.toNat - 87

/-- The number that hexadecimal digits stand for. -/
def hexNumber (digits : List Char) : Nat := digits.foldl (fun n d => 16 * n + hexValue d) 0

theorem hexValue_hexDigit : ∀ n < 16, hexValue (hexDigit n) = n := by decide

/-- A number is read back from its digits, if there are enough of them. -/
theorem hexNumber_hexDigits {width n : Nat} (h : n < Nat.pow 16 width) :
    hexNumber (hexDigits width n) = n := by
  induction width generalizing n with
  | zero => exact (Nat.lt_one_iff.mp h).symm
  | succ width ih =>
      have hhigh : n / 16 < Nat.pow 16 width := Nat.div_lt_of_lt_mul (by rwa [Nat.mul_comm])
      have hlow : hexValue (hexDigit (n % 16)) = n % 16 :=
        hexValue_hexDigit _ (Nat.mod_lt n (by decide))
      have hsum : hexNumber (hexDigits (width + 1) n) =
          16 * hexNumber (hexDigits width (n / 16)) + hexValue (hexDigit (n % 16)) := by
        rw [hexNumber, hexDigits, List.foldl_append]
        rfl
      rw [hsum, ih hhigh, hlow]
      omega

theorem length_hexDigits (width n : Nat) : (hexDigits width n).length = width := by
  induction width generalizing n with
  | zero => rfl
  | succ width ih => rw [hexDigits, List.length_append, ih]; rfl

/-- Reads back a code point of the given number of digits. -/
def readCode (width : Nat) (rest : List Char) : Char × List Char :=
  (Char.ofNat (hexNumber (rest.take width)), rest.drop width)

/-- Reads back what stands behind a backslash. -/
def unquoteEscape : List Char → Option (Char × List Char)
  | [] => none
  | tag :: rest =>
      if tag = 'n' then some ('\n', rest)
      else if tag = 'r' then some ('\r', rest)
      else if tag = 't' then some ('\t', rest)
      else if tag = 'x' then some (readCode 2 rest)
      else if tag = 'u' then some (readCode 4 rest)
      else if tag = 'U' then some (readCode 8 rest)
      else some (tag, rest)

/-- Reads back the first character that stands between quotes, and what is behind it. -/
def unquoteChar : List Char → Option (Char × List Char)
  | [] => none
  | c :: rest => if c = backslash then unquoteEscape rest else some (c, rest)

theorem readCode_hexDigits {width : Nat} {c : Char} (h : c.toNat < Nat.pow 16 width)
    (rest : List Char) : readCode width (hexDigits width c.toNat ++ rest) = (c, rest) := by
  have hlength := length_hexDigits width c.toNat
  rw [readCode, List.take_left' hlength, List.drop_left' hlength, hexNumber_hexDigits h,
    Char.ofNat_toNat]

/-- A character is read back from its code point: each escape has digits enough for it. -/
theorem unquoteChar_codeEscape (c : Char) (rest : List Char) :
    unquoteChar (codeEscape c ++ rest) = some (c, rest) := by
  simp only [codeEscape]
  split_ifs with hbyte hword
  · exact congrArg some (@readCode_hexDigits 2 c hbyte rest)
  · exact congrArg some (@readCode_hexDigits 4 c hword rest)
  · have hlong : c.toNat < Nat.pow 16 8 := c.val.toNat_lt
    exact congrArg some (readCode_hexDigits hlong rest)

/-- A character between quotes is read back from how it is written there. -/
theorem unquoteChar_quotedChar (visible : Char → Bool) {quote : Char}
    (hquote : quote = singleQuote ∨ quote = doubleQuote) (c : Char) (rest : List Char) :
    unquoteChar (quotedChar visible quote c ++ rest) = some (c, rest) := by
  rw [quotedChar]
  split_ifs with hescaped hline hreturn htab hvisible
  · rcases hescaped with rfl | rfl
    · rcases hquote with rfl | rfl <;> rfl
    · rfl
  · rw [hline]; rfl
  · rw [hreturn]; rfl
  · rw [htab]; rfl
  · rw [not_or] at hescaped
    exact if_neg hescaped.2
  · exact unquoteChar_codeEscape c rest

/-- No character between quotes is written with the quote in front. -/
theorem quotedChar_head (visible : Char → Bool) {quote : Char} (hquote : backslash ≠ quote)
    (c : Char) (rest : List Char) : (quotedChar visible quote c ++ rest).head? ≠ some quote := by
  rw [quotedChar]
  split_ifs with hescaped hline hreturn htab hvisible
  · exact fun h => hquote (Option.some.inj h)
  · exact fun h => hquote (Option.some.inj h)
  · exact fun h => hquote (Option.some.inj h)
  · exact fun h => hquote (Option.some.inj h)
  · exact fun h => hescaped (.inl (Option.some.inj h))
  · simp only [codeEscape]
    split_ifs <;> exact fun h => hquote (Option.some.inj h)

theorem cut_quotedChars (visible : Char → Bool) {quote : Char}
    (hquote : quote = singleQuote ∨ quote = doubleQuote) {s s' rest rest' : List Char}
    (h : s.flatMap (quotedChar visible quote) ++ quote :: rest
      = s'.flatMap (quotedChar visible quote) ++ quote :: rest') : s = s' ∧ rest = rest' := by
  have hslash : backslash ≠ quote := by rcases hquote with rfl | rfl <;> decide
  induction s generalizing s' with
  | nil =>
      cases s' with
      | nil => exact ⟨rfl, (List.cons.inj h).2⟩
      | cons d ds =>
          -- where one text ends stands a quote, and no character of the other is written as one
          rw [List.flatMap_cons, List.append_assoc] at h
          exact absurd (congrArg List.head? h).symm (quotedChar_head visible hslash d _)
  | cons c cs ih =>
      cases s' with
      | nil =>
          rw [List.flatMap_cons, List.append_assoc] at h
          exact absurd (congrArg List.head? h) (quotedChar_head visible hslash c _)
      | cons d ds =>
          rw [List.flatMap_cons, List.flatMap_cons, List.append_assoc, List.append_assoc] at h
          have hread := congrArg unquoteChar h
          rw [unquoteChar_quotedChar visible hquote, unquoteChar_quotedChar visible hquote] at hread
          obtain ⟨rfl, hmore⟩ := Prod.mk.inj (Option.some.inj hread)
          obtain ⟨rfl, hrest⟩ := ih hmore
          exact ⟨rfl, hrest⟩

theorem quoteFor_cases (s : List Char) : quoteFor s = singleQuote ∨ quoteFor s = doubleQuote := by
  rw [quoteFor]
  split
  · exact .inr rfl
  · exact .inl rfl

/-- Two quoted texts are the same where the texts they begin are, whatever follows them. -/
theorem cut_quoted {s s' : String} {rest rest' : List Char}
    (h : (quoted s).toList ++ rest = (quoted s').toList ++ rest') : s = s' ∧ rest = rest' := by
  simp only [quoted, quotedBy, String.toList_ofList, List.cons_append, List.append_assoc,
    List.nil_append] at h
  obtain ⟨hquote, hbody⟩ := List.cons.inj h
  rw [← hquote] at hbody
  obtain ⟨heq, hrest⟩ := cut_quotedChars isPrintable (quoteFor_cases s.toList) hbody
  exact ⟨String.toList_injective heq, hrest⟩

end BraceScript.Text
