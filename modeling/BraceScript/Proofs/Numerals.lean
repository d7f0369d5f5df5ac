import BraceScript.Evaluation
import BraceScript.Proofs.Consumption

/-! # Numerals — naturals are written in digits and read back

    The digits of a natural are a number as programs write it, and its value is that natural, as
    long as there are not too many of them; the same bound holds for writing.

    * `Number.readInteger_digits`: what a list of digits denotes;
    * `Eval.numberValue_digitText`: the digits of a natural denote it;
    * `Value.text?_natural`: a natural is written in its digits, within the bound. -/

namespace BraceScript

namespace Number

variable {cs : List Char}

/-! ## Reading -/

theorem toNat_of_isDigit {c : Char} (h : c.isDigit = true) : 48 ≤ c.toNat ∧ c.toNat ≤ 57 := by
  simpa [Char.isDigit, UInt32.le_iff_toNat_le] using h

/-- The characters of numbers as programs write them: digits and the point. -/
def IsNumeralChar (c : Char) : Prop := c.isDigit = true ∨ c = '.'

theorem IsNumeralChar.range {c : Char} (h : IsNumeralChar c) : 46 ≤ c.toNat ∧ c.toNat ≤ 57 := by
  rcases h with h | rfl
  · have hrange := toNat_of_isDigit h
    omega
  · decide

/-- Digits and points are plain, and no blank is among them. -/
theorem plain_numeral (h : ∀ c ∈ cs, IsNumeralChar c) : Text.plain cs = cs := by
  have hplain : ∀ c ∈ cs, Text.plainChar c = c := by
    intro c hc
    rw [Text.plainChar, if_pos]
    exact Nat.lt_of_le_of_lt (h c hc).range.2 (by decide)
  have hblank : ∀ c ∈ cs, Text.isPlainBlank c = false := by
    intro c hc
    have hrange := (h c hc).range
    have hne : c ≠ ' ' := by
      rintro rfl
      exact absurd hrange.1 (by decide)
    simp only [Text.isPlainBlank, hne, decide_false, Bool.false_or, Bool.and_eq_false_iff,
      decide_eq_false_iff_not]
    omega
  have hdrop : ∀ xs : List Char, (∀ c ∈ xs, Text.isPlainBlank c = false) →
      xs.dropWhile Text.isPlainBlank = xs := by
    intro xs hxs
    cases xs with
    | nil => rfl
    | cons c xs => rw [List.dropWhile_cons, hxs c List.mem_cons_self]; rfl
  rw [Text.plain, List.map_congr_left hplain, List.map_id']
  simp only [hdrop cs hblank]
  rw [hdrop cs.reverse fun c hc => hblank c (List.mem_reverse.mp hc), List.reverse_reverse]

theorem splitSign_numeral (h : ∀ c ∈ cs, IsNumeralChar c) : splitSign cs = (false, cs) := by
  rw [splitSign.eq_def]
  split
  · exact absurd (h '-' List.mem_cons_self).range.1 (by decide)
  · exact absurd (h '+' List.mem_cons_self).range.1 (by decide)
  · rfl

theorem underscoresFit_numeral (h : ∀ c ∈ cs, IsNumeralChar c) {previous : Char}
    (hprevious : previous ≠ '_') : underscoresFit previous cs = true := by
  induction cs generalizing previous with
  | nil => simpa [underscoresFit] using hprevious
  | cons c cs ih =>
      obtain ⟨hc, hcs⟩ := List.forall_mem_cons.mp h
      have hne : c ≠ '_' := by
        rintro rfl
        exact absurd hc.range.2 (by decide)
      rw [underscoresFit, if_neg hne, ih hcs hne, bne_iff_ne.mpr hprevious, Bool.true_or,
        Bool.and_true]

/-- Digits denote their value, unless there are too many of them. -/
theorem readInteger_digits (h : ∀ c ∈ cs, c.isDigit = true) (hne : cs ≠ []) :
    readInteger (String.ofList cs) =
      if maxDigits < cs.length then .error (.tooManyDigits cs.length)
      else .ok (digitsValue cs : Int) := by
  have hnumeral : ∀ c ∈ cs, IsNumeralChar c := fun c hc => .inl (h c hc)
  have hrun : cs.takeWhile (fun c => c.isDigit || c = '_') = cs :=
    List.takeWhile_eq_self_iff.mpr fun c hc => by rw [h c hc, Bool.true_or]
  have hfilter : cs.filter (·.isDigit) = cs := List.filter_eq_self.mpr h
  have hempty : cs.isEmpty = false := by simpa using hne
  rw [readInteger, String.toList_ofList, plain_numeral hnumeral, splitSign_numeral hnumeral]
  simp only [hrun, hfilter, underscoresFit_numeral hnumeral (by decide : ' ' ≠ '_'), hempty,
    Nat.lt_irrefl, decide_false, Bool.not_true, Bool.or_false, Bool.false_eq_true, if_false]

theorem digitChars_digit (n : Nat) : ∀ c ∈ digitChars n, c.isDigit = true :=
  fun _ hc => Nat.isDigit_of_mem_toDigits (by decide) (by decide) hc

theorem digitChars_ne_nil (n : Nat) : digitChars n ≠ [] := Nat.toDigits_ne_nil

/-- The digits of a natural have its value. -/
theorem digitsValue_digitChars (n : Nat) : digitsValue (digitChars n) = n :=
  Nat.ofDigitChars_ten_toDigits

end Number

open Number (digitChars digitText maxDigits)

/-- The digits of a natural denote it, if they are not too many. -/
theorem Eval.numberValue_digitText {n : Nat} (h : (digitChars n).length ≤ maxDigits) :
    Eval.numberValue (digitText n) = .ok (.int n) := by
  have hpoint : (digitText n).toList.contains '.' = false := by
    rw [digitText, String.toList_ofList, List.contains_eq_mem, decide_eq_false_iff_not]
    intro hmem
    exact absurd (Number.digitChars_digit n '.' hmem) (by decide)
  have hread : Number.readInteger (digitText n) = .ok (n : Int) := by
    rw [digitText, Number.readInteger_digits (Number.digitChars_digit n)
      (Number.digitChars_ne_nil n), if_neg (Nat.not_lt.mpr h), Number.digitsValue_digitChars]
  rw [Eval.numberValue, Number.Numeral.read, hpoint, hread]
  rfl

theorem isDigit_digitText (n : Nat) : ∀ c ∈ (digitText n).toList, isDigit c = true := by
  intro c hc
  rw [digitText, String.toList_ofList] at hc
  have hrange := Number.toNat_of_isDigit (Number.digitChars_digit n c hc)
  simp only [isDigit, Bool.and_eq_true, decide_eq_true_eq]
  exact hrange

/-- The digits of a natural can stand in a program. -/
theorem isNumeral_digitText (n : Nat) : IsNumeral (digitText n).toList := by
  refine .inl ⟨?_, isDigit_digitText n⟩
  rw [digitText, String.toList_ofList]
  exact Number.digitChars_ne_nil n

/-! ## Writing -/

/-- A natural has at most so many digits exactly if it is below that power of ten. -/
theorem length_digitChars_le_iff (n : Nat) {k : Nat} (hk : 0 < k) :
    (digitChars n).length ≤ k ↔ n < Nat.pow 10 k :=
  Nat.length_toDigits_le_iff (by decide) hk

/-- A natural is written in its digits, if they are not too many. -/
theorem Value.text?_natural (n : Nat) : (Value.int n).text? =
    if (digitChars n).length ≤ maxDigits then .ok (digitText n)
    else .error .tooManyDigitsToWrite := by
  have hlength := length_digitChars_le_iff n (by decide : 0 < maxDigits)
  show Value.integerText n = _
  rw [Value.integerText, Int.natAbs_natCast, if_neg (Int.not_lt.mpr (Int.natCast_nonneg n)),
    String.empty_append]
  by_cases h : n < Nat.pow 10 maxDigits
  · rw [if_pos h, if_pos (hlength.mpr h)]
  · rw [if_neg h, if_neg (mt hlength.mp h)]

end BraceScript
