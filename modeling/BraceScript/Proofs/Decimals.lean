import Mathlib
import BraceScript.Proofs.Numerals

/-! # Decimals — what a number with a point denotes

    A number with a point is read as the binary64 value closest to its digits, taken as an integer,
    over a power of ten.  The reader does not round where the first digit that counts stands for a
    power of ten beyond `±400`: there it takes zero or infinity at once, and that is what rounding
    would come to.

    * `digitsValue_lt`, `pow_le_digitsValue`: the value of some digits against their number;
    * `floatOfRatio_tiny`, `floatOfRatio_huge`: quotients that are out of range;
    * `floatOfDecimal_eq`: no decimal is rounded to anything else for the sake of its size;
    * `Numeral.read_digits`, `Numeral.read_point`: what the numbers of programs denote. -/

namespace BraceScript.Number

variable {cs whole fraction : List Char}

/-! ## The value of digits -/

theorem digitsValue_cons (c : Char) (cs : List Char) :
    digitsValue (c :: cs) = 10 ^ cs.length * (c.toNat - 48) + digitsValue cs := by
  have hcons : digitsValue (c :: cs) = Nat.ofDigitChars 10 cs (c.toNat - 48) := by
    show Nat.ofDigitChars 10 cs (10 * 0 + (c.toNat - 48)) = _
    rw [Nat.mul_zero, Nat.zero_add]
  rw [hcons]
  exact Nat.ofDigitChars_eq_ofDigitChars_zero

theorem digitsValue_lt (h : ∀ c ∈ cs, c.isDigit = true) : digitsValue cs < 10 ^ cs.length := by
  induction cs with
  | nil => decide
  | cons c cs ih =>
      obtain ⟨hc, hcs⟩ := List.forall_mem_cons.mp h
      have hdigit := (toNat_of_isDigit hc).2
      have hrest := ih hcs
      have hfirst : 10 ^ cs.length * (c.toNat - 48) ≤ 10 ^ cs.length * 9 :=
        Nat.mul_le_mul_left _ (by omega)
      rw [digitsValue_cons, List.length_cons, Nat.pow_succ]
      omega

/-- The first digit counts, unless it is zero. -/
theorem pow_le_digitsValue {c : Char} (hc : c.isDigit = true) (hzero : c ≠ '0') (cs : List Char) :
    10 ^ cs.length ≤ digitsValue (c :: cs) := by
  have hne : c.toNat ≠ 48 := fun h => hzero (Char.toNat_inj.mp h)
  have hdigit := (toNat_of_isDigit hc).1
  rw [digitsValue_cons]
  exact (Nat.le_mul_of_pos_right _ (by omega)).trans (Nat.le_add_right _ _)

theorem digitsValue_dropZeros (cs : List Char) :
    digitsValue (cs.dropWhile (· == '0')) = digitsValue cs := by
  induction cs with
  | nil => rfl
  | cons c cs ih =>
      by_cases hc : c = '0'
      · subst hc
        rw [List.dropWhile_cons_of_pos (by rfl), ih, digitsValue_cons]
        simp
      · rw [List.dropWhile_cons_of_neg (by simpa using hc)]

/-! ## Quotients that are out of range -/

theorem floorLog2_bounds (num den : Nat) :
    (num.log2 : Int) - den.log2 - 1 ≤ floorLog2 num den ∧
      floorLog2 num den ≤ (num.log2 : Int) - den.log2 := by
  rw [floorLog2]
  split <;> omega

theorem log2_add_le {a b k : Nat} (ha : a ≠ 0) (h : a * 2 ^ k ≤ b) : a.log2 + k ≤ b.log2 := by
  have hpos : 0 < a * 2 ^ k := Nat.mul_pos (Nat.pos_of_ne_zero ha) (Nat.two_pow_pos k)
  rw [Nat.le_log2 (Nat.ne_zero_of_lt (hpos.trans_le h)), Nat.pow_add]
  exact (Nat.mul_le_mul_right _ (Nat.log2_self_le ha)).trans h

theorem roundDiv_small {num den : Nat} (h : 2 * num < den) : roundDiv num den = 0 := by
  rw [roundDiv, Nat.div_eq_of_lt (by omega), Nat.mod_eq_of_lt (by omega)]
  exact if_pos h

theorem ratioBits_tiny {num den : Nat} (h : 2 * (num * 2 ^ 1074) < den) :
    ratioBits num den = 0 := by
  by_cases hnum : num = 0
  · rw [ratioBits, if_pos hnum]
  have hlog := log2_add_le hnum ((Nat.le_mul_of_pos_left _ Nat.two_pos).trans h.le)
  have hfloor := (floorLog2_bounds num den).2
  -- the unit in which such a quotient is counted is the least there is
  have hunit : max (floorLog2 num den - 52) (-1074) = -1074 := by
    clear h
    omega
  have hround : roundDiv (num * 2 ^ 1074) (den * 2 ^ 0) = 0 := by
    rw [Nat.pow_zero, Nat.mul_one]
    exact roundDiv_small h
  have hfield : ((-1074 : Int) + 1074).toNat = 0 := rfl
  have hdown : (-(-1074 : Int)).toNat = 1074 := rfl
  have hup : (-1074 : Int).toNat = 0 := rfl
  rw [ratioBits, if_neg hnum]
  simp only [hunit, hfield, hdown, hup, Nat.pow_eq, hround, Nat.zero_mul]

theorem ratioBits_huge {num den : Nat} (hden : den ≠ 0) (h : den * 2 ^ 1026 ≤ num) :
    infinityBits ≤ ratioBits num den := by
  have hlog := log2_add_le hden h
  have hfloor := (floorLog2_bounds num den).1
  have hunit : 2047 ≤ (max (floorLog2 num den - 52) (-1074) + 1074).toNat := by
    clear h
    omega
  have hnum : num ≠ 0 := by
    rintro rfl
    rw [Nat.log2_zero] at hlog
    omega
  rw [ratioBits, if_neg hnum]
  exact (Nat.mul_le_mul_right (2 ^ 52) hunit).trans (Nat.le_add_right _ _)

/-- A quotient of less than half the least positive value is rounded to zero. -/
theorem floatOfRatio_tiny (negative : Bool) {num den : Nat} (h : 2 * (num * 2 ^ 1074) < den) :
    floatOfRatio negative num den = floatOfBits negative 0 := by
  rw [floatOfRatio, floatOfRatio?, ratioBits_tiny h]
  rfl

/-- A quotient beyond the greatest value is infinite. -/
theorem floatOfRatio_huge (negative : Bool) {num den : Nat} (hden : den ≠ 0)
    (h : den * 2 ^ 1026 ≤ num) : floatOfRatio negative num den = infinity negative := by
  have hrange := ratioBits_huge hden h
  rw [floatOfRatio, floatOfRatio?]
  simp only [Nat.not_lt.mpr hrange, if_false]
  rfl

/-! ## Decimals -/

theorem two_pow_le_ten_pow {k n : Nat} (hk : k ≤ 3 * n) : 2 ^ k ≤ 10 ^ n :=
  calc 2 ^ k ≤ 2 ^ (3 * n) := Nat.pow_le_pow_right Nat.two_pos hk
    _ = (2 ^ 3) ^ n := Nat.pow_mul ..
    _ ≤ 10 ^ n := Nat.pow_le_pow_left (by decide) n

/-- A number of few digits over a power of ten with more zeros is less than a power of two. -/
theorem tiny_of_places {v size places k n : Nat} (hv : v < 10 ^ size) (hk : k + 1 ≤ 3 * n)
    (hplaces : size + n ≤ places) : 2 * (v * 2 ^ k) < 10 ^ places :=
  calc 2 * (v * 2 ^ k) = v * 2 ^ (k + 1) := by rw [Nat.pow_succ, Nat.mul_left_comm, Nat.mul_comm 2]
    _ < 10 ^ size * 10 ^ n :=
        Nat.mul_lt_mul_of_lt_of_le hv (two_pow_le_ten_pow hk) (Nat.pow_pos (by decide))
    _ = 10 ^ (size + n) := (Nat.pow_add ..).symm
    _ ≤ 10 ^ places := Nat.pow_le_pow_right (by decide) hplaces

/-- A number of many digits over a power of ten with fewer zeros is more than a power of two. -/
theorem huge_of_places {v size places k n : Nat} (hv : 10 ^ size ≤ v) (hk : k ≤ 3 * n)
    (hplaces : places + n ≤ size) : 10 ^ places * 2 ^ k ≤ v :=
  calc 10 ^ places * 2 ^ k ≤ 10 ^ places * 10 ^ n := Nat.mul_le_mul_left _ (two_pow_le_ten_pow hk)
    _ = 10 ^ (places + n) := (Nat.pow_add ..).symm
    _ ≤ 10 ^ size := Nat.pow_le_pow_right (by decide) hplaces
    _ ≤ v := hv

/-- Digits with some places behind the point denote the value closest to their quotient by a power
    of ten, of whatever size they are. -/
theorem floatOfDecimal_eq (negative : Bool) (h : ∀ c ∈ cs, c.isDigit = true) (places : Nat) :
    floatOfDecimal negative cs (-places) =
      floatOfRatio negative (digitsValue cs) (10 ^ places) := by
  have hdigits : ∀ c ∈ cs.dropWhile (· == '0'), c.isDigit = true :=
    fun c hc => h c ((List.dropWhile_sublist _).subset hc)
  have hfirst := List.head?_dropWhile_not (· == '0') cs
  have hup : (-(places : Int)).toNat = 0 := by omega
  have hdown : (- -(places : Int)).toNat = places := by omega
  -- without leading zeros the number of digits bounds the value on both sides
  rw [floatOfDecimal, ← digitsValue_dropZeros cs]
  generalize cs.dropWhile (· == '0') = digits at hdigits hfirst
  simp only [hup, hdown, Nat.pow_eq, Nat.pow_zero, Nat.mul_one]
  split
  · next hsmall =>
      refine (floatOfRatio_tiny negative ?_).symm
      rw [Bool.or_eq_true, List.isEmpty_iff, decide_eq_true_eq] at hsmall
      rcases hsmall with rfl | hscale
      · rw [show digitsValue [] = 0 from rfl, Nat.zero_mul, Nat.mul_zero]
        exact Nat.pow_pos (by decide)
      · exact tiny_of_places (digitsValue_lt hdigits) (by decide : 1074 + 1 ≤ 3 * 400) (by omega)
  · next hsmall =>
      split
      · next hlarge =>
          refine (floatOfRatio_huge negative (Nat.pow_pos (by decide)).ne' ?_).symm
          cases digits with
          | nil => simp at hsmall
          | cons c digits =>
              have hvalue := pow_le_digitsValue (hdigits c List.mem_cons_self)
                (by simpa using hfirst) digits
              rw [List.length_cons] at hlarge
              exact huge_of_places hvalue (by decide : 1026 ≤ 3 * 400) (by omega)
      · rfl

/-! ## Numbers of programs -/

theorem readUnsigned_point (negative : Bool) (hwhole : ∀ c ∈ whole, c.isDigit = true)
    (hfraction : ∀ c ∈ fraction, c.isDigit = true) (hne : fraction ≠ []) :
    readUnsigned negative (whole ++ '.' :: fraction) =
      some (floatOfDecimal negative (whole ++ fraction) (-fraction.length)) := by
  have htake : (whole ++ '.' :: fraction).takeWhile (·.isDigit) = whole := by
    rw [List.takeWhile_append_of_pos hwhole, List.takeWhile_cons]
    exact List.append_nil whole
  have hdrop : (whole ++ '.' :: fraction).dropWhile (·.isDigit) = '.' :: fraction := by
    rw [List.dropWhile_append_of_pos hwhole, List.dropWhile_cons]
    rfl
  have hall : fraction.takeWhile (·.isDigit) = fraction :=
    List.takeWhile_eq_self_iff.mpr hfraction
  have hnone : fraction.dropWhile (·.isDigit) = [] := List.dropWhile_eq_nil_iff.mpr hfraction
  have hempty : fraction.isEmpty = false := by simpa using hne
  rw [readUnsigned]
  simp only [htake, hdrop, hall, hnone, hempty, Bool.and_false, Bool.false_eq_true, if_false,
    readExponent, Int.zero_sub]

/-- A number with a point denotes the value closest to its digits over a power of ten. -/
theorem readFloat_point (hwhole : ∀ c ∈ whole, c.isDigit = true)
    (hfraction : ∀ c ∈ fraction, c.isDigit = true) (hne : fraction ≠ []) :
    readFloat (String.ofList (whole ++ '.' :: fraction)) =
      .ok (floatOfRatio false (digitsValue (whole ++ fraction)) (10 ^ fraction.length)) := by
  have hnumeral : ∀ c ∈ whole ++ '.' :: fraction, IsNumeralChar c :=
    List.forall_mem_append.mpr ⟨fun c hc => .inl (hwhole c hc),
      List.forall_mem_cons.mpr ⟨.inr rfl, fun c hc => .inl (hfraction c hc)⟩⟩
  have hfilter : (whole ++ '.' :: fraction).filter (· != '_') = whole ++ '.' :: fraction := by
    refine List.filter_eq_self.mpr fun c hc => bne_iff_ne.mpr ?_
    rintro rfl
    exact absurd (hnumeral '_' hc).range.2 (by decide)
  -- no name of a value has a point in it
  have hword : ∀ name : String, '.' ∉ name.toList →
      String.ofList ((whole ++ '.' :: fraction).map Char.toLower) ≠ name := by
    rintro _ hname rfl
    rw [String.toList_ofList] at hname
    exact hname (List.mem_map.mpr ⟨'.', List.mem_append_right _ List.mem_cons_self, by decide⟩)
  have hfit := underscoresFit_numeral hnumeral (by decide : ' ' ≠ '_')
  rw [readFloat, String.toList_ofList, plain_numeral hnumeral, hfilter, splitSign_numeral hnumeral]
  simp only [hfit, hword "inf" (by decide), hword "infinity" (by decide), hword "nan" (by decide),
    readUnsigned_point false hwhole hfraction hne, Bool.not_true, Bool.false_eq_true, or_self,
    if_false]
  rw [floatOfDecimal_eq false (List.forall_mem_append.mpr ⟨hwhole, hfraction⟩)]

theorem Numeral.read_digits (h : ∀ c ∈ cs, c.isDigit = true) (hne : cs ≠ []) :
    read (String.ofList cs) =
      if maxDigits < cs.length then .error (.tooManyDigits cs.length)
      else .ok (.integer (digitsValue cs)) := by
  have hpoint : cs.contains '.' = false := by
    rw [List.contains_eq_mem, decide_eq_false_iff_not]
    intro hmem
    exact absurd (h '.' hmem) (by decide)
  rw [read, String.toList_ofList, hpoint, if_neg (by decide), readInteger_digits h hne]
  split <;> rfl

theorem Numeral.read_point (hwhole : ∀ c ∈ whole, c.isDigit = true)
    (hfraction : ∀ c ∈ fraction, c.isDigit = true) (hne : fraction ≠ []) :
    read (String.ofList (whole ++ '.' :: fraction)) =
      .ok (.float
        (floatOfRatio false (digitsValue (whole ++ fraction)) (10 ^ fraction.length))) := by
  have hpoint : (whole ++ '.' :: fraction).contains '.' = true := by simp
  rw [read, String.toList_ofList, hpoint, if_pos rfl, readFloat_point hwhole hfraction hne]
  rfl

end BraceScript.Number
