import BraceScript.Evaluation

/-! # What computing with values comes to

    Operations on values have a plain value, never `nothing` and never something given, or fail
    with one of the faults that concern values.  So a fault that concerns trees, names or the
    call stack comes from a statement or a name, and never from an operator.

    * `Measures`: what fails for the operands alone, but for no zero among them;
    * `Reckons`: what fails for the operands alone, whatever they are;
    * `Computes`: what may fail for the operator too, or for a key that a template asks for. -/

namespace BraceScript

variable {α β ε : Type}

/-- A value that can be computed with. -/
def Value.IsPlain : Value → Prop
  | .nothing | .given _ => False
  | _ => True

/-- A fault of computing, comparing, reading or writing values. -/
def Fault.OfValue : Fault → Prop
  | .unknownBinary _ | .unknownUnary _ | .unknownComparison _ | .divisionByZero | .moduloByZero
  | .unsupported _ _ _ | .unordered _ _ _ | .repetition _ | .assertion | .zeroToNegativePower
  | .zeroToComplexPower | .powerOutOfRange | .complexOutOfRange | .integerTooLarge
  | .quotientTooLarge | .countTooLarge | .repetitionTooLong | .numeral _ | .tooManyDigitsToWrite
  | .template _ => True
  | _ => False

/-- A template asks for a key that a value does not have. -/
def TemplateFault.IsMissing : TemplateFault → Prop
  | .missingKey _ => True
  | _ => False

/-- A fault of dividing by zero, or of a power that zero does not have. -/
def Fault.OfZero : Fault → Prop
  | .divisionByZero | .moduloByZero | .zeroToNegativePower | .zeroToComplexPower => True
  | _ => False

/-- A fault of values that no operator and no key can be blamed for. -/
def Fault.OfReckoning : Fault → Prop
  | .unknownBinary _ | .unknownUnary _ | .unknownComparison _ => False
  | .template fault => ¬ fault.IsMissing
  | f => f.OfValue

/-- A fault of values that no operator, no key and no zero can be blamed for. -/
def Fault.OfMeasure : Fault → Prop
  | .divisionByZero | .moduloByZero | .zeroToNegativePower | .zeroToComplexPower => False
  | f => f.OfReckoning

theorem Fault.OfMeasure.ofReckoning {f : Fault} (h : f.OfMeasure) : f.OfReckoning := by
  cases f with
  | divisionByZero | moduloByZero | zeroToNegativePower | zeroToComplexPower => exact h.elim
  | _ => exact h

theorem Fault.OfMeasure.not_ofZero {f : Fault} (h : f.OfMeasure) : ¬ f.OfZero := by
  cases f with
  | divisionByZero | moduloByZero | zeroToNegativePower | zeroToComplexPower => exact h.elim
  | _ => exact fun h => h

theorem Fault.OfReckoning.ofValue {f : Fault} (h : f.OfReckoning) : f.OfValue := by
  cases f with
  | unknownBinary _ | unknownUnary _ | unknownComparison _ => exact h.elim
  | template _ => exact trivial
  | _ => exact h

/-- An outcome is as `P` says, or a fault as `F` says. -/
inductive Yields (F : ε → Prop) (P : α → Prop) : Except ε α → Prop where
  | ok {a : α} (h : P a) : Yields F P (.ok a)
  | error {f : ε} (h : F f) : Yields F P (.error f)

/-- An outcome is as `P` says, or a fault that concerns values. -/
abbrev Computes (P : α → Prop) (x : Except Fault α) : Prop := Yields Fault.OfValue P x

/-- An outcome of any kind, or a fault that concerns values. -/
abbrev Writes (x : Except Fault α) : Prop := Computes (fun _ => True) x

/-- An outcome is as `P` says, or a fault of the operands. -/
abbrev Reckons (P : α → Prop) (x : Except Fault α) : Prop := Yields Fault.OfReckoning P x

/-- An outcome is as `P` says, or a fault of the operands, but not of a zero among them. -/
abbrev Measures (P : α → Prop) (x : Except Fault α) : Prop := Yields Fault.OfMeasure P x

namespace Yields

variable {F G : ε → Prop} {P : α → Prop} {Q : β → Prop} {x : Except ε α}

theorem mono (hx : Yields F P x) (hF : ∀ f, F f → G f) : Yields G P x := by
  cases hx with
  | ok h => exact .ok h
  | error h => exact .error (hF _ h)

theorem reckons {x : Except Fault α} (hx : Measures P x) : Reckons P x :=
  hx.mono fun _ => Fault.OfMeasure.ofReckoning

theorem computes {x : Except Fault α} (hx : Reckons P x) : Computes P x :=
  hx.mono fun _ => Fault.OfReckoning.ofValue

theorem bind {f : α → Except ε β} (hx : Yields F P x) (hf : ∀ a, P a → Yields F Q (f a)) :
    Yields F Q (x >>= f) := by
  cases hx with
  | ok h => exact hf _ h
  | error h => exact .error h

theorem map {f : α → β} (hx : Yields F P x) (hf : ∀ a, P a → Q (f a)) :
    Yields F Q (x >>= fun a => pure (f a)) :=
  hx.bind fun a h => .ok (hf a h)

theorem fault (hx : Yields F P x) {f : ε} (h : x = .error f) : F f := by
  subst h
  cases hx with
  | error h => exact h

theorem value (hx : Yields F P x) {a : α} (h : x = .ok a) : P a := by
  subst h
  cases hx with
  | ok h => exact h

/-- What is yielded is what the computation ends with. -/
theorem named (hx : Yields F P x) : Yields F (fun a => x = .ok a) x := by
  cases hx with
  | ok _ => exact .ok rfl
  | error h => exact .error h

end Yields

namespace Value

/-! ## Written forms and comparisons -/

theorem measures_integerText (n : Int) : Measures (fun _ => True) (integerText n) := by
  -- the limit is too large a number to be unfolded
  unfold integerText
  generalize Nat.pow 10 Number.maxDigits = limit
  by_cases h : n.natAbs < limit
  · rw [if_pos h]; exact .ok trivial
  · rw [if_neg h]; exact .error trivial

theorem measures_inner (v : Value) : Measures (fun _ => True) v.inner := by
  induction v with
  | int n => rw [inner]; exact measures_integerText n
  | given v ih => rw [inner]; exact ih.map fun _ _ => trivial
  | _ => exact .ok trivial

theorem measures_text (v : Value) : Measures (fun _ => True) v.text? := by
  unfold text?
  split
  · exact .ok trivial
  · exact measures_inner v

theorem measures_related (v : Value) (r : Relation) (w : Value) :
    Measures (fun _ => True) (v.related r w) := by
  unfold related
  split
  · exact .ok trivial
  · exact .ok trivial
  · exact .error trivial

/-- A comparison that there is. -/
theorem measures_compareBy {k : Kind} (hk : k.isComparison = true) (v w : Value) :
    Measures (fun _ => True) (v.compareBy k.text w) := by
  cases k with
  | equal | notEqual => exact .ok trivial
  | less | greater | lessEqual | greaterEqual => exact measures_related _ _ _
  | _ => cases hk

theorem writes_text (v : Value) : Writes v.text? := (measures_text v).reckons.computes

/-- A written comparison. -/
theorem yields_compareBy {F : Fault → Prop} (hF : ∀ f, f.OfMeasure → F f) {comparator : String}
    (hunknown : F (.unknownComparison comparator)) (v w : Value) :
    Yields F (fun _ => True) (v.compareBy comparator w) := by
  unfold compareBy
  repeat' split
  all_goals first
    | exact .ok trivial
    | exact .error hunknown
    | exact (measures_related _ _ _).mono hF

theorem writes_compareBy (comparator : String) (v w : Value) :
    Writes (v.compareBy comparator w) :=
  yields_compareBy (fun _ hf => hf.ofReckoning.ofValue) trivial v w

end Value

/-! ## Templates -/

namespace Template

/-- An outcome, or a fault other than that of a missing key. -/
abbrev Reads (x : Except TemplateFault α) : Prop := Yields (¬ ·.IsMissing) (fun _ => True) x

theorem reads_take (supply : Supply) : Reads supply.take := by
  unfold Supply.take
  split
  · exact .ok trivial
  · exact .error id

/-- Only what was given has keys to be asked for. -/
theorem yields_readKey (supply : Supply) (mapping : Value) (cs : List Char) :
    Yields (fun f => f.IsMissing → isMapping mapping = true) (fun _ => True)
      (readKey supply mapping cs) := by
  unfold readKey
  split
  · split
    · split
      · exact .error fun _ => rfl
      · dsimp only
        split
        · exact .ok trivial
        · exact .error fun _ => rfl
    · exact .error fun h => h.elim
  · exact .ok trivial

theorem reads_readNumber (limit : Nat) {tooLarge : TemplateFault} (h : ¬ tooLarge.IsMissing)
    (cs : List Char) : Reads (readNumber limit tooLarge cs) := by
  unfold readNumber
  dsimp only
  split
  · exact .error h
  · exact .ok trivial

theorem reads_starInteger (supply : Supply) : Reads (starInteger supply) := by
  refine (reads_take supply).bind fun taken _ => ?_
  obtain ⟨value, supply⟩ := taken
  cases value with
  | int _ | bool _ => exact .ok trivial
  | _ => exact .error id

theorem reads_readWidth (supply : Supply) (cs : List Char) : Reads (readWidth supply cs) := by
  unfold readWidth
  split
  · refine (reads_starInteger supply).bind fun star _ => ?_
    dsimp only
    split
    · exact .error id
    · exact .ok trivial
  · split
    · exact (reads_readNumber maxWidth id _).map fun _ _ => trivial
    · exact .ok trivial
  · exact .ok trivial

theorem reads_readPrecision (supply : Supply) (cs : List Char) :
    Reads (readPrecision supply cs) := by
  unfold readPrecision
  split
  · refine (reads_starInteger supply).bind fun star _ => ?_
    dsimp only
    split
    · exact .error id
    · exact .ok trivial
  · exact (reads_readNumber maxPrecision id _).map fun _ _ => trivial
  · exact .ok trivial

theorem yields_readDirective (supply : Supply) (mapping : Value) (cs : List Char) :
    Yields (fun f => f.IsMissing → isMapping mapping = true) (fun _ => True)
      (readDirective supply mapping cs) := by
  refine (yields_readKey supply mapping cs).bind fun key _ => ?_
  refine Yields.mono (Yields.bind (reads_readWidth _ _) fun width _ => ?_) fun f hf h => (hf h).elim
  refine (reads_readPrecision _ _).bind fun precision _ => ?_
  dsimp only
  split
  · exact .error id
  · exact .ok trivial

theorem measures_integerChars (d : Directive) (n : Int) :
    Measures (fun _ => True) (integerChars d n) := by
  unfold integerChars
  dsimp only
  split
  · exact .ok trivial
  · split
    · exact .ok trivial
    · exact (Value.measures_integerText n).map fun _ _ => trivial

theorem measures_floatOf (v : Value) : Measures (fun _ => True) (floatOf v) := by
  unfold floatOf
  split
  · split
    · exact .ok trivial
    · exact .error trivial
  · exact .ok trivial
  · exact .error id

theorem reads_characterOf (v : Value) : Reads (characterOf v) := by
  unfold characterOf
  repeat' split
  all_goals first
    | exact .ok trivial
    | exact .error id

theorem reads_integerOf (conversion : Char) (v : Value) : Reads (integerOf conversion v) := by
  unfold integerOf
  split
  · exact .ok trivial
  · exact .ok trivial
  · split
    · exact .error id
    · split
      · exact .ok trivial
      · split <;> exact .error id
  · split <;> exact .error id

theorem measures_convert (d : Directive) (index : Nat) (v : Value) :
    Measures (fun _ => True) (convert d index v) := by
  unfold convert
  split
  · exact (Value.measures_text v).map fun _ _ => trivial
  · exact (Value.measures_inner v).map fun _ _ => trivial
  · exact (Value.measures_inner v).map fun _ _ => trivial
  · split
    · exact .ok trivial
    · next hfault => exact .error ((reads_characterOf v).fault hfault)
  all_goals first
    | exact (measures_floatOf v).map fun _ _ => trivial
    | exact .error id
    | split
      · exact (measures_integerChars d _).map fun _ _ => trivial
      · next hfault => exact .error ((reads_integerOf _ v).fault hfault)

section

variable {F : Fault → Prop} (hF : ∀ f, f.OfMeasure → F f)

include hF

theorem yields_fillFrom (size : Nat) {mapping : Value}
    (hkey : isMapping mapping = true → ∀ fault, F (.template fault)) :
    ∀ (fuel : Nat) (supply : Supply) (cs : List Char),
      Yields F (fun _ => True) (fillFrom size mapping fuel supply cs) := by
  intro fuel
  induction fuel with
  | zero => intro supply cs; exact .ok trivial
  | succ fuel ih =>
      intro supply cs
      unfold fillFrom
      split
      · split
        · exact .error (hF _ id)
        · exact .ok trivial
      · exact (ih supply _).map fun _ _ => trivial
      · split
        · next fault hfault =>
            -- a key can be missing only where there are keys
            have hread := (yields_readDirective supply mapping _).fault hfault
            by_cases hmissing : fault.IsMissing
            · exact .error (hkey (hread hmissing) fault)
            · exact .error (hF _ hmissing)
        · split
          · next hfault => exact .error (hF _ ((reads_take _).fault hfault))
          · refine ((measures_convert _ _ _).mono hF).bind fun written _ => ?_
            show Yields F _ (if _ then _ else _)
            split
            · exact .error (hF _ id)
            · exact (ih _ _).map fun _ _ => trivial
      · exact (ih supply _).map fun _ _ => trivial

theorem yields_fill (template : String) {v : Value}
    (hkey : isMapping v = true → ∀ fault, F (.template fault)) :
    Yields F (fun _ => True) (fill template v) :=
  (yields_fillFrom hF _ hkey _ _ _).map fun _ _ => trivial

end

end Template

/-! ## Arithmetic -/

namespace Value

theorem measures_floatOfInt (n : Int) : Measures (fun _ => True) (floatOfInt n) := by
  unfold floatOfInt
  split
  · exact .ok trivial
  · exact .error trivial

theorem measures_complexOf (q : Quantity) : Measures (fun _ => True) (complexOf q) := by
  cases q with
  | int n => exact (measures_floatOfInt n).map fun _ _ => trivial
  | float x => exact .ok trivial
  | complex z => exact .ok trivial

section

variable {F : Fault → Prop} (hF : ∀ f, f.OfMeasure → F f)

include hF

theorem yields_lift {onInts : Int → Int → Except Fault Value}
    {onFloats : Float → Float → Except Fault Value}
    {onComplex : Number.Complex → Number.Complex → Except Fault Value}
    (hints : ∀ m n, Yields F IsPlain (onInts m n))
    (hfloats : ∀ x y, Yields F IsPlain (onFloats x y))
    (hcomplex : ∀ a b, Yields F IsPlain (onComplex a b)) (p q : Quantity) :
    Yields F IsPlain (lift onInts onFloats onComplex p q) := by
  have hint : ∀ n, Yields F (fun _ => True) (floatOfInt n) :=
    fun n => (measures_floatOfInt n).mono hF
  have hquantity : ∀ q, Yields F (fun _ => True) (complexOf q) :=
    fun q => (measures_complexOf q).mono hF
  unfold lift
  split
  · exact hints _ _
  · exact hfloats _ _
  · exact (hint _).bind fun _ _ => hfloats _ _
  · exact (hint _).bind fun _ _ => hfloats _ _
  · exact (hquantity _).bind fun _ _ => (hquantity _).bind fun _ _ => hcomplex _ _

theorem yields_arithmetic {symbol : String} {op : Quantity → Quantity → Except Fault Value}
    (hop : ∀ p q, Yields F IsPlain (op p q)) (v w : Value) :
    Yields F IsPlain (arithmetic symbol op v w) := by
  unfold arithmetic
  split
  · exact hop _ _
  · exact .error (hF _ trivial)

end

theorem measures_add (v w : Value) : Measures IsPlain (v.add w) := by
  unfold add
  split
  · exact (measures_text v).bind fun _ _ => (measures_text w).map fun _ _ => trivial
  · refine yields_arithmetic (fun _ hf => hf) (yields_lift (fun _ hf => hf) ?_ ?_ ?_) v w
    all_goals exact fun _ _ => .ok trivial

theorem measures_sub (v w : Value) : Measures IsPlain (v.sub w) := by
  refine yields_arithmetic (fun _ hf => hf) (yields_lift (fun _ hf => hf) ?_ ?_ ?_) v w
  all_goals exact fun _ _ => .ok trivial

theorem measures_repeatText (s : String) (count : Int) :
    Measures IsPlain (repeatText s count) := by
  unfold repeatText
  split
  · exact .error trivial
  · split
    · exact .ok trivial
    · split
      · exact .error trivial
      · exact .ok trivial

theorem measures_mul (v w : Value) : Measures IsPlain (v.mul w) := by
  unfold mul
  split
  · split
    · exact measures_repeatText _ _
    · exact .error trivial
  · split
    · exact measures_repeatText _ _
    · exact .error trivial
  · refine yields_arithmetic (fun _ hf => hf) (yields_lift (fun _ hf => hf) ?_ ?_ ?_) v w
    all_goals exact fun _ _ => .ok trivial

theorem measures_divInts (m n : Int) : Measures IsPlain (divInts m n) := by
  unfold divInts
  split
  · exact .ok trivial
  · exact .error trivial

theorem measures_noComplex (symbol : String) (v w : Value) :
    Measures IsPlain (noComplex symbol v w) := .error trivial

section

variable {F : Fault → Prop} (hF : ∀ f, f.OfMeasure → F f)

include hF

theorem yields_div (hzero : F .divisionByZero) (v w : Value) : Yields F IsPlain (v.div w) := by
  unfold div
  split
  · exact .error hzero
  · refine yields_arithmetic hF (yields_lift hF ?_ ?_ ?_) v w
    · exact fun m n => (measures_divInts m n).mono hF
    · exact fun _ _ => .ok trivial
    · intro a b
      unfold divComplex
      split
      · exact .ok trivial
      · exact .error hzero

theorem yields_floorDiv (v : Value) {w : Value} (hzero : w.isZero = true → F .divisionByZero) :
    Yields F IsPlain (v.floorDiv w) := by
  have hcomplex : Yields F IsPlain (noComplex "//" v w) := (measures_noComplex _ v w).mono hF
  unfold floorDiv
  split
  · next h => exact .error (hzero h)
  · split
    · exact hcomplex
    · exact hcomplex
    · refine yields_arithmetic hF (yields_lift hF ?_ ?_ fun _ _ => hcomplex) v w
      · exact fun _ _ => .ok trivial
      · exact fun _ _ => .ok trivial

/-- The remainder of a text fills in a template, which may ask for a key of what was given. -/
theorem yields_mod (v : Value) {w : Value} (hzero : w.isZero = true → F .moduloByZero)
    (hkey : Template.isMapping w = true → ∀ fault, F (.template fault)) :
    Yields F IsPlain (v.mod w) := by
  have hcomplex : Yields F IsPlain (noComplex "%" v w) := (measures_noComplex _ v w).mono hF
  unfold mod
  split
  · next h => exact .error (hzero h)
  · split
    · exact (Template.yields_fill hF _ hkey).map fun _ _ => trivial
    · exact hcomplex
    · exact hcomplex
    · refine yields_arithmetic hF (yields_lift hF ?_ ?_ fun _ _ => hcomplex) v w
      · exact fun _ _ => .ok trivial
      · exact fun _ _ => .ok trivial

end

theorem measures_powPositive (negative : Bool) (x y : Float) :
    Measures IsPlain (powPositive negative x y) := by
  unfold powPositive
  dsimp only
  split
  · exact .ok trivial
  · split
    · exact .error trivial
    · exact .ok trivial

section

variable {F : Fault → Prop}

/-- Of the bases and exponents that stand apart, only zero can be without a power. -/
theorem yields_powSpecial {x y : Float} {answer : Except Fault Value}
    (hzero : (x == 0.0) = true → y < 0.0 → y.isInf = false → F .zeroToNegativePower)
    (h : powSpecial? x y = some answer) : Yields F IsPlain answer := by
  unfold powSpecial? at h
  dsimp only at h
  split at h
  · cases h; exact .ok trivial
  · split at h
    · cases h; exact .ok trivial
    · split at h
      · cases h; exact .ok trivial
      · split at h
        · cases h; exact .ok trivial
        · next hfinite =>
            split at h
            · cases h; exact .ok trivial
            · split at h
              · next hbase =>
                  cases h
                  split
                  · next hnegative =>
                      exact .error (hzero hbase hnegative (Bool.eq_false_iff.mpr hfinite))
                  · exact .ok trivial
              · cases h

variable (hF : ∀ f, f.OfMeasure → F f)

include hF

theorem yields_powComplex (hzero : F .zeroToComplexPower) (a b : Number.Complex) :
    Yields F IsPlain (powComplex a b) := by
  unfold powComplex
  split
  · exact .ok trivial
  · exact .error hzero
  · exact .error (hF _ trivial)

/-- A power leaves the real numbers only where its exponent is not whole. -/
theorem yields_powFloats {x y : Float}
    (hzero : (x == 0.0) = true → y < 0.0 → y.isInf = false → F .zeroToNegativePower)
    (hcomplex : isWhole y = false → F .zeroToComplexPower) :
    Yields F IsPlain (powFloats x y) := by
  unfold powFloats
  split
  · next h => exact yields_powSpecial hzero h
  · split
    · split
      · exact (measures_powPositive _ _ _).mono hF
      · next hwhole => exact yields_powComplex hF (hcomplex (Bool.eq_false_iff.mpr hwhole)) _ _
    · exact (measures_powPositive _ _ _).mono hF

section

variable (hnegative : F .zeroToNegativePower) (hcomplex : F .zeroToComplexPower)

include hnegative hcomplex

theorem yields_powInts (m n : Int) : Yields F IsPlain (powInts m n) := by
  unfold powInts
  split
  · exact .ok trivial
  · exact ((measures_floatOfInt m).mono hF).bind fun _ _ =>
      ((measures_floatOfInt n).mono hF).bind fun _ _ =>
        yields_powFloats hF (fun _ _ _ => hnegative) fun _ => hcomplex

theorem yields_pow (v w : Value) : Yields F IsPlain (v.pow w) :=
  yields_arithmetic hF
    (yields_lift hF (yields_powInts hF hnegative hcomplex)
      (fun _ _ => yields_powFloats hF (fun _ _ _ => hnegative) fun _ => hcomplex)
      (yields_powComplex hF hcomplex)) v w

end

end

/-- An operation that there is, on a value that can be computed with. -/
theorem reckons_binaryBy {k : Kind} (hk : k.isAdditive || k.isMultiplicative || k = .power)
    (v : Value) {w : Value} (hw : w.IsPlain) : Reckons IsPlain (v.binaryBy k.text w) := by
  cases k with
  | plus => exact (measures_add v w).reckons
  | minus => exact (measures_sub v w).reckons
  | multiply => exact (measures_mul v w).reckons
  | divide => exact yields_div (fun _ => Fault.OfMeasure.ofReckoning) trivial v w
  | floorDivide => exact yields_floorDiv (fun _ => Fault.OfMeasure.ofReckoning) v fun _ => trivial
  | modulo =>
      refine yields_mod (fun _ => Fault.OfMeasure.ofReckoning) v (fun _ => trivial)
        fun hmapping => ?_
      cases w with
      | given _ => exact hw.elim
      | _ => cases hmapping
  | power => exact yields_pow (fun _ => Fault.OfMeasure.ofReckoning) trivial trivial v w
  | _ => cases hk

/-- A sign that there is. -/
theorem measures_unaryBy {k : Kind} (hk : k.isAdditive = true) (v : Value) :
    Measures IsPlain (v.unaryBy k.text) := by
  cases k with
  | plus | minus =>
      unfold unaryBy
      split
      · exact .ok trivial
      · exact .ok trivial
      · exact .error trivial
  | _ => cases hk

theorem computes_add (v w : Value) : Computes IsPlain (v.add w) :=
  (measures_add v w).reckons.computes

/-- A written operation has a plain value or a fault that concerns values. -/
theorem computes_binaryBy (operator : String) (v w : Value) :
    Computes IsPlain (v.binaryBy operator w) := by
  unfold binaryBy
  repeat' split
  · exact computes_add v w
  · exact (measures_sub v w).reckons.computes
  · exact (measures_mul v w).reckons.computes
  · exact yields_div (fun _ hf => hf.ofReckoning.ofValue) trivial v w
  · exact yields_floorDiv (fun _ hf => hf.ofReckoning.ofValue) v fun _ => trivial
  · exact yields_mod (fun _ hf => hf.ofReckoning.ofValue) v (fun _ => trivial) fun _ _ => trivial
  · exact yields_pow (fun _ hf => hf.ofReckoning.ofValue) trivial trivial v w
  · exact .error trivial

/-- A written sign. -/
theorem yields_unaryBy {F : Fault → Prop} (hF : ∀ f, f.OfMeasure → F f) {operator : String}
    (hunknown : F (.unknownUnary operator)) (v : Value) :
    Yields F IsPlain (v.unaryBy operator) := by
  unfold unaryBy
  repeat' split
  all_goals first
    | exact .ok trivial
    | exact .error hunknown
    | exact .error (hF _ trivial)

/-- A written sign has a plain value or a fault that concerns values. -/
theorem computes_unaryBy (operator : String) (v : Value) : Computes IsPlain (v.unaryBy operator) :=
  yields_unaryBy (fun _ hf => hf.ofReckoning.ofValue) trivial v

end Value

/-! ## Loops and literals -/

namespace Eval

theorem measures_numberValue (lexeme : String) :
    Measures Value.IsPlain (numberValue lexeme) := by
  unfold numberValue
  split
  · exact .ok trivial
  · exact .ok trivial
  · exact .error trivial

theorem measures_impliedStep (initial termination : Value) :
    Measures Value.IsPlain (impliedStep initial termination) := by
  refine (Value.measures_related _ _ _).bind fun b _ => ?_
  cases b
  · exact .ok trivial
  · exact .ok trivial

theorem measures_isPast (current termination step : Value) :
    Measures (fun _ => True) (isPast current termination step) := by
  refine (Value.measures_related _ _ _).bind fun b _ => ?_
  cases b
  · exact Value.measures_related _ _ _
  · exact Value.measures_related _ _ _

theorem computes_numberValue (lexeme : String) :
    Computes Value.IsPlain (numberValue lexeme) := (measures_numberValue lexeme).reckons.computes

theorem computes_impliedStep (initial termination : Value) :
    Computes Value.IsPlain (impliedStep initial termination) :=
  (measures_impliedStep initial termination).reckons.computes

theorem writes_isPast (current termination step : Value) :
    Writes (isPast current termination step) :=
  (measures_isPast current termination step).reckons.computes

end Eval

end BraceScript
