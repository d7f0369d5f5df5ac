import Mathlib
import BraceScript.Proofs.Binary64
import BraceScript.Proofs.Relaying

/-! # Zero division — which faults of zero are reported

    The divisor of a quotient or a remainder is compared with zero before anything is computed, and
    this catches every zero: a run reports a division by zero exactly if it comes to a zero divisor.
    A power is computed without such a test.  Where zero has no power, the run fails with a fault
    that has no code; among real numbers this is zero with a negative exponent.

    * `binaryBy_eq_error_iff`: the operations that have a fault of zero;
    * `pow_eq_zeroToNegativePower`: the powers of real numbers that have one;
    * `zero_divisors_reported`: what runs report. -/

namespace BraceScript

open Eval (perform)

/-! ## Quotients and remainders -/

/-- Complex numbers have a quotient unless the divisor is zero. -/
theorem Number.Complex.isZero_of_div? {a b : Number.Complex} (h : a.div? b = none) :
    b.isZero = true := by
  unfold Number.Complex.div? at h
  dsimp only at h
  split at h
  · next hlonger =>
      split at h
      · next hre =>
          have him := Number.beq_zero_of_abs_le hlonger hre
          rw [Number.Complex.isZero, Number.beq_zero_of_abs hre, him]
          rfl
      · cases h
  · split at h <;> cases h

namespace Value

variable {v w : Value} {f : Fault}

theorem isZero_int {n : Int} (h : v.quantity? = some (.int n)) : v.isZero = true ↔ n = 0 := by
  cases v with
  | int _ | bool _ =>
      cases h
      exact decide_eq_true_iff
  | _ => cases h

theorem isZero_float {x : Float} (h : v.quantity? = some (.float x)) :
    v.isZero = true ↔ (x == 0.0) = true := by
  cases v with
  | float _ =>
      cases h
      exact beq_iff_eq.trans Number.compareInt_zero_iff
  | _ => cases h

theorem isZero_complex {z : Number.Complex} (h : v.quantity? = some (.complex z)) :
    v.isZero = true ↔ z.isZero = true := by
  cases v with
  | complex _ =>
      cases h
      show (z.im == 0.0 && sameIntFloat 0 z.re) = true ↔ (z.re == 0.0 && z.im == 0.0) = true
      rw [Bool.and_eq_true, Bool.and_eq_true, and_comm]
      exact and_congr_left fun _ => beq_iff_eq.trans Number.compareInt_zero_iff
  | _ => cases h

theorem floatOfInt_eq_ok {n : Int} {x : Float} (h : floatOfInt n = .ok x) :
    Number.floatOfInt? n = some x := by
  unfold floatOfInt at h
  split at h
  · next hx =>
      cases h
      exact hx
  · cases h

/-- A value is zero if it is zero as a complex number. -/
theorem isZero_of_complexOf {q : Quantity} {z : Number.Complex} (hq : w.quantity? = some q)
    (hz : complexOf q = .ok z) (hzero : z.isZero = true) : w.isZero = true := by
  cases q with
  | int n =>
      cases hn : floatOfInt n with
      | error f =>
          rw [complexOf, hn] at hz
          cases hz
      | ok x =>
          rw [complexOf, hn] at hz
          cases hz
          rw [isZero_int hq]
          exact Number.exists_zero_iff.mp
            ⟨x, floatOfInt_eq_ok hn, (Bool.and_eq_true_iff.mp hzero).1⟩
  | float x =>
      cases hz
      exact (isZero_float hq).mpr (Bool.and_eq_true_iff.mp hzero).1
  | complex _ =>
      cases hz
      exact (isZero_complex hq).mpr hzero

theorem measures_div (hw : ¬ w.isZero = true) : Measures IsPlain (v.div w) := by
  rw [div, if_neg hw]
  unfold arithmetic
  split
  · next p q hp hq =>
      unfold lift
      split
      · exact measures_divInts _ _
      · exact .ok trivial
      · exact (measures_floatOfInt _).map fun _ _ => trivial
      · exact (measures_floatOfInt _).map fun _ _ => trivial
      · refine (measures_complexOf _).bind fun a _ => ?_
        refine (measures_complexOf _).named.bind fun b hb => ?_
        unfold divComplex
        split
        · exact .ok trivial
        · next hnone =>
            exact absurd (isZero_of_complexOf hq hb (Number.Complex.isZero_of_div? hnone)) hw
  · exact .error trivial

/-- What has one fault for a zero, and else no fault of zero. -/
theorem guarded_eq_error_iff {x : Except Fault Value} {g : Fault} (hf : f.OfZero)
    (hzero : w.isZero = true → x = .error g)
    (hother : ¬ w.isZero = true → Yields (¬ Fault.OfZero ·) IsPlain x) :
    x = .error f ↔ w.isZero = true ∧ f = g := by
  constructor
  · intro h
    by_cases hw : w.isZero = true
    · rw [hzero hw] at h
      exact ⟨hw, (Except.error.inj h).symm⟩
    · exact absurd hf ((hother hw).fault h)
  · rintro ⟨hw, rfl⟩
    exact hzero hw

theorem div_eq_error_iff (hf : f.OfZero) :
    v.div w = .error f ↔ w.isZero = true ∧ f = .divisionByZero :=
  guarded_eq_error_iff hf (fun hw => if_pos hw) fun hw =>
    (measures_div hw).mono fun _ => Fault.OfMeasure.not_ofZero

theorem floorDiv_eq_error_iff (hf : f.OfZero) :
    v.floorDiv w = .error f ↔ w.isZero = true ∧ f = .divisionByZero :=
  guarded_eq_error_iff hf (fun hw => if_pos hw) fun hw =>
    yields_floorDiv (fun _ => Fault.OfMeasure.not_ofZero) v fun h => absurd h hw

theorem mod_eq_error_iff (hf : f.OfZero) :
    v.mod w = .error f ↔ w.isZero = true ∧ f = .moduloByZero :=
  guarded_eq_error_iff hf (fun hw => if_pos hw) fun hw =>
    yields_mod (fun _ => Fault.OfMeasure.not_ofZero) v (fun h => absurd h hw) fun _ _ h => h

/-- A power has a fault of its own. -/
theorem pow_ofZero (hf : f.OfZero) (h : v.pow w = .error f) :
    f = .zeroToNegativePower ∨ f = .zeroToComplexPower := by
  have hyields : Yields (fun g => g.OfZero → g = .zeroToNegativePower ∨ g = .zeroToComplexPower)
      IsPlain (v.pow w) :=
    yields_pow (fun _ hg hzero => absurd hzero hg.not_ofZero) (fun _ => .inl rfl)
      (fun _ => .inr rfl) v w
  exact hyields.fault h hf

/-- The operations that have a fault of zero. -/
theorem binaryBy_eq_error_iff (hf : f.OfZero) {operator : String} :
    v.binaryBy operator w = .error f ↔
      (operator = "/" ∨ operator = "//") ∧ w.isZero = true ∧ f = .divisionByZero ∨
      operator = "%" ∧ w.isZero = true ∧ f = .moduloByZero ∨
      operator = "**" ∧ v.pow w = .error f := by
  constructor
  · intro h
    have hmeasured : ∀ {x : Except Fault Value}, Measures IsPlain x → x ≠ .error f :=
      fun hx hfault => (hx.fault hfault).not_ofZero hf
    unfold binaryBy at h
    split at h
    · exact absurd h (hmeasured (measures_add v w))
    split at h
    · exact absurd h (hmeasured (measures_sub v w))
    split at h
    · exact absurd h (hmeasured (measures_mul v w))
    split at h
    · next hop => exact .inl ⟨.inl hop, (div_eq_error_iff hf).mp h⟩
    split at h
    · next hop => exact .inl ⟨.inr hop, (floorDiv_eq_error_iff hf).mp h⟩
    split at h
    · next hop => exact .inr (.inl ⟨hop, (mod_eq_error_iff hf).mp h⟩)
    split at h
    · next hop => exact .inr (.inr ⟨hop, h⟩)
    · cases h
      exact hf.elim
  · rintro (⟨rfl | rfl, h⟩ | ⟨rfl, h⟩ | ⟨rfl, h⟩)
    · exact (div_eq_error_iff hf).mpr h
    · exact (floorDiv_eq_error_iff hf).mpr h
    · exact (mod_eq_error_iff hf).mpr h
    · exact h

/-! ## Powers -/

theorem floatOfInt_bind_eq_error {α : Type} {n : Int} {f : Float → Except Fault α} {fault : Fault}
    (hfault : fault ≠ .integerTooLarge) : (floatOfInt n >>= f) = .error fault ↔
      ∃ x, Number.floatOfInt? n = some x ∧ f x = .error fault := by
  unfold floatOfInt
  cases Number.floatOfInt? n with
  | none =>
      constructor
      · intro h
        cases h
        exact absurd rfl hfault
      · rintro ⟨x, h, -⟩
        cases h
  | some x =>
      constructor
      · exact fun h => ⟨x, rfl, h⟩
      · rintro ⟨y, h, herror⟩
        cases h
        exact herror

/-- Zero has no power with a negative exponent, unless that is infinite. -/
theorem powFloats_eq_zeroToNegativePower {x y : Float} :
    powFloats x y = .error .zeroToNegativePower ↔
      (x == 0.0) = true ∧ y < 0.0 ∧ y.isInf = false := by
  constructor
  · have hyields : Yields (fun f => f = .zeroToNegativePower →
        (x == 0.0) = true ∧ y < 0.0 ∧ y.isInf = false) IsPlain (powFloats x y) := by
      refine yields_powFloats (fun f hf h => ?_) (fun hx hy hinf _ => ⟨hx, hy, hinf⟩) ?_
      · subst h
        exact hf.elim
      · intro _ h
        cases h
    exact fun h => hyields.fault h rfl
  · rintro ⟨hx, hy, hinf⟩
    obtain ⟨hxnan, hxinf⟩ := Number.plain_of_zero hx
    obtain ⟨hynan, hyzero⟩ := Number.plain_of_negative hy
    have hspecial : powSpecial? x y = some (.error .zeroToNegativePower) := by
      rw [powSpecial?, if_neg hyzero, if_neg hxnan, if_neg hynan, if_neg (by simp [hinf]),
        if_neg hxinf, if_pos hx, if_pos hy]
    rw [powFloats, hspecial]

theorem powInts_eq_zeroToNegativePower {m n : Int} :
    powInts m n = .error .zeroToNegativePower ↔
      m = 0 ∧ n < 0 ∧ (Number.floatOfInt? n).isSome = true := by
  unfold powInts
  split
  · next hn =>
      constructor
      · intro h
        cases h
      · rintro ⟨-, hneg, -⟩
        omega
  · have hne : Fault.zeroToNegativePower ≠ .integerTooLarge := fun h => by cases h
    simp only [floatOfInt_bind_eq_error hne, powFloats_eq_zeroToNegativePower,
      ← Number.exists_zero_iff, ← Number.exists_negative_iff]
    constructor
    · rintro ⟨x, hx, y, hy, hzero, hneg⟩
      exact ⟨⟨x, hx, hzero⟩, y, hy, hneg⟩
    · rintro ⟨⟨x, hx, hzero⟩, y, hy, hneg⟩
      exact ⟨x, hx, y, hy, hzero, hneg⟩

/-- A negative exponent that is in the range of binary64 values. -/
def IsNegativeInRange (w : Value) : Prop :=
  match w.quantity? with
  | some (.int n) => n < 0 ∧ (Number.floatOfInt? n).isSome = true
  | some (.float y) => y < 0.0 ∧ y.isInf = false
  | _ => False

theorem isReal_cases (h : v.isReal = true) :
    (∃ n, v.quantity? = some (.int n)) ∨ ∃ x, v.quantity? = some (.float x) := by
  cases v with
  | int n => exact .inl ⟨n, rfl⟩
  | bool b => exact .inl ⟨_, rfl⟩
  | float x => exact .inr ⟨x, rfl⟩
  | _ => cases h

/-- Of the real numbers, only zero is without powers, and only without negative ones. -/
theorem pow_eq_zeroToNegativePower (hv : v.isReal = true) (hw : w.isReal = true) :
    v.pow w = .error .zeroToNegativePower ↔ v.isZero = true ∧ w.IsNegativeInRange := by
  have hne : Fault.zeroToNegativePower ≠ .integerTooLarge := fun h => by cases h
  rcases isReal_cases hv with ⟨m, hm⟩ | ⟨x, hx⟩ <;> rcases isReal_cases hw with ⟨n, hn⟩ | ⟨y, hy⟩
  · simp only [pow, arithmetic, IsNegativeInRange, hm, hn, lift, isZero_int hm]
    exact powInts_eq_zeroToNegativePower
  · simp only [pow, arithmetic, IsNegativeInRange, hm, hy, lift, isZero_int hm,
      floatOfInt_bind_eq_error hne, powFloats_eq_zeroToNegativePower, ← Number.exists_zero_iff]
    constructor
    · rintro ⟨x, hx, hzero, hneg⟩
      exact ⟨⟨x, hx, hzero⟩, hneg⟩
    · rintro ⟨⟨x, hx, hzero⟩, hneg⟩
      exact ⟨x, hx, hzero, hneg⟩
  · simp only [pow, arithmetic, IsNegativeInRange, hx, hn, lift, isZero_float hx,
      floatOfInt_bind_eq_error hne, powFloats_eq_zeroToNegativePower, ← Number.exists_negative_iff]
    constructor
    · rintro ⟨y, hy, hzero, hneg⟩
      exact ⟨hzero, y, hy, hneg⟩
    · rintro ⟨hzero, y, hy, hneg⟩
      exact ⟨y, hy, hzero, hneg⟩
  · simp only [pow, arithmetic, IsNegativeInRange, hx, hy, lift, isZero_float hx]
    exact powFloats_eq_zeroToNegativePower

theorem quantity_of_count {n : Int} (h : v.count? = some n) : v.quantity? = some (.int n) := by
  cases v with
  | int _ | bool _ =>
      cases h
      rfl
  | _ => cases h

/-- Integers have whole exponents, so that their powers are not complex. -/
theorem pow_ne_zeroToComplexPower {a b : Int} (hv : v.quantity? = some (.int a))
    (hw : w.quantity? = some (.int b)) : v.pow w ≠ .error .zeroToComplexPower := by
  have hyields : Yields (· ≠ .zeroToComplexPower) IsPlain (v.pow w) := by
    have hmeasure : ∀ f : Fault, f.OfMeasure → f ≠ .zeroToComplexPower := by
      rintro f hf rfl
      exact hf
    simp only [pow, arithmetic, hv, hw, lift, powInts]
    split
    · exact .ok trivial
    · next hb =>
        refine ((measures_floatOfInt a).mono hmeasure).bind fun x _ => ?_
        refine (Yields.named ((measures_floatOfInt b).mono hmeasure)).bind fun y hy => ?_
        refine yields_powFloats hmeasure (fun _ _ _ h => by cases h) fun hwhole => ?_
        rw [Number.isWhole_floatOfInt (by omega) (floatOfInt_eq_ok hy)] at hwhole
        cases hwhole
  exact fun h => hyields.fault h rfl

end Value

/-! ## Runs -/

theorem Fault.coded?_divisionByZero_iff {f : Fault} :
    (∃ message, f.coded? = some (.divisionByZero, message)) ↔
      f = .divisionByZero ∨ f = .moduloByZero := by
  constructor
  · rintro ⟨message, h⟩
    cases f with
    | divisionByZero => exact .inl rfl
    | moduloByZero => exact .inr rfl
    | _ => cases h
  · rintro (rfl | rfl)
    · exact ⟨_, rfl⟩
    · exact ⟨_, rfl⟩

/-- A run reports a division by zero exactly if it comes to a quotient or a remainder whose divisor
    is zero.  It fails with an unreported fault of zero exactly if it comes to a power with that
    fault. For real numbers this is zero with a negative exponent, which is in range, and integers
    and truth values have no other such fault. -/
theorem zero_divisors_reported (depth : Nat) (task : Task) (m : Machine) :
    ((∃ f message after, perform depth task m = .error (.fault f) after ∧
        f.coded? = some (.divisionByZero, message)) ↔
      ∃ u ∈ visits depth task m, ∃ operator v w, u.Applies operator v w ∧
        operator ∈ ["/", "//", "%"] ∧ w.isZero = true) ∧
    (∀ f, f = .zeroToNegativePower ∨ f = .zeroToComplexPower → f.coded? = none ∧
      ((∃ after, perform depth task m = .error (.fault f) after) ↔
        ∃ u ∈ visits depth task m, ∃ v w, u.Applies "**" v w ∧ v.pow w = .error f)) ∧
    (∀ v w : Value, v.isReal = true → w.isReal = true →
      (v.pow w = .error .zeroToNegativePower ↔ v.isZero = true ∧ w.IsNegativeInRange)) ∧
    (∀ (v w : Value) (a b : Int), v.count? = some a → w.count? = some b →
      v.pow w ≠ .error .zeroToComplexPower) := by
  refine ⟨⟨?_, ?_⟩, ?_, fun v w hv hw => Value.pow_eq_zeroToNegativePower hv hw, ?_⟩
  · rintro ⟨f, message, after, hrun, hcoded⟩
    have hkind := Fault.coded?_divisionByZero_iff.mp ⟨message, hcoded⟩
    have hf : f.OfZero := by rcases hkind with rfl | rfl <;> trivial
    obtain ⟨u, hu, operator, v, w, happlies, hfault⟩ := (perform_ofZero_iff hf).mp ⟨after, hrun⟩
    rcases (Value.binaryBy_eq_error_iff hf).mp hfault with
      ⟨rfl | rfl, hw, -⟩ | ⟨rfl, hw, -⟩ | ⟨-, hpow⟩
    · exact ⟨u, hu, _, v, w, happlies, by simp, hw⟩
    · exact ⟨u, hu, _, v, w, happlies, by simp, hw⟩
    · exact ⟨u, hu, _, v, w, happlies, by simp, hw⟩
    · rcases hkind with rfl | rfl <;> rcases Value.pow_ofZero hf hpow with h | h <;> cases h
  · rintro ⟨u, hu, operator, v, w, happlies, hoperator, hw⟩
    have hreport : ∀ f : Fault, f.OfZero → v.binaryBy operator w = .error f →
        ∃ after, perform depth task m = .error (.fault f) after :=
      fun f hf hfault => (perform_ofZero_iff hf).mpr ⟨u, hu, operator, v, w, happlies, hfault⟩
    simp only [List.mem_cons, List.not_mem_nil, or_false, ← or_assoc] at hoperator
    rcases hoperator with hdivision | hmodulo
    · have hf : Fault.OfZero .divisionByZero := trivial
      obtain ⟨after, hrun⟩ := hreport _ hf
        ((Value.binaryBy_eq_error_iff hf).mpr (.inl ⟨hdivision, hw, rfl⟩))
      exact ⟨_, _, after, hrun, rfl⟩
    · have hf : Fault.OfZero .moduloByZero := trivial
      obtain ⟨after, hrun⟩ := hreport _ hf
        ((Value.binaryBy_eq_error_iff hf).mpr (.inr (.inl ⟨hmodulo, hw, rfl⟩)))
      exact ⟨_, _, after, hrun, rfl⟩
  · intro f hkind
    have hf : f.OfZero := by rcases hkind with rfl | rfl <;> trivial
    refine ⟨by rcases hkind with rfl | rfl <;> rfl, (perform_ofZero_iff hf).trans ⟨?_, ?_⟩⟩
    · rintro ⟨u, hu, operator, v, w, happlies, hfault⟩
      rcases (Value.binaryBy_eq_error_iff hf).mp hfault with ⟨-, -, rfl⟩ | ⟨-, -, rfl⟩ | ⟨rfl, hpow⟩
      · rcases hkind with h | h <;> cases h
      · rcases hkind with h | h <;> cases h
      · exact ⟨u, hu, v, w, happlies, hpow⟩
    · rintro ⟨u, hu, v, w, happlies, hpow⟩
      exact ⟨u, hu, "**", v, w, happlies, hpow⟩
  · intro v w a b hv hw
    exact Value.pow_ne_zeroToComplexPower (Value.quantity_of_count hv) (Value.quantity_of_count hw)

/-- A difference of a truth value with itself is a zero divisor inside of a sum, and false has no
    power with a negative exponent. -/
theorem zero_divisors_reported_nested :
    ∃ (sum power : Node) (m : Machine), m.stack = [Record.program.set "x" (.bool true)] ∧
      sum = .binary (.number "1") "+" (.binary (.number "2") "//"
        (.binary (.identifier "x") "-" (.identifier "x"))) ∧
      (∃ f message after, perform 5 (.eval sum) m = .error (.fault f) after ∧
        f.coded? = some (.divisionByZero, message)) ∧
      power = .binary (.boolean "false") "**" (.unary "-" (.identifier "x")) ∧
      (∃ after, perform 5 (.eval power) m = .error (.fault .zeroToNegativePower) after) ∧
      Value.pow (.int (-2)) (.int (-1)) ≠ .error .zeroToComplexPower := by
  let divisor : Node := .binary (.identifier "x") "-" (.identifier "x")
  let quotient : Node := .binary (.number "2") "//" divisor
  let sum : Node := .binary (.number "1") "+" quotient
  let exponent : Node := .unary "-" (.identifier "x")
  let power : Node := .binary (.boolean "false") "**" exponent
  let m : Machine := ⟨[Record.program.set "x" (.bool true)], [], [], []⟩
  obtain ⟨hreported, -, hreal, hwhole⟩ := zero_divisors_reported 5 (.eval sum) m
  obtain ⟨-, hpower, -, -⟩ := zero_divisors_reported 5 (.eval power) m
  refine ⟨sum, power, m, rfl, rfl, hreported.mpr ?_, rfl, (hpower _ (.inl rfl)).2.mpr ?_, ?_⟩
  · have hvisited : (visits 5 (.eval sum) m)[2]? = some ⟨4, .eval quotient, m⟩ := by cbv
    refine ⟨_, List.mem_of_getElem? hvisited, "//", .int 2, .int 0, ?_, by decide, by decide⟩
    exact ⟨3, .number "2", divisor, m, m, rfl, rfl, by cbv, by cbv⟩
  · refine ⟨_, Visit.self_mem_run ⟨5, .eval power, m⟩, .bool false, .int (-1), ?_, ?_⟩
    · exact ⟨4, .boolean "false", exponent, m, m, rfl, rfl, by cbv, by cbv⟩
    · exact (hreal (.bool false) (.int (-1)) rfl rfl).mpr ⟨by decide, by decide, by decide⟩
  · exact hwhole (.int (-2)) (.int (-1)) (-2) (-1) rfl rfl

/-- Zero with a negative exponent is a fault without a code. -/
theorem zero_power_unreported :
    ∃ source tree, parse source = .ok tree ∧ (analyze tree).1 = none ∧
      (interpret 8 tree).exit = some (.fault .zeroToNegativePower) ∧
      Fault.coded? .zeroToNegativePower = none := by
  let power : Node := .binary (.number "0") "**" (.unary "-" (.number "1"))
  let tree : Node := .program (.block [.display power])
  have hparse : parse "\x7b\nshow 0 ** -1\n\x7d" = .ok tree := by cbv
  let m : Machine := ⟨[Record.program], [], [], [.pushed Record.program]⟩
  -- the program asks for its block, that for the statement, and that for the power
  have hblock : ⟨7, .eval (.block [.display power]), m⟩ ∈
      Visit.asks ⟨8, .eval tree, Machine.initial⟩ := List.mem_cons_self
  have hstatement : ⟨6, .eval (.display power), m⟩ ∈
      Visit.asks ⟨7, .eval (.block [.display power]), m⟩ := List.mem_cons_self
  have hpower : ⟨5, .eval power, m⟩ ∈ Visit.asks ⟨6, .eval (.display power), m⟩ :=
    List.mem_cons_self
  have hvisited : ⟨5, .eval power, m⟩ ∈ visits 8 (.eval tree) Machine.initial :=
    Visit.mem_run_succ.mpr (.inr (.inl ⟨_, hblock, Visit.mem_run_succ.mpr
      (.inr (.inl ⟨_, hstatement, Visit.mem_run_succ.mpr
        (.inr (.inl ⟨_, hpower, Visit.self_mem_run _⟩))⟩))⟩))
  have happlies : Visit.Applies ⟨5, .eval power, m⟩ "**" (.int 0) (.int (-1)) :=
    ⟨4, .number "0", .unary "-" (.number "1"), m, m, rfl, rfl, by cbv, by cbv⟩
  have hpow : Value.pow (.int 0) (.int (-1)) = .error .zeroToNegativePower :=
    (Value.pow_eq_zeroToNegativePower rfl rfl).mpr ⟨by decide, by decide, by decide⟩
  have hf : Fault.OfZero .zeroToNegativePower := trivial
  obtain ⟨after, hrun⟩ := (perform_ofZero_iff hf).mpr
    ⟨_, hvisited, "**", _, _, happlies, hpow⟩
  have hexit : (interpret 8 tree).exit = some (.fault .zeroToNegativePower) := by
    rw [interpret, Eval.eval, hrun]
  exact ⟨_, tree, hparse, by cbv, hexit, rfl⟩

end BraceScript
