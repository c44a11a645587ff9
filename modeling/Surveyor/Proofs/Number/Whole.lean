import Mathlib
import Surveyor.Number.Binary64

/-! # Whole numbers

A sum of measures is that of a list of numbers (`sumOf_eq_sum`).

Rounding a whole number to a double scales it to a significand of 53 bits, rounds, and puts the bits
together. Up to 1023 bits the exponent stays in range, whichever way the significand is rounded, so that
the bits are those of a finite double (`Binary64.isInf_ofInt`).
-/

namespace Surveyor

theorem sumOf_eq_sum {α : Type} (measure : α → Nat) (items : List α) :
    sumOf measure items = (items.map measure).sum := by
  induction items with
  | nil => rfl
  | cons item rest inductionHypothesis =>
    rw [sumOf_cons, inductionHypothesis, List.map_cons, List.sum_cons]

end Surveyor

namespace Surveyor.Binary64

/-! ## Bits -/

/-- The bits that a significand and an exponent are put together from. -/
def assemble (m : Nat) (e : Int) : Nat :=
  let (m, e) := if m == pow2 53 then (pow2 52, e + 1) else (m, e)
  if m < pow2 52 then m
  else if e + 1075 ≥ 2047 then 2047 * pow2 52
  else (m - pow2 52) + (e + 1075).toNat * pow2 52

theorem assemble_lt {m : Nat} {e : Int} (narrow : m ≤ 2 ^ 53) (low : e ≤ 970) :
    assemble m e < 2047 * 2 ^ 52 := by
  have two52 : pow2 52 = 2 ^ 52 := rfl
  have two53 : pow2 53 = 2 ^ 53 := rfl
  unfold assemble
  rw [two52, two53]
  by_cases full : m = 2 ^ 53
  · -- Rounding has carried into the exponent, for which there is room.
    have inRange : ¬ e + 1 + 1075 ≥ 2047 := by omega
    simp only [full, beq_self_eq_true, ↓reduceIte, inRange]
    split <;> omega
  · have inRange : ¬ e + 1075 ≥ 2047 := by omega
    simp only [beq_iff_eq, full, ↓reduceIte, inRange]
    split <;> omega

open Float.Model UnpackedFloat in
/-- Bits below those of infinity are the bits of a finite double. -/
theorem isInf_ofBits {bits : Nat} (small : bits < 2047 * 2 ^ 52) :
    (Float.ofBits (UInt64.ofNat bits)).isInf = false := by
  let word : BitVec Format.binary64.numBits := (UInt64.ofNat bits).toBitVec
  have exponent : unpackExponent word ≠ -BitVec.ofNat Format.binary64.exponentBits 1 := by
    intro full
    have numbers := congrArg BitVec.toNat full
    simp [unpackExponent, word] at numbers
    omega
  have isNumber : isNaNBits word = false := by
    rw [isNaNBits, decide_eq_false_iff_not]
    exact fun undefined => exponent undefined.1
  -- A double is kept as packed bits, and these are unpacked again to be looked at.
  show (unpack Format.binary64 (pack Format.binary64 (unpack Format.binary64 word))).isInf = false
  rw [pack_unpack, isNumber, if_neg Bool.false_ne_true, UnpackedFloat.unpack]
  simp only [if_neg exponent]
  split
  · split <;> rfl
  · rfl

/-! ## Scaling -/

/-- A fraction that is divided by a power of two, and the exponent of the power. -/
def scaled (numerator denominator : Nat) (e : Int) : Nat × Nat × Int :=
  let e := max e (-1074)
  if e < 0 then (numerator * pow2 (-e).toNat, denominator, e)
  else (numerator, denominator * pow2 e.toNat, e)

/-- If the first guess leaves enough bits, it decides on the double. -/
theorem nearest_of_wide {numerator denominator : Nat} (positive : numerator ≠ 0) {n d : Nat} {e : Int}
    (first : scaled numerator denominator (numerator.log2 - denominator.log2 - 52) = (n, d, e))
    (wide : 2 ^ 52 ≤ n / d) :
    nearest numerator denominator = Float.ofBits (UInt64.ofNat (assemble (roundQuotient n d) e)) := by
  let guess : Int := numerator.log2 - denominator.log2 - 52
  have unfolded : nearest numerator denominator = if numerator == 0 then 0.0 else
      let parts :=
        if (scaled numerator denominator guess).1 / (scaled numerator denominator guess).2.1 < pow2 52 then
          scaled numerator denominator (guess - 1)
        else scaled numerator denominator guess
      Float.ofBits (UInt64.ofNat (assemble (roundQuotient parts.1 parts.2.1) parts.2.2)) := rfl
  have notZero : (numerator == 0) = false := by simpa using positive
  have notLow : ¬ n / d < pow2 52 := Nat.not_lt.mpr wide
  rw [unfolded, notZero, first]
  simp only [Bool.false_eq_true, ↓reduceIte, notLow]

/-- The guess leaves 53 bits of a whole number. -/
theorem exists_scaled {n : Nat} (positive : n ≠ 0) :
    ∃ a d, scaled n 1 (n.log2 - (Nat.log2 1 : Nat) - 52) = (a, d, (n.log2 : Int) - 52)
      ∧ 2 ^ 52 ≤ a / d ∧ a / d < 2 ^ 53 := by
  have atLeast := Nat.log2_self_le positive
  have below := @Nat.lt_log2_self n
  have one : Nat.log2 1 = 0 := by decide
  have guess : max ((n.log2 : Int) - (Nat.log2 1 : Nat) - 52) (-1074) = n.log2 - 52 := by
    rw [one]
    omega
  unfold scaled
  simp only [guess]
  generalize n.log2 = size at atLeast below
  -- A short number is shifted up to 53 bits, a long one is divided down to them.
  by_cases short : size < 52
  · have low : (size : Int) - 52 < 0 := by omega
    have power : (-((size : Int) - 52)).toNat = 52 - size := by omega
    refine ⟨n * 2 ^ (52 - size), 1, ?_, ?_, ?_⟩
    · rw [if_pos low, power]
      rfl
    · rw [Nat.div_one]
      calc 2 ^ 52 = 2 ^ size * 2 ^ (52 - size) := by rw [← Nat.pow_add, Nat.add_sub_cancel' short.le]
        _ ≤ n * 2 ^ (52 - size) := Nat.mul_le_mul_right _ atLeast
    · rw [Nat.div_one]
      calc n * 2 ^ (52 - size) < 2 ^ (size + 1) * 2 ^ (52 - size) :=
            Nat.mul_lt_mul_of_pos_right below (Nat.two_pow_pos _)
        _ = 2 ^ 53 := by rw [← Nat.pow_add]; congr 1; omega
  · have high : ¬ (size : Int) - 52 < 0 := by omega
    have power : ((size : Int) - 52).toNat = size - 52 := by omega
    refine ⟨n, 2 ^ (size - 52), ?_, ?_, ?_⟩
    · rw [if_neg high, power, Nat.one_mul]
      rfl
    · rw [Nat.le_div_iff_mul_le (Nat.two_pow_pos _), ← Nat.pow_add, Nat.add_sub_cancel' (not_lt.mp short)]
      exact atLeast
    · rw [Nat.div_lt_iff_lt_mul (Nat.two_pow_pos _), ← Nat.pow_add]
      exact below.trans_eq (congrArg (2 ^ ·) (by omega))

/-! ## Rounding -/

theorem roundQuotient_le (numerator denominator : Nat) :
    roundQuotient numerator denominator ≤ numerator / denominator + 1 := by
  unfold roundQuotient
  dsimp only
  split
  · omega
  · split
    · omega
    · split <;> omega

/-- A whole number of up to 1023 bits is rounded to a finite double. -/
theorem isInf_ofInt {n bits : Nat} (small : n < 2 ^ bits) (inRange : bits ≤ 1023) :
    (ofInt n).isInf = false := by
  have isNearest : ofInt n = nearest n 1 := by simp [ofInt]
  rw [isNearest]
  by_cases zero : n = 0
  · rw [zero]
    rfl
  · rw [← Nat.log2_lt zero] at small
    obtain ⟨a, d, first, wide, narrow⟩ := exists_scaled zero
    rw [nearest_of_wide zero first wide]
    have rounded := roundQuotient_le a d
    exact isInf_ofBits (assemble_lt (by omega) (by omega))

end Surveyor.Binary64
