import Mathlib.Algebra.Order.Ring.Int
import Mathlib.Tactic.Ring
import RowLedger.Decimal.Basic

/-!
# Exact sums

A sum gives digits up when it needs more than 96 bits, and what it gives up is
lost unless the digits are zeros. They are, as long as all amounts are
multiples of one power of ten and the sum, counted in that power, is below the
bound: the digits that are given up are then behind the last place that any
amount uses. Trailing zeros in an operand, which make its scale larger than it
need be, do no harm.

So there is a scale of amounts for each `s` up to 28: the multiples of
`quantum s`, and below `capacity s` all of their sums and differences are
exact.

## Main definitions

* `quantum`: The finest units in one unit of the last place.
* `capacity`: The first amount that may not fit.

## Theorems

* `isNegative_iff`, `isPositive_iff`, `isZero_iff`: The signs of amounts.
* `fit_exact`: Zeros are given up without a loss.
* `add?_exact`, `sub?_exact`: Sums and differences below the capacity are exact.
-/

namespace RowLedger

theorem roundHalfEven_of_dvd {n d : Nat} (hd : 0 < d) (h : d ∣ n) : roundHalfEven n d = n / d := by
  have hr : n % d = 0 := Nat.mod_eq_zero_of_dvd h
  simp only [roundHalfEven, hr]
  rw [if_neg (by omega)]

namespace Decimal

/-- The finest units in one unit of the last of so many places. -/
def quantum (scale : Nat) : Nat := 10 ^ (maxScale - scale)

/-- The first amount with so many places that may not fit. -/
def capacity (scale : Nat) : Nat := bound * quantum scale

theorem ten_pow_pos (n : Nat) : 0 < 10 ^ n := Nat.pow_pos (by decide)

theorem isZero_iff (d : Decimal) : d.isZero = true ↔ d.units = 0 := by
  have hpos : (10 : Int) ^ (maxScale - d.scale) ≠ 0 := Int.ne_of_gt (Int.pow_pos (by decide))
  rw [isZero, beq_iff_eq, units, atScale, Int.mul_eq_zero, or_iff_left hpos, signed]
  split
  · omega
  · omega

theorem isPositive_iff (d : Decimal) : d.isPositive = true ↔ 0 < d.units := by
  have hpos : (0 : Int) < 10 ^ (maxScale - d.scale) := Int.pow_pos (by decide)
  rw [units, atScale, mul_pos_iff_of_pos_right hpos, isPositive, signed]
  cases hn : d.negative with
  | true =>
      simp only [Bool.not_true, Bool.false_and, Bool.false_eq_true, ↓reduceIte, false_iff]
      omega
  | false =>
      simp only [Bool.not_false, Bool.true_and, Bool.not_eq_true', Bool.false_eq_true, ↓reduceIte,
        isZero, beq_eq_false_iff_ne]
      omega

theorem isNegative_iff (d : Decimal) : d.isNegative = true ↔ d.units < 0 := by
  have hflip : d.neg.isPositive = d.isNegative := by
    simp only [isPositive, isNegative, neg, isZero, Bool.not_not]
  rw [← hflip, isPositive_iff, units_neg]
  omega

theorem ofParts?_eq {negative : Bool} {mantissa scale : Nat} (hm : mantissa < bound)
    (hs : scale ≤ maxScale) :
    ofParts? negative mantissa scale = some ⟨negative, mantissa, scale, hm, hs⟩ := by
  rw [ofParts?, dif_pos ⟨hm, hs⟩]

/-- Zeros are given up without a loss. `more` digits that may still be given up are zeros, and to
give them all up is enough. -/
theorem fit_exact (negative : Bool) (exact : Nat) :
    ∀ (scale dropped more : Nat), more ≤ scale → scale ≤ maxScale →
      10 ^ (dropped + more) ∣ exact → exact / 10 ^ (dropped + more) < bound →
      ∃ c, fit negative exact dropped scale = some c ∧ c.negative = negative ∧
        c.scale ≤ scale ∧ c.mantissa * 10 ^ (scale + dropped - c.scale) = exact := by
  intro scale
  induction scale with
  | zero =>
      intro dropped more hmore hscale hdvd hlt
      -- With no digit left to give up nothing more has to go.
      obtain rfl : more = 0 := Nat.le_zero.1 hmore
      rw [Nat.add_zero] at hdvd hlt
      have hround := roundHalfEven_of_dvd (ten_pow_pos dropped) hdvd
      refine ⟨⟨negative, exact / 10 ^ dropped, 0, hlt, hscale⟩, ?_, rfl, Nat.le_refl 0, ?_⟩
      · rw [fit, hround, ofParts?_eq hlt hscale]
      · rw [Nat.zero_add, Nat.sub_zero]
        exact Nat.div_mul_cancel hdvd
  | succ scale ih =>
      intro dropped more hmore hscale hdvd hlt
      by_cases hfits : exact / 10 ^ dropped < bound
      · have hdvd' : 10 ^ dropped ∣ exact :=
          Nat.dvd_trans (Nat.pow_dvd_pow 10 (Nat.le_add_right dropped more)) hdvd
        have hround := roundHalfEven_of_dvd (ten_pow_pos dropped) hdvd'
        refine ⟨⟨negative, exact / 10 ^ dropped, scale + 1, hfits, hscale⟩, ?_, rfl,
          Nat.le_refl _, ?_⟩
        · simp only [fit, if_pos hfits, hround]
          exact ofParts?_eq hfits hscale
        · rw [show scale + 1 + dropped - (scale + 1) = dropped from by omega]
          exact Nat.div_mul_cancel hdvd'
      · -- One digit more has to go, and it is one of those that are zeros.
        obtain ⟨more, rfl⟩ : ∃ more', more = more' + 1 := by
          cases more with
          | zero => exact absurd hlt hfits
          | succ more => exact ⟨more, rfl⟩
        rw [show dropped + (more + 1) = dropped + 1 + more from by omega] at hdvd hlt
        rcases ih (dropped + 1) more (by omega) (by omega) hdvd hlt with
          ⟨c, hfit, hneg, hle, hmantissa⟩
        refine ⟨c, ?_, hneg, by omega, ?_⟩
        · rw [fit, if_neg hfits, hfit]
        · rw [show scale + 1 + dropped - c.scale = scale + (dropped + 1) - c.scale from by omega]
          exact hmantissa

/-- The units of an amount, counted at a scale that is not below its own. -/
theorem units_eq_atScale {d : Decimal} {scale : Nat} (hle : d.scale ≤ scale)
    (hscale : scale ≤ maxScale) : d.units = d.atScale scale * 10 ^ (maxScale - scale) := by
  rw [units, atScale, atScale, Int.mul_assoc, ← Int.pow_add]
  congr 2
  omega

theorem quantum_eq {s scale : Nat} (hle : s ≤ scale) (hscale : scale ≤ maxScale) :
    quantum s = 10 ^ (scale - s) * 10 ^ (maxScale - scale) := by
  rw [quantum, ← Nat.pow_add]
  congr 1
  omega

-- If the scale is finer than the quantum, all digits below the quantum are zeros and may go; if it
-- is coarser, the sum fits as it is.
/-- How many digits of a sum have to go at most, and that they are zeros. -/
theorem exists_zeros {s scale n : Nat} (hscale : scale ≤ maxScale)
    (hdvd : quantum s ∣ n * 10 ^ (maxScale - scale))
    (hlt : n * 10 ^ (maxScale - scale) < capacity s) :
    ∃ more ≤ scale, 10 ^ more ∣ n ∧ n / 10 ^ more < bound := by
  have hpos := ten_pow_pos (maxScale - scale)
  rcases Nat.le_total s scale with hle | hle
  · rw [quantum_eq hle hscale] at hdvd
    rw [capacity, quantum_eq hle hscale, ← Nat.mul_assoc] at hlt
    refine ⟨scale - s, Nat.sub_le _ _, Nat.dvd_of_mul_dvd_mul_right hpos hdvd, ?_⟩
    refine Nat.div_lt_of_lt_mul ?_
    rw [Nat.mul_comm]
    exact Nat.lt_of_mul_lt_mul_right hlt
  · refine ⟨0, Nat.zero_le _, Nat.one_dvd n, ?_⟩
    rw [Nat.pow_zero, Nat.div_one]
    have hq : quantum s ≤ 10 ^ (maxScale - scale) :=
      Nat.pow_le_pow_right (by decide) (Nat.sub_le_sub_left hle maxScale)
    exact Nat.lt_of_mul_lt_mul_right (Nat.lt_of_lt_of_le hlt (Nat.mul_le_mul_left bound hq))

/-- A sum that is a multiple of a quantum and below the capacity is fitted without a loss. -/
theorem fit_of_quantum {s scale : Nat} (hscale : scale ≤ maxScale) {sum : Int}
    (hdvd : (quantum s : Int) ∣ sum * 10 ^ (maxScale - scale))
    (hlt : (sum * 10 ^ (maxScale - scale)).natAbs < capacity s) :
    ∃ c, fit (decide (sum < 0)) sum.natAbs 0 scale = some c ∧
      c.units = sum * 10 ^ (maxScale - scale) := by
  have habs : (sum * 10 ^ (maxScale - scale)).natAbs = sum.natAbs * 10 ^ (maxScale - scale) := by
    rw [Int.natAbs_mul, Int.natAbs_pow]
    rfl
  rw [habs] at hlt
  rw [Int.natCast_dvd, habs] at hdvd
  rcases exists_zeros hscale hdvd hlt with ⟨more, hmore, hzeros, hbound⟩
  rw [← Nat.zero_add more] at hzeros hbound
  rcases fit_exact (decide (sum < 0)) sum.natAbs scale 0 more hmore hscale hzeros hbound with
    ⟨c, hfit, hneg, hle, hmantissa⟩
  refine ⟨c, hfit, ?_⟩
  have hsigned : c.atScale scale = sum := by
    have hcast : (c.mantissa : Int) * 10 ^ (scale - c.scale) = sum.natAbs := by
      rw [← hmantissa, Nat.add_zero]
      push_cast
      rfl
    rw [atScale, signed, hneg]
    by_cases hsum : sum < 0
    · rw [if_pos (by simpa using hsum), Int.neg_mul, hcast]
      omega
    · rw [if_neg (by simpa using hsum), hcast]
      omega
  rw [units_eq_atScale hle hscale, hsigned]

/-- Multiples of one quantum are added without a loss if their sum is below the capacity. -/
theorem add?_exact {s : Nat} {a b : Decimal} (ha : (quantum s : Int) ∣ a.units)
    (hb : (quantum s : Int) ∣ b.units) (hlt : (a.units + b.units).natAbs < capacity s) :
    ∃ c, a.add? b = some c ∧ c.units = a.units + b.units := by
  by_cases haz : a.isZero = true
  · exact ⟨b, add?_zero_left haz, by rw [(isZero_iff a).1 haz, Int.zero_add]⟩
  · rw [Bool.not_eq_true] at haz
    by_cases hbz : b.isZero = true
    · exact ⟨a, add?_zero_right haz hbz, by rw [(isZero_iff b).1 hbz, Int.add_zero]⟩
    · rw [Bool.not_eq_true] at hbz
      have hscale : max a.scale b.scale ≤ maxScale := Nat.max_le.2 ⟨a.scale_le, b.scale_le⟩
      have hsum : a.units + b.units = (a.atScale (max a.scale b.scale) +
          b.atScale (max a.scale b.scale)) * 10 ^ (maxScale - max a.scale b.scale) := by
        rw [Int.add_mul, ← units_eq_atScale (Nat.le_max_left _ _) hscale,
          ← units_eq_atScale (Nat.le_max_right _ _) hscale]
      have hdvd := Int.dvd_add ha hb
      rw [hsum] at hdvd hlt
      rcases fit_of_quantum hscale hdvd hlt with ⟨c, hfit, hunits⟩
      refine ⟨c, ?_, hunits.trans hsum.symm⟩
      rw [add?, haz, hbz]
      exact hfit

theorem sub?_exact {s : Nat} {a b : Decimal} (ha : (quantum s : Int) ∣ a.units)
    (hb : (quantum s : Int) ∣ b.units) (hlt : (a.units - b.units).natAbs < capacity s) :
    ∃ c, a.sub? b = some c ∧ c.units = a.units - b.units := by
  rw [sub?]
  split
  · rename_i hzero
    rw [(isZero_iff b).1 hzero, Int.sub_zero] at hlt ⊢
    have := add?_exact ha hb (by rwa [(isZero_iff b).1 hzero, Int.add_zero])
    rwa [(isZero_iff b).1 hzero, Int.add_zero] at this
  · have := add?_exact (b := b.neg) ha (by rwa [units_neg, Int.dvd_neg])
      (by rwa [units_neg, ← Int.sub_eq_add_neg])
    rwa [units_neg, ← Int.sub_eq_add_neg] at this

end Decimal

end RowLedger
