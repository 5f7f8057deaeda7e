import Mathlib.Algebra.Order.Field.Power
import Mathlib.Algebra.Order.Floor.Semifield
import Mathlib.Data.Rat.Floor
import Mathlib.Order.WithBot
import Mathlib.Tactic.Linarith
import RowLedger.Binary64.Basic

/-!
# Rounding keeps the order

Of two quotients the larger one is not rounded to less. That holds of the
nearest integer, because the remainders are ordered when the whole parts are
equal. For binary fractions it has to survive a change of the exponent: between
two powers of two both quotients are rounded to a multiple of the same power,
and a power of two itself is not moved, so no result crosses it from below or
falls under it from above.

Fractions are compared by their magnitudes, with the infinite ones on top. A
product of fractions that are not negative is the rounded product of their
magnitudes, and the nearest whole number depends on the magnitude only. So a
whole number that is converted, multiplied with a factor and converted back
grows with the number, whatever the factor is.

## Main definitions

* `Binary64.magnitude`: The size of a fraction.
* `Binary64.rounded`: What a quotient is rounded to if there is no end to the range.

## Theorems

* `roundHalfEven_mono`: Of two quotients the larger one is not rounded to less.
* `log2Quotient_spec`: A quotient lies between two powers of two.
* `magnitude_ofQuotient`: Past the top of the range a result is infinite.
* `magnitude_ofQuotient_mono`: The larger quotient has the larger fraction.
* `magnitude_mul_mono`: The larger fraction has the larger product.
* `toUInt64_mono`: The larger fraction has the larger whole number.
* `toUInt64_mul_mono`: There and back again, with a factor in between.
-/

namespace RowLedger

-- With equal whole parts the larger quotient has the larger remainder, in proportion, so it is
-- rounded up if the smaller one is.
/-- Of two quotients the larger one is not rounded to less. -/
theorem roundHalfEven_mono {n d n' d' : Nat} (hd : 0 < d) (hd' : 0 < d')
    (h : n * d' ≤ n' * d) : roundHalfEven n d ≤ roundHalfEven n' d' := by
  have hdiv : d * (n / d) + n % d = n := Nat.div_add_mod n d
  have hdiv' : d' * (n' / d') + n' % d' = n' := Nat.div_add_mod n' d'
  have hle : n / d ≤ n' / d' := by
    rw [Nat.le_div_iff_mul_le hd']
    refine Nat.le_of_mul_le_mul_right ?_ hd
    calc n / d * d' * d = n / d * d * d' := Nat.mul_right_comm ..
      _ ≤ n * d' := Nat.mul_le_mul_right d' (Nat.div_mul_le_self n d)
      _ ≤ n' * d := h
  rcases Nat.lt_or_eq_of_le hle with hlt | heq
  · have hup := roundHalfEven_bounds n d
    have hdown := roundHalfEven_bounds n' d'
    omega
  · have hrest : n % d * d' ≤ n' % d' * d := by
      rw [← hdiv, ← hdiv', heq] at h
      nlinarith only [h]
    simp only [roundHalfEven, heq]
    by_cases hup : d < 2 * (n % d) ∨ 2 * (n % d) = d ∧ n' / d' % 2 = 1
    · rw [if_pos hup, if_pos]
      rcases hup with hmore | ⟨htie, hodd⟩
      · exact Or.inl (by nlinarith only [hrest, hmore, hd, hd'])
      · rcases Nat.lt_or_eq_of_le (show d' ≤ 2 * (n' % d') by nlinarith only [hrest, htie, hd])
          with hlt | hsame
        · exact Or.inl hlt
        · exact Or.inr ⟨hsame.symm, hodd⟩
    · rw [if_neg hup]
      split
      · exact Nat.le_succ _
      · exact Nat.le_refl _

/-- The same, for the quotients themselves. -/
theorem roundHalfEven_mono_cast {n d n' d' : Nat} (hd : 0 < d) (hd' : 0 < d')
    (h : (n / d : ℚ) ≤ n' / d') : roundHalfEven n d ≤ roundHalfEven n' d' := by
  refine roundHalfEven_mono hd hd' ?_
  rw [div_le_div_iff₀ (by exact_mod_cast hd) (by exact_mod_cast hd')] at h
  exact_mod_cast h

namespace Binary64

/-- The size of a fraction, with the infinite ones on top. What is no number counts as zero. -/
def magnitude : Binary64 → WithTop ℚ
  | .nan => 0
  | .infinite _ => ⊤
  | .finite _ m e => ↑(m * 2 ^ e : ℚ)

/-- A power of two as a quotient of powers that are not below one. -/
theorem two_pow_toNat (e : Int) : (2 : ℚ) ^ e.toNat / 2 ^ (-e).toNat = 2 ^ e := by
  rcases Int.le_total 0 e with hle | hle
  · rw [Int.toNat_of_nonpos (show -e ≤ 0 by omega), pow_zero, div_one, ← zpow_natCast,
      Int.toNat_of_nonneg hle]
  · rw [Int.toNat_of_nonpos hle, pow_zero, one_div, ← zpow_natCast, ← zpow_neg,
      Int.toNat_of_nonneg (show 0 ≤ -e by omega), neg_neg]

/-- A quotient that is moved by a power of two. -/
theorem cast_scaled (num den : Nat) (e : Int) :
    ((num * 2 ^ (-e).toNat : Nat) : ℚ) / ((den * 2 ^ e.toNat : Nat) : ℚ) =
      (num / den : ℚ) / 2 ^ e := by
  rw [← two_pow_toNat e]
  push_cast
  field_simp

/-- The comparison of a quotient with a power of two, without fractions. -/
theorem lt_scaled_iff {num den : Nat} (hden : den ≠ 0) (e : Int) :
    num * 2 ^ (-e).toNat < den * 2 ^ e.toNat ↔ (num / den : ℚ) < 2 ^ e := by
  have hpos : (0 : ℚ) < den := by exact_mod_cast Nat.pos_of_ne_zero hden
  rw [← two_pow_toNat e, div_lt_div_iff₀ hpos (by positivity), mul_comm (2 ^ e.toNat : ℚ)]
  exact_mod_cast Iff.rfl

/-- A quotient lies between two powers of two. -/
theorem log2Quotient_spec {num den : Nat} (hnum : num ≠ 0) (hden : den ≠ 0) :
    (2 : ℚ) ^ log2Quotient num den ≤ num / den ∧
      (num / den : ℚ) < 2 ^ (log2Quotient num den + 1) := by
  have hpos : (0 : ℚ) < den := by exact_mod_cast Nat.pos_of_ne_zero hden
  -- The guess is right or one too high.
  have hlow : (2 : ℚ) ^ ((num.log2 : Int) - den.log2 - 1) ≤ num / den := by
    have hden_le : (den : ℚ) ≤ 2 ^ (den.log2 + 1) := by
      exact_mod_cast (Nat.lt_log2_self (n := den)).le
    have hnum_le : (2 : ℚ) ^ num.log2 ≤ num := by exact_mod_cast Nat.log2_self_le hnum
    calc (2 : ℚ) ^ ((num.log2 : Int) - den.log2 - 1)
        _ = 2 ^ num.log2 / 2 ^ (den.log2 + 1) := by
          rw [sub_sub, zpow_sub₀ two_ne_zero]
          norm_cast
        _ ≤ num / den := div_le_div₀ (by positivity) hnum_le hpos hden_le
  have hhigh : (num / den : ℚ) < 2 ^ ((num.log2 : Int) - den.log2 + 1) := by
    have hden_le : (2 : ℚ) ^ den.log2 ≤ den := by exact_mod_cast Nat.log2_self_le hden
    have hnum_lt : (num : ℚ) < 2 ^ (num.log2 + 1) := by
      exact_mod_cast Nat.lt_log2_self (n := num)
    calc (num / den : ℚ)
        _ < 2 ^ (num.log2 + 1) / 2 ^ den.log2 :=
          div_lt_div₀ hnum_lt hden_le (by positivity) (by positivity)
        _ = 2 ^ ((num.log2 : Int) - den.log2 + 1) := by
          rw [sub_add_eq_add_sub, zpow_sub₀ two_ne_zero]
          norm_cast
  simp only [log2Quotient, lt_scaled_iff hden]
  split
  · rename_i hless
    exact ⟨hlow, by rwa [sub_add_cancel]⟩
  · rename_i hnot
    exact ⟨not_lt.1 hnot, hhigh⟩

/-- The exponent at which a quotient is rounded. -/
def roundingExponent (num den : Nat) : Int := max (log2Quotient num den - 52) minExponent

/-- What a quotient is rounded to, in units of its exponent. -/
def roundedMantissa (num den : Nat) : Nat :=
  roundHalfEven (num * 2 ^ (-roundingExponent num den).toNat)
    (den * 2 ^ (roundingExponent num den).toNat)

/-- What a quotient is rounded to if there is no end to the range. -/
def rounded (num den : Nat) : ℚ := roundedMantissa num den * 2 ^ roundingExponent num den

section Rounded

variable {num den num' den' : Nat} (hnum : num ≠ 0) (hden : den ≠ 0)
include hnum hden

/-- The mantissa has 53 bits, or is the next power of two. -/
theorem roundedMantissa_le : roundedMantissa num den ≤ 2 ^ 53 := by
  have hexp : log2Quotient num den + 1 ≤ 53 + roundingExponent num den := by
    rw [roundingExponent]
    omega
  rw [← roundHalfEven_one (2 ^ 53)]
  refine roundHalfEven_mono_cast (by positivity) one_pos ?_
  rw [cast_scaled, div_le_iff₀ (by positivity)]
  calc (num / den : ℚ)
      _ ≤ 2 ^ (log2Quotient num den + 1) := (log2Quotient_spec hnum hden).2.le
      _ ≤ 2 ^ (53 + roundingExponent num den) := zpow_le_zpow_right₀ one_le_two hexp
      _ = (2 ^ 53 : Nat) / (1 : Nat) * 2 ^ roundingExponent num den := by
        rw [zpow_add₀ two_ne_zero]
        norm_num

/-- Above the least exponent the mantissa has all its bits. -/
theorem le_roundedMantissa (h : minExponent < roundingExponent num den) :
    2 ^ 52 ≤ roundedMantissa num den := by
  have hexp : log2Quotient num den = 52 + roundingExponent num den := by
    rw [roundingExponent] at h ⊢
    omega
  rw [← roundHalfEven_one (2 ^ 52)]
  refine roundHalfEven_mono_cast one_pos (by positivity) ?_
  rw [cast_scaled, le_div_iff₀ (by positivity)]
  calc ((2 ^ 52 : Nat) / (1 : Nat) : ℚ) * 2 ^ roundingExponent num den
      _ = 2 ^ (52 + roundingExponent num den) := by
        rw [zpow_add₀ two_ne_zero]
        norm_num
      _ ≤ num / den := hexp ▸ (log2Quotient_spec hnum hden).1

/-- The top of the range, told by the exponent and the mantissa. -/
theorem le_rounded_iff : (2 : ℚ) ^ (1024 : Int) ≤ rounded num den ↔
    maxExponent < roundingExponent num den ∨
      (roundingExponent num den = maxExponent ∧ 2 ^ 53 ≤ roundedMantissa num den) := by
  have hpos : (0 : ℚ) < 2 ^ roundingExponent num den := by positivity
  constructor
  · intro htop
    by_contra hno
    rw [not_or, not_and, not_le, not_lt] at hno
    refine absurd htop (not_le.2 ?_)
    rcases Int.lt_or_eq_of_le hno.1 with hlt | heq
    · have hle : (roundedMantissa num den : ℚ) ≤ 2 ^ 53 := by
        exact_mod_cast roundedMantissa_le hnum hden
      calc rounded num den
          _ ≤ 2 ^ (53 : Int) * 2 ^ roundingExponent num den :=
            mul_le_mul_of_nonneg_right (by exact_mod_cast hle) hpos.le
          _ = 2 ^ (53 + roundingExponent num den) := (zpow_add₀ two_ne_zero _ _).symm
          _ < 2 ^ (1024 : Int) := zpow_lt_zpow_right₀ one_lt_two (by
            rw [maxExponent] at hlt
            omega)
    · have hlt : (roundedMantissa num den : ℚ) < 2 ^ 53 := by exact_mod_cast hno.2 heq
      calc rounded num den
          _ < 2 ^ (53 : Int) * 2 ^ roundingExponent num den :=
            mul_lt_mul_of_pos_right (by exact_mod_cast hlt) hpos
          _ = 2 ^ (1024 : Int) := by
            rw [← zpow_add₀ two_ne_zero, heq, maxExponent]
            norm_num
  · rintro (hlt | ⟨heq, hle⟩)
    · have hmin : minExponent < roundingExponent num den := lt_trans (by decide) hlt
      have hle : (2 : ℚ) ^ 52 ≤ roundedMantissa num den := by
        exact_mod_cast le_roundedMantissa hnum hden hmin
      calc (2 : ℚ) ^ (1024 : Int)
          _ ≤ 2 ^ (52 + roundingExponent num den) := zpow_le_zpow_right₀ one_le_two (by
            rw [maxExponent] at hlt
            omega)
          _ = 2 ^ (52 : Int) * 2 ^ roundingExponent num den := zpow_add₀ two_ne_zero _ _
          _ ≤ rounded num den := mul_le_mul_of_nonneg_right (by exact_mod_cast hle) hpos.le
    · have hle : (2 : ℚ) ^ 53 ≤ roundedMantissa num den := by exact_mod_cast hle
      calc (2 : ℚ) ^ (1024 : Int)
          _ = 2 ^ (53 : Int) * 2 ^ roundingExponent num den := by
            rw [← zpow_add₀ two_ne_zero, heq, maxExponent]
            norm_num
          _ ≤ rounded num den := mul_le_mul_of_nonneg_right (by exact_mod_cast hle) hpos.le

/-- A result past the top of the range is infinite, and no other. -/
theorem magnitude_ofQuotient (negative : Bool) :
    (ofQuotient negative num den).magnitude =
      if (2 : ℚ) ^ (1024 : Int) ≤ rounded num den then ⊤ else ↑(rounded num den) := by
  simp only [le_rounded_iff hnum hden, ofQuotient, hnum, hden, or_self, if_false]
  rw [apply_ite magnitude]
  rfl

end Rounded

/-- What is rounded keeps its order. -/
theorem rounded_mono {num den num' den' : Nat} (hnum : num ≠ 0) (hden : den ≠ 0) (hnum' : num' ≠ 0)
    (hden' : den' ≠ 0) (h : (num / den : ℚ) ≤ num' / den') :
    rounded num den ≤ rounded num' den' := by
  have hlog : log2Quotient num den ≤ log2Quotient num' den' := by
    have hlt := ((log2Quotient_spec hnum hden).1.trans h).trans_lt
      (log2Quotient_spec hnum' hden').2
    exact Int.lt_add_one_iff.1 ((zpow_lt_zpow_iff_right₀ one_lt_two).1 hlt)
  have hexp : roundingExponent num den ≤ roundingExponent num' den' :=
    max_le_max_right _ (Int.sub_le_sub_right hlog _)
  rcases Int.lt_or_eq_of_le hexp with hlt | heq
  · -- A power of two lies between the two, and neither result crosses it.
    have hmin : minExponent < roundingExponent num' den' :=
      lt_of_le_of_lt (le_max_right _ _) hlt
    have hbelow : (roundedMantissa num den : ℚ) ≤ 2 ^ 53 := by
      exact_mod_cast roundedMantissa_le hnum hden
    have habove : (2 : ℚ) ^ 52 ≤ roundedMantissa num' den' := by
      exact_mod_cast le_roundedMantissa hnum' hden' hmin
    calc rounded num den
        _ ≤ 2 ^ 53 * 2 ^ roundingExponent num den :=
          mul_le_mul_of_nonneg_right hbelow (by positivity)
        _ = 2 ^ 52 * 2 ^ (roundingExponent num den + 1) := by
          rw [zpow_add_one₀ two_ne_zero]
          ring
        _ ≤ 2 ^ 52 * 2 ^ roundingExponent num' den' :=
          mul_le_mul_of_nonneg_left (zpow_le_zpow_right₀ one_le_two hlt) (by positivity)
        _ ≤ rounded num' den' := mul_le_mul_of_nonneg_right habove (by positivity)
  · have hmantissa : roundedMantissa num den ≤ roundedMantissa num' den' := by
      refine roundHalfEven_mono_cast (by positivity) (by positivity) ?_
      rw [cast_scaled, cast_scaled, heq]
      exact div_le_div_of_nonneg_right h (by positivity)
    rw [rounded, rounded, heq]
    exact mul_le_mul_of_nonneg_right (by exact_mod_cast hmantissa) (by positivity)

theorem magnitude_nonneg (x : Binary64) : 0 ≤ x.magnitude := by
  cases x with
  | nan => exact le_refl _
  | infinite => exact le_top
  | finite _ m e => exact WithTop.coe_nonneg.2 (by positivity)

theorem magnitude_finite_zero (negative : Bool) (e : Int) :
    (finite negative 0 e).magnitude = 0 := by
  simp [magnitude]

/-- The larger quotient has the larger fraction. -/
theorem magnitude_ofQuotient_mono {num den num' den' : Nat} (hden : den ≠ 0) (hden' : den' ≠ 0)
    (h : (num / den : ℚ) ≤ num' / den') (negative negative' : Bool) :
    (ofQuotient negative num den).magnitude ≤ (ofQuotient negative' num' den').magnitude := by
  by_cases hnum : num = 0
  · rw [ofQuotient, if_pos (Or.inl hnum), magnitude_finite_zero]
    exact magnitude_nonneg _
  · have hnum' : num' ≠ 0 := by
      rintro rfl
      have hpos : (0 : ℚ) < num / den := by positivity
      rw [Nat.cast_zero, zero_div] at h
      exact absurd hpos (not_lt.2 h)
    have hle := rounded_mono hnum hden hnum' hden' h
    rw [magnitude_ofQuotient hnum hden, magnitude_ofQuotient hnum' hden']
    by_cases htop : (2 : ℚ) ^ (1024 : Int) ≤ rounded num den
    · rw [if_pos htop, if_pos (htop.trans hle)]
    · rw [if_neg htop]
      split
      · exact le_top
      · exact WithTop.coe_le_coe.2 hle

/-- The larger number has the larger fraction. -/
theorem magnitude_ofNat_mono {n n' : Nat} (h : n ≤ n') :
    (ofNat n).magnitude ≤ (ofNat n').magnitude := by
  refine magnitude_ofQuotient_mono one_ne_zero one_ne_zero ?_ false false
  rw [Nat.cast_one, div_one, div_one]
  exact_mod_cast h

/-- The quotient that is rounded for a product. -/
theorem cast_product (m m' : Nat) (e e' : Int) :
    ((m * m' * 2 ^ (e + e').toNat : Nat) : ℚ) / ((2 ^ (-(e + e')).toNat : Nat) : ℚ) =
      m * 2 ^ e * (m' * 2 ^ e') := by
  have hpow := two_pow_toNat (e + e')
  rw [zpow_add₀ two_ne_zero] at hpow
  push_cast
  rw [mul_div_assoc, hpow]
  ring

theorem magnitude_finite_eq_zero {negative : Bool} {m : Nat} {e : Int} :
    (finite negative m e).magnitude = 0 ↔ m = 0 := by
  have hpow : (2 : ℚ) ^ e ≠ 0 := by positivity
  rw [magnitude, WithTop.coe_eq_zero, mul_eq_zero, or_iff_left hpow, Nat.cast_eq_zero]

/-- A product with an infinite factor. -/
theorem magnitude_mul_infinite {x : Binary64} (hx : x ≠ .nan) (negative : Bool) :
    (x.mul (.infinite negative)).magnitude = if x.magnitude = 0 then 0 else ⊤ := by
  cases x with
  | nan => exact absurd rfl hx
  | infinite => rfl
  | finite a m e =>
      rw [mul, apply_ite magnitude]
      simp only [magnitude_finite_eq_zero]
      rfl

/-- A product with a finite factor. A factor of zero makes an infinite one no number. -/
theorem magnitude_infinite_mul (a b : Bool) (m : Nat) (e : Int) :
    ((infinite a).mul (.finite b m e)).magnitude = if m = 0 then 0 else ⊤ := by
  rw [mul, apply_ite magnitude]
  rfl

/-- A product with zero is zero or no number. -/
theorem magnitude_mul_zero (x : Binary64) (b : Bool) (e : Int) :
    (x.mul (.finite b 0 e)).magnitude = 0 := by
  cases x with
  | nan => rfl
  | infinite => rfl
  | finite a m e' =>
      rw [mul, ofQuotient, if_pos (Or.inl (by rw [Nat.mul_zero, Nat.zero_mul]))]
      exact magnitude_finite_zero _ _

/-- A finite product is rounded from the product of the magnitudes. -/
theorem magnitude_finite_mul_mono {a a' b : Bool} {m m' k : Nat} {e e' f : Int}
    (h : (m * 2 ^ e : ℚ) ≤ m' * 2 ^ e') :
    ((finite a m e).mul (.finite b k f)).magnitude ≤
      ((finite a' m' e').mul (.finite b k f)).magnitude := by
  refine magnitude_ofQuotient_mono (by positivity) (by positivity) ?_ _ _
  rw [cast_product, cast_product]
  exact mul_le_mul_of_nonneg_right h (by positivity)

/-- The larger fraction has the larger product, whatever it is multiplied with. -/
theorem magnitude_mul_mono {x y : Binary64} (hx : x ≠ .nan) (hy : y ≠ .nan)
    (h : x.magnitude ≤ y.magnitude) (factor : Binary64) :
    (x.mul factor).magnitude ≤ (y.mul factor).magnitude := by
  cases factor with
  | nan =>
      have hnan : ∀ z : Binary64, z.mul .nan = .nan := by
        intro z
        cases z with
        | _ => rfl
      rw [hnan, hnan]
  | infinite =>
      rw [magnitude_mul_infinite hx, magnitude_mul_infinite hy]
      by_cases hzero : x.magnitude = 0
      · rw [if_pos hzero]
        split
        · exact le_refl _
        · exact le_top
      · have hpos := lt_of_le_of_ne (magnitude_nonneg x) (Ne.symm hzero)
        rw [if_neg hzero, if_neg (hpos.trans_le h).ne']
  | finite b k f =>
      cases y with
      | nan => exact absurd rfl hy
      | infinite a' =>
          rw [magnitude_infinite_mul a']
          by_cases hzero : k = 0
          · rw [if_pos hzero, hzero, magnitude_mul_zero]
          · rw [if_neg hzero]
            exact le_top
      | finite a' m' e' =>
          cases x with
          | nan => exact absurd rfl hx
          | infinite => exact absurd (top_le_iff.1 h) (WithTop.coe_ne_top)
          | finite a m e => exact magnitude_finite_mul_mono (WithTop.coe_le_coe.1 h)

/-- The whole number is the magnitude, rounded and kept in range. -/
theorem toUInt64_finite (m : Nat) (e : Int) :
    toUInt64 (.finite false m e) = min ⌊(m * 2 ^ e : ℚ) + 1 / 2⌋₊ (2 ^ 64 - 1) := by
  have hquotient : (m * 2 ^ e : ℚ) + 1 / 2 =
      ((2 * (m * 2 ^ e.toNat) + 2 ^ (-e).toNat : Nat) : ℚ) / ((2 * 2 ^ (-e).toNat : Nat) : ℚ) := by
    rw [← two_pow_toNat e]
    push_cast
    field_simp
  rw [hquotient, Nat.floor_div_eq_div]
  rfl

theorem toUInt64_le (x : Binary64) : x.toUInt64 ≤ 2 ^ 64 - 1 := by
  cases x with
  | nan => exact Nat.zero_le _
  | infinite negative => cases negative <;> decide
  | finite negative m e =>
      cases negative with
      | false => exact Nat.min_le_right _ _
      | true => exact Nat.zero_le _

/-- The larger fraction has the larger whole number. -/
theorem toUInt64_mono {x y : Binary64} (hx : x.isNegative = false) (hy : y.isNegative = false)
    (h : x.magnitude ≤ y.magnitude) : x.toUInt64 ≤ y.toUInt64 := by
  cases y with
  | infinite b =>
      obtain rfl : b = false := hy
      exact toUInt64_le x
  | nan =>
      -- Nothing is below what is no number but zero, and zero becomes zero.
      have hzero : x.magnitude = 0 := le_antisymm h (magnitude_nonneg x)
      cases x with
      | nan => exact le_refl _
      | infinite => exact absurd hzero (by simp [magnitude])
      | finite a m e =>
          obtain rfl : a = false := hx
          obtain rfl : m = 0 := magnitude_finite_eq_zero.1 hzero
          rw [toUInt64_finite]
          norm_num
  | finite b m' e' =>
      obtain rfl : b = false := hy
      cases x with
      | nan => exact Nat.zero_le _
      | infinite => exact absurd (top_le_iff.1 h) WithTop.coe_ne_top
      | finite a m e =>
          obtain rfl : a = false := hx
          rw [toUInt64_finite, toUInt64_finite]
          refine min_le_min_right _ (Nat.floor_le_floor ?_)
          exact add_le_add_left (WithTop.coe_le_coe.1 h) _

theorem isNegative_ofQuotient (negative : Bool) (num den : Nat) :
    (ofQuotient negative num den).isNegative = negative := by
  simp only [ofQuotient]
  split
  · rfl
  · split
    · rfl
    · rfl

theorem isNegative_ofNat (n : Nat) : (ofNat n).isNegative = false := isNegative_ofQuotient ..

theorem ofNat_ne_nan (n : Nat) : ofNat n ≠ .nan := by
  simp only [ofNat, ofQuotient]
  split
  · simp
  · split
    · simp
    · simp

theorem isNegative_mul {x y : Binary64} (hx : x.isNegative = false) (hy : y.isNegative = false) :
    (x.mul y).isNegative = false := by
  cases x with
  | nan => rfl
  | infinite a =>
      obtain rfl : a = false := hx
      cases y with
      | nan => rfl
      | infinite b =>
          obtain rfl : b = false := hy
          rfl
      | finite b m e =>
          obtain rfl : b = false := hy
          rw [mul, apply_ite isNegative]
          exact ite_self _
  | finite a m e =>
      obtain rfl : a = false := hx
      cases y with
      | nan => rfl
      | infinite b =>
          obtain rfl : b = false := hy
          rw [mul, apply_ite isNegative]
          exact ite_self _
      | finite b m' e' =>
          obtain rfl : b = false := hy
          exact isNegative_ofQuotient ..

/-- What is above zero has no sign. -/
theorem isNegative_of_zero_lt {x : Binary64} (h : zero.lt x = true) : x.isNegative = false := by
  cases x with
  | nan => rfl
  | infinite b => simpa [lt, zero, isNegative] using h
  | finite b m e =>
      cases b with
      | false => rfl
      | true =>
          simp only [lt, zero, aligned, decide_eq_true_eq, Bool.false_eq_true, if_false, if_true,
            Nat.cast_zero, zero_mul, neg_pos] at h
          have hnonneg : (0 : Int) ≤ m * 2 ^ (e - min minExponent e).toNat := by positivity
          omega

theorem isNegative_atLeastZero (x : Binary64) : x.atLeastZero.isNegative = false := by
  rw [atLeastZero]
  split
  · rename_i hpos
    exact isNegative_of_zero_lt hpos
  · rfl

/-- The larger number becomes the larger number again, whatever it is multiplied with on the
way. -/
theorem toUInt64_mul_mono {n n' : Nat} (h : n ≤ n') {factor : Binary64}
    (hfactor : factor.isNegative = false) :
    ((ofNat n).mul factor).toUInt64 ≤ ((ofNat n').mul factor).toUInt64 :=
  toUInt64_mono (isNegative_mul (isNegative_ofNat n) hfactor)
    (isNegative_mul (isNegative_ofNat n') hfactor)
    (magnitude_mul_mono (ofNat_ne_nan n) (ofNat_ne_nan n') (magnitude_ofNat_mono h) factor)

end Binary64

end RowLedger
