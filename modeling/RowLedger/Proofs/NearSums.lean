import RowLedger.Proofs.Exact

/-!
# Sums that are near

How much a sum may lose. Digits are given up only behind the point, so what is
left ends with a unit or with something finer, and it is the nearest such
amount to the exact sum. No sum is off by more than half a unit of money.

The one case to look at is a rounding that reaches the bound itself. It is
rounded once more, to one digit fewer; but the bound ends with a six, so both
roundings together are still within half of the new last place.

## Main definitions

* `Decimal.Near`: Two amounts are apart by so many half units at most.

## Theorems

* `roundHalfEven_near`: A rounded quotient is within a half.
* `fit_near`: What is fitted is within half of its last place.
* `add?_near`, `sub?_near`: Sums and differences are within half a unit.
-/

namespace RowLedger

/-- A rounded quotient is within a half of the quotient. -/
theorem roundHalfEven_near {n d : Nat} (hd : 0 < d) :
    2 * (roundHalfEven n d * d) ≤ 2 * n + d ∧ 2 * n ≤ 2 * (roundHalfEven n d * d) + d := by
  have hdiv : d * (n / d) + n % d = n := Nat.div_add_mod n d
  have hmod : n % d < d := Nat.mod_lt n hd
  simp only [roundHalfEven]
  split
  · rw [Nat.add_mul, Nat.one_mul, Nat.mul_comm (n / d) d]
    omega
  · rw [Nat.mul_comm (n / d) d]
    omega

/-- Rounding goes up to the next integer at most. -/
theorem roundHalfEven_le {n d m : Nat} (h : n / d < m) : roundHalfEven n d ≤ m := by
  rcases roundHalfEven_bounds n d with heq | heq
  · omega
  · omega

namespace Decimal

/-- Two amounts are apart by so many half units of money at most. -/
def Near (halves : Nat) (a b : Int) : Prop := 2 * (a - b).natAbs ≤ halves * quantum 0

theorem near_refl (a : Int) : Near 0 a a := by
  rw [Near, Int.sub_self]
  exact Nat.zero_le _

/-- What is near to what is near is not far. -/
theorem near_trans {m n : Nat} {a b c : Int} (hab : Near m a b) (hbc : Near n b c) :
    Near (m + n) a c := by
  have htri : (a - c).natAbs ≤ (a - b).natAbs + (b - c).natAbs := by omega
  rw [Near] at hab hbc ⊢
  rw [Nat.add_mul]
  omega

theorem near_mono {m n : Nat} {a b : Int} (hle : m ≤ n) (h : Near m a b) : Near n a b :=
  Nat.le_trans h (Nat.mul_le_mul_right _ hle)

theorem near_add {n : Nat} {a b : Int} (h : Near n a b) (more : Int) :
    Near n (a + more) (b + more) := by
  rwa [Near, show a + more - (b + more) = a - b from by omega]

/-- A mantissa that stands for an exact magnitude with some places fewer. -/
def Fits (exact places : Nat) (c : Decimal) : Prop :=
  2 * (c.mantissa * 10 ^ places) ≤ 2 * exact + 10 ^ places ∧
    2 * exact ≤ 2 * (c.mantissa * 10 ^ places) + 10 ^ places

theorem ofParts?_some {negative : Bool} {mantissa scale : Nat} {c : Decimal}
    (h : ofParts? negative mantissa scale = some c) :
    c.negative = negative ∧ c.mantissa = mantissa ∧ c.scale = scale := by
  rw [ofParts?] at h
  split at h
  · rw [Option.some.injEq] at h
    rw [← h]
    exact ⟨rfl, rfl, rfl⟩
  · simp at h

-- The second rounding moves the bound up by four, and the first one was off by half of the place
-- that is then given up.
/-- Two roundings in a row are no further off than one. -/
theorem fits_twice {exact dropped : Nat} {c : Decimal}
    (hbound : roundHalfEven exact (10 ^ dropped) = bound)
    (hmantissa : c.mantissa = roundHalfEven bound 10) : Fits exact (dropped + 1) c := by
  rcases roundHalfEven_near (n := exact) (ten_pow_pos dropped) with ⟨hup, hdown⟩
  have hlast : c.mantissa * 10 = bound + 4 := by
    rw [hmantissa]
    decide +kernel
  have hscaled : c.mantissa * 10 ^ (dropped + 1) = (bound + 4) * 10 ^ dropped := by
    rw [← hlast, Nat.pow_succ']
    ring
  rw [hbound] at hup hdown
  rw [Fits, hscaled, Nat.pow_succ', Nat.add_mul]
  omega

/-- What is fitted has its sign, and it is within half of its last place. -/
theorem fit_near {negative : Bool} {exact : Nat} :
    ∀ {scale dropped : Nat} {c : Decimal}, fit negative exact dropped scale = some c →
      c.negative = negative ∧ c.scale ≤ scale ∧ Fits exact (scale + dropped - c.scale) c := by
  intro scale
  induction scale with
  | zero =>
      intro dropped c h
      rcases ofParts?_some h with ⟨hneg, hmantissa, hscale⟩
      refine ⟨hneg, Nat.le_of_eq hscale, ?_⟩
      rw [hscale, Nat.zero_add, Nat.sub_zero, Fits, hmantissa]
      exact roundHalfEven_near (ten_pow_pos dropped)
  | succ scale ih =>
      intro dropped c h
      rw [fit] at h
      by_cases hfits : exact / 10 ^ dropped < bound
      · rw [if_pos hfits] at h
        simp only at h
        split at h
        · rcases ofParts?_some h with ⟨hneg, hmantissa, hscale⟩
          refine ⟨hneg, Nat.le_of_eq hscale, ?_⟩
          rw [hscale, Nat.add_sub_cancel_left, Fits, hmantissa]
          exact roundHalfEven_near (ten_pow_pos dropped)
        · rename_i hreached
          rcases ofParts?_some h with ⟨hneg, hmantissa, hscale⟩
          have hbound : roundHalfEven exact (10 ^ dropped) = bound :=
            Nat.le_antisymm (roundHalfEven_le hfits) (Nat.not_lt.1 hreached)
          rw [hbound] at hmantissa
          refine ⟨hneg, by omega, ?_⟩
          rw [hscale, show scale + 1 + dropped - scale = dropped + 1 from by omega]
          exact fits_twice hbound hmantissa
      · rw [if_neg hfits] at h
        rcases ih h with ⟨hneg, hscale, hnear⟩
        refine ⟨hneg, by omega, ?_⟩
        rwa [show scale + 1 + dropped - c.scale = scale + (dropped + 1) - c.scale from by omega]

/-- The signed amount that was fitted is within half a unit of the exact one. -/
theorem near_of_fit {sum : Int} {scale : Nat} {c : Decimal} (hscale : scale ≤ maxScale)
    (h : fit (decide (sum < 0)) sum.natAbs 0 scale = some c) :
    Near 1 c.units (sum * 10 ^ (maxScale - scale)) := by
  rcases fit_near h with ⟨hneg, hle, hup, hdown⟩
  rw [Nat.add_zero] at hup hdown
  -- Mantissa and sum have the same sign, so they are as far apart as their magnitudes.
  have hgap : 2 * (c.atScale scale - sum).natAbs ≤ 10 ^ (scale - c.scale) := by
    have hcast : c.atScale scale =
        if sum < 0 then -((c.mantissa * 10 ^ (scale - c.scale) : Nat) : Int)
        else ((c.mantissa * 10 ^ (scale - c.scale) : Nat) : Int) := by
      rw [atScale, signed, hneg]
      by_cases hsum : sum < 0
      · rw [if_pos (by simpa using hsum), if_pos hsum]
        push_cast
        ring
      · rw [if_neg (by simpa using hsum), if_neg hsum]
        push_cast
        rfl
    rw [hcast]
    split
    · omega
    · omega
  have hquantum : 10 ^ (scale - c.scale) * 10 ^ (maxScale - scale) ≤ quantum 0 := by
    rw [← Nat.pow_add]
    exact Nat.pow_le_pow_right (by decide) (by omega)
  rw [Near, units_eq_atScale hle hscale, ← Int.sub_mul, Int.natAbs_mul, Int.natAbs_pow, Nat.one_mul]
  calc 2 * ((c.atScale scale - sum).natAbs * 10 ^ (maxScale - scale))
      = 2 * (c.atScale scale - sum).natAbs * 10 ^ (maxScale - scale) := by ring
    _ ≤ 10 ^ (scale - c.scale) * 10 ^ (maxScale - scale) := Nat.mul_le_mul_right _ hgap
    _ ≤ quantum 0 := hquantum

/-- A sum is within half a unit of the exact one. -/
theorem add?_near {a b c : Decimal} (h : a.add? b = some c) :
    Near 1 c.units (a.units + b.units) := by
  by_cases haz : a.isZero = true
  · rw [add?_zero_left haz, Option.some.injEq] at h
    rw [← h, (isZero_iff a).1 haz, Int.zero_add]
    exact near_mono (Nat.zero_le 1) (near_refl _)
  · rw [Bool.not_eq_true] at haz
    by_cases hbz : b.isZero = true
    · rw [add?_zero_right haz hbz, Option.some.injEq] at h
      rw [← h, (isZero_iff b).1 hbz, Int.add_zero]
      exact near_mono (Nat.zero_le 1) (near_refl _)
    · rw [Bool.not_eq_true] at hbz
      have hscale : max a.scale b.scale ≤ maxScale := Nat.max_le.2 ⟨a.scale_le, b.scale_le⟩
      simp only [add?, haz, hbz, Bool.false_eq_true, if_false] at h
      rw [units_eq_atScale (Nat.le_max_left _ _) hscale,
        units_eq_atScale (Nat.le_max_right _ _) hscale, ← Int.add_mul]
      exact near_of_fit hscale h

theorem sub?_near {a b c : Decimal} (h : a.sub? b = some c) :
    Near 1 c.units (a.units - b.units) := by
  rw [sub?] at h
  split at h
  · rename_i hzero
    have := add?_near h
    rw [(isZero_iff b).1 hzero] at this ⊢
    rwa [Int.add_zero, ← Int.sub_zero a.units] at this
  · have := add?_near h
    rwa [units_neg, ← Int.sub_eq_add_neg] at this

end Decimal

end RowLedger
