import RowLedger.Backoff
import RowLedger.Proofs.RoundingOrder

/-!
# Waits that grow

A later retry never waits less than an earlier one. Without jitter the wait is
the smaller one of the doubled base and the cap, and a product that is no
duration is above every cap. Jitter scales all waits by one factor, and what a
factor that is not negative does to a number of nanoseconds keeps the order,
with all its roundings and at both ends of the range.

The doubling itself ends with the 31st. That makes no difference if the cap has
been reached by then. If it has not, the wait stays where it is and never comes
to the cap (`doubling_stops`).

## Theorems

* `plain_nanos`, `jittered_nanos`: A wait in nanoseconds.
* `plain_doubles`: When a wait is the base doubled for every earlier attempt.
* `doubling_stops`: A wait that is not.
* `scale_mono`: A factor keeps the order of waits.
* `waits_grow`: A later wait is no shorter, and none is above the cap.
-/

namespace RowLedger

namespace Backoff

theorem nanos_min (a b : Duration) : (a.min b).nanos = min a.nanos b.nanos := by
  rw [Duration.min, apply_ite Duration.nanos]
  split
  · omega
  · omega

variable (b : Backoff) (attempt : Nat) (draw : Binary64)

/-- The wait without jitter, in nanoseconds. What is no duration is above the cap. -/
theorem plain_nanos :
    (b.plain attempt).nanos = min (b.base.nanos * 2 ^ min attempt 31) b.cap.nanos := by
  rw [plain, Duration.times?, Duration.ofNanos?]
  by_cases hfits : b.base.nanos * 2 ^ min attempt 31 < Duration.bound
  · rw [dif_pos hfits]
    exact nanos_min _ _
  · have hcap : b.cap.nanos ≤ b.base.nanos * 2 ^ min attempt 31 :=
      b.cap.nanos_lt.le.trans (Nat.not_lt.1 hfits)
    rw [dif_neg hfits]
    exact (Nat.min_eq_right hcap).symm

/-- What is doubled more often than 31 times is twice as much as after 31 times, or more. -/
theorem twice_le_doubled (nanos : Nat) (h : 31 < attempt) :
    nanos * 2 ^ 31 * 2 ≤ nanos * 2 ^ attempt := by
  rw [Nat.mul_assoc, ← Nat.pow_succ]
  exact Nat.mul_le_mul_left _ (Nat.pow_le_pow_right two_pos h)

/-- A wait is the base doubled once for every earlier attempt, up to 31 times, and not above the
cap. That is what doubling it every time would come to exactly if there are few attempts, or nothing
to double, or the cap is reached while there is doubling. -/
theorem plain_doubles :
    (b.plain attempt).nanos = min (b.base.nanos * 2 ^ min attempt 31) b.cap.nanos ∧
    ((b.plain attempt).nanos = min (b.base.nanos * 2 ^ attempt) b.cap.nanos ↔
      attempt ≤ 31 ∨ b.base.nanos = 0 ∨ b.cap.nanos ≤ b.base.nanos * 2 ^ 31) := by
  refine ⟨b.plain_nanos attempt, ?_⟩
  rw [plain_nanos]
  rcases Nat.lt_or_ge 31 attempt with hmany | hfew
  · have htwice := twice_le_doubled attempt b.base.nanos hmany
    rw [Nat.min_eq_right hmany.le, or_iff_right (by omega)]
    by_cases hzero : b.base.nanos = 0
    · simp [hzero]
    · rw [or_iff_right hzero]
      generalize b.base.nanos * 2 ^ attempt = later at htwice
      omega
  · rw [Nat.min_eq_left hfew]
    exact iff_of_true rfl (Or.inl hfew)

/-- From one nanosecond the 32nd doubling stays below a cap of five seconds, but it is not made. -/
theorem doubling_stops :
    let b : Backoff := { default with base := ⟨1, by decide⟩ }
    (b.plain 31).nanos = 2 ^ 31 ∧ (b.plain 32).nanos = 2 ^ 31 ∧
      min (b.base.nanos * 2 ^ 32) b.cap.nanos = 2 ^ 32 := by
  decide

theorem jittered_nanos : (b.jittered attempt draw).nanos =
    min (scale (b.factor draw) (b.plain attempt).nanos) b.cap.nanos := by
  have hword : scale (b.factor draw) (b.plain attempt).nanos < UInt64.size :=
    Nat.lt_of_le_of_lt (Binary64.toUInt64_le _) (by decide)
  rw [jittered, nanos_min]
  exact congrArg (min · _) (UInt64.toNat_ofNat_of_lt' hword)

/-- The wait without jitter does not shrink. -/
theorem plain_mono : Monotone fun attempt => (b.plain attempt).nanos := by
  intro attempt attempt' h
  change (b.plain attempt).nanos ≤ (b.plain attempt').nanos
  rw [plain_nanos, plain_nanos]
  have hpow : 2 ^ min attempt 31 ≤ 2 ^ min attempt' 31 :=
    Nat.pow_le_pow_right two_pos (min_le_min_right 31 h)
  exact min_le_min_right _ (Nat.mul_le_mul_left _ hpow)

/-- A factor keeps the order of waits. -/
theorem scale_mono : Monotone (scale (b.factor draw)) := fun _ _ h =>
  Binary64.toUInt64_mul_mono h (Binary64.isNegative_atLeastZero _)

/-- A later wait is no shorter than an earlier one, with the same draw for both, and no wait is
above the cap. Nothing is asked of the jitter or of the draw, which may be infinite or no
number. -/
theorem waits_grow :
    (Monotone fun attempt => (b.plain attempt).nanos) ∧
    (Monotone fun attempt => (b.jittered attempt draw).nanos) ∧
    ∀ attempt, (b.plain attempt).nanos ≤ b.cap.nanos ∧
      (b.jittered attempt draw).nanos ≤ b.cap.nanos := by
  refine ⟨b.plain_mono, ?_, ?_⟩
  · intro attempt attempt' h
    change (b.jittered attempt draw).nanos ≤ (b.jittered attempt' draw).nanos
    rw [jittered_nanos, jittered_nanos]
    exact min_le_min_right _ (b.scale_mono draw (b.plain_mono h))
  · intro attempt
    rw [plain_nanos, jittered_nanos]
    exact ⟨Nat.min_le_right _ _, Nat.min_le_right _ _⟩

end Backoff

end RowLedger
