/-!
# Rounding quotients

One rule for every place where a quotient of naturals has to become a natural:
the nearest integer, and on an exact tie the even neighbour. Decimal sums that
need more digits than there are, binary fractions that need more bits than
there are, and rates printed with two places all round this way.

## Main definitions

* `roundHalfEven`: The nearest integer to a quotient, ties to even.

## Theorems

* `roundHalfEven_one`: Nothing is rounded when the divisor is one.
* `roundHalfEven_bounds`: The result is the quotient or its successor.
-/

namespace RowLedger

/-- The integer nearest to `n / d`; of two equally near ones the even one. -/
def roundHalfEven (n d : Nat) : Nat :=
  let q := n / d
  let r := n % d
  if d < 2 * r ∨ (2 * r = d ∧ q % 2 = 1) then q + 1 else q

theorem roundHalfEven_one (n : Nat) : roundHalfEven n 1 = n := by
  simp only [roundHalfEven, Nat.div_one, Nat.mod_one]
  rw [if_neg (by omega)]

theorem roundHalfEven_bounds (n d : Nat) :
    roundHalfEven n d = n / d ∨ roundHalfEven n d = n / d + 1 := by
  simp only [roundHalfEven]
  split
  · exact Or.inr rfl
  · exact Or.inl rfl

end RowLedger
