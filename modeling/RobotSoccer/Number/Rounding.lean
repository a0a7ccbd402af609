/-!
# Rounding whole numbers

The nearest whole number to a quotient, ties to even, and the square root rounded down, both
in exact arithmetic. The laws say that the first is never further than half a unit from the
quotient and that the second is the greatest number whose square fits.
-/

namespace RobotSoccer.Rounding

/-- The whole number nearest to `num / den`, a half going to the even neighbour. -/
def quotient (num den : Nat) : Nat :=
  let whole := num / den
  let twice := 2 * (num % den)
  if twice < den then whole
  else if twice = den then whole + whole % 2
  else whole + 1

/-- A rounded quotient is at most half a unit away from the exact one. -/
theorem quotient_near (num den : Nat) (h : 0 < den) :
    2 * (den * quotient num den) ≤ 2 * num + den ∧
      2 * num ≤ 2 * (den * quotient num den) + den := by
  have hdiv := Nat.div_add_mod num den
  have hlt := Nat.mod_lt num h
  have hpar : num / den % 2 = 0 ∨ num / den % 2 = 1 := by omega
  unfold quotient
  dsimp only
  generalize num / den = w at *
  generalize num % den = r at *
  split
  · omega
  · split
    · rcases hpar with hp | hp
      · rw [hp, Nat.add_zero]
        omega
      · rw [hp, Nat.mul_add, Nat.mul_one]
        omega
    · rw [Nat.mul_add, Nat.mul_one]
      omega

/-- A whole quotient is not changed. -/
theorem quotient_mul (n den : Nat) (h : 0 < den) : quotient (den * n) den = n := by
  unfold quotient
  dsimp only
  rw [Nat.mul_mod_right, Nat.mul_div_cancel_left n h, if_pos (by omega)]

/-- A common factor of both parts of a quotient does not matter. -/
theorem quotient_scale (c num den : Nat) (h : 0 < c) :
    quotient (c * num) (c * den) = quotient num den := by
  unfold quotient
  dsimp only
  rw [Nat.mul_div_mul_left num den h, Nat.mul_mod_mul_left, Nat.mul_left_comm 2 c]
  have hlt : c * (2 * (num % den)) < c * den ↔ 2 * (num % den) < den :=
    Nat.mul_lt_mul_left h
  have heq : c * (2 * (num % den)) = c * den ↔ 2 * (num % den) = den :=
    Nat.mul_right_inj (Nat.ne_of_gt h)
  simp only [hlt, heq]

/-- The square root of a natural number, rounded down: each step settles one binary digit of
the root from two of the number. -/
def squareRoot (n : Nat) : Nat :=
  if n = 0 then 0
  else
    let r := 2 * squareRoot (n / 4)
    if (r + 1) * (r + 1) ≤ n then r + 1 else r
termination_by n

/-- The square of the root fits, and that of its successor does not. -/
theorem squareRoot_bounds (n : Nat) :
    squareRoot n * squareRoot n ≤ n ∧ n < (squareRoot n + 1) * (squareRoot n + 1) := by
  induction n using Nat.strongRecOn with
  | _ n ih =>
    rw [squareRoot]
    split
    · next h =>
      subst h
      exact ⟨Nat.le_refl 0, Nat.one_pos⟩
    · next h =>
      obtain ⟨hlow, hhigh⟩ := ih (n / 4) (by omega)
      dsimp only
      generalize squareRoot (n / 4) = r at *
      have hsq : 2 * r * (2 * r) = 4 * (r * r) := by
        rw [Nat.mul_assoc, Nat.mul_left_comm r 2 r, ← Nat.mul_assoc]
      have hone : (2 * r + 1) * (2 * r + 1) = 4 * (r * r) + 4 * r + 1 := by
        rw [Nat.add_mul, Nat.mul_add, hsq]
        omega
      have htwo : (2 * r + 1 + 1) * (2 * r + 1 + 1) = 4 * (r * r) + 8 * r + 4 := by
        rw [Nat.add_mul (2 * r + 1) 1, Nat.mul_add (2 * r + 1), hone]
        omega
      have hnext : (r + 1) * (r + 1) = r * r + 2 * r + 1 := by
        rw [Nat.add_mul, Nat.mul_add]
        omega
      rw [hnext] at hhigh
      split
      · next hfit =>
        rw [htwo]
        exact ⟨hfit, by omega⟩
      · next hfit =>
        rw [hsq]
        exact ⟨by omega, by omega⟩

end RobotSoccer.Rounding
