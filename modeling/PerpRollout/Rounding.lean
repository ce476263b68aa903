/-!
# Rounding a quotient

`roundHalfEven n d` is the integer nearest to `n / d`; of two equally near
integers it is the even one.  It lies within half a unit of the quotient
(`roundHalfEven_mul_le`, `le_roundHalfEven_mul`), and at the half itself it is
even (`roundHalfEven_mod_two`).
-/

namespace PerpRollout

/-- The integer nearest to `n / d`, the even one of two equally near. -/
def roundHalfEven (n d : Nat) : Nat :=
  let q := n / d
  let r := n % d
  if 2 * r < d then q
  else if d < 2 * r then q + 1
  else if q % 2 = 0 then q else q + 1

theorem le_roundHalfEven (n d : Nat) : n / d ≤ roundHalfEven n d := by
  unfold roundHalfEven
  dsimp only
  repeat' split
  all_goals omega

theorem roundHalfEven_le (n d : Nat) : roundHalfEven n d ≤ n / d + 1 := by
  unfold roundHalfEven
  dsimp only
  repeat' split
  all_goals omega

/-- The rounding is at most half a unit above the quotient. -/
theorem roundHalfEven_mul_le {n d : Nat} (hd : 0 < d) :
    2 * (roundHalfEven n d * d) ≤ 2 * n + d := by
  have parts : n / d * d + n % d = n := Nat.div_add_mod' n d
  have carry : (n / d + 1) * d = n / d * d + d := Nat.succ_mul _ _
  have small : n % d < d := Nat.mod_lt n hd
  unfold roundHalfEven
  dsimp only
  repeat' split
  all_goals omega

/-- The quotient is at most half a unit above its rounding. -/
theorem le_roundHalfEven_mul {n d : Nat} (hd : 0 < d) :
    2 * n ≤ 2 * (roundHalfEven n d * d) + d := by
  have parts : n / d * d + n % d = n := Nat.div_add_mod' n d
  have carry : (n / d + 1) * d = n / d * d + d := Nat.succ_mul _ _
  have small : n % d < d := Nat.mod_lt n hd
  unfold roundHalfEven
  dsimp only
  repeat' split
  all_goals omega

/-- Half way between two integers the even one is taken. -/
theorem roundHalfEven_mod_two {n d : Nat} (h : 2 * (n % d) = d) :
    roundHalfEven n d % 2 = 0 := by
  unfold roundHalfEven
  dsimp only
  repeat' split
  all_goals omega

/-- An exact quotient is its own rounding. -/
theorem roundHalfEven_eq_div {n d : Nat} (hd : 0 < d) (h : n % d = 0) :
    roundHalfEven n d = n / d := by
  simp [roundHalfEven, h, hd]

end PerpRollout
