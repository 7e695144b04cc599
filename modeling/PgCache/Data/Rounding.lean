/- digest: Rounding of a natural number to a fixed count of binary digits, ties to even, and
     that it keeps the order. -/
import Mathlib.Algebra.Ring.Nat
import Mathlib.Data.Nat.Log

set_option autoImplicit false

namespace PgCache.Data.Rounding

def lastUnit (digits n : Nat) : Nat := 2 ^ (n.log2 - digits)

def roundQuotient (unit n : Nat) : Nat :=
  if 2 * (n % unit) > unit ∨ (2 * (n % unit) = unit ∧ n / unit % 2 = 1) then n / unit + 1
  else n / unit

def roundNearest (digits n : Nat) : Nat :=
  roundQuotient (lastUnit digits n) n * lastUnit digits n

theorem div_le_roundQuotient (unit n : Nat) : n / unit ≤ roundQuotient unit n := by
  unfold roundQuotient
  split <;> omega

theorem roundQuotient_le (unit n : Nat) : roundQuotient unit n ≤ n / unit + 1 := by
  unfold roundQuotient
  split <;> omega

theorem roundQuotient_mono {unit a b : Nat} (below : a ≤ b) :
    roundQuotient unit a ≤ roundQuotient unit b := by
  have quotients : a / unit ≤ b / unit := Nat.div_le_div_right below
  rcases Nat.lt_or_eq_of_le quotients with less | same
  · exact (roundQuotient_le unit a).trans (Nat.le_trans less (div_le_roundQuotient unit b))
  · -- One quotient, so the remainders are ordered and the larger one rounds up first.
    have remainders : a % unit ≤ b % unit := by
      have left := Nat.div_add_mod a unit
      have right := Nat.div_add_mod b unit
      rw [same] at left
      omega
    simp only [roundQuotient, same]
    split <;> split <;> omega

theorem roundNearest_le_pow (digits n : Nat) :
    roundNearest digits n ≤ 2 ^ (n.log2 + 1) := by
  have small : n < 2 ^ (n.log2 + 1) := Nat.lt_log2_self
  obtain ⟨rest, exponent⟩ : ∃ rest, n.log2 + 1 = rest + (n.log2 - digits) :=
    ⟨n.log2 + 1 - (n.log2 - digits), by omega⟩
  have whole : 2 ^ (n.log2 + 1) = 2 ^ rest * lastUnit digits n := by
    rw [exponent, Nat.pow_add, lastUnit]
  have quotient : n / lastUnit digits n < 2 ^ rest :=
    Nat.div_lt_of_lt_mul (by rw [Nat.mul_comm, ← whole]; exact small)
  calc roundNearest digits n
      ≤ (n / lastUnit digits n + 1) * lastUnit digits n :=
        Nat.mul_le_mul_right _ (roundQuotient_le _ n)
    _ ≤ 2 ^ rest * lastUnit digits n := Nat.mul_le_mul_right _ quotient
    _ = 2 ^ (n.log2 + 1) := whole.symm

theorem pow_le_roundNearest (digits : Nat) {n : Nat} (positive : n ≠ 0) :
    2 ^ n.log2 ≤ roundNearest digits n := by
  have large : 2 ^ n.log2 ≤ n := Nat.log2_self_le positive
  obtain ⟨rest, exponent⟩ : ∃ rest, n.log2 = rest + (n.log2 - digits) :=
    ⟨n.log2 - (n.log2 - digits), by omega⟩
  have whole : 2 ^ n.log2 = 2 ^ rest * lastUnit digits n := by
    rw [lastUnit, ← Nat.pow_add, ← exponent]
  have quotient : 2 ^ rest ≤ n / lastUnit digits n := by
    have positiveUnit : 0 < lastUnit digits n := Nat.two_pow_pos _
    rw [Nat.le_div_iff_mul_le positiveUnit, ← whole]
    exact large
  calc 2 ^ n.log2 = 2 ^ rest * lastUnit digits n := whole
    _ ≤ roundNearest digits n :=
        Nat.mul_le_mul_right _ (quotient.trans (div_le_roundQuotient _ n))

theorem roundNearest_mono {digits a b : Nat} (below : a ≤ b) :
    roundNearest digits a ≤ roundNearest digits b := by
  rcases Nat.eq_zero_or_pos a with zero | positive
  · simp [zero, roundNearest, roundQuotient]
  have nonzero : a ≠ 0 := positive.ne'
  have nonzero' : b ≠ 0 := (positive.trans_le below).ne'
  have logs : a.log2 ≤ b.log2 := (Nat.le_log2 nonzero').mpr ((Nat.log2_self_le nonzero).trans below)
  rcases Nat.lt_or_eq_of_le logs with less | same
  · calc roundNearest digits a ≤ 2 ^ (a.log2 + 1) := roundNearest_le_pow digits a
      _ ≤ 2 ^ b.log2 := Nat.pow_le_pow_right (by omega) less
      _ ≤ roundNearest digits b := pow_le_roundNearest digits nonzero'
  · have units : lastUnit digits a = lastUnit digits b := by rw [lastUnit, lastUnit, same]
    rw [roundNearest, roundNearest, units]
    exact Nat.mul_le_mul_right _ (roundQuotient_mono below)

end PgCache.Data.Rounding
