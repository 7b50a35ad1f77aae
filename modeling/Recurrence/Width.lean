/-!
# Numbers of limited width

Arithmetic on period numbers is done in 64 bits. What does not fit is missing, never wrapped around.
-/

namespace Recurrence

set_option autoImplicit false

/-- Half as many as the numbers of so many bits. -/
def halfRange (bits : Nat) : Nat := 1 <<< (bits - 1)

/-- Whether so many bits can tell the number, one of them its sign. -/
def Fits (bits : Nat) (n : Int) : Prop := -(halfRange bits : Int) ≤ n ∧ n < halfRange bits

theorem fits_iff_natAbs {bits : Nat} {n : Int} :
    n.natAbs < halfRange bits ∨ n = -(halfRange bits : Int) ↔ Fits bits n := by
  have hpos : 0 < halfRange bits := by
    rw [halfRange, Nat.one_shiftLeft]
    exact Nat.two_pow_pos (bits - 1)
  unfold Fits
  omega

/-- A comparison of natural numbers, so that it does not count down from the largest number where
`n` is not known. -/
instance (bits : Nat) (n : Int) : Decidable (Fits bits n) := decidable_of_iff _ fits_iff_natAbs

/-- The number itself, if it fits. -/
def fit? (bits : Nat) (n : Int) : Option Int := if Fits bits n then some n else none

theorem fit?_eq_some_iff {bits : Nat} {n m : Int} :
    fit? bits n = some m ↔ Fits bits n ∧ n = m := by
  unfold fit?
  split <;> simp_all

theorem fits_64_iff {n : Int} :
    Fits 64 n ↔ -9223372036854775808 ≤ n ∧ n < 9223372036854775808 := Iff.rfl

theorem fits_32_iff {n : Int} : Fits 32 n ↔ -2147483648 ≤ n ∧ n < 2147483648 := Iff.rfl

end Recurrence
