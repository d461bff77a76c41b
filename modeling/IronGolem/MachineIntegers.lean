import Mathlib.Tactic.Ring

/-!
Signed integers of 64 bits as they are computed with: the exact result is taken over the
integers and the value that 64 bits keep of it replaces it. Nested operations wrap once,
and a result that fits is kept as it is.
-/
namespace IronGolem.MachineIntegers

def wrap (x : ℤ) : ℤ := x.bmod (2 ^ 64)

variable (x : ℤ)

theorem wrap_eq : wrap x = (x + 2 ^ 63) % 2 ^ 64 - 2 ^ 63 := by
  unfold wrap
  rw [Int.bmod_def]
  split <;> omega

theorem le_wrap : -2 ^ 63 ≤ wrap x := by
  rw [wrap_eq]
  omega

theorem wrap_lt : wrap x < 2 ^ 63 := by
  rw [wrap_eq]
  omega

theorem wrap_of_range {x : ℤ} (hlow : -2 ^ 63 ≤ x) (hhigh : x < 2 ^ 63) : wrap x = x := by
  rw [wrap_eq]
  omega

@[simp] theorem wrap_add_wrap (y : ℤ) : wrap (x + wrap y) = wrap (x + y) :=
  Int.add_bmod_bmod

@[simp] theorem wrap_wrap_mul (y : ℤ) : wrap (wrap x * y) = wrap (x * y) :=
  Int.bmod_mul_bmod

end IronGolem.MachineIntegers
