import Mathlib.Tactic

set_option autoImplicit false

namespace CountDown

def stepDown (m d b : Nat) : Nat := (b + (m - d)) % m

def countDown (m d bound : Nat) : Nat → Nat → Option Nat
  | 0, _ => none
  | fuel + 1, b => if b < bound then some b else countDown m d bound fuel (stepDown m d b)

variable {m d bound : Nat}

theorem iterate_stepDown (k : Nat) {b : Nat} (small : b < m) :
    (stepDown m d)^[k] b = (b + k * (m - d)) % m := by
  induction k with
  | zero => simpa using (Nat.mod_eq_of_lt small).symm
  | succ k ih =>
    rw [Function.iterate_succ_apply', ih, stepDown, Nat.mod_add_mod, Nat.add_mul, Nat.one_mul, Nat.add_assoc]

theorem countDown_isSome_iff (fuel b : Nat) :
    (countDown m d bound fuel b).isSome = true ↔ ∃ k < fuel, (stepDown m d)^[k] b < bound := by
  induction fuel generalizing b with
  | zero => simp [countDown]
  | succ fuel ih =>
    rw [countDown]
    split
    next below => exact iff_of_true rfl ⟨0, Nat.succ_pos _, below⟩
    next above =>
      rw [ih]
      constructor
      · rintro ⟨k, less, hit⟩
        exact ⟨k + 1, by omega, by rwa [Function.iterate_succ_apply]⟩
      · rintro ⟨k, less, hit⟩
        cases k with
        | zero => exact absurd hit above
        | succ k => exact ⟨k, by omega, by rwa [Function.iterate_succ_apply] at hit⟩

theorem countDown_lt {fuel b r : Nat} (ends : countDown m d bound fuel b = some r) : r < bound := by
  induction fuel generalizing b with
  | zero => cases ends
  | succ fuel ih =>
    rw [countDown] at ends
    split at ends
    next below =>
      cases ends
      exact below
    next => exact ih ends

theorem exists_iterate_eq_mod {b : Nat} (small : b < m) :
    ∃ k < m, (stepDown m d)^[k] b = b % Nat.gcd (m - d) m := by
  have positive : (0 : Int) < m := by omega
  have bezout := Nat.gcd_eq_gcd_ab (m - d) m
  set g := Nat.gcd (m - d) m
  set x := Nat.gcdA (m - d) m
  set y := Nat.gcdB (m - d) m
  have split : ((b : Int)) = g * (b / g : Nat) + (b % g : Nat) := by exact_mod_cast (Nat.div_add_mod b g).symm
  set q := b / g
  -- as many steps as take the multiple of the divisor off
  have rounds : -(q * x) = m * (-(q * x) / m) + -(q * x) % m := (Int.mul_ediv_add_emod _ _).symm
  have nonneg := Int.emod_nonneg (-(q * x)) positive.ne'
  have less := Int.emod_lt_of_pos (-(q * x)) positive
  set k := (-(q * x) % (m : Int)).toNat with def_k
  have cast : (k : Int) = -(q * x) % m := Int.toNat_of_nonneg nonneg
  refine ⟨k, by omega, ?_⟩
  rw [iterate_stepDown k small]
  have sum : ((b + k * (m - d) : Nat) : Int) = (b % g : Nat) + m * (q * y - (-(q * x) / m) * (m - d : Nat)) := by
    rw [Nat.cast_add, Nat.cast_mul, cast]
    linear_combination split + q * bezout - ((m - d : Nat) : Int) * rounds
  have below : b % g < m := (Nat.mod_le _ _).trans_lt small
  have remainder : (((b + k * (m - d)) % m : Nat) : Int) = ((b % g : Nat) : Int) := by
    rw [Int.natCast_emod, sum, Int.add_mul_emod_self_left, Int.emod_eq_of_lt (by omega) (by omega)]
  exact_mod_cast remainder

theorem iterate_mod (k : Nat) {b : Nat} (small : b < m) :
    (stepDown m d)^[k] b % Nat.gcd (m - d) m = b % Nat.gcd (m - d) m := by
  rw [iterate_stepDown k small, Nat.mod_mod_of_dvd _ (Nat.gcd_dvd_right _ _)]
  obtain ⟨c, multiple⟩ := (Nat.gcd_dvd_left (m - d) m).mul_left k
  rw [multiple, Nat.add_mul_mod_self_left]

theorem gcd_sub (le : d ≤ m) : Nat.gcd (m - d) m = Nat.gcd d m := by
  rw [Nat.gcd_comm, Nat.gcd_self_sub_right le, Nat.gcd_comm]

theorem countDown_ends_iff {b : Nat} (small : b < m) (le : d ≤ m) :
    (countDown m d bound m b).isSome = true ↔ b % Nat.gcd d m < bound := by
  constructor
  · intro ends
    obtain ⟨k, -, hit⟩ := (countDown_isSome_iff m b).mp ends
    rw [← gcd_sub le, ← iterate_mod k small]
    exact (Nat.mod_le _ _).trans_lt hit
  · intro below
    obtain ⟨k, less, meets⟩ := exists_iterate_eq_mod (d := d) small
    refine (countDown_isSome_iff m b).mpr ⟨k, less, ?_⟩
    rwa [meets, gcd_sub le]

end CountDown
