import Mathlib.Tactic

set_option autoImplicit false

namespace Popcount

def pack (m : Nat) : List Nat → Nat
  | [] => 0
  | d :: ds => d + 2 ^ m * pack m ds

def everySecond (m : Nat) : Nat → Nat
  | 0 => 0
  | n + 1 => (2 ^ m - 1) + 2 ^ (2 * m) * everySecond m n

def pairSums : List Nat → List Nat
  | a :: b :: ds => (a + b) :: pairSums ds
  | ds => ds

theorem and_add_mul (k a b c d : Nat) (ha : a < 2 ^ k) (hc : c < 2 ^ k) :
    (a + 2 ^ k * b) &&& (c + 2 ^ k * d) = (a &&& c) + 2 ^ k * (b &&& d) := by
  have low : a &&& c < 2 ^ k := Nat.and_lt_two_pow a hc
  apply Nat.eq_of_testBit_eq
  intro i
  rw [Nat.add_comm a, Nat.add_comm c, Nat.add_comm (a &&& c), Nat.testBit_and,
    Nat.testBit_two_pow_mul_add b ha, Nat.testBit_two_pow_mul_add d hc,
    Nat.testBit_two_pow_mul_add (b &&& d) low]
  split <;> rw [Nat.testBit_and]

theorem and_low (m a b : Nat) (ha : a < 2 ^ m) : (a + 2 ^ m * b) &&& (2 ^ m - 1) = a := by
  rw [Nat.and_two_pow_sub_one_eq_mod, Nat.add_mul_mod_self_left, Nat.mod_eq_of_lt ha]

theorem pack_and_everySecond (m : Nat) (a b : Nat) (ds : List Nat) (n : Nat)
    (ha : a < 2 ^ m) (hb : b < 2 ^ m) :
    pack m (a :: b :: ds) &&& everySecond m (n + 1) =
      a + 2 ^ (2 * m) * (pack m ds &&& everySecond m n) := by
  have split : pack m (a :: b :: ds) = (a + 2 ^ m * b) + 2 ^ (2 * m) * pack m ds := by
    simp only [pack, two_mul, pow_add]
    ring
  have square : 2 ^ (2 * m) = 2 ^ m * 2 ^ m := by rw [two_mul, pow_add]
  have bound : a + 2 ^ m * b < 2 ^ (2 * m) := by
    have step : 2 ^ m * b + 2 ^ m ≤ 2 ^ m * 2 ^ m := by
      have := Nat.mul_le_mul_left (2 ^ m) (Nat.succ_le_of_lt hb)
      rwa [Nat.mul_succ] at this
    omega
  have mask : 2 ^ m - 1 < 2 ^ (2 * m) := by
    have : 2 ^ m ≤ 2 ^ (2 * m) := Nat.pow_le_pow_right (by norm_num) (by omega)
    have : 0 < 2 ^ m := by positivity
    omega
  rw [split, everySecond, and_add_mul _ _ _ _ _ bound mask, and_low m a b ha]

theorem shift_pack (m a : Nat) (ds : List Nat) (ha : a < 2 ^ m) :
    pack m (a :: ds) >>> m = pack m ds := by
  rw [pack, Nat.shiftRight_eq_div_pow, Nat.add_mul_div_left _ _ (by positivity),
    Nat.div_eq_of_lt ha, Nat.zero_add]

theorem fold_pack (m n : Nat) (ds : List Nat) (len : ds.length = 2 * n) (small : ∀ d ∈ ds, d < 2 ^ m) :
    (pack m ds &&& everySecond m n) + ((pack m ds >>> m) &&& everySecond m n) =
      pack (2 * m) (pairSums ds) := by
  induction n generalizing ds with
  | zero =>
    have none : ds = [] := List.length_eq_zero_iff.mp (by omega)
    simp [none, pairSums, pack, everySecond]
  | succ n ih =>
    match ds, len with
    | a :: b :: rest, len =>
      have ha := small a (by simp)
      have hb := small b (by simp)
      have tail := ih rest (by simp at len; omega) (fun d h => small d (by simp [h]))
      have next : (pack m (b :: rest) &&& everySecond m (n + 1)) =
          b + 2 ^ (2 * m) * ((pack m rest >>> m) &&& everySecond m n) := by
        match rest, len with
        | [], len =>
          simp at len
          subst len
          have := pack_and_everySecond m b 0 [] 0 hb (by positivity)
          simpa [pack, everySecond] using this
        | c :: ds, _ =>
          have hc := small c (by simp)
          rw [pack_and_everySecond m b c ds n hb hc, shift_pack m c ds hc]
      rw [shift_pack m a _ ha, pack_and_everySecond m a b rest n ha hb, next]
      simp only [pairSums, pack]
      rw [← tail]
      ring

theorem length_pairSums (n : Nat) (ds : List Nat) (len : ds.length = 2 * n) :
    (pairSums ds).length = n := by
  induction n generalizing ds with
  | zero => simp [List.length_eq_zero_iff.mp (by omega : ds.length = 0), pairSums]
  | succ n ih =>
    match ds, len with
    | _ :: _ :: rest, len => simp [pairSums, ih rest (by simp at len; omega)]

theorem sum_pairSums (ds : List Nat) : (pairSums ds).sum = ds.sum := by
  induction ds using pairSums.induct with
  | case1 a b ds ih => simp [pairSums, ih, Nat.add_assoc]
  | case2 ds none => rw [pairSums.eq_2 ds none]

theorem pairSums_le (ds : List Nat) (k : Nat) (even : ∃ n, ds.length = 2 * n)
    (small : ∀ d ∈ ds, d ≤ k) : ∀ d ∈ pairSums ds, d ≤ 2 * k := by
  obtain ⟨n, len⟩ := even
  induction n generalizing ds with
  | zero => simp [List.length_eq_zero_iff.mp (by omega : ds.length = 0), pairSums]
  | succ n ih =>
    match ds, len with
    | a :: b :: rest, len =>
      have ha := small a (by simp)
      have hb := small b (by simp)
      have tail := ih rest (fun d h => small d (by simp [h])) (by simp at len; omega)
      intro d member
      rcases List.mem_cons.mp member with rfl | member
      · omega
      · exact tail d member

def bitsOf : Nat → Nat → List Nat
  | 0, _ => []
  | n + 1, w => w % 2 :: bitsOf n (w / 2)

@[simp] theorem length_bitsOf (n w : Nat) : (bitsOf n w).length = n := by
  induction n generalizing w with
  | zero => rfl
  | succ n ih => simp [bitsOf, ih]

theorem bitsOf_le (n w : Nat) : ∀ d ∈ bitsOf n w, d ≤ 1 := by
  induction n generalizing w with
  | zero => simp [bitsOf]
  | succ n ih =>
    intro d member
    rcases List.mem_cons.mp member with rfl | member
    · omega
    · exact ih _ d member

theorem pack_bitsOf (n w : Nat) (h : w < 2 ^ n) : pack 1 (bitsOf n w) = w := by
  induction n generalizing w with
  | zero => simp [bitsOf, pack]; omega
  | succ n ih =>
    rw [bitsOf, pack, ih (w / 2) (by rw [pow_succ] at h; omega)]
    omega

theorem sum_bitsOf_eq_zero (n w : Nat) (h : w < 2 ^ n) : (bitsOf n w).sum = 0 ↔ w = 0 := by
  induction n generalizing w with
  | zero => simp [bitsOf]; omega
  | succ n ih =>
    have tail := ih (w / 2) (by rw [pow_succ] at h; omega)
    simp only [bitsOf, List.sum_cons]
    omega

theorem sum_bitsOf_eq_one (n w : Nat) (h : w < 2 ^ n) :
    (bitsOf n w).sum = 1 ↔ ∃ k, w = 2 ^ k := by
  induction n generalizing w with
  | zero =>
    have zero : w = 0 := by simpa using h
    have positive (k : Nat) : 0 ≠ 2 ^ k := (by positivity : 0 < 2 ^ k).ne
    simp [bitsOf, zero, positive]
  | succ n ih =>
    have half : w / 2 < 2 ^ n := by rw [pow_succ] at h; omega
    have one := ih (w / 2) half
    have none := sum_bitsOf_eq_zero n (w / 2) half
    simp only [bitsOf, List.sum_cons]
    rcases Nat.mod_two_eq_zero_or_one w with even | odd
    · rw [even, Nat.zero_add, one]
      constructor
      · rintro ⟨k, hk⟩
        exact ⟨k + 1, by rw [pow_succ, ← hk]; omega⟩
      · rintro ⟨k, rfl⟩
        cases k with
        | zero => simp at even
        | succ k => exact ⟨k, by rw [pow_succ, Nat.mul_div_cancel _ (by norm_num)]⟩
    · rw [odd]
      constructor
      · intro total
        exact ⟨0, by rw [pow_zero]; omega⟩
      · rintro ⟨k, rfl⟩
        cases k with
        | zero => simpa using none.mpr rfl
        | succ k => simp [pow_succ] at odd

end Popcount
