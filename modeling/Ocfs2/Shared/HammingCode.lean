import Mathlib.Data.Nat.Nth
import Mathlib.Tactic

set_option autoImplicit false

/-!
Code positions count from one and the powers of two are kept for check bits, so data bit `i` stands
at the `i`-th positive number that is not a power of two. The check word is the exclusive or of the
positions of all set data bits.
-/

namespace HammingCode

theorem exists_checks (i : Nat) : ∃ p, i + 1 + p < 2 ^ p := by
  refine ⟨i + 3, ?_⟩
  induction i with
  | zero => norm_num
  | succ i ih => rw [show i + 1 + 3 = (i + 3) + 1 by ring, pow_succ]; omega

def checks (i : Nat) : Nat := Nat.find (exists_checks i)

def position (i : Nat) : Nat := i + 1 + checks i

theorem position_lt (i : Nat) : position i < 2 ^ checks i := Nat.find_spec (exists_checks i)

theorem checks_le (i p : Nat) (enough : i + 1 + p < 2 ^ p) : checks i ≤ p :=
  Nat.find_min' (exists_checks i) enough

theorem pow_le_of_lt_checks (i p : Nat) (few : p < checks i) : 2 ^ p ≤ i + 1 + p :=
  Nat.not_lt.mp (Nat.find_min (exists_checks i) few)

theorem checks_pos (i : Nat) : 0 < checks i := by
  by_contra none
  have bound := position_lt i
  rw [show checks i = 0 by omega] at bound
  simp [position] at bound

theorem checks_mono (i j : Nat) (le : i ≤ j) : checks i ≤ checks j := by
  have bound := position_lt j
  exact checks_le i (checks j) (by simp only [position] at bound; omega)

theorem position_lt_position (i j : Nat) (lt : i < j) : position i < position j := by
  have mono := checks_mono i j lt.le
  simp only [position]
  omega

theorem position_ne_pow (i k : Nat) : position i ≠ 2 ^ k := by
  rcases Nat.lt_or_ge k (checks i) with below | above
  · have := pow_le_of_lt_checks i k below
    simp only [position]
    omega
  · have := position_lt i
    have := Nat.pow_le_pow_right (show 0 < 2 by norm_num) above
    omega

theorem position_succ (i : Nat) :
    position (i + 1) = position i + 1 ∨
      ((∃ k, position i + 1 = 2 ^ k) ∧ position (i + 1) = position i + 2) := by
  have bound := position_lt i
  have mono := checks_mono i (i + 1) (by omega)
  rcases Nat.lt_or_ge (position i + 1) (2 ^ checks i) with inside | reached
  · left
    have := checks_le (i + 1) (checks i) (by simp only [position] at inside; omega)
    simp only [position]
    omega
  · right
    have power : position i + 1 = 2 ^ checks i := by omega
    have large : 2 ≤ 2 ^ checks i := by
      have := Nat.pow_le_pow_right (show 0 < 2 by norm_num) (checks_pos i)
      simpa using this
    have upper := checks_le (i + 1) (checks i + 1) (by
      simp only [position] at power
      rw [pow_succ]
      omega)
    have lower : checks (i + 1) ≠ checks i := by
      intro same
      have next := position_lt (i + 1)
      simp only [position, same] at next power
      omega
    refine ⟨⟨checks i, power⟩, ?_⟩
    simp only [position]
    omega

def IsData (n : Nat) : Prop := 0 < n ∧ ∀ k, n ≠ 2 ^ k

theorem isData_position (i : Nat) : IsData (position i) :=
  ⟨by rw [position]; omega, position_ne_pow i⟩

theorem position_zero : position 0 = 3 := by
  have upper := checks_le 0 2 (by norm_num)
  have lower : checks 0 ≠ 1 := by
    intro one
    have bound := position_lt 0
    rw [position, one] at bound
    norm_num at bound
  have := checks_pos 0
  rw [position]
  omega

open Classical in
theorem count_position (i : Nat) : Nat.count IsData (position i) = i := by
  induction i with
  | zero =>
    have zero : ¬ IsData 0 := fun data => absurd data.1 (lt_irrefl 0)
    have one : ¬ IsData 1 := fun data => data.2 0 rfl
    have two : ¬ IsData 2 := fun data => data.2 1 rfl
    rw [position_zero]
    simp [Nat.count_succ, zero, one, two]
  | succ i ih =>
    have here : Nat.count IsData (position i + 1) = i + 1 := by
      rw [Nat.count_succ, if_pos (isData_position i), ih]
    rcases position_succ i with next | ⟨⟨k, power⟩, next⟩
    · rw [next, here]
    · have skipped : ¬ IsData (position i + 1) := fun data => data.2 k power
      rw [next, Nat.count_succ, if_neg skipped, here]

variable (f : Nat → Bool)

theorem position_eq_nth (i : Nat) : position i = Nat.nth IsData i := by
  classical
  conv_rhs => rw [← count_position i]
  exact (Nat.nth_count (isData_position i)).symm

def codeSum (f : Nat → Bool) (nr : Nat) : Nat → Nat
  | 0 => 0
  | d + 1 => codeSum f nr d ^^^ (if f d then position (nr + d) else 0)

def sumWith (g : Nat → Nat) (f : Nat → Bool) : Nat → Nat
  | 0 => 0
  | d + 1 => sumWith g f d ^^^ (if f d then g d else 0)

theorem codeSum_eq_sumWith (nr d : Nat) :
    codeSum f nr d = sumWith (fun i => position (nr + i)) f d := by
  induction d with
  | zero => rfl
  | succ d ih => rw [codeSum, sumWith, ih]

theorem sumWith_skip (g : Nat → Nat) (f : Nat → Bool) (a b : Nat) (le : a ≤ b)
    (clear : ∀ i, a ≤ i → i < b → f i = false) : sumWith g f b = sumWith g f a := by
  induction b with
  | zero => rw [Nat.le_zero.mp le]
  | succ b ih =>
    rcases Nat.lt_or_ge b a with top | inside
    · rw [show a = b + 1 by omega]
    · rw [sumWith, clear b inside (by omega), ih inside (fun i lo hi => clear i lo (by omega))]
      simp

theorem sumWith_mod (g : Nat → Nat) (f : Nat → Bool) (p d : Nat) :
    sumWith (fun i => g i % 2 ^ p) f d = sumWith g f d % 2 ^ p := by
  induction d with
  | zero => simp [sumWith]
  | succ d ih =>
    rw [sumWith, sumWith, ih, Nat.xor_mod_two_pow]
    split <;> simp

theorem codeSum_skip (nr a b : Nat) (le : a ≤ b)
    (clear : ∀ i, a ≤ i → i < b → f i = false) : codeSum f nr b = codeSum f nr a := by
  rw [codeSum_eq_sumWith, codeSum_eq_sumWith, sumWith_skip _ f a b le clear]

theorem codeSum_congr (f g : Nat → Bool) (nr d : Nat) (same : ∀ i, i < d → f i = g i) :
    codeSum f nr d = codeSum g nr d := by
  induction d with
  | zero => rfl
  | succ d ih => rw [codeSum, codeSum, same d (by omega), ih (fun i hi => same i (by omega))]

theorem codeSum_lt (nr d n : Nat) (small : ∀ i, i < d → position (nr + i) < 2 ^ n) :
    codeSum f nr d < 2 ^ n := by
  induction d with
  | zero => exact Nat.two_pow_pos n
  | succ d ih =>
    apply Nat.xor_lt_two_pow (ih (fun i hi => small i (by omega)))
    split
    · exact small d (by omega)
    · exact Nat.two_pow_pos n

theorem codeSum_change (f g : Nat → Bool) (nr d k : Nat) (inside : k < d) (differ : g k = !f k)
    (same : ∀ i, i ≠ k → g i = f i) :
    codeSum g nr d = codeSum f nr d ^^^ position (nr + k) := by
  induction d with
  | zero => omega
  | succ d ih =>
    rcases Nat.lt_or_ge k d with below | top
    · rw [codeSum, codeSum, ih below, same d (by omega), Nat.xor_assoc, Nat.xor_assoc,
        Nat.xor_comm (position _)]
    · obtain rfl : k = d := by omega
      have before := codeSum_congr g f nr k (fun i hi => same i (by omega))
      rw [codeSum, codeSum, before, differ]
      cases f k <;> simp [Nat.xor_assoc]

theorem codeSum_add (nr a b : Nat) :
    codeSum f nr (a + b) = codeSum f nr a ^^^ codeSum (fun i => f (a + i)) (nr + a) b := by
  induction b with
  | zero => simp [codeSum]
  | succ b ih => rw [← Nat.add_assoc, codeSum, codeSum, ih, Nat.xor_assoc, Nat.add_assoc nr]

theorem codeSum_eq_foldl (nr d : Nat) :
    codeSum f nr d = ((List.range d).filter f).foldl (fun sum i => sum ^^^ position (nr + i)) 0 := by
  induction d with
  | zero => rfl
  | succ d ih =>
    rw [List.range_succ, List.filter_append, List.foldl_append, ← ih, codeSum]
    cases value : f d <;> simp [value]

end HammingCode
