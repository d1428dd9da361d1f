import Ocfs2.Shared.Crc
import Mathlib.Logic.Function.Iterate

set_option autoImplicit false

/-!
An error is undetected when the powers of its bits add up to nothing. For three bits this is decided by a search that the
kernel evaluates: the powers whose exponent is a multiple of four are marked in tables of residues, and no other power
differs from one of them by one of the first four powers. The definitions that are evaluated use the operations of `Nat`
directly.
-/

namespace Crc

section Strict

/-- Two turns. The test makes the kernel evaluate the first turn before the second. -/
def twice (f : Nat → Nat) (s : Nat) : Nat := bif Nat.beq (f s) 0 then f 0 else f (f s)

def eight (f : Nat → Nat) (s : Nat) : Nat := f (f (f (f (f (f (f (f s)))))))

def strict (f : Nat → Nat) (d : Nat) : Nat → Nat := twice^[d] (eight f)

theorem twice_eq (f : Nat → Nat) : twice f = f^[2] := by
  funext s
  rw [twice]
  cases zero : Nat.beq (f s) 0 with
  | false => rfl
  | true =>
    change f 0 = f (f s)
    rw [Nat.eq_of_beq_eq_true zero]

theorem strict_eq (f : Nat → Nat) (d : Nat) : strict f d = f^[8 * 2 ^ d] := by
  have all : ∀ g : Nat → Nat, twice^[d] g = g^[2 ^ d] := by
    induction d with
    | zero => exact fun g => rfl
    | succ d ih =>
      intro g
      rw [Function.iterate_succ_apply, ih, twice_eq, ← Function.iterate_mul, Nat.pow_succ, Nat.mul_comm]
  have eight_eq : eight f = f^[8] := rfl
  rw [strict, all, eight_eq, ← Function.iterate_mul]

theorem strict_quarters (f : Nat → Nat) (d s : Nat) :
    strict f (d + 2) s = strict f d (strict f d (strict f d (strict f d s))) := by
  simp only [strict_eq, ← Function.iterate_add_apply]
  congr 2
  rw [Nat.pow_add]
  omega

end Strict

section Registers

def natStep (poly r : Nat) : Nat := Nat.xor (Nat.shiftRight r 1) (Nat.mul poly (Nat.land r 1))

variable {w : Nat} (poly : BitVec w)

theorem toNat_bitStep (c : BitVec w) : (bitStep poly c).toNat = natStep poly.toNat c.toNat := by
  change _ = (c.toNat >>> 1) ^^^ (poly.toNat * (c.toNat &&& 1))
  rw [Nat.and_one_is_mod, bitStep, BitVec.getLsbD, Nat.testBit_zero]
  rcases Nat.mod_two_eq_zero_or_one c.toNat with even | odd
  · simp [even]
  · simp [odd]

theorem toNat_bits (n : Nat) (c : BitVec w) : (bits poly n c).toNat = (natStep poly.toNat)^[n] c.toNat := by
  induction n generalizing c with
  | zero => rfl
  | succ n ih => rw [bits, ih, toNat_bitStep, Function.iterate_succ_apply]

theorem natStep_iterate_lt (n : Nat) {r : Nat} (lt : r < 2 ^ w) : (natStep poly.toNat)^[n] r < 2 ^ w := by
  have value := toNat_bits poly n (BitVec.ofNat w r)
  rw [BitVec.toNat_ofNat, Nat.mod_eq_of_lt lt] at value
  rw [← value]
  exact (bits poly n (BitVec.ofNat w r)).isLt

end Registers

section Tables

variable (poly w : Nat)

def register (s : Nat) : Nat := Nat.land s (Nat.sub (Nat.pow 2 w) 1)

def fourSteps (r : Nat) : Nat := natStep poly (natStep poly (natStep poly (natStep poly r)))

def fillStep (modulus s : Nat) : Nat :=
  Nat.lor (Nat.xor s (Nat.xor (register w s) (fourSteps poly (register w s))))
    (Nat.shiftLeft 1 (Nat.add w (Nat.mod (register w s) modulus)))

def table (modulus d : Nat) : Nat := strict (fillStep poly w modulus) d 1

def marked (modulus d r : Nat) : Bool :=
  Nat.beq (Nat.land (Nat.shiftRight (table poly w modulus d) (Nat.add w (Nat.mod r modulus))) 1) 1

def present (moduli : List Nat) (d r : Nat) : Bool :=
  List.rec true (fun modulus _ rest => bif marked poly w modulus d r then rest else false) moduli

def searchStep (moduli : List Nat) (d r : Nat) : Nat :=
  bif Nat.beq r 1 then 0
  else bif present poly w moduli d (Nat.xor r 1) then 0
  else bif present poly w moduli d (Nat.xor r 2) then 0
  else bif present poly w moduli d (Nat.xor r 4) then 0
  else bif present poly w moduli d (Nat.xor r 8) then 0
  else natStep poly r

def searched (moduli : List Nat) (d : Nat) : Bool :=
  !Nat.beq (strict (searchStep poly w moduli d) (d + 2) (natStep poly 1)) 0

end Tables

section Soundness

variable {w : Nat} (poly : BitVec w) (modulus : Nat)

def power (n : Nat) : Nat := (natStep poly.toNat)^[n] 1

theorem register_eq (s : Nat) : register w s = s % 2 ^ w := Nat.and_two_pow_sub_one_eq_mod s w

theorem testBit_register (s i : Nat) : (register w s).testBit i = (decide (i < w) && s.testBit i) := by
  rw [register_eq, Nat.testBit_mod_two_pow]

theorem testBit_fillStep (s i : Nat) (lt : fourSteps poly.toNat (register w s) < 2 ^ w) :
    (fillStep poly.toNat w modulus s).testBit i =
      if i < w then (fourSteps poly.toNat (register w s)).testBit i
      else s.testBit i || decide (i = w + register w s % modulus) := by
  change (((s ^^^ (register w s ^^^ fourSteps poly.toNat (register w s))) |||
    1 <<< (w + register w s % modulus)).testBit i) = _
  rw [Nat.testBit_or, Nat.testBit_xor, Nat.testBit_xor, testBit_register, Nat.one_shiftLeft, Nat.testBit_two_pow]
  by_cases low : i < w
  · have other : ¬w + register w s % modulus = i := by omega
    simp [low, other]
  · have high : (fourSteps poly.toNat (register w s)).testBit i = false :=
      Nat.testBit_lt_two_pow (lt_of_lt_of_le lt (Nat.pow_le_pow_right Nat.zero_lt_two (not_lt.mp low)))
    simp [low, high, eq_comm]

theorem fourSteps_power (n : Nat) : fourSteps poly.toNat (power poly n) = power poly (n + 4) := by
  rw [power, power, Nat.add_comm, Function.iterate_add_apply]
  rfl

variable (wide : 0 < w)
include wide

theorem power_lt (n : Nat) : power poly n < 2 ^ w :=
  natStep_iterate_lt poly n (Nat.one_lt_two_pow (by omega))

theorem fillStep_iterate (n : Nat) :
    register w ((fillStep poly.toNat w modulus)^[n] 1) = power poly (4 * n) ∧
      ∀ i < n, ((fillStep poly.toNat w modulus)^[n] 1).testBit (w + power poly (4 * i) % modulus) = true := by
  induction n with
  | zero =>
    refine ⟨?_, fun i lt => absurd lt (Nat.not_lt_zero i)⟩
    rw [register_eq]
    exact Nat.mod_eq_of_lt (Nat.one_lt_two_pow (by omega))
  | succ n ih =>
    obtain ⟨here, before⟩ := ih
    rw [Function.iterate_succ_apply']
    generalize (fillStep poly.toNat w modulus)^[n] 1 = s at here before
    have next : fourSteps poly.toNat (register w s) = power poly (4 * (n + 1)) := by
      rw [here, fourSteps_power]
      rfl
    have bits := testBit_fillStep poly modulus s
    rw [next] at bits
    have bits := fun i => bits i (power_lt poly wide _)
    refine ⟨Nat.eq_of_testBit_eq fun i => ?_, fun i lt => ?_⟩
    · rw [testBit_register, bits]
      by_cases low : i < w
      · simp [low]
      · have high : (power poly (4 * (n + 1))).testBit i = false := Nat.testBit_lt_two_pow
          (lt_of_lt_of_le (power_lt poly wide _) (Nat.pow_le_pow_right Nat.zero_lt_two (not_lt.mp low)))
        simp [low, high]
    · rw [bits, if_neg (by omega), here]
      rcases Nat.lt_succ_iff_lt_or_eq.mp lt with earlier | rfl
      · rw [before i earlier, Bool.true_or]
      · simp

theorem marked_power (d i : Nat) (lt : i < 8 * 2 ^ d) : marked poly.toNat w modulus d (power poly (4 * i)) = true := by
  have set := (fillStep_iterate poly modulus wide (8 * 2 ^ d)).2 i lt
  rw [marked, table, strict_eq]
  change Nat.beq (((fillStep poly.toNat w modulus)^[8 * 2 ^ d] 1) >>> (w + power poly (4 * i) % modulus) &&& 1) 1 = true
  rw [Nat.and_one_is_mod]
  rw [Nat.testBit_eq_decide_div_mod_eq, decide_eq_true_eq] at set
  rw [Nat.shiftRight_eq_div_pow, set]
  rfl

theorem present_power (moduli : List Nat) (d i : Nat) (lt : i < 8 * 2 ^ d) :
    present poly.toNat w moduli d (power poly (4 * i)) = true := by
  induction moduli with
  | nil => rfl
  | cons modulus rest ih =>
    change (bif marked poly.toNat w modulus d (power poly (4 * i)) then present poly.toNat w rest d (power poly (4 * i))
      else false) = true
    rw [marked_power poly modulus wide d i lt, cond_true, ih]

end Soundness

section Search

variable {w : Nat} (poly : BitVec w) (moduli : List Nat) (d : Nat)

def Clean (r : Nat) : Prop := r ≠ 1 ∧ ∀ j < 4, present poly.toNat w moduli d (r ^^^ 2 ^ j) = false

theorem searchStep_cases (r : Nat) : searchStep poly.toNat w moduli d r = 0 ∨
    Clean poly moduli d r ∧ searchStep poly.toNat w moduli d r = natStep poly.toNat r := by
  rw [searchStep]
  cases one : Nat.beq r 1
  · cases first : present poly.toNat w moduli d (Nat.xor r 1)
    · cases second : present poly.toNat w moduli d (Nat.xor r 2)
      · cases third : present poly.toNat w moduli d (Nat.xor r 4)
        · cases fourth : present poly.toNat w moduli d (Nat.xor r 8)
          · refine Or.inr ⟨⟨Nat.ne_of_beq_eq_false one, fun j lt => ?_⟩, rfl⟩
            interval_cases j
            · exact first
            · exact second
            · exact third
            · exact fourth
          · exact Or.inl rfl
        · exact Or.inl rfl
      · exact Or.inl rfl
    · exact Or.inl rfl
  · exact Or.inl rfl

theorem searchStep_zero : searchStep poly.toNat w moduli d 0 = 0 := by
  rcases searchStep_cases poly moduli d 0 with zero | ⟨-, next⟩
  · exact zero
  · rw [next]
    change 0 >>> 1 ^^^ poly.toNat * (0 &&& 1) = 0
    simp

theorem searchStep_iterate (n : Nat) (found : (searchStep poly.toNat w moduli d)^[n] (natStep poly.toNat 1) ≠ 0) :
    (searchStep poly.toNat w moduli d)^[n] (natStep poly.toNat 1) = power poly (n + 1) ∧
      ∀ i < n, Clean poly moduli d (power poly (i + 1)) := by
  induction n with
  | zero => exact ⟨rfl, fun i lt => absurd lt (Nat.not_lt_zero i)⟩
  | succ n ih =>
    rw [Function.iterate_succ_apply'] at found ⊢
    have before : (searchStep poly.toNat w moduli d)^[n] (natStep poly.toNat 1) ≠ 0 := by
      intro zero
      rw [zero, searchStep_zero] at found
      exact found rfl
    obtain ⟨here, clean⟩ := ih before
    rw [here] at found ⊢
    rcases searchStep_cases poly moduli d (power poly (n + 1)) with zero | ⟨now, next⟩
    · exact absurd zero found
    · refine ⟨?_, fun i lt => ?_⟩
      · rw [next, power, power, Function.iterate_succ_apply' _ (n + 1)]
      · rcases Nat.lt_succ_iff_lt_or_eq.mp lt with earlier | rfl
        · exact clean i earlier
        · exact now

theorem power_clean (search : searched poly.toNat w moduli d = true) {n : Nat} (pos : 0 < n) (le : n ≤ 32 * 2 ^ d) :
    Clean poly moduli d (power poly n) := by
  have found : (searchStep poly.toNat w moduli d)^[8 * 2 ^ (d + 2)] (natStep poly.toNat 1) ≠ 0 := by
    rw [← strict_eq]
    intro zero
    rw [searched, zero] at search
    cases search
  have clean := (searchStep_iterate poly moduli d _ found).2 (n - 1) (by rw [Nat.pow_add]; omega)
  rwa [Nat.sub_add_cancel pos] at clean

theorem toNat_bits_one (wide : 0 < w) (n : Nat) : (bits poly n 1#w).toNat = power poly n := by
  rw [toNat_bits, BitVec.toNat_ofNat, Nat.mod_eq_of_lt (Nat.one_lt_two_pow (by omega)), power]

variable (search : searched poly.toNat w moduli d = true)
include search

theorem bits_one_ne_one (wide : 0 < w) {n : Nat} (pos : 0 < n) (le : n ≤ 32 * 2 ^ d) : bits poly n 1#w ≠ 1#w := by
  intro same
  have value := congrArg BitVec.toNat same
  rw [toNat_bits_one poly wide, BitVec.toNat_ofNat, Nat.mod_eq_of_lt (Nat.one_lt_two_pow (by omega))] at value
  exact (power_clean poly moduli d search pos le).1 value

theorem bits_one_xor_ne_one (wide : 4 ≤ w) (top : poly.getLsbD (w - 1) = true) {a b : Nat} (less : a < b)
    (le : b ≤ 32 * 2 ^ d) : bits poly a 1#w ^^^ bits poly b 1#w ≠ 1#w := by
  intro same
  -- both exponents go down until the smaller one is a multiple of four
  have small : a % 4 < 4 := Nat.mod_lt a (by decide)
  have first : bits poly a 1#w = bits poly (a % 4) (bits poly (4 * (a / 4)) 1#w) := by
    rw [← bits_add, Nat.div_add_mod]
  have second : bits poly b 1#w = bits poly (a % 4) (bits poly (b - a % 4) 1#w) := by
    rw [← bits_add, Nat.sub_add_cancel (by omega)]
  rw [first, second, ← bits_xor] at same
  have low := same.trans (bits_twoPow poly (a % 4) (by omega)).symm
  have value := congrArg BitVec.toNat (bits_injective poly top _ low)
  rw [BitVec.toNat_xor, toNat_bits_one poly (by omega), toNat_bits_one poly (by omega), BitVec.toNat_twoPow,
    Nat.mod_eq_of_lt (Nat.pow_lt_pow_right (by decide) (by omega))] at value
  have other : power poly (4 * (a / 4)) = power poly (b - a % 4) ^^^ 2 ^ (a % 4) := by
    rw [← value, Nat.xor_comm, Nat.xor_assoc, Nat.xor_self, Nat.xor_zero]
  have absent := (power_clean poly moduli d search (show 0 < b - a % 4 by omega) (by omega)).2 (a % 4) small
  rw [← other, present_power poly (by omega) moduli d (a / 4) (by omega)] at absent
  cases absent

end Search

end Crc
