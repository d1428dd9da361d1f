import Mathlib.Tactic

set_option autoImplicit false

/-!
The register holds the remainder with its highest power in the lowest bit, so one step shifts
right and folds the polynomial in when a one falls out.
-/

namespace Crc

variable {w : Nat} (poly : BitVec w)

def bitStep (c : BitVec w) : BitVec w :=
  if c.getLsbD 0 then (c >>> 1) ^^^ poly else c >>> 1

def bits : Nat → BitVec w → BitVec w
  | 0, c => c
  | n + 1, c => bits n (bitStep poly c)

def byteStep (c : BitVec w) (x : BitVec 8) : BitVec w :=
  bits poly 8 (c ^^^ x.setWidth w)

def run (c : BitVec w) (bytes : List (BitVec 8)) : BitVec w :=
  bytes.foldl (byteStep poly) c

theorem run_append (c : BitVec w) (xs ys : List (BitVec 8)) :
    run poly c (xs ++ ys) = run poly (run poly c xs) ys := by
  simp [run]

theorem bitStep_xor (a b : BitVec w) :
    bitStep poly (a ^^^ b) = bitStep poly a ^^^ bitStep poly b := by
  unfold bitStep
  rw [BitVec.getLsbD_xor, BitVec.ushiftRight_xor_distrib]
  have cancel : ∀ x y : BitVec w, x ^^^ poly ^^^ (y ^^^ poly) = x ^^^ y := by
    intro x y
    rw [BitVec.xor_comm y, ← BitVec.xor_assoc, BitVec.xor_assoc x, BitVec.xor_self, BitVec.xor_zero]
  cases a.getLsbD 0 <;> cases b.getLsbD 0 <;> simp [cancel]
  · rw [BitVec.xor_assoc]
  · rw [BitVec.xor_assoc, BitVec.xor_assoc, BitVec.xor_comm (b >>> 1)]

theorem bits_xor (n : Nat) (a b : BitVec w) :
    bits poly n (a ^^^ b) = bits poly n a ^^^ bits poly n b := by
  induction n generalizing a b with
  | zero => rfl
  | succ n ih => simp only [bits, bitStep_xor, ih]

theorem bits_add (m n : Nat) (c : BitVec w) :
    bits poly (m + n) c = bits poly n (bits poly m c) := by
  induction m generalizing c with
  | zero => simp [bits]
  | succ m ih => rw [Nat.succ_add]; exact ih _

theorem bits_of_low_clear (n : Nat) (c : BitVec w) (clear : ∀ i, i < n → c.getLsbD i = false) :
    bits poly n c = c >>> n := by
  induction n generalizing c with
  | zero => simp [bits]
  | succ n ih =>
    have low : c.getLsbD 0 = false := clear 0 (by omega)
    have step : bitStep poly c = c >>> 1 := by simp [bitStep, low]
    rw [bits, step, ih, ← BitVec.shiftRight_add, Nat.add_comm]
    intro i hi
    rw [BitVec.getLsbD_ushiftRight]
    exact clear (1 + i) (by omega)

section Bitwise

def takeBit (c : BitVec w) (b : Bool) : BitVec w := bitStep poly (c ^^^ (BitVec.ofBool b).setWidth w)

def message (c : BitVec w) (bs : List Bool) : BitVec w := bs.foldl (takeBit poly) c

def byteBits (x : BitVec 8) : List Bool := (List.range 8).map x.getLsbD

theorem bitStep_xor_low (c y : BitVec w) :
    bitStep poly (c ^^^ y) = takeBit poly c (y.getLsbD 0) ^^^ (y >>> 1) := by
  have split : y = (BitVec.ofBool (y.getLsbD 0)).setWidth w ^^^ ((y >>> 1) <<< 1) := by
    apply BitVec.eq_of_getLsbD_eq
    intro i hi
    cases i with
    | zero => simp [hi]
    | succ i => simp [hi, Nat.add_comm 1 i]
  have clear : ∀ i, i < 1 → ((y >>> 1) <<< 1).getLsbD i = false := by
    intro i hi
    simp [hi]
  have rest : bitStep poly ((y >>> 1) <<< 1) = y >>> 1 := by
    have shifted := bits_of_low_clear poly 1 _ clear
    rw [show bits poly 1 ((y >>> 1) <<< 1) = bitStep poly ((y >>> 1) <<< 1) from rfl] at shifted
    rw [shifted]
    apply BitVec.eq_of_getLsbD_eq
    intro i hi
    by_cases inside : 1 + i < w
    · simp [inside]
    · simp [inside, BitVec.getLsbD_of_ge y (1 + i) (by omega)]
  conv_lhs => rw [split, ← BitVec.xor_assoc, bitStep_xor, rest]
  rfl

theorem bits_xor_eq_message (n : Nat) (c y : BitVec w) :
    bits poly n (c ^^^ y) = message poly c ((List.range n).map y.getLsbD) ^^^ (y >>> n) := by
  induction n generalizing c y with
  | zero => simp [bits, message]
  | succ n ih =>
    have later : (List.range (n + 1)).map y.getLsbD =
        y.getLsbD 0 :: (List.range n).map (y >>> 1).getLsbD := by
      rw [List.range_succ_eq_map, List.map_cons, List.map_map]
      congr 1
      refine List.map_congr_left fun i _ => ?_
      simp [Nat.add_comm 1 i]
    rw [bits, bitStep_xor_low, ih, later, ← BitVec.shiftRight_add, Nat.add_comm 1 n]
    rfl

theorem byteStep_eq_message (wide : 8 ≤ w) (c : BitVec w) (x : BitVec 8) :
    byteStep poly c x = message poly c (byteBits x) := by
  have none : x.setWidth w >>> 8 = 0#w := by
    apply BitVec.eq_of_getLsbD_eq
    intro i _
    simp
  have same : (List.range 8).map (x.setWidth w).getLsbD = byteBits x := by
    refine List.map_congr_left fun i mem => ?_
    have inside : i < w := (List.mem_range.mp mem).trans_le wide
    simp [inside]
  rw [byteStep, bits_xor_eq_message, same, none, BitVec.xor_zero]

theorem run_eq_message (wide : 8 ≤ w) (c : BitVec w) (bytes : List (BitVec 8)) :
    run poly c bytes = message poly c (bytes.flatMap byteBits) := by
  induction bytes generalizing c with
  | nil => rfl
  | cons x rest ih =>
    have step : run poly c (x :: rest) = run poly (byteStep poly c x) rest := rfl
    rw [step, ih, byteStep_eq_message poly wide, List.flatMap_cons, message, message, message, List.foldl_append]

end Bitwise

theorem bits_eight_shiftLeft (x y : BitVec w) (fits : (y <<< 8) >>> 8 = y) :
    bits poly 8 (x ^^^ (y <<< 8)) = bits poly 8 x ^^^ y := by
  have clear : ∀ i, i < 8 → (y <<< 8).getLsbD i = false := by
    intro i hi
    simp [hi]
  rw [bits_xor, bits_of_low_clear poly 8 _ clear, fits]

theorem and_add_not_and (x m : BitVec w) : x = (x &&& m) ^^^ (x &&& ~~~m) := by
  apply BitVec.eq_of_getLsbD_eq
  intro i hi
  simp only [BitVec.getLsbD_xor, BitVec.getLsbD_and, BitVec.getLsbD_not, hi, decide_true,
    Bool.true_and]
  cases x.getLsbD i <;> cases m.getLsbD i <;> rfl

theorem bits_eight (x m : BitVec w) (low : ∀ i, i < w → m.getLsbD i = decide (i < 8)) :
    bits poly 8 x = bits poly 8 (x &&& m) ^^^ (x >>> 8) := by
  have rest : bits poly 8 (x &&& ~~~m) = (x &&& ~~~m) >>> 8 := by
    apply bits_of_low_clear
    intro i hi
    by_cases inside : i < w
    · simp [low i inside, hi]
    · exact BitVec.getLsbD_of_ge _ _ (not_lt.mp inside)
  have same : (x &&& ~~~m) >>> 8 = x >>> 8 := by
    apply BitVec.eq_of_getLsbD_eq
    intro i hi
    rw [BitVec.getLsbD_ushiftRight, BitVec.getLsbD_ushiftRight, BitVec.getLsbD_and,
      BitVec.getLsbD_not]
    by_cases inside : 8 + i < w
    · have high : m.getLsbD (8 + i) = false := by simp [low _ inside]
      rw [high]
      simp [inside]
    · simp [BitVec.getLsbD_of_ge x (8 + i) (not_lt.mp inside)]
  conv_lhs => rw [and_add_not_and x m]
  rw [bits_xor, rest, same]

theorem bits_twoPow (j : Nat) (lt : j < w) : bits poly j (BitVec.twoPow w j) = 1#w := by
  rw [bits_of_low_clear poly j _ fun i less => by simp [BitVec.getLsbD_twoPow]; omega]
  apply BitVec.eq_of_toNat_eq
  rw [BitVec.toNat_ushiftRight, BitVec.toNat_twoPow, Nat.mod_eq_of_lt (Nat.pow_lt_pow_right (by omega) lt),
    Nat.shiftRight_eq_div_pow, Nat.div_self (Nat.two_pow_pos j), BitVec.toNat_ofNat,
    Nat.mod_eq_of_lt (Nat.one_lt_two_pow (by omega))]

section Detection

variable (top : poly.getLsbD (w - 1) = true)
include top

theorem bitStep_injective : Function.Injective (bitStep poly) := by
  intro a b same
  have width : 0 < w := by
    by_contra none
    have zero : w - 1 ≥ w := by omega
    simp [BitVec.getLsbD_of_ge poly _ zero] at top
  have out : ∀ c : BitVec w, (bitStep poly c).getLsbD (w - 1) = c.getLsbD 0 := by
    intro c
    have past : c.getLsbD (1 + (w - 1)) = false := BitVec.getLsbD_of_ge _ _ (by omega)
    unfold bitStep
    split <;> simp_all
  have low : a.getLsbD 0 = b.getLsbD 0 := by rw [← out a, ← out b, same]
  have shifted : a >>> 1 = b >>> 1 := by
    unfold bitStep at same
    rw [low] at same
    split at same
    · exact (BitVec.xor_left_inj poly).mp same
    · exact same
  apply BitVec.eq_of_getLsbD_eq
  intro i hi
  cases i with
  | zero => exact low
  | succ i =>
    have h := congrArg (fun c => c.getLsbD i) shifted
    simpa [Nat.add_comm] using h

theorem bits_injective (n : Nat) : Function.Injective (bits poly n) := by
  induction n with
  | zero => exact fun _ _ h => h
  | succ n ih => exact ih.comp (bitStep_injective poly top)

end Detection

end Crc
