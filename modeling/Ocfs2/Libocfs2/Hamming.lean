import Ocfs2.Shared.HammingCode
import Ocfs2.Shared.Popcount
import Ocfs2.Libocfs2.Bitops

set_option autoImplicit false

/-!
Unsigned quantities are natural numbers: a hunk has fewer than `2 ^ 31` bits in all that follows, so
none of the sums wraps.
-/

namespace Ocfs2.Hamming

open ByteBuffer HammingCode

def hcHweight32 (w : Nat) : Nat :=
  let res := (w &&& 0x55555555) + ((w >>> 1) &&& 0x55555555)
  let res := (res &&& 0x33333333) + ((res >>> 2) &&& 0x33333333)
  let res := (res &&& 0x0F0F0F0F) + ((res >>> 4) &&& 0x0F0F0F0F)
  let res := (res &&& 0x00FF00FF) + ((res >>> 8) &&& 0x00FF00FF)
  (res &&& 0x0000FFFF) + ((res >>> 16) &&& 0x0000FFFF)

def bumpBit : Nat → Nat → Nat → Nat × Nat
  | 0, b, p => (b, p)
  | fuel + 1, b, p => if 1 <<< p < b + 1 then bumpBit fuel (b + 1) (p + 1) else (b, p)

def calcCodeBit (i p : Nat) : Nat × Nat :=
  bumpBit 32 (i + 1 + p) p

def encodeLoop (data : Buffer) (d nr : Nat) : Nat → Nat → Nat → Nat → Nat
  | 0, _, _, parity => parity
  | fuel + 1, i, p, parity =>
    let i := Bitops.findNextBitSet data d i
    if i < d then
      let (b, p) := calcCodeBit (nr + i) p
      encodeLoop data d nr fuel (i + 1) p (parity ^^^ b)
    else parity

def hammingEncode (parity : Nat) (data : Buffer) (d nr : Nat) : Option Nat :=
  if d = 0 then none else some (encodeLoop data d nr (d + 1) 0 0 parity)

def hammingEncodeBlock (data : Buffer) (blocksize : Nat) : Option Nat :=
  hammingEncode 0 data (blocksize * 8) 0

def skipParityBits : Nat → Nat → Nat
  | 0, b => b
  | fuel + 1, b => if hcHweight32 b = 1 then skipParityBits fuel (b + 1) else b

def fixLoop (data : Buffer) (fix : Nat) : Nat → Nat → Nat → Buffer
  | 0, _, _ => data
  | n + 1, i, b =>
    -- no two powers of two above 1 are neighbours, so 32 rounds are more than the code takes
    let b := skipParityBits 32 b
    if b = fix then
      if Bitops.testBit i data then (Bitops.clearBit i data).2 else (Bitops.setBit i data).2
    else fixLoop data fix n (i + 1) (b + 1)

def hammingFix (data : Buffer) (d nr fix : Nat) : Option Buffer :=
  if d = 0 then none
  else if hcHweight32 fix = 1 then some data
  else if (calcCodeBit (nr + d) 0).1 ≤ fix then some data
  else
    let b := (calcCodeBit nr 0).1
    if fix < b then some data else some (fixLoop data fix d 0 b)

def hammingFixBlock (data : Buffer) (blocksize fix : Nat) : Option Buffer :=
  hammingFix data (blocksize * 8) 0 fix

section Weight

open Popcount

theorem hcHweight32_eq_sum (w : Nat) (word : w < 2 ^ 32) : hcHweight32 w = (bitsOf 32 w).sum := by
  have fold (m n k : Nat) (ds : List Nat) (len : ds.length = 2 * n) (small : ∀ d ∈ ds, d ≤ k)
      (fits : k < 2 ^ m) :
      (pack m ds &&& everySecond m n) + ((pack m ds >>> m) &&& everySecond m n) =
          pack (2 * m) (pairSums ds) ∧
        (pairSums ds).length = n ∧ (∀ d ∈ pairSums ds, d ≤ 2 * k) ∧ (pairSums ds).sum = ds.sum :=
    ⟨fold_pack m n ds len (fun d h => lt_of_le_of_lt (small d h) fits), length_pairSums n ds len,
      pairSums_le ds k ⟨n, len⟩ small, sum_pairSums ds⟩
  obtain ⟨p₁, l₁, s₁, t₁⟩ := fold 1 16 1 (bitsOf 32 w) (length_bitsOf _ _) (bitsOf_le _ _) (by decide)
  obtain ⟨p₂, l₂, s₂, t₂⟩ := fold 2 8 2 _ l₁ s₁ (by decide)
  obtain ⟨p₃, l₃, s₃, t₃⟩ := fold 4 4 4 _ l₂ s₂ (by decide)
  obtain ⟨p₄, l₄, s₄, t₄⟩ := fold 8 2 8 _ l₃ s₃ (by decide)
  obtain ⟨p₅, l₅, s₅, t₅⟩ := fold 16 1 16 _ l₄ s₄ (by decide)
  rw [pack_bitsOf 32 w word] at p₁
  obtain ⟨total, single⟩ := List.length_eq_one_iff.mp l₅
  have masks : everySecond 1 16 = 0x55555555 ∧ everySecond 2 8 = 0x33333333 ∧
      everySecond 4 4 = 0x0F0F0F0F ∧ everySecond 8 2 = 0x00FF00FF ∧
      everySecond 16 1 = 0x0000FFFF := by decide
  obtain ⟨m₁, m₂, m₃, m₄, m₅⟩ := masks
  rw [m₁] at p₁
  rw [m₂] at p₂
  rw [m₃] at p₃
  rw [m₄] at p₄
  rw [m₅] at p₅
  simp only [hcHweight32, p₁, p₂, p₃, p₄, p₅]
  rw [← t₁, ← t₂, ← t₃, ← t₄, ← t₅, single]
  simp [pack]

theorem hcHweight32_eq_one (w : Nat) (word : w < 2 ^ 32) : hcHweight32 w = 1 ↔ ∃ k, w = 2 ^ k := by
  rw [hcHweight32_eq_sum w word, sum_bitsOf_eq_one 32 w word]

end Weight

theorem bumpBit_spec (i fuel p : Nat) (early : p ≤ checks i) (enough : checks i ≤ p + fuel) :
    bumpBit fuel (i + 1 + p) p = (position i, checks i) := by
  induction fuel generalizing p with
  | zero =>
    obtain rfl : p = checks i := by omega
    rfl
  | succ fuel ih =>
    rw [bumpBit, Nat.one_shiftLeft]
    rcases Nat.lt_or_ge p (checks i) with below | reached
    · have power := pow_le_of_lt_checks i p below
      rw [if_pos (by omega), Nat.add_assoc (i + 1), ih (p + 1) (by omega) (by omega)]
    · obtain rfl : p = checks i := by omega
      have bound := position_lt i
      simp only [position] at bound
      rw [if_neg (by omega), position]

theorem checks_le_of_lt (i : Nat) (small : i < 2 ^ 31) : checks i ≤ 32 :=
  checks_le i 32 (by omega)

theorem calcCodeBit_eq (i p : Nat) (small : i < 2 ^ 31) (cache : p ≤ checks i) :
    calcCodeBit i p = (position i, checks i) :=
  bumpBit_spec i 32 p cache (by have := checks_le_of_lt i small; omega)

theorem encodeLoop_eq (data : Buffer) (d nr : Nat) (room : d ≤ 8 * data.length)
    (clean : Bitops.CleanTail data d) (small : nr + d ≤ 2 ^ 31) (fuel i p parity : Nat)
    (inside : i ≤ d) (enough : d < i + fuel) (cache : ∀ j, i ≤ j → p ≤ checks (nr + j)) :
    encodeLoop data d nr fuel i p (parity ^^^ codeSum (bit data) nr i) =
      parity ^^^ codeSum (bit data) nr d := by
  induction fuel generalizing i p with
  | zero => omega
  | succ fuel ih =>
    have next := Bitops.findNextBitSet_isNext data d i room clean inside
    have skip := codeSum_skip (bit data) nr i _ next.lower next.before
    have lower := next.lower
    rw [encodeLoop]
    by_cases more : Bitops.findNextBitSet data d i < d
    · have step : codeSum (bit data) nr i ^^^ position (nr + Bitops.findNextBitSet data d i) =
          codeSum (bit data) nr (Bitops.findNextBitSet data d i + 1) := by
        rw [codeSum, next.found more, skip]
        rfl
      rw [if_pos more, calcCodeBit_eq _ p (by omega) (cache _ lower)]
      simp only [Nat.xor_assoc, step]
      exact ih _ _ more (by omega) fun j later => checks_mono _ _ (by omega)
    · have last : Bitops.findNextBitSet data d i = d := by have := next.upper; omega
      rw [if_neg more, ← skip, last]

theorem hammingEncode_eq (parity : Nat) (data : Buffer) (d nr : Nat) (some_bits : 0 < d)
    (room : d ≤ 8 * data.length) (clean : Bitops.CleanTail data d) (small : nr + d ≤ 2 ^ 31) :
    hammingEncode parity data d nr = some (parity ^^^ codeSum (bit data) nr d) := by
  have loop := encodeLoop_eq data d nr room clean small (d + 1) 0 0 parity (by omega) (by omega)
    (fun _ _ => Nat.zero_le _)
  rw [hammingEncode, if_neg (by omega)]
  simpa [codeSum] using loop

theorem position_lt_word (i : Nat) (small : i < 2 ^ 31) : position i < 2 ^ 32 :=
  lt_of_lt_of_le (position_lt i) (Nat.pow_le_pow_right (by norm_num) (checks_le_of_lt i small))

theorem hcHweight32_position (i : Nat) (small : i < 2 ^ 31) : hcHweight32 (position i) ≠ 1 := by
  intro one
  obtain ⟨k, power⟩ := (hcHweight32_eq_one _ (position_lt_word i small)).mp one
  exact position_ne_pow i k power

theorem skipParityBits_position (i : Nat) (small : i < 2 ^ 31) (fuel : Nat) :
    skipParityBits fuel (position i) = position i := by
  cases fuel with
  | zero => rfl
  | succ fuel => rw [skipParityBits, if_neg (hcHweight32_position i small)]

theorem skipParityBits_succ (i : Nat) (small : i + 1 < 2 ^ 31) :
    skipParityBits 32 (position i + 1) = position (i + 1) := by
  rcases position_succ i with next | ⟨⟨k, power⟩, next⟩
  · rw [← next, skipParityBits_position _ small]
  · have word : position i + 1 < 2 ^ 32 := by
      have := position_lt_word (i + 1) small
      omega
    rw [skipParityBits, if_pos ((hcHweight32_eq_one _ word).mpr ⟨k, power⟩)]
    exact next ▸ skipParityBits_position _ small 31

theorem change_eq_flip (data : Buffer) (i : Nat) (inside : i < 8 * data.length) :
    (if Bitops.testBit i data then (Bitops.clearBit i data).2 else (Bitops.setBit i data).2) =
      flip data i := by
  apply ext_bits (by split <;> simp)
  intro j _
  rw [bit_flip _ _ _ inside, Bitops.testBit_eq]
  cases value : bit data i
  · simp [Bitops.bit_setBit _ _ _ inside]
  · simp [Bitops.bit_clearBit _ _ _ inside]

theorem fixLoop_eq (data : Buffer) (nr k i b n : Nat) (inside : i + k < 8 * data.length)
    (small : nr + i + k < 2 ^ 31) (more : k < n) (start : skipParityBits 32 b = position (nr + i)) :
    fixLoop data (position (nr + i + k)) n i b = flip data (i + k) := by
  induction k generalizing i b n with
  | zero =>
    obtain ⟨n, rfl⟩ : ∃ m, n = m + 1 := ⟨n - 1, by omega⟩
    rw [fixLoop, start, Nat.add_zero, if_pos rfl, change_eq_flip data i (by omega), Nat.add_zero]
  | succ k ih =>
    obtain ⟨n, rfl⟩ : ∃ m, n = m + 1 := ⟨n - 1, by omega⟩
    have before := position_lt_position (nr + i) (nr + i + (k + 1)) (by omega)
    have step := ih (i + 1) (position (nr + i) + 1) n (by omega) (by omega) (by omega)
      (skipParityBits_succ (nr + i) (by omega))
    rw [fixLoop, start, if_neg before.ne]
    rw [show nr + i + (k + 1) = nr + (i + 1) + k by omega, step,
      show i + (k + 1) = i + 1 + k by omega]

theorem hammingFix_position (data : Buffer) (d nr k : Nat) (room : d ≤ 8 * data.length)
    (small : nr + d < 2 ^ 31) (inside : k < d) :
    hammingFix data d nr (position (nr + k)) = some (flip data k) := by
  have after := position_lt_position (nr + k) (nr + d) (by omega)
  have before : position nr ≤ position (nr + k) := by
    rcases Nat.eq_zero_or_pos k with rfl | positive
    · rfl
    · exact (position_lt_position nr (nr + k) (by omega)).le
  have loop := fixLoop_eq data nr k 0 (position nr) d (by omega) (by omega) inside
    (skipParityBits_position nr (by omega) 32)
  rw [hammingFix, if_neg (by omega), if_neg (hcHweight32_position _ (by omega)),
    calcCodeBit_eq _ 0 small (Nat.zero_le _), if_neg (by simpa using after),
    calcCodeBit_eq _ 0 (by omega) (Nat.zero_le _), if_neg (by simpa using before)]
  simpa using loop

end Ocfs2.Hamming
