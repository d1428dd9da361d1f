import Ocfs2.Libocfs2.Hamming

set_option autoImplicit false

namespace Ocfs2.Hamming

open ByteBuffer HammingCode

section Model

def addLoop (add : Nat → Nat → Nat) (data : Buffer) (d nr : Nat) : Nat → Nat → Nat → Nat
  | 0, _, parity => parity
  | fuel + 1, i, parity =>
    let i := Bitops.findNextBitSet data d i
    if i < d then addLoop add data d nr fuel (i + 1) (add parity (nr + i)) else parity

def calcParityBitsFrom (d : Nat) : Nat → Nat → Nat
  | 0, _ => 0
  | fuel + 1, p => if d + p + 1 ≤ 1 <<< p then p else calcParityBitsFrom d fuel (p + 1)

-- `p` runs from 1 to 31
def calcParityBitsOrig (d : Nat) : Nat := calcParityBitsFrom d 31 1

def calcCodeBitOrig (i : Nat) : Nat := (bumpBit 32 (i + 1) 0).1

def addParityBits (p parity b : Nat) : Nat :=
  (List.range p).foldl (fun parity j => if b &&& 1 <<< j ≠ 0 then parity ^^^ 1 <<< j else parity) parity

def hammingEncodeOrig (parity : Nat) (data : Buffer) (d nr : Nat) : Option Nat :=
  let p := calcParityBitsOrig d
  if p = 0 then none
  else some (addLoop (fun parity i => addParityBits p parity (calcCodeBitOrig i)) data d nr (d + 1) 0 parity)

def multiplyDeBruijnBitPosition : List Nat :=
  [0, 1, 28, 2, 29, 14, 24, 3, 30, 22, 20, 15, 25, 17, 4, 8, 31, 27, 13, 23, 21, 19, 16, 7, 26, 12, 18, 6, 11, 5, 10, 9]

def findHighestBitSet (v : Nat) : Nat :=
  let v := v ||| v >>> 1
  let v := v ||| v >>> 2
  let v := v ||| v >>> 4
  let v := v ||| v >>> 8
  let v := v ||| v >>> 16
  let v := (v >>> 1) + 1
  multiplyDeBruijnBitPosition.getD ((v * 0x077CB531 % 2 ^ 32) >>> 27) 0

-- here `p` is the power itself
def cheatBump : Nat → Nat → Nat → Nat
  | 0, b, _ => b
  | fuel + 1, b, p => if p < b + 1 then cheatBump fuel (b + 1) (p <<< 1) else b

def calcCodeBitCheat (i : Nat) : Nat :=
  let b := i + 1
  let p := findHighestBitSet b
  cheatBump 32 (b + p) (1 <<< p)

def hammingEncodeCheatCodeBit (parity : Nat) (data : Buffer) (d nr : Nat) : Option Nat :=
  if d = 0 then none
  else some (addLoop (fun parity i => parity ^^^ calcCodeBitCheat i) data d nr (d + 1) 0 parity)

def encodeHunks (encode : Nat → Buffer → Nat → Nat → Option Nat) : Nat → Nat → List Buffer → Option Nat
  | parity, _, [] => some parity
  | parity, nr, hunk :: hunks => do
    let parity ← encode parity hunk (8 * hunk.length) nr
    encodeHunks encode parity (nr + 8 * hunk.length) hunks

end Model

def Smeared (v m u : Nat) : Prop := ∀ i, u.testBit i = true ↔ ∃ j, i ≤ j ∧ j < i + m ∧ v.testBit j = true

theorem Smeared.double {v m u : Nat} (smeared : Smeared v m u) : Smeared v (2 * m) (u ||| u >>> m) := by
  intro i
  rw [Nat.testBit_or, Nat.testBit_shiftRight, Bool.or_eq_true, smeared i, smeared (m + i)]
  constructor
  · rintro (⟨j, low, high, one⟩ | ⟨j, low, high, one⟩)
    · exact ⟨j, low, by omega, one⟩
    · exact ⟨j, by omega, by omega, one⟩
  · rintro ⟨j, low, high, one⟩
    rcases Nat.lt_or_ge j (i + m) with near | far
    · exact .inl ⟨j, low, near, one⟩
    · exact .inr ⟨j, by omega, by omega, one⟩

theorem smeared_self (v : Nat) : Smeared v 1 v := by
  intro i
  constructor
  · intro one
    exact ⟨i, le_rfl, by omega, one⟩
  · rintro ⟨j, low, high, one⟩
    obtain rfl : j = i := by omega
    exact one

theorem Smeared.eq_mask {v u : Nat} (smeared : Smeared v 32 u) (nonzero : v ≠ 0) (word : v < 2 ^ 32) :
    u = 2 ^ (v.log2 + 1) - 1 := by
  have top : v.testBit v.log2 = true := Nat.testBit_log2 nonzero
  have small : v.log2 < 32 := (Nat.log2_lt nonzero).mpr word
  apply Nat.eq_of_testBit_eq
  intro i
  rw [Nat.testBit_two_pow_sub_one, Bool.eq_iff_iff, smeared i, decide_eq_true_eq]
  constructor
  · rintro ⟨j, low, -, one⟩
    have := Nat.le_log2 nonzero |>.mpr (Nat.ge_two_pow_of_testBit one)
    omega
  · intro inside
    exact ⟨v.log2, by omega, by omega, top⟩

theorem table_log2 : ∀ k < 32, multiplyDeBruijnBitPosition.getD ((2 ^ k * 0x077CB531 % 2 ^ 32) >>> 27) 0 = k := by
  decide

theorem findHighestBitSet_eq {v : Nat} (nonzero : v ≠ 0) (word : v < 2 ^ 32) : findHighestBitSet v = v.log2 := by
  have mask := (smeared_self v).double.double.double.double.double.eq_mask nonzero word
  have small : v.log2 < 32 := (Nat.log2_lt nonzero).mpr word
  have half : (2 ^ (v.log2 + 1) - 1) >>> 1 + 1 = 2 ^ v.log2 := by
    have := Nat.two_pow_pos v.log2
    omega
  simp only [findHighestBitSet]
  rw [mask, half]
  exact table_log2 _ small

theorem cheatBump_eq (fuel b p : Nat) : cheatBump fuel b (1 <<< p) = (bumpBit fuel b p).1 := by
  induction fuel generalizing b p with
  | zero => rfl
  | succ fuel ih =>
    have shift : 1 <<< p <<< 1 = 1 <<< (p + 1) := by rw [← Nat.shiftLeft_add]
    rw [cheatBump, bumpBit, shift]
    split_ifs
    · exact ih _ _
    · rfl

variable {i : Nat} {data : Buffer}

theorem calcCodeBitCheat_eq (small : i < 2 ^ 31) : calcCodeBitCheat i = position i := by
  have power : 2 ^ (i + 1).log2 ≤ i + 1 := Nat.log2_self_le (by omega)
  have few : (i + 1).log2 ≤ checks i := by
    by_contra more
    have bound := position_lt i
    have mono := Nat.pow_le_pow_right (show 0 < 2 by norm_num) (show checks i ≤ (i + 1).log2 by omega)
    simp only [position] at bound
    omega
  have spec := calcCodeBit_eq i _ small few
  simp only [calcCodeBitCheat]
  rw [findHighestBitSet_eq (by omega) (by omega), cheatBump_eq]
  rw [calcCodeBit] at spec
  rw [spec]

theorem calcCodeBitOrig_eq (small : i < 2 ^ 31) : calcCodeBitOrig i = position i := by
  have spec := calcCodeBit_eq i 0 small (Nat.zero_le _)
  rw [calcCodeBit] at spec
  rw [calcCodeBitOrig, ← Nat.add_zero (i + 1), spec]

theorem addParityBits_eq (p parity b : Nat) : addParityBits p parity b = parity ^^^ b % 2 ^ p := by
  induction p with
  | zero => simp [addParityBits, Nat.mod_one]
  | succ p ih =>
    have step : addParityBits (p + 1) parity b =
        if b &&& 1 <<< p ≠ 0 then addParityBits p parity b ^^^ 1 <<< p else addParityBits p parity b := by
      simp [addParityBits, List.range_succ]
    have digit : b % 2 ^ (p + 1) = b % 2 ^ p ^^^ if b.testBit p then 2 ^ p else 0 := by
      apply Nat.eq_of_testBit_eq
      intro i
      rw [Nat.testBit_mod_two_pow, Nat.testBit_xor, Nat.testBit_mod_two_pow]
      rcases Nat.lt_trichotomy i p with less | rfl | more
      · have other : (if b.testBit p then 2 ^ p else 0).testBit i = false := by
          split <;> simp [less.ne']
        simp [other, less, Nat.lt_succ_of_lt less]
      · cases b.testBit i <;> simp
      · have other : (if b.testBit p then 2 ^ p else 0).testBit i = false := by
          split <;> simp [more.ne]
        simp [other, show ¬ i < p + 1 by omega, show ¬ i < p by omega]
    have test : (b &&& 1 <<< p ≠ 0) ↔ b.testBit p = true := by
      rw [Nat.one_shiftLeft]
      constructor
      · intro some
        by_contra clear
        rw [Bool.not_eq_true] at clear
        refine some (Nat.eq_of_testBit_eq fun i => ?_)
        by_cases same : p = i
        · simp [← same, clear]
        · simp [same]
      · intro one zero
        have here := congrArg (Nat.testBit · p) zero
        simp [one] at here
    rw [step, ih, digit, Nat.one_shiftLeft] at *
    by_cases one : b.testBit p = true
    · rw [if_pos (test.mpr one), if_pos one, Nat.xor_assoc]
    · rw [if_neg (fun h => one (test.mp h)), if_neg one, Nat.xor_zero]

theorem addLoop_eq (add : Nat → Nat → Nat) (g : Nat → Nat) {d nr : Nat}
    (adds : ∀ i < d, ∀ parity, add parity (nr + i) = parity ^^^ g i) (room : d ≤ 8 * data.length)
    (clean : Bitops.CleanTail data d) (fuel i parity : Nat) (inside : i ≤ d) (enough : d < i + fuel) :
    addLoop add data d nr fuel i (parity ^^^ sumWith g (bit data) i) = parity ^^^ sumWith g (bit data) d := by
  induction fuel generalizing i with
  | zero => omega
  | succ fuel ih =>
    have next := Bitops.findNextBitSet_isNext data d i room clean inside
    have skip := sumWith_skip g (bit data) i _ next.lower next.before
    have lower := next.lower
    rw [addLoop]
    by_cases more : Bitops.findNextBitSet data d i < d
    · have step : sumWith g (bit data) i ^^^ g (Bitops.findNextBitSet data d i) =
          sumWith g (bit data) (Bitops.findNextBitSet data d i + 1) := by
        rw [sumWith, next.found more, skip]
        rfl
      simp only [if_pos more, adds _ more, Nat.xor_assoc, step]
      exact ih _ more (by omega)
    · have last : Bitops.findNextBitSet data d i = d := by have := next.upper; omega
      rw [if_neg more, ← skip, last]

theorem cleanTail_bytes (data : Buffer) : Bitops.CleanTail data (8 * data.length) := by
  intro i past _
  exact bit_of_ge data i past

theorem cheat_eq (parity : Nat) (nr : Nat) (some_bits : data ≠ [])
    (small : nr + 8 * data.length ≤ 2 ^ 31) :
    hammingEncodeCheatCodeBit parity data (8 * data.length) nr =
      some (parity ^^^ codeSum (bit data) nr (8 * data.length)) := by
  have positive := List.length_pos_iff.mpr some_bits
  have adds : ∀ i < 8 * data.length, ∀ parity : Nat, parity ^^^ calcCodeBitCheat (nr + i) = parity ^^^ position (nr + i) :=
    fun i less parity => by rw [calcCodeBitCheat_eq (by omega)]
  have loop := addLoop_eq (fun parity i => parity ^^^ calcCodeBitCheat i) (fun i => position (nr + i)) adds le_rfl
    (cleanTail_bytes data) (8 * data.length + 1) 0 parity (by omega) (by omega)
  rw [hammingEncodeCheatCodeBit, if_neg (by omega), codeSum_eq_sumWith]
  simpa [sumWith] using loop

theorem orig_eq (parity : Nat) (nr : Nat) (counted : calcParityBitsOrig (8 * data.length) ≠ 0)
    (small : nr + 8 * data.length ≤ 2 ^ 31) :
    hammingEncodeOrig parity data (8 * data.length) nr = some (parity ^^^
      codeSum (bit data) nr (8 * data.length) % 2 ^ calcParityBitsOrig (8 * data.length)) := by
  have adds : ∀ i < 8 * data.length, ∀ parity : Nat,
      addParityBits (calcParityBitsOrig (8 * data.length)) parity (calcCodeBitOrig (nr + i)) =
        parity ^^^ position (nr + i) % 2 ^ calcParityBitsOrig (8 * data.length) :=
    fun i less parity => by rw [addParityBits_eq, calcCodeBitOrig_eq (by omega)]
  have loop := addLoop_eq
    (fun parity i => addParityBits (calcParityBitsOrig (8 * data.length)) parity (calcCodeBitOrig i))
    (fun i => position (nr + i) % 2 ^ calcParityBitsOrig (8 * data.length)) adds le_rfl (cleanTail_bytes data)
    (8 * data.length + 1) 0 parity (by omega) (by omega)
  simp only [hammingEncodeOrig, if_neg counted]
  rw [codeSum_eq_sumWith, ← sumWith_mod]
  simpa [sumWith] using loop

theorem calcParityBitsFrom_spec (d fuel p : Nat) (enough : d + 31 + 1 ≤ 2 ^ 31) (range : p + fuel = 32) (start : 0 < p)
    (left : 0 < fuel) :
    calcParityBitsFrom d fuel p ≠ 0 ∧ d + calcParityBitsFrom d fuel p + 1 ≤ 2 ^ calcParityBitsFrom d fuel p := by
  induction fuel generalizing p with
  | zero => omega
  | succ fuel ih =>
    rw [calcParityBitsFrom, Nat.one_shiftLeft]
    split_ifs with fits
    · exact ⟨by omega, fits⟩
    · refine ih (p + 1) (by omega) (by omega) ?_
      by_contra last
      obtain rfl : p = 31 := by omega
      exact fits enough

theorem calcParityBitsOrig_spec {d : Nat} (enough : d + 32 ≤ 2 ^ 31) :
    calcParityBitsOrig d ≠ 0 ∧ d + calcParityBitsOrig d + 1 ≤ 2 ^ calcParityBitsOrig d :=
  calcParityBitsFrom_spec d 31 1 enough rfl (by decide) (by decide)

theorem codeSum_lt_parity (f : Nat → Bool) {d : Nat} (enough : d + 32 ≤ 2 ^ 31) :
    codeSum f 0 d < 2 ^ calcParityBitsOrig d := by
  obtain ⟨-, fits⟩ := calcParityBitsOrig_spec enough
  refine codeSum_lt f 0 d _ fun i less => ?_
  rw [Nat.zero_add]
  have few : checks i ≤ calcParityBitsOrig d := checks_le i _ (by omega)
  exact (position_lt i).trans_le (Nat.pow_le_pow_right (by norm_num) few)

theorem bit_append_left {a : Buffer} (b : Buffer) (inside : i < 8 * a.length) : bit (a ++ b) i = bit a i := by
  rw [bit, bit, List.getD_append _ _ _ _ (by omega)]

theorem bit_append_right (a b : Buffer) (i : Nat) : bit (a ++ b) (8 * a.length + i) = bit b i := by
  have byte : (8 * a.length + i) / 8 - a.length = i / 8 := by omega
  have place : (8 * a.length + i) % 8 = i % 8 := by omega
  rw [bit, bit, List.getD_append_right _ _ _ _ (by omega), byte, place]

theorem codeSum_append (a b : Buffer) (nr : Nat) :
    codeSum (bit (a ++ b)) nr (8 * (a ++ b).length) =
      codeSum (bit a) nr (8 * a.length) ^^^ codeSum (bit b) (nr + 8 * a.length) (8 * b.length) := by
  rw [List.length_append, Nat.mul_add, codeSum_add]
  congr 1
  · exact codeSum_congr _ _ _ _ fun i inside => bit_append_left b inside
  · exact codeSum_congr _ _ _ _ fun i _ => bit_append_right a b i

theorem encodeHunks_eq (parity nr : Nat) (hunks : List Buffer) (nonempty : ∀ hunk ∈ hunks, hunk ≠ [])
    (small : nr + 8 * hunks.flatten.length ≤ 2 ^ 31) :
    encodeHunks hammingEncode parity nr hunks =
      some (parity ^^^ codeSum (bit hunks.flatten) nr (8 * hunks.flatten.length)) := by
  induction hunks generalizing parity nr with
  | nil => simp [encodeHunks, codeSum]
  | cons hunk hunks ih =>
    obtain ⟨here, others⟩ := List.forall_mem_cons.mp nonempty
    have positive := List.length_pos_iff.mpr here
    rw [List.flatten_cons, List.length_append] at small
    rw [List.flatten_cons, codeSum_append, encodeHunks,
      hammingEncode_eq parity hunk _ nr (by omega) le_rfl (cleanTail_bytes hunk) (by omega), ← Nat.xor_assoc]
    exact ih _ _ others (by omega)

def offsets : Nat → List Buffer → List (Nat × Buffer)
  | _, [] => []
  | nr, hunk :: hunks => (nr, hunk) :: offsets (nr + 8 * hunk.length) hunks

theorem offsets_bound {nr : Nat} {hunks : List Buffer} {part : Nat × Buffer} (mem : part ∈ offsets nr hunks) :
    part.2 ∈ hunks ∧ part.1 + 8 * part.2.length ≤ nr + 8 * hunks.flatten.length := by
  induction hunks generalizing nr with
  | nil => cases mem
  | cons hunk hunks ih =>
    rw [List.flatten_cons, List.length_append]
    rcases List.mem_cons.mp mem with rfl | later
    · exact ⟨by simp, by dsimp only; omega⟩
    · obtain ⟨inside, bound⟩ := ih later
      exact ⟨by simp [inside], by omega⟩

noncomputable def codeBits (data : Buffer) : List Nat :=
  ((List.range (8 * data.length)).filter (bit data)).map (Nat.nth IsData)

structure EncodersAgree (hunks : List Buffer) : Prop where
  whole : encodeHunks hammingEncode 0 0 hunks = hammingEncode 0 hunks.flatten (8 * hunks.flatten.length) 0
  code : hammingEncode 0 hunks.flatten (8 * hunks.flatten.length) 0 = some ((codeBits hunks.flatten).foldl (· ^^^ ·) 0)
  cheat : ∀ part ∈ offsets 0 hunks, ∀ parity,
    hammingEncodeCheatCodeBit parity part.2 (8 * part.2.length) part.1 =
      hammingEncode parity part.2 (8 * part.2.length) part.1
  orig : ∀ part ∈ offsets 0 hunks, ∀ parity,
    hammingEncodeOrig parity part.2 (8 * part.2.length) part.1 = hammingEncode parity part.2 (8 * part.2.length) part.1

def ParityFits (hunks : List Buffer) : Prop :=
  ∀ part ∈ offsets 0 hunks,
    codeSum (bit part.2) part.1 (8 * part.2.length) < 2 ^ calcParityBitsOrig (8 * part.2.length)

theorem codeSum_eq_codeBits (data : Buffer) :
    codeSum (bit data) 0 (8 * data.length) = (codeBits data).foldl (· ^^^ ·) 0 := by
  rw [codeSum_eq_foldl, codeBits, List.foldl_map]
  simp only [Nat.zero_add, position_eq_nth]

theorem encoders_agree_iff {hunks : List Buffer} (some_hunk : hunks ≠ []) (nonempty : ∀ hunk ∈ hunks, hunk ≠ [])
    (small : 8 * hunks.flatten.length + 32 ≤ 2 ^ 31) : EncodersAgree hunks ↔ ParityFits hunks := by
  have each {part : Nat × Buffer} (mem : part ∈ offsets 0 hunks) (parity : Nat) :
      part.2 ≠ [] ∧ part.1 + 8 * part.2.length + 32 ≤ 2 ^ 31 ∧
        hammingEncode parity part.2 (8 * part.2.length) part.1 =
          some (parity ^^^ codeSum (bit part.2) part.1 (8 * part.2.length)) := by
    obtain ⟨inside, bound⟩ := offsets_bound mem
    have positive := List.length_pos_iff.mpr (nonempty _ inside)
    exact ⟨nonempty _ inside, by omega, hammingEncode_eq parity _ _ _ (by omega) le_rfl (cleanTail_bytes _) (by omega)⟩
  have original {part : Nat × Buffer} (mem : part ∈ offsets 0 hunks) (parity : Nat) :=
    orig_eq parity part.1 (calcParityBitsOrig_spec (d := 8 * part.2.length) (by have := (each mem 0).2.1; omega)).1
      (by have := (each mem 0).2.1; omega)
  constructor
  · intro agree part mem
    have same := agree.orig part mem 0
    rw [original mem, (each mem 0).2.2, Option.some.injEq, Nat.zero_xor, Nat.zero_xor] at same
    rw [← same]
    exact Nat.mod_lt _ (Nat.two_pow_pos _)
  · intro fits
    have flat : 0 < hunks.flatten.length := by
      obtain ⟨hunk, rest, rfl⟩ := List.exists_cons_of_ne_nil some_hunk
      have := List.length_pos_iff.mpr (nonempty hunk (by simp))
      simp
      omega
    have direct := hammingEncode_eq 0 hunks.flatten (8 * hunks.flatten.length) 0 (by omega) le_rfl (cleanTail_bytes _)
      (by omega)
    refine ⟨?_, ?_, fun part mem parity => ?_, fun part mem parity => ?_⟩
    · rw [encodeHunks_eq 0 0 hunks nonempty (by omega), direct]
    · rw [direct, Nat.zero_xor, codeSum_eq_codeBits]
    · rw [(each mem parity).2.2, cheat_eq parity part.1 (each mem 0).1 (by have := (each mem 0).2.1; omega)]
    · rw [(each mem parity).2.2, original mem, Nat.mod_eq_of_lt (fits part mem)]

theorem encoders_agree_two_bytes : EncodersAgree [[1], [1]] := by
  refine (encoders_agree_iff (by decide) (by decide) (by decide)).mpr ?_
  have value : hammingEncode 0 [1] 8 8 = some 13 := by decide
  have second : codeSum (bit [1]) 8 8 = 13 := by
    rw [hammingEncode_eq 0 [1] 8 8 (by decide) (by decide) (cleanTail_bytes [1]) (by decide)] at value
    simpa using value
  have bits : calcParityBitsOrig 8 = 4 := by decide
  simp only [ParityFits, offsets, List.forall_mem_cons, List.length_singleton, Nat.mul_one, Nat.zero_add, bits, second]
  refine ⟨?_, by decide, by simp⟩
  exact bits ▸ codeSum_lt_parity (bit [1]) (d := 8) (by decide)

/-- The only bit that is set in the third byte has number 22. A hunk of eight bits is given four parity bits. -/
theorem orig_drops_parity_bit :
    hammingEncode 0 [1] 8 16 = some 22 ∧ hammingEncodeOrig 0 [1] 8 16 = some 6 ∧ ¬ EncodersAgree [[0], [0], [1]] := by
  have value : hammingEncode 0 [1] 8 16 = some 22 := by decide
  have cut : hammingEncodeOrig 0 [1] 8 16 = some 6 := by decide
  refine ⟨value, cut, fun agree => ?_⟩
  have same := agree.orig (16, [1]) (by decide) 0
  cases same

end Ocfs2.Hamming
