import Ocfs2.Shared.CrcWeight
import Ocfs2.Libocfs2.BlockCheck

set_option autoImplicit false

namespace Ocfs2.BlockCheck

open ByteBuffer Crc32

section Flips

def searchQuarter : Nat → Nat :=
  Crc.strict (Crc.searchStep polynomial.toNat 32 [65443, 65499, 65507, 65183, 65005] 10) 10

theorem polynomial_searched : Crc.searched polynomial.toNat 32 [65443, 65499, 65507, 65183, 65005] 10 = true := by
  -- one quarter at a time, so that the kernel does not keep the values of all of them
  have first : searchQuarter (Crc.natStep polynomial.toNat 1) = 2448456599 := by decide +kernel
  have second : searchQuarter 2448456599 = 2850283025 := by decide +kernel
  have third : searchQuarter 2850283025 = 1525320411 := by decide +kernel
  have fourth : searchQuarter 1525320411 = 762074262 := by decide +kernel
  rw [Crc.searched, Crc.strict_quarters]
  simp only [searchQuarter] at first second third fourth
  rw [first, second, third, fourth]
  rfl

theorem flipEffect_two {m n : Nat} (lt : m < n) (le : n ≤ m + 32768) : flipEffect m ^^^ flipEffect n ≠ 0#32 := by
  obtain ⟨k, rfl⟩ := Nat.exists_eq_add_of_lt lt
  have shifted : flipEffect m ^^^ flipEffect (m + k + 1) = Crc.bits polynomial m (1#32 ^^^ flipEffect (k + 1)) := by
    rw [Crc.bits_xor, ← flipEffect_add, Nat.add_comm (k + 1), ← Nat.add_assoc]
    rfl
  rw [shifted]
  refine bits_polynomial_ne_zero fun zero => ?_
  exact Crc.bits_one_ne_one polynomial _ 10 polynomial_searched (by decide) (show 0 < k + 1 by omega) (by omega)
    (BitVec.xor_eq_zero_iff.mp zero).symm

theorem flipEffect_three {l m n : Nat} (first : l < m) (second : m < n) (le : n ≤ l + 32768) :
    flipEffect l ^^^ (flipEffect m ^^^ flipEffect n) ≠ 0#32 := by
  have apart (k : Nat) (lt : l < k) : flipEffect k = Crc.bits polynomial l (flipEffect (k - l)) := by
    rw [← flipEffect_add, Nat.sub_add_cancel lt.le]
  have shifted : flipEffect l ^^^ (flipEffect m ^^^ flipEffect n) =
      Crc.bits polynomial l (1#32 ^^^ (flipEffect (m - l) ^^^ flipEffect (n - l))) := by
    rw [Crc.bits_xor, Crc.bits_xor, ← apart m first, ← apart n (by omega)]
    rfl
  rw [shifted]
  refine bits_polynomial_ne_zero fun zero => ?_
  exact Crc.bits_one_xor_ne_one polynomial _ 10 polynomial_searched (by decide) polynomial_top
    (show m - l < n - l by omega) (by omega) (BitVec.xor_eq_zero_iff.mp zero).symm

theorem flipEffect_distinct {l m n : Nat} (lm : l ≠ m) (ln : l ≠ n) (mn : m ≠ n)
    (near : max l (max m n) ≤ min l (min m n) + 32768) :
    flipEffect l ^^^ (flipEffect m ^^^ flipEffect n) ≠ 0#32 := by
  have least (a b c : Nat) (ab : a < b) (ac : a < c) (bc : b ≠ c) (le : max b c ≤ a + 32768) :
      flipEffect a ^^^ (flipEffect b ^^^ flipEffect c) ≠ 0#32 := by
    rcases Nat.lt_or_gt_of_ne bc with bc | cb
    · exact flipEffect_three ab bc (by omega)
    · rw [BitVec.xor_comm (flipEffect b)]
      exact flipEffect_three ac cb (by omega)
  have rotate (x y z : BitVec 32) : x ^^^ (y ^^^ z) = y ^^^ (z ^^^ x) := by rw [BitVec.xor_comm x, BitVec.xor_assoc]
  have cases : (l < m ∧ l < n) ∨ (m < n ∧ m < l) ∨ n < l ∧ n < m := by omega
  rcases cases with ⟨lm, ln⟩ | ⟨mn, ml⟩ | ⟨nl, nm⟩
  · exact least l m n lm ln mn (by omega)
  · rw [rotate]
    exact least m n l mn ml (by omega) (by omega)
  · rw [rotate, rotate]
    exact least n l m nl nm (by omega) (by omega)

variable (host : Endian) (addr : Nat) (crc : BitVec 32) (data : Buffer) (small : data.length ≤ 4096)
include small

theorem crc32Le_two_flips_ne (i j : Nat) (i_lt : i < 8 * data.length) (j_lt : j < 8 * data.length) (ne : i ≠ j) :
    crc32Le host addr crc (flip (flip data i) j) ≠ crc32Le host addr crc data := by
  rw [crc32Le_eq_run, crc32Le_eq_run, run_flip _ _ _ (by simpa using j_lt), run_flip _ _ _ i_lt, length_flip,
    BitVec.xor_assoc]
  intro same
  have none := (BitVec.xor_right_inj _).mp (same.trans BitVec.xor_zero.symm)
  rcases Nat.lt_or_gt_of_ne ne with less | greater
  · rw [BitVec.xor_comm] at none
    exact flipEffect_two (by omega) (by omega) none
  · exact flipEffect_two (by omega) (by omega) none

theorem crc32Le_three_flips_ne (i j k : Nat) (i_lt : i < 8 * data.length) (j_lt : j < 8 * data.length)
    (k_lt : k < 8 * data.length) (ne : i ≠ j) :
    crc32Le host addr crc (flip (flip (flip data i) j) k) ≠ crc32Le host addr crc data := by
  rw [crc32Le_eq_run, crc32Le_eq_run, run_flip _ _ _ (by simpa using k_lt), run_flip _ _ _ (by simpa using j_lt),
    run_flip _ _ _ i_lt, length_flip, length_flip, length_flip, BitVec.xor_assoc, BitVec.xor_assoc]
  intro same
  have none := (BitVec.xor_right_inj _).mp (same.trans BitVec.xor_zero.symm)
  by_cases same_i : k = i
  · rw [same_i, BitVec.xor_comm, BitVec.xor_assoc, BitVec.xor_self, BitVec.xor_zero] at none
    exact flipEffect_ne_zero _ none
  by_cases same_j : k = j
  · rw [same_j, BitVec.xor_self, BitVec.xor_zero] at none
    exact flipEffect_ne_zero _ none
  exact flipEffect_distinct (by omega) (by omega) (by omega) (by omega) none

end Flips

theorem fixLoop_flips (data : Buffer) (fix n : Nat) : ∀ i b, i + n ≤ 8 * data.length →
    Hamming.fixLoop data fix n i b = data ∨ ∃ k < 8 * data.length, Hamming.fixLoop data fix n i b = flip data k := by
  induction n with
  | zero => exact fun i b _ => Or.inl rfl
  | succ n ih =>
    intro i b room
    rw [Hamming.fixLoop]
    split
    · exact Or.inr ⟨i, by omega, Hamming.change_eq_flip data i (by omega)⟩
    · exact ih (i + 1) _ (by omega)

theorem hammingFixBlock_flips (data : Buffer) (fix : Nat) (nonempty : 0 < data.length) :
    ∃ fixed, Hamming.hammingFixBlock data data.length fix = some fixed ∧
      (fixed = data ∨ ∃ k < 8 * data.length, fixed = flip data k) := by
  rw [Hamming.hammingFixBlock, Hamming.hammingFix, if_neg (by omega)]
  split
  · exact ⟨data, rfl, Or.inl rfl⟩
  · split
    · exact ⟨data, rfl, Or.inl rfl⟩
    · dsimp only
      split
      · exact ⟨data, rfl, Or.inl rfl⟩
      · exact ⟨_, rfl, fixLoop_flips data fix _ _ _ (by omega)⟩

/-- Two flipped bits are an error, also where the fixer flips a third one. -/
theorem blockCheckValidate_two_flips (host reader : Endian) (addr addr' : Nat) (data : Buffer) (bc : Nat)
    (small : data.length ≤ 4096) (room : bc + sizeofBlockCheck ≤ data.length) :
    ∃ block, blockCheckCompute host addr data bc = some block ∧ block.length = data.length ∧
      ∀ i j, i ≠ j → Outside block bc i → Outside block bc j →
        ∃ after, blockCheckValidate reader addr' (flip (flip block i) j) bc = some (.error .io, after) := by
  obtain ⟨zeroed, len, idem, compute⟩ := blockCheckCompute_zeroed host addr data bc small room
  have room' : bc + sizeofBlockCheck ≤ zeroed.length := by omega
  have crc (p : Buffer) : crc32Le reader addr' 0xFFFFFFFF p = crc32Le host addr 0xFFFFFFFF p := by
    rw [crc32Le_eq_run, crc32Le_eq_run]
  set check : Check := ⟨crc32Le host addr 0xFFFFFFFF zeroed, _⟩ with stored
  refine ⟨_, compute, (length_storeCheck _ _ room' _).trans len, fun i j ne outside_i outside_j => ?_⟩
  have away_i : Outside zeroed bc i := by rwa [Outside, length_storeCheck _ _ room'] at outside_i
  have away_j : Outside (flip zeroed i) bc j := by
    rwa [Outside, length_storeCheck _ _ room', ← length_flip zeroed i] at outside_j
  have room_i : bc + sizeofBlockCheck ≤ (flip zeroed i).length := by simpa using room'
  have room_j : bc + sizeofBlockCheck ≤ (flip (flip zeroed i) j).length := by simpa using room'
  have load := loadCheck_storeCheck (flip (flip zeroed i) j) bc room_j check
  have clear := clearCheck_storeCheck (flip (flip zeroed i) j) bc room_j check
  rw [clearCheck_flip _ bc j room_i away_j, clearCheck_flip zeroed bc i room' away_i, idem] at clear
  rw [flip_storeCheck zeroed bc i room' away_i check, flip_storeCheck _ bc j room_i away_j check]
  have j_lt : j < 8 * zeroed.length := by simpa using away_j.1
  have nonempty : 0 < (flip (flip zeroed i) j).length := by simp only [sizeofBlockCheck] at room_j; omega
  have encode := hammingEncodeBlock_eq (flip (flip zeroed i) j) nonempty (by simp; omega)
  obtain ⟨fixed, fix, changed⟩ := hammingFixBlock_flips (flip (flip zeroed i) j)
    (HammingCode.codeSum (bit (flip (flip zeroed i) j)) 0 ((flip (flip zeroed i) j).length * 8) ^^^
      check.bc_ecc.toNat) nonempty
  have broken := crc32Le_two_flips_ne host addr 0xFFFFFFFF zeroed (by omega) i j away_i.1 j_lt ne
  have still : crc32Le host addr 0xFFFFFFFF fixed ≠ check.bc_crc32e := by
    rcases changed with rfl | ⟨k, k_lt, rfl⟩
    · exact broken
    · exact crc32Le_three_flips_ne host addr 0xFFFFFFFF zeroed (by omega) i j k away_i.1 j_lt (by simpa using k_lt) ne
  rw [blockCheckValidate_slow reader addr' _ fixed bc _ (by rw [clear, load, crc]; exact broken)
    (by rw [clear]; exact encode) (by rw [clear, load]; exact fix), load, crc, if_neg still]
  exact ⟨_, rfl⟩

theorem blockCheckValidate_two_flips_zeros :
    ∃ block, blockCheckCompute .little 0 (List.replicate 512 0) 64 = some block ∧
      block.length = (List.replicate 512 (0 : Byte)).length ∧
      ∀ i j, i ≠ j → Outside block 64 i → Outside block 64 j →
        ∃ after, blockCheckValidate .big 0 (flip (flip block i) j) 64 = some (.error .io, after) :=
  blockCheckValidate_two_flips .little .big 0 0 (List.replicate 512 0) 64
    (by rw [List.length_replicate]; norm_num)
    (by rw [List.length_replicate]; decide)

end Ocfs2.BlockCheck
