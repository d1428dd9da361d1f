import Ocfs2.Libocfs2.Crc32
import Ocfs2.Libocfs2.Common
import Ocfs2.Libocfs2.Hamming

set_option autoImplicit false

/-!
The `ocfs2_block_check` structure is a byte offset into the block it protects: four bytes of CRC, two
of ECC and two reserved, little endian on disk.
-/

namespace Ocfs2.BlockCheck

open ByteBuffer Crc32

def sizeofBlockCheck : Nat := 8

@[ext]
structure Check where
  bc_crc32e : BitVec 32
  bc_ecc : BitVec 16
  deriving DecidableEq

def le32 (x : BitVec 32) : Buffer := [byteOf x 0, byteOf x 1, byteOf x 2, byteOf x 3]

def le16 (x : BitVec 16) : Buffer := [x.setWidth 8, (x >>> 8).setWidth 8]

def loadCheck (data : Buffer) (bc : Nat) : Check where
  bc_crc32e := load32 .little (data.getD bc 0) (data.getD (bc + 1) 0) (data.getD (bc + 2) 0)
    (data.getD (bc + 3) 0)
  bc_ecc := data.getD (bc + 5) 0 ++ data.getD (bc + 4) 0

def storeCheck (data : Buffer) (bc : Nat) (check : Check) : Buffer :=
  splice (splice data bc (le32 check.bc_crc32e)) (bc + 4) (le16 check.bc_ecc)

def clearCheck (data : Buffer) (bc : Nat) : Buffer :=
  splice data bc (List.replicate sizeofBlockCheck 0)

variable (host : Endian) (addr : Nat)

/-- `addr` is where the block lies in memory; `none` is an abort of the encoder. -/
def blockCheckCompute (data : Buffer) (bc : Nat) : Option Buffer := do
  let data := clearCheck data bc
  let crc := crc32Le host addr 0xFFFFFFFF data
  let ecc ← Hamming.hammingEncodeBlock data data.length
  return storeCheck data bc ⟨crc, BitVec.ofNat 16 ecc⟩

def blockCheckValidate (data : Buffer) (bc : Nat) : Option (Except Errcode Unit × Buffer) := do
  let check := loadCheck data bc
  let data := clearCheck data bc
  if crc32Le host addr 0xFFFFFFFF data = check.bc_crc32e then
    return (.ok (), storeCheck data bc check)
  let ecc ← Hamming.hammingEncodeBlock data data.length
  let data ← Hamming.hammingFixBlock data data.length (ecc ^^^ check.bc_ecc.toNat)
  if crc32Le host addr 0xFFFFFFFF data = check.bc_crc32e then
    return (.ok (), storeCheck data bc check)
  return (.error .io, storeCheck data bc check)

theorem blockCheckValidate_fast (data : Buffer) (bc : Nat)
    (same : crc32Le host addr 0xFFFFFFFF (clearCheck data bc) = (loadCheck data bc).bc_crc32e) :
    blockCheckValidate host addr data bc =
      some (.ok (), storeCheck (clearCheck data bc) bc (loadCheck data bc)) := by
  simp only [blockCheckValidate, same, if_true]
  rfl

theorem blockCheckValidate_slow (data fixed : Buffer) (bc ecc : Nat)
    (broken : crc32Le host addr 0xFFFFFFFF (clearCheck data bc) ≠ (loadCheck data bc).bc_crc32e)
    (encode : Hamming.hammingEncodeBlock (clearCheck data bc) (clearCheck data bc).length = some ecc)
    (fix : Hamming.hammingFixBlock (clearCheck data bc) (clearCheck data bc).length
      (ecc ^^^ (loadCheck data bc).bc_ecc.toNat) = some fixed) :
    blockCheckValidate host addr data bc =
      some (if crc32Le host addr 0xFFFFFFFF fixed = (loadCheck data bc).bc_crc32e then .ok () else .error .io,
        storeCheck fixed bc (loadCheck data bc)) := by
  simp only [blockCheckValidate, broken, if_false, encode, Option.bind_eq_bind, Option.bind_some, fix]
  split <;> rfl

section Field

variable (data : Buffer) (bc : Nat) (room : bc + sizeofBlockCheck ≤ data.length)

include room

theorem length_clearCheck : (clearCheck data bc).length = data.length :=
  length_splice data bc _ (by simpa using room)

theorem getD_clearCheck (k : Nat) : (clearCheck data bc).getD k 0 =
      if bc ≤ k ∧ k < bc + sizeofBlockCheck then 0 else data.getD k 0 := by
  rw [clearCheck, getD_splice data bc _ k (by simpa using room)]
  have zero : (List.replicate sizeofBlockCheck (0 : Byte)).getD (k - bc) 0 = 0 := by
    rw [List.getD_eq_getElem?_getD, List.getElem?_replicate]
    split <;> rfl
  rw [List.length_replicate, zero]

theorem length_storeCheck (check : Check) : (storeCheck data bc check).length = data.length := by
  simp only [sizeofBlockCheck] at room
  have first := length_splice data bc (le32 check.bc_crc32e) (by simp [le32]; omega)
  rw [storeCheck, length_splice _ _ _ (by simp [first, le16]; omega), first]

theorem getD_storeCheck (check : Check) (k : Nat) : (storeCheck data bc check).getD k 0 =
      if bc + 4 ≤ k ∧ k < bc + 6 then (le16 check.bc_ecc).getD (k - (bc + 4)) 0
      else if bc ≤ k ∧ k < bc + 4 then (le32 check.bc_crc32e).getD (k - bc) 0
      else data.getD k 0 := by
  simp only [sizeofBlockCheck] at room
  have fits : bc + (le32 check.bc_crc32e).length ≤ data.length := by simp [le32]; omega
  have first := length_splice data bc (le32 check.bc_crc32e) fits
  rw [storeCheck, getD_splice _ _ _ _ (by simp [first, le16]; omega), getD_splice _ _ _ _ fits]
  rfl

end Field

theorem load32_le32 (x : BitVec 32) : load32 .little (byteOf x 0) (byteOf x 1) (byteOf x 2) (byteOf x 3) = x := by
  apply BitVec.eq_of_getLsbD_eq
  intro i hi
  have cases : i < 8 ∨ (8 ≤ i ∧ i < 16) ∨ (16 ≤ i ∧ i < 24) ∨ 24 ≤ i := by omega
  simp only [load32, getLsbD_append_byte]
  rcases cases with zero | one | two | three
  · rw [if_pos zero, getLsbD_byteOf _ _ _ zero, Nat.mul_zero, Nat.zero_add]
  · rw [if_neg (by omega), if_pos (by omega), getLsbD_byteOf _ _ _ (by omega)]
    congr 1
    omega
  · rw [if_neg (by omega), if_neg (by omega), if_pos (by omega), getLsbD_byteOf _ _ _ (by omega)]
    congr 1
    omega
  · rw [if_neg (by omega), if_neg (by omega), if_neg (by omega), getLsbD_byteOf _ _ _ (by omega)]
    congr 1
    omega

theorem append_le16 (x : BitVec 16) : (x >>> 8).setWidth 8 ++ x.setWidth 8 = x := by
  apply BitVec.eq_of_getLsbD_eq
  intro i hi
  rw [getLsbD_append_byte]
  by_cases low : i < 8
  · simp [low]
  · have high : i - 8 < 8 := by omega
    simp only [low, if_false, BitVec.getLsbD_setWidth, BitVec.getLsbD_ushiftRight, high, decide_true,
      Bool.true_and]
    congr 1
    omega

section

variable (data : Buffer) (bc : Nat) (room : bc + sizeofBlockCheck ≤ data.length)

include data bc room

theorem loadCheck_storeCheck (check : Check) : loadCheck (storeCheck data bc check) bc = check := by
  have byte := getD_storeCheck data bc room check
  have crc : (loadCheck (storeCheck data bc check) bc).bc_crc32e = check.bc_crc32e := by
    simp only [loadCheck, byte]
    simp [le32, load32_le32]
  have ecc : (loadCheck (storeCheck data bc check) bc).bc_ecc = check.bc_ecc := by
    simp only [loadCheck, byte]
    simp [le16, append_le16]
  exact Check.ext crc ecc

theorem clearCheck_storeCheck (check : Check) : clearCheck (storeCheck data bc check) bc = clearCheck data bc := by
  have len := length_storeCheck data bc room check
  apply ext_getD
  · rw [length_clearCheck _ _ (by omega), length_clearCheck _ _ room, len]
  · intro k _
    rw [getD_clearCheck _ _ (by omega), getD_clearCheck _ _ room, getD_storeCheck _ _ room]
    simp only [sizeofBlockCheck]
    grind

theorem clearCheck_clearCheck : clearCheck (clearCheck data bc) bc = clearCheck data bc := by
  have len := length_clearCheck data bc room
  apply ext_getD
  · rw [length_clearCheck _ _ (by omega)]
  · intro k _
    rw [getD_clearCheck _ _ (by omega), getD_clearCheck _ _ room]
    grind

end

def Outside (data : Buffer) (bc k : Nat) : Prop :=
  k < 8 * data.length ∧ (k / 8 < bc ∨ bc + sizeofBlockCheck ≤ k / 8)

instance (data : Buffer) (bc k : Nat) : Decidable (Outside data bc k) := by
  unfold Outside
  infer_instance

theorem flip_storeCheck (data : Buffer) (bc k : Nat) (room : bc + sizeofBlockCheck ≤ data.length)
    (outside : Outside data bc k) (check : Check) :
    flip (storeCheck data bc check) k = storeCheck (flip data k) bc check := by
  have len := length_storeCheck data bc room check
  have room' : bc + sizeofBlockCheck ≤ (flip data k).length := by simpa using room
  obtain ⟨inside, away⟩ := outside
  simp only [sizeofBlockCheck] at away
  apply ext_getD
  · rw [length_storeCheck _ _ room', length_flip, len, length_flip]
  · intro j _
    rw [getD_flip _ _ _ (by omega), getD_storeCheck _ _ room, getD_storeCheck _ _ room',
      getD_flip _ _ _ inside]
    grind

theorem clearCheck_flip (data : Buffer) (bc k : Nat) (room : bc + sizeofBlockCheck ≤ data.length)
    (outside : Outside data bc k) :
    clearCheck (flip data k) bc = flip (clearCheck data bc) k := by
  have len := length_clearCheck data bc room
  have room' : bc + sizeofBlockCheck ≤ (flip data k).length := by simpa using room
  obtain ⟨inside, away⟩ := outside
  apply ext_getD
  · rw [length_clearCheck _ _ room', length_flip, length_flip, len]
  · intro j _
    rw [getD_flip _ _ _ (by omega), getD_clearCheck _ _ room, getD_clearCheck _ _ room',
      getD_flip _ _ _ inside]
    grind

theorem polynomial_top : polynomial.getLsbD (32 - 1) = true := by decide

def flipEffect (n : Nat) : BitVec 32 := Crc.bits polynomial n 1#32

theorem flipEffect_add (m n : Nat) : flipEffect (m + n) = Crc.bits polynomial n (flipEffect m) := Crc.bits_add ..

theorem bits_polynomial_zero (n : Nat) : Crc.bits polynomial n 0#32 = 0#32 := by
  have twice := Crc.bits_xor polynomial n 0#32 0#32
  rwa [BitVec.xor_self, BitVec.xor_self] at twice

theorem bits_polynomial_ne_zero {n : Nat} {c : BitVec 32} (nonzero : c ≠ 0#32) : Crc.bits polynomial n c ≠ 0#32 := by
  intro zero
  rw [← bits_polynomial_zero n] at zero
  exact nonzero (Crc.bits_injective polynomial polynomial_top n zero)

theorem flipEffect_ne_zero (n : Nat) : flipEffect n ≠ 0#32 := bits_polynomial_ne_zero (by decide)

theorem run_xor (c e : BitVec 32) (bytes : Buffer) :
    Crc.run polynomial (c ^^^ e) bytes =
      Crc.run polynomial c bytes ^^^ Crc.bits polynomial (8 * bytes.length) e := by
  induction bytes generalizing c e with
  | nil => rfl
  | cons x bytes ih =>
    have step : Crc.byteStep polynomial (c ^^^ e) x = Crc.byteStep polynomial c x ^^^ Crc.bits polynomial 8 e := by
      rw [Crc.byteStep, Crc.byteStep, BitVec.xor_assoc, BitVec.xor_comm e, ← BitVec.xor_assoc, Crc.bits_xor]
    have whole : Crc.bits polynomial (8 * (bytes.length + 1)) e =
        Crc.bits polynomial (8 * bytes.length) (Crc.bits polynomial 8 e) := by
      rw [← Crc.bits_add, Nat.mul_succ, Nat.add_comm]
    change Crc.run polynomial (Crc.byteStep polynomial (c ^^^ e) x) bytes = _
    rw [step, ih, List.length_cons, whole]
    rfl

theorem run_flip (c : BitVec 32) (data : Buffer) (k : Nat) (inside : k < 8 * data.length) :
    Crc.run polynomial c (flip data k) = Crc.run polynomial c data ^^^ flipEffect (8 * data.length - k) := by
  have byte : k / 8 < data.length := by omega
  have before : data = data.take (k / 8) ++ data[k / 8] :: data.drop (k / 8 + 1) := by
    rw [← List.drop_eq_getElem_cons byte, List.take_append_drop]
  have after : flip data k =
      data.take (k / 8) ++ (data[k / 8] ^^^ BitVec.twoPow 8 (k % 8)) :: data.drop (k / 8 + 1) :=
    List.modify_eq_take_cons_drop byte
  have wide : (BitVec.twoPow 8 (k % 8)).setWidth 32 = BitVec.twoPow 32 (k % 8) := by
    apply BitVec.eq_of_getLsbD_eq
    intro i _
    by_cases same : k % 8 = i
    · simp [same]
      omega
    · simp [same]
  have step (d : BitVec 32) : Crc.byteStep polynomial d (data[k / 8] ^^^ BitVec.twoPow 8 (k % 8)) =
      Crc.byteStep polynomial d data[k / 8] ^^^ flipEffect (8 - k % 8) := by
    have down := Crc.bits_add polynomial (k % 8) (8 - k % 8) (BitVec.twoPow 32 (k % 8))
    rw [Crc.bits_twoPow polynomial _ (by omega), Nat.add_sub_cancel' (by omega)] at down
    rw [Crc.byteStep, Crc.byteStep, BitVec.setWidth_xor, wide, ← BitVec.xor_assoc, Crc.bits_xor, down, flipEffect]
  have rest : 8 * data.length - k = 8 - k % 8 + 8 * (data.drop (k / 8 + 1)).length := by
    rw [List.length_drop]
    omega
  have unflipped : Crc.run polynomial c data = Crc.run polynomial
      (Crc.byteStep polynomial (Crc.run polynomial c (data.take (k / 8))) data[k / 8]) (data.drop (k / 8 + 1)) := by
    conv_lhs => rw [before]
    exact Crc.run_append ..
  rw [after, rest, flipEffect_add, unflipped, Crc.run_append, ← run_xor, ← step]
  rfl

theorem crc32Le_flip_ne (crc : BitVec 32) (data : Buffer) (k : Nat) (inside : k < 8 * data.length) :
    crc32Le host addr crc (flip data k) ≠ crc32Le host addr crc data := by
  rw [crc32Le_eq_run, crc32Le_eq_run, run_flip _ _ _ inside]
  intro same
  exact flipEffect_ne_zero _ ((BitVec.xor_right_inj _).mp (same.trans BitVec.xor_zero.symm))

open HammingCode in
theorem hammingEncodeBlock_eq (data : Buffer) (nonempty : 0 < data.length)
    (small : data.length ≤ 4096) :
    Hamming.hammingEncodeBlock data data.length =
      some (codeSum (bit data) 0 (data.length * 8)) := by
  have clean : Bitops.CleanTail data (data.length * 8) := by
    intro i lower upper
    omega
  have encode := Hamming.hammingEncode_eq 0 data (data.length * 8) 0 (by omega) (by omega) clean
    (by omega)
  simpa [Hamming.hammingEncodeBlock] using encode

open HammingCode in
theorem codeSum_lt_field (data : Buffer) (small : data.length ≤ 4096) :
    codeSum (bit data) 0 (data.length * 8) < 2 ^ 16 := by
  apply codeSum_lt
  intro i inside
  have few : checks (0 + i) ≤ 16 := checks_le _ 16 (by omega)
  exact lt_of_lt_of_le (position_lt _) (Nat.pow_le_pow_right (by norm_num) few)

section Blocks

variable (data : Buffer) (bc : Nat) (small : data.length ≤ 4096)

include small

open HammingCode in
theorem blockCheckCompute_eq (room : bc + sizeofBlockCheck ≤ data.length) :
    blockCheckCompute host addr data bc =
      some (storeCheck (clearCheck data bc) bc
        ⟨crc32Le host addr 0xFFFFFFFF (clearCheck data bc),
          BitVec.ofNat 16 (codeSum (bit (clearCheck data bc)) 0 (data.length * 8))⟩) := by
  have len := length_clearCheck data bc room
  have encode := hammingEncodeBlock_eq (clearCheck data bc)
    (by simp only [sizeofBlockCheck] at room; omega) (by omega)
  rw [len] at encode
  simp [blockCheckCompute, encode, len]

open HammingCode in
theorem blockCheckCompute_zeroed (room : bc + sizeofBlockCheck ≤ data.length) :
    ∃ zeroed, zeroed.length = data.length ∧ clearCheck zeroed bc = zeroed ∧
      blockCheckCompute host addr data bc = some (storeCheck zeroed bc
        ⟨crc32Le host addr 0xFFFFFFFF zeroed, BitVec.ofNat 16 (codeSum (bit zeroed) 0 (data.length * 8))⟩) :=
  ⟨clearCheck data bc, length_clearCheck data bc room, clearCheck_clearCheck data bc room,
    blockCheckCompute_eq host addr data bc small room⟩

open HammingCode in
theorem hammingFixBlock_flip (k : Nat) (inside : k < 8 * data.length) :
    (do
      let ecc ← Hamming.hammingEncodeBlock (flip data k) data.length
      Hamming.hammingFixBlock (flip data k) data.length
        (ecc ^^^ (BitVec.ofNat 16 (codeSum (bit data) 0 (data.length * 8))).toNat)) =
      some data := by
  have encode := hammingEncodeBlock_eq (flip data k) (by simp; omega) (by simpa using small)
  have word : (BitVec.ofNat 16 (codeSum (bit data) 0 (data.length * 8))).toNat =
      codeSum (bit data) 0 (data.length * 8) := by
    rw [BitVec.toNat_ofNat, Nat.mod_eq_of_lt (codeSum_lt_field data small)]
  have syndrome : codeSum (bit (flip data k)) 0 (data.length * 8) ^^^
      codeSum (bit data) 0 (data.length * 8) = position (0 + k) := by
    rw [codeSum_change (bit data) (bit (flip data k)) 0 (data.length * 8) k (by omega)
      (by simp [bit_flip _ _ _ inside]) (fun i other => by simp [bit_flip _ _ _ inside, other]),
      Nat.xor_comm, ← Nat.xor_assoc, Nat.xor_self, Nat.zero_xor]
  have fix := Hamming.hammingFix_position (flip data k) (data.length * 8) 0 k (by simp; omega)
    (by omega) (by omega)
  rw [length_flip] at encode
  simp only [encode, word, syndrome, Option.bind_eq_bind, Option.bind_some,
    Hamming.hammingFixBlock, fix, flip_flip data k inside]

end Blocks

theorem blockCheckValidate_of_compute (host reader : Endian) (addr addr' : Nat) (data : Buffer)
    (bc : Nat) (small : data.length ≤ 4096) (room : bc + sizeofBlockCheck ≤ data.length) :
    ∃ block, blockCheckCompute host addr data bc = some block ∧ block.length = data.length ∧
      blockCheckValidate reader addr' block bc = some (.ok (), block) ∧
      ∀ k, Outside block bc k →
        blockCheckValidate reader addr' (flip block k) bc = some (.ok (), block) := by
  obtain ⟨zeroed, len, idem, compute⟩ := blockCheckCompute_zeroed host addr data bc small room
  have room' : bc + sizeofBlockCheck ≤ zeroed.length := by omega
  have crc (p : Buffer) : crc32Le reader addr' 0xFFFFFFFF p = crc32Le host addr 0xFFFFFFFF p := by
    rw [crc32Le_eq_run, crc32Le_eq_run]
  set check : Check := ⟨crc32Le host addr 0xFFFFFFFF zeroed, _⟩ with stored
  refine ⟨_, compute, (length_storeCheck _ _ room' _).trans len, ?_, ?_⟩
  · have load := loadCheck_storeCheck zeroed bc room' check
    have clear := clearCheck_storeCheck zeroed bc room' check
    rw [idem] at clear
    have fast := blockCheckValidate_fast reader addr' (storeCheck zeroed bc check) bc
      (by rw [clear, load, crc])
    rw [fast, clear, load]
  · intro k outside
    have away : Outside zeroed bc k := by
      rwa [Outside, length_storeCheck _ _ room'] at outside
    have room'' : bc + sizeofBlockCheck ≤ (flip zeroed k).length := by simpa using room'
    have load := loadCheck_storeCheck (flip zeroed k) bc room'' check
    have clear := clearCheck_storeCheck (flip zeroed k) bc room'' check
    rw [clearCheck_flip zeroed bc k room' away, idem] at clear
    have detected := crc32Le_flip_ne host addr 0xFFFFFFFF zeroed k away.1
    obtain ⟨ecc, encode, fix⟩ :=
      Option.bind_eq_some_iff.mp (hammingFixBlock_flip zeroed (by omega) k away.1)
    rw [flip_storeCheck zeroed bc k room' away check]
    have fixed := blockCheckValidate_slow reader addr' (storeCheck (flip zeroed k) bc check) zeroed bc
      ecc (by rw [clear, load, crc]; exact detected) (by rw [clear, length_flip]; exact encode)
      (by rw [clear, load, length_flip, stored, ← len]; exact fix)
    rw [fixed, load, if_pos (crc zeroed)]

theorem blockCheckValidate_of_compute_zeros :
    ∃ block, blockCheckCompute .little 0 (List.replicate 512 0) 64 = some block ∧
      block.length = (List.replicate 512 (0 : Byte)).length ∧
      blockCheckValidate .big 0 block 64 = some (.ok (), block) ∧
      ∀ k, Outside block 64 k →
        blockCheckValidate .big 0 (flip block k) 64 = some (.ok (), block) :=
  blockCheckValidate_of_compute .little .big 0 0 (List.replicate 512 0) 64
    (by rw [List.length_replicate]; norm_num)
    (by rw [List.length_replicate]; decide)

end Ocfs2.BlockCheck
