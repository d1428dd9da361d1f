import Ocfs2.Shared.Crc
import Ocfs2.Shared.ByteBuffer

set_option autoImplicit false

namespace Ocfs2.Crc32

open ByteBuffer

inductive Endian where
  | little
  | big
  deriving DecidableEq

def byteOf (x : BitVec 32) (k : Nat) : Byte := (x >>> (8 * k)).setWidth 8

def bswap32 (x : BitVec 32) : BitVec 32 :=
  byteOf x 0 ++ byteOf x 1 ++ byteOf x 2 ++ byteOf x 3

def cpuToLe32 : Endian → BitVec 32 → BitVec 32
  | .little, x => x
  | .big, x => bswap32 x

def load32 : Endian → Byte → Byte → Byte → Byte → BitVec 32
  | .little, a, b, c, d => d ++ c ++ b ++ a
  | .big, a, b, c, d => a ++ b ++ c ++ d

def crc32tableLe : List (BitVec 32) :=
  [0x00000000, 0x77073096, 0xee0e612c, 0x990951ba, 0x076dc419, 0x706af48f, 0xe963a535,
   0x9e6495a3, 0x0edb8832, 0x79dcb8a4, 0xe0d5e91e, 0x97d2d988, 0x09b64c2b, 0x7eb17cbd,
   0xe7b82d07, 0x90bf1d91, 0x1db71064, 0x6ab020f2, 0xf3b97148, 0x84be41de, 0x1adad47d,
   0x6ddde4eb, 0xf4d4b551, 0x83d385c7, 0x136c9856, 0x646ba8c0, 0xfd62f97a, 0x8a65c9ec,
   0x14015c4f, 0x63066cd9, 0xfa0f3d63, 0x8d080df5, 0x3b6e20c8, 0x4c69105e, 0xd56041e4,
   0xa2677172, 0x3c03e4d1, 0x4b04d447, 0xd20d85fd, 0xa50ab56b, 0x35b5a8fa, 0x42b2986c,
   0xdbbbc9d6, 0xacbcf940, 0x32d86ce3, 0x45df5c75, 0xdcd60dcf, 0xabd13d59, 0x26d930ac,
   0x51de003a, 0xc8d75180, 0xbfd06116, 0x21b4f4b5, 0x56b3c423, 0xcfba9599, 0xb8bda50f,
   0x2802b89e, 0x5f058808, 0xc60cd9b2, 0xb10be924, 0x2f6f7c87, 0x58684c11, 0xc1611dab,
   0xb6662d3d, 0x76dc4190, 0x01db7106, 0x98d220bc, 0xefd5102a, 0x71b18589, 0x06b6b51f,
   0x9fbfe4a5, 0xe8b8d433, 0x7807c9a2, 0x0f00f934, 0x9609a88e, 0xe10e9818, 0x7f6a0dbb,
   0x086d3d2d, 0x91646c97, 0xe6635c01, 0x6b6b51f4, 0x1c6c6162, 0x856530d8, 0xf262004e,
   0x6c0695ed, 0x1b01a57b, 0x8208f4c1, 0xf50fc457, 0x65b0d9c6, 0x12b7e950, 0x8bbeb8ea,
   0xfcb9887c, 0x62dd1ddf, 0x15da2d49, 0x8cd37cf3, 0xfbd44c65, 0x4db26158, 0x3ab551ce,
   0xa3bc0074, 0xd4bb30e2, 0x4adfa541, 0x3dd895d7, 0xa4d1c46d, 0xd3d6f4fb, 0x4369e96a,
   0x346ed9fc, 0xad678846, 0xda60b8d0, 0x44042d73, 0x33031de5, 0xaa0a4c5f, 0xdd0d7cc9,
   0x5005713c, 0x270241aa, 0xbe0b1010, 0xc90c2086, 0x5768b525, 0x206f85b3, 0xb966d409,
   0xce61e49f, 0x5edef90e, 0x29d9c998, 0xb0d09822, 0xc7d7a8b4, 0x59b33d17, 0x2eb40d81,
   0xb7bd5c3b, 0xc0ba6cad, 0xedb88320, 0x9abfb3b6, 0x03b6e20c, 0x74b1d29a, 0xead54739,
   0x9dd277af, 0x04db2615, 0x73dc1683, 0xe3630b12, 0x94643b84, 0x0d6d6a3e, 0x7a6a5aa8,
   0xe40ecf0b, 0x9309ff9d, 0x0a00ae27, 0x7d079eb1, 0xf00f9344, 0x8708a3d2, 0x1e01f268,
   0x6906c2fe, 0xf762575d, 0x806567cb, 0x196c3671, 0x6e6b06e7, 0xfed41b76, 0x89d32be0,
   0x10da7a5a, 0x67dd4acc, 0xf9b9df6f, 0x8ebeeff9, 0x17b7be43, 0x60b08ed5, 0xd6d6a3e8,
   0xa1d1937e, 0x38d8c2c4, 0x4fdff252, 0xd1bb67f1, 0xa6bc5767, 0x3fb506dd, 0x48b2364b,
   0xd80d2bda, 0xaf0a1b4c, 0x36034af6, 0x41047a60, 0xdf60efc3, 0xa867df55, 0x316e8eef,
   0x4669be79, 0xcb61b38c, 0xbc66831a, 0x256fd2a0, 0x5268e236, 0xcc0c7795, 0xbb0b4703,
   0x220216b9, 0x5505262f, 0xc5ba3bbe, 0xb2bd0b28, 0x2bb45a92, 0x5cb36a04, 0xc2d7ffa7,
   0xb5d0cf31, 0x2cd99e8b, 0x5bdeae1d, 0x9b64c2b0, 0xec63f226, 0x756aa39c, 0x026d930a,
   0x9c0906a9, 0xeb0e363f, 0x72076785, 0x05005713, 0x95bf4a82, 0xe2b87a14, 0x7bb12bae,
   0x0cb61b38, 0x92d28e9b, 0xe5d5be0d, 0x7cdcefb7, 0x0bdbdf21, 0x86d3d2d4, 0xf1d4e242,
   0x68ddb3f8, 0x1fda836e, 0x81be16cd, 0xf6b9265b, 0x6fb077e1, 0x18b74777, 0x88085ae6,
   0xff0f6a70, 0x66063bca, 0x11010b5c, 0x8f659eff, 0xf862ae69, 0x616bffd3, 0x166ccf45,
   0xa00ae278, 0xd70dd2ee, 0x4e048354, 0x3903b3c2, 0xa7672661, 0xd06016f7, 0x4969474d,
   0x3e6e77db, 0xaed16a4a, 0xd9d65adc, 0x40df0b66, 0x37d83bf0, 0xa9bcae53, 0xdebb9ec5,
   0x47b2cf7f, 0x30b5ffe9, 0xbdbdf21c, 0xcabac28a, 0x53b39330, 0x24b4a3a6, 0xbad03605,
   0xcdd70693, 0x54de5729, 0x23d967bf, 0xb3667a2e, 0xc4614ab8, 0x5d681b02, 0x2a6f2b94,
   0xb40bbe37, 0xc30c8ea1, 0x5a05df1b, 0x2d02ef8d]

def tab (host : Endian) (i : Nat) : BitVec 32 := cpuToLe32 host (crc32tableLe.getD i 0)

def doCrc : Endian → BitVec 32 → Byte → BitVec 32
  | .little, crc, x => tab .little ((crc ^^^ x.setWidth 32) &&& 255).toNat ^^^ (crc >>> 8)
  | .big, crc, x => tab .big (((crc >>> 24) ^^^ x.setWidth 32) &&& 255).toNat ^^^ (crc <<< 8)

def alignLoop (host : Endian) : Nat → BitVec 32 → Buffer → BitVec 32 × Buffer
  | _, crc, [] => (crc, [])
  | addr, crc, x :: rest =>
    if addr % 4 = 0 then (crc, x :: rest) else alignLoop host (addr + 1) (doCrc host crc x) rest

def wordLoop (host : Endian) : BitVec 32 → Buffer → BitVec 32 × Buffer
  | crc, a :: b :: c :: d :: rest =>
    let crc := crc ^^^ load32 host a b c d
    wordLoop host (doCrc host (doCrc host (doCrc host (doCrc host crc 0) 0) 0) 0) rest
  | crc, rest => (crc, rest)

def crc32Le (host : Endian) (addr : Nat) (crc : BitVec 32) (p : Buffer) : BitVec 32 :=
  let (crc, p) := alignLoop host addr (cpuToLe32 host crc) p
  let (crc, p) := wordLoop host crc p
  cpuToLe32 host (p.foldl (doCrc host) crc)

def polynomial : BitVec 32 := 0xedb88320

variable (host : Endian) (crc : BitVec 32) (x : BitVec 32)

theorem table_entry (i : Nat) (h : i < 256) :
    crc32tableLe.getD i 0 = Crc.bits polynomial 8 (BitVec.ofNat 32 i) := by
  have all : crc32tableLe = (List.range 256).map fun i => Crc.bits polynomial 8 (BitVec.ofNat 32 i) := by
    decide +kernel
  rw [all, List.getD_eq_getElem?_getD, List.getElem?_map, List.getElem?_range h]
  rfl

theorem getLsbD_255 (i : Nat) (h : i < 32) : (255#32).getLsbD i = decide (i < 8) := by
  revert i
  decide

theorem doCrc_little (x : Byte) :
    doCrc .little crc x = Crc.byteStep polynomial crc x := by
  have low : ((crc ^^^ x.setWidth 32) &&& 255#32).toNat < 256 := by
    exact lt_of_le_of_lt Nat.and_le_right (by decide)
  have top : (crc ^^^ x.setWidth 32) >>> 8 = crc >>> 8 := by
    have none : x.setWidth 32 >>> 8 = 0#32 := by
      apply BitVec.eq_of_getLsbD_eq
      intro i _
      simp
    rw [BitVec.ushiftRight_xor_distrib, none, BitVec.xor_zero]
  rw [Crc.byteStep, Crc.bits_eight polynomial _ 255#32 getLsbD_255, top]
  simp only [doCrc, tab, cpuToLe32]
  rw [show (255 : BitVec 32) = 255#32 from rfl, table_entry _ low, BitVec.ofNat_toNat,
    BitVec.setWidth_eq]

theorem getLsbD_byteOf (k j : Nat) (hj : j < 8) :
    (byteOf x k).getLsbD j = x.getLsbD (8 * k + j) := by
  simp [byteOf, hj]

theorem getLsbD_append_byte {n : Nat} (x : BitVec n) (y : Byte) (i : Nat) :
    (x ++ y).getLsbD i = if i < 8 then y.getLsbD i else x.getLsbD (i - 8) := by
  rw [BitVec.getLsbD_append]

theorem getLsbD_bswap32 (i : Nat) (h : i < 32) :
    (bswap32 x).getLsbD i = x.getLsbD (8 * (3 - i / 8) + i % 8) := by
  have split : i = 8 * (i / 8) + i % 8 := by omega
  have small : i % 8 < 8 := by omega
  have cases : i / 8 = 0 ∨ i / 8 = 1 ∨ i / 8 = 2 ∨ i / 8 = 3 := by omega
  generalize hk : i / 8 = k at split cases
  generalize i % 8 = j at split small
  unfold bswap32
  simp only [getLsbD_append_byte]
  rcases cases with rfl | rfl | rfl | rfl
  · rw [if_pos (by omega), getLsbD_byteOf _ _ _ (by omega)]
    congr 1
    omega
  · rw [if_neg (by omega), if_pos (by omega), getLsbD_byteOf _ _ _ (by omega)]
    congr 1
    omega
  · rw [if_neg (by omega), if_neg (by omega), if_pos (by omega), getLsbD_byteOf _ _ _ (by omega)]
    congr 1
    omega
  · rw [if_neg (by omega), if_neg (by omega), if_neg (by omega), getLsbD_byteOf _ _ _ (by omega)]
    congr 1
    omega

theorem bswap32_xor (x y : BitVec 32) : bswap32 (x ^^^ y) = bswap32 x ^^^ bswap32 y := by
  apply BitVec.eq_of_getLsbD_eq
  intro i hi
  simp only [BitVec.getLsbD_xor, getLsbD_bswap32 _ _ hi]

theorem bswap32_bswap32 : bswap32 (bswap32 x) = x := by
  apply BitVec.eq_of_getLsbD_eq
  intro i hi
  rw [getLsbD_bswap32 _ _ hi, getLsbD_bswap32 _ _ (by omega)]
  congr 1
  omega

theorem bswap32_shiftLeft : bswap32 x <<< 8 = bswap32 (x >>> 8) := by
  apply BitVec.eq_of_getLsbD_eq
  intro i hi
  rw [BitVec.getLsbD_shiftLeft, getLsbD_bswap32 _ _ hi, BitVec.getLsbD_ushiftRight]
  by_cases low : i < 8
  · have past : x.getLsbD (8 + (8 * (3 - i / 8) + i % 8)) = false :=
      BitVec.getLsbD_of_ge _ _ (by omega)
    simp [low, past]
  · rw [getLsbD_bswap32 _ _ (by omega)]
    simp only [hi, low, decide_true, decide_false, Bool.not_false, Bool.true_and]
    congr 1
    omega

theorem bswap32_top (y : BitVec 32) :
    ((bswap32 x >>> 24) ^^^ y) &&& 255#32 = (x ^^^ y) &&& 255#32 := by
  apply BitVec.eq_of_getLsbD_eq
  intro i hi
  simp only [BitVec.getLsbD_and, BitVec.getLsbD_xor, BitVec.getLsbD_ushiftRight, getLsbD_255 i hi]
  by_cases low : i < 8
  · rw [getLsbD_bswap32 _ _ (by omega), show 8 * (3 - (24 + i) / 8) + (24 + i) % 8 = i by omega]
  · simp [low]

@[simp] theorem cpuToLe32_cpuToLe32 :
    cpuToLe32 host (cpuToLe32 host x) = x := by
  cases host
  · rfl
  · exact bswap32_bswap32 x

theorem cpuToLe32_xor (x y : BitVec 32) :
    cpuToLe32 host (x ^^^ y) = cpuToLe32 host x ^^^ cpuToLe32 host y := by
  cases host
  · rfl
  · exact bswap32_xor x y

theorem doCrc_host (x : Byte) :
    doCrc host (cpuToLe32 host crc) x = cpuToLe32 host (Crc.byteStep polynomial crc x) := by
  rw [← doCrc_little]
  cases host
  · rfl
  · simp only [doCrc, tab, cpuToLe32]
    rw [show (255 : BitVec 32) = 255#32 from rfl, bswap32_top, bswap32_xor, bswap32_shiftLeft]

theorem load32_host (a b c d : Byte) :
    load32 host a b c d = cpuToLe32 host (d ++ c ++ b ++ a) := by
  cases host
  · rfl
  · apply BitVec.eq_of_getLsbD_eq
    intro i hi
    simp only [load32, cpuToLe32, getLsbD_bswap32 _ _ hi, getLsbD_append_byte]
    all_goals
      split_ifs <;> first | omega | (congr 1; omega)

theorem append_byte_eq {n : Nat} (hi : BitVec n) (lo : Byte) :
    (hi ++ lo).setWidth 32 = lo.setWidth 32 ^^^ (hi.setWidth 32 <<< 8) := by
  apply BitVec.eq_of_getLsbD_eq
  intro i bound
  rw [BitVec.getLsbD_setWidth, getLsbD_append_byte, BitVec.getLsbD_xor, BitVec.getLsbD_shiftLeft,
    BitVec.getLsbD_setWidth, BitVec.getLsbD_setWidth]
  by_cases low : i < 8
  · simp [bound, low]
  · have wide : i - 8 < 32 := by omega
    simp [bound, low, wide, BitVec.getLsbD_of_ge lo i (by omega)]

theorem shiftLeft_fits {n : Nat} (x : BitVec n) (small : n + 8 ≤ 32) :
    (x.setWidth 32 <<< 8) >>> 8 = x.setWidth 32 := by
  apply BitVec.eq_of_getLsbD_eq
  intro i bound
  rw [BitVec.getLsbD_ushiftRight, BitVec.getLsbD_shiftLeft, Nat.add_sub_cancel_left]
  by_cases inside : 8 + i < 32
  · simp [inside]
  · simp [inside, BitVec.getLsbD_of_ge x i (by omega)]

theorem bits_append {n : Nat} (crc : BitVec 32) (hi : BitVec n) (lo : Byte) (small : n + 8 ≤ 32) :
    Crc.bits polynomial 8 (crc ^^^ (hi ++ lo).setWidth 32) =
      Crc.byteStep polynomial crc lo ^^^ hi.setWidth 32 := by
  rw [append_byte_eq hi lo, ← BitVec.xor_assoc,
    Crc.bits_eight_shiftLeft _ _ _ (shiftLeft_fits hi small), Crc.byteStep]

theorem byteStep_zero :
    Crc.byteStep polynomial crc 0 = Crc.bits polynomial 8 crc := by
  simp [Crc.byteStep]

theorem word_step (a b c d : Byte) :
    doCrc host (doCrc host (doCrc host (doCrc host
      (cpuToLe32 host crc ^^^ load32 host a b c d) 0) 0) 0) 0 =
      cpuToLe32 host (Crc.run polynomial crc [a, b, c, d]) := by
  rw [load32_host, ← cpuToLe32_xor, doCrc_host, doCrc_host, doCrc_host, doCrc_host]
  simp only [byteStep_zero, Crc.run, List.foldl_cons, List.foldl_nil]
  have first := bits_append crc (d ++ c ++ b) a (by norm_num)
  rw [BitVec.setWidth_eq] at first
  rw [first, bits_append _ (d ++ c) b (by norm_num), bits_append _ d c (by norm_num)]
  rfl

theorem alignLoop_run (addr : Nat) (crc : BitVec 32) (p : Buffer) :
    ∃ crc' p', alignLoop host addr (cpuToLe32 host crc) p = (cpuToLe32 host crc', p') ∧
      Crc.run polynomial crc' p' = Crc.run polynomial crc p := by
  induction p generalizing addr crc with
  | nil => exact ⟨crc, [], rfl, rfl⟩
  | cons x rest ih =>
    by_cases aligned : addr % 4 = 0
    · exact ⟨crc, x :: rest, by rw [alignLoop, if_pos aligned], rfl⟩
    · obtain ⟨crc', p', loop, same⟩ := ih (addr + 1) (Crc.byteStep polynomial crc x)
      refine ⟨crc', p', ?_, same⟩
      rw [alignLoop, if_neg aligned, doCrc_host, loop]

theorem wordLoop_run (p : Buffer) :
    ∃ crc' p', wordLoop host (cpuToLe32 host crc) p = (cpuToLe32 host crc', p') ∧
      Crc.run polynomial crc' p' = Crc.run polynomial crc p := by
  induction hn : p.length using Nat.strong_induction_on generalizing crc p with
  | _ n ih =>
    match p, hn with
    | a :: b :: c :: d :: rest, hn =>
      simp only [List.length_cons] at hn
      obtain ⟨crc', p', loop, same⟩ :=
        ih rest.length (by omega) (Crc.run polynomial crc [a, b, c, d]) rest rfl
      refine ⟨crc', p', ?_, same⟩
      rw [wordLoop, word_step, loop]
    | [], _ => exact ⟨crc, _, rfl, rfl⟩
    | [_], _ => exact ⟨crc, _, rfl, rfl⟩
    | [_, _], _ => exact ⟨crc, _, rfl, rfl⟩
    | [_, _, _], _ => exact ⟨crc, _, rfl, rfl⟩

theorem byteLoop_run (p : Buffer) :
    p.foldl (doCrc host) (cpuToLe32 host crc) = cpuToLe32 host (Crc.run polynomial crc p) := by
  induction p generalizing crc with
  | nil => rfl
  | cons x rest ih => rw [List.foldl_cons, doCrc_host, ih]; rfl

theorem crc32Le_eq_run (addr : Nat) (crc : BitVec 32) (p : Buffer) :
    crc32Le host addr crc p = Crc.run polynomial crc p := by
  obtain ⟨crc₁, p₁, align, same₁⟩ := alignLoop_run host addr crc p
  obtain ⟨crc₂, p₂, word, same₂⟩ := wordLoop_run host crc₁ p₁
  simp only [crc32Le, align, word]
  rw [byteLoop_run, cpuToLe32_cpuToLe32, same₂, same₁]

def crc32Bitwise (crc : BitVec 32) (p : Buffer) : BitVec 32 := Crc.message polynomial crc (p.flatMap Crc.byteBits)

theorem crc32Le_bitwise_append (addr later whole : Nat) (crc : BitVec 32) (p q : Buffer) :
    crc32Le host addr crc p = crc32Bitwise crc p ∧
      crc32Le host whole crc (p ++ q) = crc32Le host later (crc32Le host addr crc p) q := by
  simp only [crc32Le_eq_run]
  exact ⟨Crc.run_eq_message polynomial (by decide) crc p, Crc.run_append polynomial crc p q⟩

-- the check value of CRC-32: nine digits, inverted before and after
example : ~~~(crc32Le .little 3 0xffffffff [0x31, 0x32, 0x33, 0x34, 0x35, 0x36, 0x37, 0x38, 0x39]) = 0xcbf43926 := by
  decide +kernel

end Ocfs2.Crc32
