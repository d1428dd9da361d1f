import Ocfs2.Libocfs2.Common

set_option autoImplicit false

namespace Ocfs2

def uint32Max : Nat := 2 ^ 32 - 1

structure Sizes where
  s_blocksize_bits : Nat
  s_clustersize_bits : Nat
  blocksize_range : 9 ≤ s_blocksize_bits ∧ s_blocksize_bits ≤ 12
  clustersize_range : 12 ≤ s_clustersize_bits ∧ s_clustersize_bits ≤ 20

namespace Sizes

variable (fs : Sizes)

def fs_blocksize : Nat := 2 ^ fs.s_blocksize_bits

def fs_clustersize : Nat := 2 ^ fs.s_clustersize_bits

def bToCBits : Nat := fs.s_clustersize_bits - fs.s_blocksize_bits

def clustersToBytes (clusters : Nat) : Nat :=
  let ret := clusters * fs.fs_clustersize % 2 ^ 64
  if ret < clusters then uint64Max else ret

def clustersInBytes (bytes : Nat) : Nat :=
  let ret := (bytes + fs.fs_clustersize - 1) % 2 ^ 64
  let ret := if ret < bytes then uint64Max else ret
  min (ret / fs.fs_clustersize) uint32Max

def clustersInBlocks (blocks : Nat) : Nat :=
  let ret := (blocks + (2 ^ fs.bToCBits - 1)) % 2 ^ 64
  let ret := if ret < blocks then uint64Max else ret
  min (ret / 2 ^ fs.bToCBits) uint32Max

def blocksInBytes (bytes : Nat) : Nat :=
  let ret := (bytes + fs.fs_blocksize - 1) % 2 ^ 64
  if ret < bytes then uint64Max else ret / fs.fs_blocksize

theorem cluster_le : fs.fs_clustersize ≤ 2 ^ 20 := Nat.pow_le_pow_right (by decide) fs.clustersize_range.2

theorem cluster_pos : 0 < fs.fs_clustersize := Nat.two_pow_pos _

theorem block_le : fs.fs_blocksize ≤ 2 ^ 12 := Nat.pow_le_pow_right (by decide) fs.blocksize_range.2

theorem clustersize_eq : fs.fs_clustersize = 2 ^ fs.bToCBits * fs.fs_blocksize := by
  have blocks := fs.blocksize_range
  have clusters := fs.clustersize_range
  rw [fs_clustersize, fs_blocksize, ← Nat.pow_add, bToCBits]
  congr 1
  omega

theorem maxBytes_eq : fs.clustersToBytes uint32Max = uint32Max * fs.fs_clustersize := by
  have small : uint32Max * fs.fs_clustersize < 2 ^ 64 :=
    (Nat.mul_le_mul_left _ fs.cluster_le).trans_lt (by decide)
  rw [clustersToBytes, Nat.mod_eq_of_lt small, if_neg (Nat.not_lt.mpr (Nat.le_mul_of_pos_right _ fs.cluster_pos))]

-- below the limit no sum wraps and no count is cut
section Small

variable {bytes : Nat} (small : bytes ≤ uint32Max * fs.fs_clustersize)

include small

theorem small_lt : bytes + fs.fs_clustersize < 2 ^ 64 := by
  have cluster := fs.cluster_le
  have bound : uint32Max * fs.fs_clustersize ≤ uint32Max * 2 ^ 20 := Nat.mul_le_mul_left _ cluster
  simp only [uint32Max] at bound small
  omega

theorem ceil_le : (bytes + fs.fs_clustersize - 1) / fs.fs_clustersize ≤ uint32Max := by
  have pos := fs.cluster_pos
  rw [← Nat.lt_succ_iff, Nat.div_lt_iff_lt_mul pos, Nat.succ_mul]
  omega

theorem clustersInBytes_eq : fs.clustersInBytes bytes = (bytes + fs.fs_clustersize - 1) / fs.fs_clustersize := by
  have fits := fs.small_lt small
  have pos := fs.cluster_pos
  rw [clustersInBytes, Nat.mod_eq_of_lt (by omega), if_neg (by omega), Nat.min_eq_left (fs.ceil_le small)]

theorem clustersInBlocks_eq :
    fs.clustersInBlocks (fs.blocksInBytes bytes) = (bytes + fs.fs_clustersize - 1) / fs.fs_clustersize := by
  have fits := fs.small_lt small
  have pos : 0 < fs.fs_blocksize := Nat.two_pow_pos _
  have whole : fs.fs_blocksize ≤ fs.fs_clustersize := by
    rw [fs.clustersize_eq]
    exact Nat.le_mul_of_pos_left _ (Nat.two_pow_pos _)
  have rounds : (bytes + fs.fs_blocksize - 1) / fs.fs_blocksize + (2 ^ fs.bToCBits - 1) =
      (bytes + fs.fs_clustersize - 1) / fs.fs_blocksize := by
    rw [← Nat.add_mul_div_right _ _ pos, Nat.sub_mul, ← fs.clustersize_eq]
    congr 1
    omega
  have below : (bytes + fs.fs_clustersize - 1) / fs.fs_blocksize ≤ bytes + fs.fs_clustersize - 1 := Nat.div_le_self ..
  rw [blocksInBytes, Nat.mod_eq_of_lt (by omega), if_neg (by omega), clustersInBlocks, rounds,
    Nat.mod_eq_of_lt (by omega), if_neg (by omega), Nat.div_div_eq_div_mul, Nat.mul_comm, ← fs.clustersize_eq,
    Nat.min_eq_left (fs.ceil_le small)]

end Small

theorem least_clustersize : 12 ≤ 12 ∧ 12 ≤ 20 := by omega

def smallClusters : Sizes := ⟨12, 12, by omega, least_clustersize⟩

def largeClusters : Sizes := ⟨12, 20, by omega, by omega⟩

end Sizes

end Ocfs2
