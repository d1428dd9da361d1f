import Ocfs2.Mkfs.Bitmap
import Mathlib.Algebra.BigOperators.Intervals

set_option autoImplicit false

namespace Ocfs2.Mkfs

open ByteBuffer

section Counters

theorem uint16_of_lt {n : Nat} (lt : n < 2 ^ 16) : uint16 n = n := Nat.mod_eq_of_lt lt

theorem uint32_of_lt {n : Nat} (lt : n < 2 ^ 32) : uint32 n = n := Nat.mod_eq_of_lt lt

theorem sub16_of_le {a b : Nat} (le : b ≤ a) (lt : a < 2 ^ 16) : sub16 a b = a - b := by
  rw [sub16, Nat.mod_eq_of_lt (show b < 2 ^ 16 by omega), show a + 2 ^ 16 - b = a - b + 2 ^ 16 by omega,
    Nat.add_mod_right, Nat.mod_eq_of_lt (by omega)]

theorem sub16_succ (a b : Nat) (lt : b + 1 < 2 ^ 16) : sub16 (sub16 a b) 1 = sub16 a (b + 1) := by
  simp only [sub16]
  omega

theorem sub32_of_le {a b : Nat} (le : b ≤ a) (lt : a < 2 ^ 32) : sub32 a b = a - b := by
  rw [sub32, Nat.mod_eq_of_lt (show b < 2 ^ 32 by omega), show a + 2 ^ 32 - b = a - b + 2 ^ 32 by omega,
    Nat.add_mod_right, Nat.mod_eq_of_lt (by omega)]

end Counters

namespace Geometry

variable (s : Geometry)

theorem blocksize_bounds : 512 ≤ s.blocksize ∧ s.blocksize ≤ 4096 := by
  obtain ⟨low, high⟩ := s.block_size
  exact ⟨Nat.pow_le_pow_right Nat.zero_lt_two low, Nat.pow_le_pow_right Nat.zero_lt_two high⟩

theorem recs_per_inode_bounds : 19 ≤ s.recs_per_inode ∧ s.recs_per_inode < 2 ^ 16 := by
  have bounds := s.blocksize_bounds
  simp only [recs_per_inode, chainRecsPerInode]
  omega

def maxBits : Nat := 8 * groupBitmapSize s.blocksize

theorem maxBits_bounds : 3584 ≤ s.maxBits ∧ s.maxBits < 2 ^ 16 := by
  have bounds := s.blocksize_bounds
  simp only [maxBits, groupBitmapSize]
  omega

theorem global_cpg_eq : s.global_cpg = min s.maxBits s.volume_size_in_clusters := by
  have bounds := s.maxBits_bounds
  have whole : uint16 (8 * groupBitmapSize s.blocksize) = s.maxBits := uint16_of_lt bounds.2
  simp only [global_cpg, calcClusterGroups, whole]
  split
  · rw [uint16_of_lt (by omega)]
    omega
  · omega

theorem global_cpg_bounds : 0 < s.global_cpg ∧ s.global_cpg < 2 ^ 16 := by
  have bounds := s.maxBits_bounds
  have clusters := s.clusters
  rw [global_cpg_eq]
  omega

theorem tail_group_bits_eq : s.tail_group_bits =
    if s.volume_size_in_clusters % s.global_cpg = 0 then s.global_cpg else s.volume_size_in_clusters % s.global_cpg := by
  have bounds := s.global_cpg_bounds
  have rest := Nat.mod_lt s.volume_size_in_clusters bounds.1
  have whole : uint16 (s.volume_size_in_clusters % s.global_cpg) = s.volume_size_in_clusters % s.global_cpg :=
    uint16_of_lt (by omega)
  rw [← whole]
  rfl

theorem nr_cluster_groups_eq : s.nr_cluster_groups = (s.volume_size_in_clusters + s.global_cpg - 1) / s.global_cpg := by
  have bounds := s.global_cpg_bounds
  refine uint32_of_lt (lt_of_le_of_lt ?_ s.clusters.2)
  refine Nat.div_le_of_le_mul ?_
  have clusters := s.clusters.1
  change s.volume_size_in_clusters + s.global_cpg - 1 ≤ s.global_cpg * s.volume_size_in_clusters
  nlinarith [Nat.sub_add_cancel (show 1 ≤ s.volume_size_in_clusters + s.global_cpg by omega), Nat.mul_le_mul bounds.1 clusters]

theorem clusters_eq : 0 < s.nr_cluster_groups ∧
    (s.nr_cluster_groups - 1) * s.global_cpg + s.tail_group_bits = s.volume_size_in_clusters := by
  have bounds := s.global_cpg_bounds
  have whole := Nat.div_add_mod s.volume_size_in_clusters s.global_cpg
  have rest := Nat.mod_lt s.volume_size_in_clusters bounds.1
  have clusters := s.clusters.1
  rw [nr_cluster_groups_eq, tail_group_bits_eq]
  generalize s.volume_size_in_clusters / s.global_cpg = q at whole
  generalize s.volume_size_in_clusters % s.global_cpg = r at whole rest ⊢
  generalize s.global_cpg = cpg at *
  generalize s.volume_size_in_clusters = n at *
  subst whole
  split
  next zero =>
    subst zero
    have groups : (cpg * q + 0 + cpg - 1) / cpg = q := by
      rw [show cpg * q + 0 + cpg - 1 = cpg - 1 + cpg * q by omega, Nat.add_mul_div_left _ _ bounds.1,
        Nat.div_eq_of_lt (by omega), Nat.zero_add]
    rw [groups]
    cases q with
    | zero => omega
    | succ q => exact ⟨by omega, by rw [Nat.add_sub_cancel]; ring⟩
  next some =>
    have groups : (cpg * q + r + cpg - 1) / cpg = q + 1 := by
      rw [show cpg * q + r + cpg - 1 = r - 1 + cpg * (q + 1) by rw [Nat.mul_add]; omega,
        Nat.add_mul_div_left _ _ bounds.1, Nat.div_eq_of_lt (by omega), Nat.zero_add]
    rw [groups]
    exact ⟨by omega, by rw [Nat.add_sub_cancel]; ring⟩

theorem tail_group_bits_bounds : 0 < s.tail_group_bits ∧ s.tail_group_bits ≤ s.global_cpg := by
  have bounds := s.global_cpg_bounds
  have rest := Nat.mod_lt s.volume_size_in_clusters bounds.1
  rw [tail_group_bits_eq]
  split <;> omega

theorem cpg_of_many {i : Nat} (inside : i < s.nr_cluster_groups) (pos : i ≠ 0) : 3584 ≤ s.global_cpg := by
  have whole := s.clusters_eq.2
  have tail := s.tail_group_bits_bounds
  have bounds := s.maxBits_bounds
  have cpg := s.global_cpg_eq
  have le : 1 * s.global_cpg ≤ (s.nr_cluster_groups - 1) * s.global_cpg := Nat.mul_le_mul_right _ (by omega)
  omega

theorem first_cluster_group_bounds : 0 < s.first_cluster_group ∧ s.first_cluster_group ≤ 3 := by
  have pos : 0 < 2 ^ s.c_to_b_bits := Nat.two_pow_pos _
  rw [first_cluster_group, Nat.shiftRight_eq_div_pow, OCFS2_SUPER_BLOCK_BLKNO]
  refine ⟨Nat.div_pos (by omega) pos, Nat.div_le_of_le_mul ?_⟩
  omega

end Geometry

section Layout

variable (s : Geometry)

def bitsOf (i : Nat) : Nat := if i + 1 = s.nr_cluster_groups then s.tail_group_bits else s.global_cpg

def startOf (i : Nat) : Nat := i * s.global_cpg

def blknoOf (i : Nat) : Nat :=
  if i = 0 then s.first_cluster_group_blkno else (i * s.global_cpg) <<< s.c_to_b_bits

def ones (len used : Nat) : Buffer := (List.range used).foldl (fun buf i => (Bitops.setBit i buf).2) (List.replicate len 0)

theorem bit_zeros (len i : Nat) : bit (List.replicate len 0) i = false := by
  rw [bit, List.getD_eq_getElem?_getD, List.getElem?_replicate]
  split <;> simp

theorem ones_succ (len used : Nat) : ones len (used + 1) = (Bitops.setBit used (ones len used)).2 := by
  rw [ones, List.range_succ, List.foldl_append]
  rfl

theorem length_ones (len used : Nat) : (ones len used).length = len := by
  induction used with
  | zero => simp [ones]
  | succ used ih => rw [ones_succ, Bitops.length_setBit, ih]

theorem bit_ones (len used : Nat) (room : used ≤ 8 * len) (i : Nat) : bit (ones len used) i = decide (i < used) := by
  induction used with
  | zero => simpa [ones] using bit_zeros len i
  | succ used ih =>
    rw [ones_succ, Bitops.bit_setBit _ _ _ (by rw [length_ones]; omega), ih (by omega)]
    by_cases here : i = used
    · simp [here]
    · rw [if_neg here, decide_eq_decide]
      omega

theorem ones_add (len used n : Nat) :
    ones len (used + n) = (List.range' used n).foldl (fun buf i => (Bitops.setBit i buf).2) (ones len used) := by
  induction n with
  | zero => rfl
  | succ n ih => rw [← Nat.add_assoc, ones_succ, ih, List.range'_concat, List.foldl_append]; simp

def chainSum (n c : Nat) (f : Nat → Nat) : Nat := ∑ i ∈ Finset.range n with i % s.recs_per_inode = c, f i

def freeOf (u : Nat → Nat) (i : Nat) : Nat := sub16 (bitsOf s i) (u i)

def groupOf (n : Nat) (u : Nat → Nat) (i : Nat) : AllocGroup where
  gd :=
    { bg_bits := bitsOf s i
      bg_chain := i % s.recs_per_inode
      bg_blkno := blknoOf s i
      bg_free_bits_count := freeOf s u i
      bg_next_group := if i + s.recs_per_inode < n then blknoOf s (i + s.recs_per_inode) else 0
      bg_bitmap := ones (groupBitmapSize s.blocksize) (u i) }
  chain_free := if i < s.recs_per_inode then chainSum s n i (freeOf s u) else 0
  chain_total := if i < s.recs_per_inode then chainSum s n i (bitsOf s) else 0
  next := if i + s.recs_per_inode < n then some (i + s.recs_per_inode) else none

def groupsOf (n : Nat) (u : Nat → Nat) : List AllocGroup := (List.range n).map (groupOf s n u)

def bitmapOf (u : Nat → Nat) : AllocBitmap where
  groups := groupsOf s s.nr_cluster_groups u
  num_chains := min s.nr_cluster_groups s.recs_per_inode
  bi := ⟨∑ i ∈ Finset.range s.nr_cluster_groups, u i, s.volume_size_in_clusters⟩

theorem getElem?_groupsOf (n : Nat) (u : Nat → Nat) (i : Nat) :
    (groupsOf s n u)[i]? = if i < n then some (groupOf s n u i) else none := by
  rw [groupsOf, List.getElem?_map]
  by_cases lt : i < n
  · rw [if_pos lt, List.getElem?_range lt]
    rfl
  · rw [if_neg lt, List.getElem?_eq_none (by simpa using lt)]
    rfl

theorem modify_map_range {α : Type} (f : Nat → α) (g : α → α) (n k : Nat) :
    ((List.range n).map f).modify k g = (List.range n).map fun i => if k = i then g (f i) else f i := by
  refine List.ext_getElem? fun i => ?_
  rw [List.getElem?_modify, List.getElem?_map, List.getElem?_map]
  by_cases lt : i < n
  · rw [List.getElem?_range lt]
    rfl
  · rw [List.getElem?_eq_none (by simpa using lt)]
    rfl

theorem bitsOf_bounds (i : Nat) : 0 < bitsOf s i ∧ bitsOf s i ≤ s.global_cpg := by
  have tail := s.tail_group_bits_bounds
  have bounds := s.global_cpg_bounds
  rw [bitsOf]
  split <;> omega

theorem sum_bitsOf {n : Nat} (le : n < s.nr_cluster_groups) :
    ∑ i ∈ Finset.range n, bitsOf s i = startOf s n := by
  have same : ∀ i ∈ Finset.range n, bitsOf s i = s.global_cpg := by
    intro i mem
    rw [Finset.mem_range] at mem
    rw [bitsOf, if_neg (by omega)]
  rw [Finset.sum_congr rfl same, Finset.sum_const, Finset.card_range, smul_eq_mul, startOf]

theorem sum_bitsOf_all : ∑ i ∈ Finset.range s.nr_cluster_groups, bitsOf s i = s.volume_size_in_clusters := by
  obtain ⟨pos, whole⟩ := s.clusters_eq
  obtain ⟨n, eq⟩ : ∃ n, s.nr_cluster_groups = n + 1 := ⟨s.nr_cluster_groups - 1, by omega⟩
  rw [eq, Finset.sum_range_succ, sum_bitsOf s (by omega), bitsOf, if_pos eq.symm, startOf]
  rw [eq, Nat.add_sub_cancel] at whole
  exact whole

theorem sum_bitsOf_le {n : Nat} (le : n ≤ s.nr_cluster_groups) :
    ∑ i ∈ Finset.range n, bitsOf s i ≤ s.volume_size_in_clusters := by
  rw [← sum_bitsOf_all]
  exact Finset.sum_le_sum_of_subset (Finset.range_mono le)

end Layout

end Ocfs2.Mkfs
