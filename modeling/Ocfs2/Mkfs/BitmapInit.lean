import Ocfs2.Mkfs.BitmapFill

set_option autoImplicit false

namespace Ocfs2.Mkfs

open ByteBuffer

variable (s : Geometry)

def initialUsed (i : Nat) : Nat := if i = 0 then s.first_cluster_group + 1 else 1

theorem initialUsed_of_pos {i : Nat} (pos : i ≠ 0) : initialUsed s i = 1 := if_neg pos

theorem bitsOf_zero : bitsOf s 0 = s.global_cpg := by
  rw [bitsOf]
  split
  next one =>
    have whole := s.clusters_eq.2
    have tail := s.tail_group_bits_bounds
    have cpg := s.global_cpg_eq
    rw [← one] at whole
    omega
  next => rfl

theorem chainSum_succ (n c : Nat) (f : Nat → Nat) :
    chainSum s (n + 1) c f = chainSum s n c f + if n % s.recs_per_inode = c then f n else 0 := by
  rw [chainSum, chainSum, Finset.sum_filter, Finset.sum_filter, Finset.sum_range_succ]

theorem chainSum_le (n c : Nat) (f : Nat → Nat) : chainSum s n c f ≤ ∑ i ∈ Finset.range n, f i :=
  Finset.sum_le_sum_of_subset (Finset.filter_subset _ _)

theorem reserveBit_foldl (k : Nat) (small : k + 1 < 2 ^ 16) :
    (List.range' 1 k).foldl reserveBit (initializeAllocGroup s ⟨0, 0⟩ s.first_cluster_group_blkno 0 s.global_cpg 1) =
      (⟨⟨s.global_cpg, 0, s.first_cluster_group_blkno, sub16 s.global_cpg (k + 1), 0,
          ones (groupBitmapSize s.blocksize) (k + 1)⟩, 0, 0, none⟩, ⟨k + 1, s.global_cpg⟩) := by
  have bounds := s.global_cpg_bounds
  induction k with
  | zero =>
    simp only [List.range'_zero, List.foldl_nil, initializeAllocGroup, Nat.mul_one, Nat.zero_add,
      uint16_of_lt bounds.2, uint32_of_lt (show s.global_cpg < 2 ^ 32 by omega)]
    rfl
  | succ k ih =>
    rw [List.range'_concat, List.foldl_append, ih (by omega)]
    simp only [List.foldl_cons, List.foldl_nil, reserveBit, sub16_succ _ (k + 1) small,
      uint32_of_lt (show k + 1 + 1 < 2 ^ 32 by omega)]
    rw [Nat.one_mul, Nat.add_comm 1 k, ones_succ _ (k + 1)]

theorem initializeFirstGroup_correct :
    initializeFirstGroup s = (groupOf s 1 (initialUsed s) 0, ⟨s.first_cluster_group + 1, s.global_cpg⟩) := by
  have first := s.first_cluster_group_bounds
  have recs := s.recs_per_inode_bounds
  rw [initializeFirstGroup, reserveBit_foldl s _ (by omega)]
  have chain : ∀ f, chainSum s 1 0 f = f 0 := by
    intro f
    rw [chainSum_succ, if_pos (Nat.zero_mod _)]
    simp [chainSum]
  simp [groupOf, chain, freeOf, bitsOf_zero, initialUsed, blknoOf, show 0 < s.recs_per_inode by omega,
    show s.recs_per_inode ≠ 0 by omega]

def loopOf (n : Nat) : Loop where
  groups := groupsOf s n (initialUsed s)
  bi := ⟨∑ i ∈ Finset.range n, initialUsed s i, ∑ i ∈ Finset.range n, bitsOf s i⟩
  chain := n % s.recs_per_inode
  blkno := (n * s.global_cpg) <<< s.c_to_b_bits
  wrapped := decide (s.recs_per_inode ≤ n)

theorem initialUsed_le (more : 1 < s.nr_cluster_groups) (i : Nat) : initialUsed s i ≤ bitsOf s i := by
  have first := s.first_cluster_group_bounds
  have bits := bitsOf_bounds s i
  rw [initialUsed]
  split
  next zero =>
    subst zero
    have large := s.cpg_of_many more (by decide)
    rw [bitsOf_zero]
    omega
  next => omega

theorem freeOf_le {u : Nat → Nat} {i : Nat} (fits : u i ≤ bitsOf s i) : freeOf s u i = bitsOf s i - u i := by
  have bits := bitsOf_bounds s i
  have bounds := s.global_cpg_bounds
  exact sub16_of_le fits (by omega)

theorem chainSum_lt {n : Nat} (c : Nat) (f : Nat → Nat) (le : n ≤ s.nr_cluster_groups) (small : ∀ i, f i ≤ bitsOf s i) :
    chainSum s n c f < 2 ^ 32 :=
  calc chainSum s n c f ≤ ∑ i ∈ Finset.range n, f i := chainSum_le s n c f
    _ ≤ ∑ i ∈ Finset.range n, bitsOf s i := Finset.sum_le_sum fun i _ => small i
    _ ≤ s.volume_size_in_clusters := sum_bitsOf_le s le
    _ < 2 ^ 32 := s.clusters.2

section Step

variable {u : Nat → Nat} {n : Nat}

theorem appended_eq : (⟨⟨bitsOf s n, n % s.recs_per_inode, blknoOf s n, freeOf s u n, 0,
    ones (groupBitmapSize s.blocksize) (u n)⟩, 0, 0, none⟩ : AllocGroup) = groupOf s n u n := by
  have alone : ∀ f, n < s.recs_per_inode → chainSum s n n f = 0 := by
    intro f head
    refine Finset.sum_eq_zero fun i mem => ?_
    rw [Finset.mem_filter, Finset.mem_range] at mem
    rw [Nat.mod_eq_of_lt (by omega)] at mem
    omega
  simp only [groupOf, show ¬n + s.recs_per_inode < n by omega, if_false]
  by_cases head : n < s.recs_per_inode
  · simp [head, alone _ head]
  · simp [head]

theorem groupOf_succ (fits : ∀ i, u i ≤ bitsOf s i) (lt : n < s.nr_cluster_groups) (i : Nat) :
    (if n % s.recs_per_inode = i then AllocGroup.count (groupOf s n u n).gd else id)
      (if i + s.recs_per_inode = n then (groupOf s n u i).link (blknoOf s n) n else groupOf s n u i) =
    groupOf s (n + 1) u i := by
  have recs := s.recs_per_inode_bounds
  have total := chainSum_lt s i (bitsOf s) lt fun _ => le_rfl
  have free := chainSum_lt s i (freeOf s u) lt fun j => by rw [freeOf_le s (fits j)]; omega
  rw [chainSum_succ] at total free
  by_cases chain : n % s.recs_per_inode = i
  · have head : i < s.recs_per_inode := chain ▸ Nat.mod_lt n (by omega)
    rw [if_pos chain] at total free ⊢
    split
    next linked =>
      simp [AllocGroup.count, AllocGroup.link, groupOf, head, chainSum_succ, chain, linked, uint32_of_lt total,
        uint32_of_lt free]
    next unlinked =>
      simp [AllocGroup.count, groupOf, head, chainSum_succ, chain, uint32_of_lt total,
        uint32_of_lt free, show i + s.recs_per_inode < n + 1 ↔ i + s.recs_per_inode < n by omega]
  · rw [if_neg chain]
    split
    next linked => simp [AllocGroup.link, groupOf, chainSum_succ, chain, linked]
    next unlinked =>
      simp [groupOf, chainSum_succ, chain, show i + s.recs_per_inode < n + 1 ↔ i + s.recs_per_inode < n by omega]

theorem groupsOf_succ (fits : ∀ i, u i ≤ bitsOf s i) (lt : n < s.nr_cluster_groups) :
    (if s.recs_per_inode ≤ n then
        (groupsOf s n u ++ [groupOf s n u n]).modify (n - s.recs_per_inode) (.link (blknoOf s n) n)
      else groupsOf s n u ++ [groupOf s n u n]).modify (n % s.recs_per_inode) (.count (groupOf s n u n).gd) =
    groupsOf s (n + 1) u := by
  have before : groupsOf s n u ++ [groupOf s n u n] = (List.range (n + 1)).map (groupOf s n u) := by
    rw [List.range_succ, List.map_append]
    rfl
  rw [before]
  have linked : (if s.recs_per_inode ≤ n then
        ((List.range (n + 1)).map (groupOf s n u)).modify (n - s.recs_per_inode) (.link (blknoOf s n) n)
      else (List.range (n + 1)).map (groupOf s n u)) = (List.range (n + 1)).map fun i =>
        if i + s.recs_per_inode = n then (groupOf s n u i).link (blknoOf s n) n else groupOf s n u i := by
    split
    next many =>
      rw [modify_map_range]
      refine List.map_congr_left fun i _ => if_congr ?_ rfl rfl
      omega
    next few =>
      refine List.map_congr_left fun i _ => (if_neg ?_).symm
      omega
  rw [linked, modify_map_range, groupsOf]
  refine List.map_congr_left fun i _ => ?_
  rw [← groupOf_succ s fits lt i]
  split <;> rfl

end Step

theorem initializeAllocGroup_correct (bi : BitInfo) (n : Nat) (pos : 0 < n) :
    initializeAllocGroup s bi (blknoOf s n) (n % s.recs_per_inode) (bitsOf s n) 1 =
      (groupOf s n (initialUsed s) n, ⟨uint32 (bi.used_bits + 1), uint32 (bi.total_bits + bitsOf s n)⟩) := by
  have bits := bitsOf_bounds s n
  have bounds := s.global_cpg_bounds
  have used := initialUsed_of_pos s (show n ≠ 0 by omega)
  rw [← appended_eq, initializeAllocGroup, Nat.mul_one, uint16_of_lt (show bitsOf s n < 2 ^ 16 by omega), freeOf, used]
  rfl

theorem addGroup_correct (n : Nat) (pos : 0 < n) (lt : n < s.nr_cluster_groups) :
    addGroup s (loopOf s n) n = loopOf s (n + 1) := by
  have recs := s.recs_per_inode_bounds
  have fits := initialUsed_le s (show 1 < s.nr_cluster_groups by omega)
  have cpg : (if n = s.nr_cluster_groups - 1 then s.tail_group_bits else s.global_cpg) = bitsOf s n := by
    rw [bitsOf]
    exact if_congr (by omega) rfl rfl
  have blkno : (loopOf s n).blkno = blknoOf s n := (if_neg (by omega)).symm
  have total : ∑ i ∈ Finset.range n, bitsOf s i + bitsOf s n < 2 ^ 32 := by
    rw [← Finset.sum_range_succ]
    exact lt_of_le_of_lt (sum_bitsOf_le s lt) s.clusters.2
  have used : ∑ i ∈ Finset.range n, initialUsed s i + 1 < 2 ^ 32 := by
    have le : ∑ i ∈ Finset.range n, initialUsed s i ≤ ∑ i ∈ Finset.range n, bitsOf s i :=
      Finset.sum_le_sum fun i _ => fits i
    have bits := bitsOf_bounds s n
    omega
  have turn : (n + 1) % s.recs_per_inode =
      if n % s.recs_per_inode + 1 ≥ s.recs_per_inode then 0 else n % s.recs_per_inode + 1 := by
    have small := Nat.mod_lt n (show 0 < s.recs_per_inode by omega)
    rw [Nat.add_mod_eq_ite, Nat.mod_eq_of_lt (show 1 < s.recs_per_inode by omega)]
    split <;> omega
  have wrapped : (decide (s.recs_per_inode ≤ n) || decide (n % s.recs_per_inode + 1 ≥ s.recs_per_inode)) =
      decide (s.recs_per_inode ≤ n + 1) := by
    by_cases many : s.recs_per_inode ≤ n
    · simp [many, show s.recs_per_inode ≤ n + 1 by omega]
    · rw [Nat.mod_eq_of_lt (by omega)]
      simp [many]
  have next_blkno : blknoOf s n + s.global_cpg <<< s.c_to_b_bits = (n * s.global_cpg + s.global_cpg) <<< s.c_to_b_bits := by
    rw [blknoOf, if_neg (by omega), Nat.shiftLeft_eq, Nat.shiftLeft_eq, Nat.shiftLeft_eq, Nat.add_mul]
  rw [addGroup, blkno, cpg]
  simp only [loopOf, initializeAllocGroup_correct s _ n pos, decide_eq_true_eq, groupsOf_succ s fits lt,
    uint32_of_lt total, uint32_of_lt used, turn, Finset.sum_range_succ, initialUsed_of_pos s (show n ≠ 0 by omega),
    Nat.succ_mul, next_blkno, ← wrapped]
  rfl

theorem initializeLoop_correct : initializeLoop s = loopOf s s.nr_cluster_groups := by
  have all : ∀ k, 1 + k ≤ s.nr_cluster_groups →
      (List.range' 1 k).foldl (addGroup s) (loopOf s 1) = loopOf s (1 + k) := by
    intro k
    induction k with
    | zero => exact fun _ => rfl
    | succ k ih =>
      intro le
      rw [List.range'_concat, List.foldl_append, ih (by omega), Nat.one_mul]
      exact addGroup_correct s (1 + k) (by omega) (by omega)
  have recs := s.recs_per_inode_bounds
  have start : loopOf s 1 = ⟨[groupOf s 1 (initialUsed s) 0], ⟨s.first_cluster_group + 1, s.global_cpg⟩, 1,
      s.global_cpg <<< s.c_to_b_bits, false⟩ := by
    simp [loopOf, groupsOf, initialUsed, bitsOf_zero, Nat.mod_eq_of_lt (show 1 < s.recs_per_inode by omega)]
    omega
  have groups := s.clusters_eq.1
  rw [initializeLoop, initializeFirstGroup_correct, ← start, all _ (by omega), Nat.add_sub_cancel' groups]

theorem initializeBitmap_correct : initializeBitmap s = some (bitmapOf s (initialUsed s)) := by
  have total : (loopOf s s.nr_cluster_groups).bi.total_bits = s.volume_size_in_clusters := sum_bitsOf_all s
  rw [initializeBitmap, initializeLoop_correct]
  simp only [total, ne_eq, not_true_eq_false, if_false]
  have chains : (if (loopOf s s.nr_cluster_groups).wrapped then s.recs_per_inode else
      (loopOf s s.nr_cluster_groups).chain) = min s.nr_cluster_groups s.recs_per_inode := by
    simp only [loopOf, decide_eq_true_eq]
    split
    next many => omega
    next few =>
      rw [Nat.mod_eq_of_lt (by omega)]
      omega
  rw [chains]
  simp only [bitmapOf, loopOf, sum_bitsOf_all]

end Ocfs2.Mkfs
