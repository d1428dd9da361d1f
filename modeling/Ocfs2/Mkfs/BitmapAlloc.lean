import Ocfs2.Mkfs.BitmapInit

set_option autoImplicit false

namespace Ocfs2.Mkfs

open ByteBuffer

section FindClear

variable {len used size n : Nat}

theorem findNextBitClear_ones (inside : used ≤ size) (room : size ≤ 8 * len) {off : Nat} (le : off ≤ size) :
    Bitops.findNextBitClear (ones len used) size off = max off used := by
  have clean : Bitops.CleanTail (ones len used) size := by
    intro i past _
    rw [bit_ones _ _ (by omega), decide_eq_false_iff_not]
    omega
  refine (Bitops.findNextBitClear_isNext _ _ _ (by rwa [length_ones]) clean le).unique
    ⟨Nat.le_max_left .., by omega, fun i low less => ?_, fun less => ?_⟩
  · rw [bit_ones _ _ (by omega), decide_eq_true (by omega)]
    rfl
  · rw [bit_ones _ _ (by omega), decide_eq_false (by omega)]
    rfl

theorem findClearBitsLoop_run (enough : used + n ≤ size) (room : size ≤ 8 * len) (fuel : Nat) :
    ∀ count, 0 < count → count < n → n ≤ count + fuel →
      findClearBitsLoop (ones len used) size n fuel (used + count) count (some used) = some used := by
  induction fuel with
  | zero => intro count _ _ _; omega
  | succ fuel ih =>
    intro count pos short fuel_enough
    have next : Bitops.findNextBitClear (ones len used) size (used + count) = used + count := by
      rw [findNextBitClear_ones (by omega) room (by omega)]
      omega
    rw [findClearBitsLoop, if_pos (by omega), next]
    simp only [if_neg (show ¬used + count ≥ size by omega), ne_eq, not_true_eq_false, if_false,
      if_neg (show ¬count = 0 by omega)]
    split
    · rfl
    · exact ih (count + 1) (by omega) (by omega) (by omega)

theorem findClearBits_ones (some_used : 0 < used) (pos : 0 < n) (enough : used + n ≤ size) (room : size ≤ 8 * len) :
    findClearBits (ones len used) size n 0 = some used := by
  have next : Bitops.findNextBitClear (ones len used) size 0 = used := by
    rw [findNextBitClear_ones (by omega) room (by omega)]
    omega
  have loop : findClearBitsLoop (ones len used) size n (size + 1 - 0) 0 0 none = some used := by
    rw [Nat.sub_zero, findClearBitsLoop, if_pos (by omega), next]
    simp only [if_neg (show ¬used ≥ size by omega), if_pos (show used ≠ 0 by omega), Nat.zero_add]
    split
    · rfl
    next more => exact findClearBitsLoop_run enough room size 1 (by omega) (by omega) (by omega)
  rw [findClearBits, loop]
  exact if_neg (by omega)

theorem findClearBits_full (full : size ≤ used) (room : used ≤ 8 * len) :
    findClearBits (ones len used) size n 0 = none := by
  have next := Bitops.findNextBitClear_isNext_of (ones len used) size 0 (by rw [length_ones]; omega)
    (fun odd => absurd (Nat.zero_mod 8) odd) (Nat.zero_le size)
  have past : Bitops.findNextBitClear (ones len used) size 0 ≥ size := by
    by_contra less
    have clear := next.found (by omega)
    rw [bit_ones _ _ room, decide_eq_true (by omega)] at clear
    cases clear
  have loop : findClearBitsLoop (ones len used) size n (size + 1 - 0) 0 0 none = none := by
    rw [Nat.sub_zero, findClearBitsLoop]
    simp only [if_pos past, ite_self]
  rw [findClearBits, loop]

end FindClear

section Search

variable (s : Geometry) (u : Nat → Nat) (n : Nat)

theorem searchChain_some (fuel : Nat) :
    ∀ i k, searchChain (groupsOf s s.nr_cluster_groups u) n fuel i = some k →
      k < s.nr_cluster_groups ∧ n ≤ freeOf s u k := by
  induction fuel with
  | zero => intro i k found; cases found
  | succ fuel ih =>
    intro i k found
    rw [searchChain, getElem?_groupsOf] at found
    split at found
    next => cases found
    next group at_i =>
      split at at_i
      next lt =>
        cases at_i
        split at found
        next enough =>
          cases found
          exact ⟨lt, enough⟩
        next =>
          obtain ⟨next, -, found⟩ := Option.bind_eq_some_iff.mp found
          exact ih next k found
      next => cases at_i

theorem searchChain_none (fuel : Nat) :
    ∀ i, s.nr_cluster_groups ≤ i + fuel → searchChain (groupsOf s s.nr_cluster_groups u) n fuel i = none →
      ∀ j, i + j * s.recs_per_inode < s.nr_cluster_groups → freeOf s u (i + j * s.recs_per_inode) < n := by
  have recs := s.recs_per_inode_bounds
  induction fuel with
  | zero => intro i enough _ j lt; omega
  | succ fuel ih =>
    intro i enough missing j lt
    have here : i < s.nr_cluster_groups := by omega
    rw [searchChain, getElem?_groupsOf, if_pos here] at missing
    dsimp only at missing
    split at missing
    next => cases missing
    next short =>
      cases j with
      | zero => simpa [groupOf] using short
      | succ j =>
        have next : (groupOf s s.nr_cluster_groups u i).next = some (i + s.recs_per_inode) := by
          refine if_pos (lt_of_le_of_lt ?_ lt)
          rw [Nat.succ_mul]
          omega
        rw [next] at missing
        have later := ih (i + s.recs_per_inode) (by omega) missing j (by rw [Nat.succ_mul] at lt; omega)
        rwa [Nat.succ_mul, Nat.add_comm (j * _), ← Nat.add_assoc]

theorem searchChains_correct :
    (searchChains (bitmapOf s u) n = none ∧ ∀ k < s.nr_cluster_groups, freeOf s u k < n) ∨
      ∃ k, searchChains (bitmapOf s u) n = some k ∧ k < s.nr_cluster_groups ∧ n ≤ freeOf s u k := by
  have recs := s.recs_per_inode_bounds
  cases found : searchChains (bitmapOf s u) n with
  | some k =>
    rw [searchChains, List.findSome?_eq_some_iff] at found
    obtain ⟨_, i, _, _, found, _⟩ := found
    exact Or.inr ⟨k, rfl, searchChain_some s u n _ i k found⟩
  | none =>
    refine Or.inl ⟨rfl, fun k lt => ?_⟩
    rw [searchChains, List.findSome?_eq_none_iff] at found
    have small := Nat.mod_lt k (show 0 < s.recs_per_inode by omega)
    have le := Nat.mod_le k s.recs_per_inode
    have missing := found (k % s.recs_per_inode) (by rw [List.mem_range]; simp only [bitmapOf]; omega)
    have whole := Nat.mod_add_div' k s.recs_per_inode
    have all := searchChain_none s u n _ _ (by simp [bitmapOf, groupsOf]) missing (k / s.recs_per_inode) (by omega)
    rwa [whole] at all

end Search

section Step

variable (s : Geometry)

def Fits (u : Nat → Nat) : Prop := ∀ i, 0 < u i ∧ u i ≤ bitsOf s i

def raise (u : Nat → Nat) (k n : Nat) : Nat → Nat := fun i => u i + if k = i then n else 0

variable {s} {u : Nat → Nat} {k n : Nat}

theorem Fits.raise (fits : Fits s u) (enough : u k + n ≤ bitsOf s k) : Fits s (raise u k n) := by
  intro i
  have old := fits i
  simp only [Mkfs.raise]
  split
  next same => subst same; omega
  next => omega

theorem freeOf_raise (fits : Fits s u) (enough : u k + n ≤ bitsOf s k) (i : Nat) :
    freeOf s u i = freeOf s (raise u k n) i + if k = i then n else 0 := by
  rw [freeOf_le s (fits i).2, freeOf_le s (fits.raise enough i).2]
  simp only [raise]
  split
  next same => subst same; omega
  next => omega

theorem chainSum_freeOf_raise (fits : Fits s u) (enough : u k + n ≤ bitsOf s k) (m c : Nat) (inside : k < m) :
    chainSum s m c (freeOf s u) =
      chainSum s m c (freeOf s (raise u k n)) + if k % s.recs_per_inode = c then n else 0 := by
  simp only [chainSum, freeOf_raise fits enough, Finset.sum_add_distrib, Finset.sum_ite_eq, Finset.mem_filter,
    Finset.mem_range, inside, true_and]

theorem sum_raise (u : Nat → Nat) (k n m : Nat) (inside : k < m) :
    ∑ i ∈ Finset.range m, raise u k n i = ∑ i ∈ Finset.range m, u i + n := by
  simp only [raise, Finset.sum_add_distrib, Finset.sum_ite_eq, Finset.mem_range, inside, if_true]

theorem groupOf_raise (fits : Fits s u) (enough : u k + n ≤ bitsOf s k) (inside : k < s.nr_cluster_groups) (i : Nat) :
    (if k % s.recs_per_inode = i then AllocGroup.uncount n else id)
      (if k = i then (groupOf s s.nr_cluster_groups u i).take (u k) n else groupOf s s.nr_cluster_groups u i) =
    groupOf s s.nr_cluster_groups (raise u k n) i := by
  have recs := s.recs_per_inode_bounds
  have sum := chainSum_freeOf_raise fits enough s.nr_cluster_groups i inside
  have small := chainSum_lt s i (freeOf s u) le_rfl fun j => by rw [freeOf_le s (fits j).2]; omega
  have taken : (if k = i then (groupOf s s.nr_cluster_groups u i).take (u k) n else groupOf s s.nr_cluster_groups u i) =
      { groupOf s s.nr_cluster_groups (raise u k n) i with
        chain_free := (groupOf s s.nr_cluster_groups u i).chain_free } := by
    have free := freeOf_raise fits enough i
    split
    next same =>
      subst same
      have bounds := bitsOf_bounds s k
      have cpg := s.global_cpg_bounds
      rw [if_pos rfl] at free
      have less : sub16 (freeOf s u k) n = freeOf s (raise u k n) k := by
        rw [sub16_of_le (by omega) (by rw [freeOf_le s (fits k).2]; omega)]
        omega
      simp only [AllocGroup.take, groupOf, less, ← ones_add, raise, if_true]
    next other =>
      simp only [groupOf, free, raise, if_neg other, Nat.add_zero]
  rw [taken]
  by_cases chain : k % s.recs_per_inode = i
  · have head : i < s.recs_per_inode := chain ▸ Nat.mod_lt k (by omega)
    rw [if_pos chain] at sum ⊢
    have less : sub32 (chainSum s s.nr_cluster_groups i (freeOf s u)) n =
        chainSum s s.nr_cluster_groups i (freeOf s (raise u k n)) := by
      rw [sub32_of_le (by omega) small]
      omega
    simp only [AllocGroup.uncount, groupOf, if_pos head, less]
  · rw [if_neg chain] at sum ⊢
    rw [Nat.add_zero] at sum
    simp only [groupOf, sum, id]

theorem groupsOf_raise (fits : Fits s u) (enough : u k + n ≤ bitsOf s k) (inside : k < s.nr_cluster_groups) :
    ((groupsOf s s.nr_cluster_groups u).modify k (.take (u k) n)).modify (k % s.recs_per_inode) (.uncount n) =
      groupsOf s s.nr_cluster_groups (raise u k n) := by
  rw [groupsOf, modify_map_range, modify_map_range, groupsOf]
  refine List.map_congr_left fun i _ => ?_
  rw [← groupOf_raise fits enough inside i]
  split <;> rfl

theorem groupStart_groupOf (m : Nat) {i : Nat} (inside : i < s.nr_cluster_groups) :
    groupStart s (groupOf s m u i).gd = startOf s i := by
  have first := s.first_cluster_group_bounds
  have bits := s.block_size
  have cluster := s.cluster_size
  by_cases zero : i = 0
  · have blkno : (groupOf s m u i).gd.bg_blkno = s.first_cluster_group_blkno := if_pos zero
    rw [groupStart, if_pos blkno, startOf, zero, Nat.zero_mul]
  · have far : s.first_cluster_group < i * s.global_cpg := lt_of_lt_of_le (by have := s.cpg_of_many inside zero; omega)
      (Nat.le_mul_of_pos_left _ (by omega))
    have other : (i * s.global_cpg) <<< s.c_to_b_bits ≠ s.first_cluster_group_blkno := by
      rw [Geometry.first_cluster_group_blkno, Nat.shiftLeft_eq, Nat.shiftLeft_eq]
      intro same
      exact absurd (Nat.eq_of_mul_eq_mul_right (Nat.two_pow_pos _) same) (by omega)
    have shift : s.c_to_b_bits + s.blocksize_bits = s.cluster_size_bits := by
      rw [Geometry.c_to_b_bits]
      omega
    have blkno : (groupOf s m u i).gd.bg_blkno = (i * s.global_cpg) <<< s.c_to_b_bits := if_neg zero
    rw [groupStart, blkno, if_neg other, ← Nat.shiftLeft_add, shift, Nat.shiftLeft_shiftRight, startOf]

theorem allocFromBitmap_correct (fits : Fits s u) (pos : 0 < n) :
    (allocFromBitmap s n (bitmapOf s u) = none ∧ ∀ k < s.nr_cluster_groups, freeOf s u k < n) ∨
      ∃ k < s.nr_cluster_groups, u k + n ≤ bitsOf s k ∧ allocFromBitmap s n (bitmapOf s u) =
        some (((startOf s k + u k) <<< s.cluster_size_bits, n <<< s.cluster_size_bits), bitmapOf s (raise u k n)) := by
  rcases searchChains_correct s u n with ⟨missing, short⟩ | ⟨k, found, inside, enough⟩
  · exact Or.inl ⟨by rw [allocFromBitmap, missing]; rfl, short⟩
  · have level := fits k
    have bounds := bitsOf_bounds s k
    have cpg := s.global_cpg_eq
    rw [freeOf_le s level.2] at enough
    have start : findClearBits (ones (groupBitmapSize s.blocksize) (u k)) (bitsOf s k) n 0 = some (u k) :=
      findClearBits_ones level.1 pos (by omega) (by simp only [Geometry.maxBits] at cpg; omega)
    have group : (bitmapOf s u).groups[k]? = some (groupOf s s.nr_cluster_groups u k) := by
      rw [bitmapOf, getElem?_groupsOf, if_pos inside]
    have used : uint32 ((bitmapOf s u).bi.used_bits + n) = (bitmapOf s (raise u k n)).bi.used_bits := by
      have le : ∑ i ∈ Finset.range s.nr_cluster_groups, raise u k n i ≤ s.volume_size_in_clusters := by
        rw [← sum_bitsOf_all s]
        exact Finset.sum_le_sum fun i _ => (fits.raise (by omega) i).2
      have clusters := s.clusters
      rw [sum_raise _ _ _ _ inside] at le
      simp only [bitmapOf, sum_raise _ _ _ _ inside]
      exact uint32_of_lt (by omega)
    refine Or.inr ⟨k, inside, by omega, ?_⟩
    rw [allocFromBitmap, found]
    simp only [group, bind, Option.bind, pure]
    have gd : findClearBits (groupOf s s.nr_cluster_groups u k).gd.bg_bitmap (groupOf s s.nr_cluster_groups u k).gd.bg_bits
      n 0 = some (u k) := start
    simp only [gd, used, groupStart_groupOf _ inside, Nat.add_comm (u k)]
    have groups := groupsOf_raise fits (show u k + n ≤ bitsOf s k by omega) inside
    exact congrArg (fun groups => some (_, { bitmapOf s (raise u k n) with groups })) groups

end Step

end Ocfs2.Mkfs
