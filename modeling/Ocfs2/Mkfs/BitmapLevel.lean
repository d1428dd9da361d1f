import Ocfs2.Mkfs.BitmapAlloc

set_option autoImplicit false

namespace Ocfs2.Mkfs

open ByteBuffer

variable (s : Geometry)

def descCluster (gd : GroupDesc) : Nat := gd.bg_blkno >>> s.c_to_b_bits

def taken (groups : List AllocGroup) (ranges : List (Nat × Nat)) (c : Nat) : Bool :=
  decide (c < s.first_cluster_group) || groups.any (fun group => c == descCluster s group.gd) ||
    ranges.any fun range => decide (range.1 ≤ c ∧ c < range.1 + range.2)

section Levels

variable {s}

theorem startOf_inj {i k j l : Nat} (j_lt : j < s.global_cpg) (l_lt : l < s.global_cpg)
    (same : startOf s i + j = startOf s k + l) : i = k ∧ j = l := by
  have cpg := s.global_cpg_bounds
  have quotient : ∀ a b, b < s.global_cpg → (startOf s a + b) / s.global_cpg = a := by
    intro a b lt
    rw [startOf, Nat.add_comm, Nat.add_mul_div_right _ _ cpg.1, Nat.div_eq_of_lt lt, Nat.zero_add]
  have groups : i = k := by rw [← quotient i j j_lt, same, quotient k l l_lt]
  subst groups
  omega

theorem startOf_add_bitsOf_le {i : Nat} (inside : i < s.nr_cluster_groups) :
    startOf s i + bitsOf s i ≤ s.volume_size_in_clusters := by
  rw [← sum_bitsOf s inside, ← Finset.sum_range_succ]
  exact sum_bitsOf_le s inside

def descOf (s : Geometry) (i : Nat) : Nat := if i = 0 then s.first_cluster_group else startOf s i

theorem descCluster_groupOf (m : Nat) (u : Nat → Nat) (i : Nat) : descCluster s (groupOf s m u i).gd = descOf s i := by
  simp only [descCluster, groupOf, blknoOf, startOf, descOf]
  split <;> simp [Geometry.first_cluster_group_blkno, Nat.shiftLeft_shiftRight]

theorem mem_groupsOf {m : Nat} {u : Nat → Nat} {group : AllocGroup} :
    group ∈ groupsOf s m u ↔ ∃ i < m, groupOf s m u i = group := by
  simp [groupsOf]

theorem taken_iff (u : Nat → Nat) (ranges : List (Nat × Nat)) (c : Nat) :
    taken s (bitmapOf s u).groups ranges c = true ↔ c < s.first_cluster_group ∨
      (∃ i < s.nr_cluster_groups, c = descOf s i) ∨ ∃ range ∈ ranges, range.1 ≤ c ∧ c < range.1 + range.2 := by
  simp only [taken, Bool.or_eq_true, decide_eq_true_eq, List.any_eq_true, beq_iff_eq, bitmapOf, mem_groupsOf, or_assoc,
    exists_exists_and_eq_and, descCluster_groupOf]

theorem taken_of_levels (u v : Nat → Nat) (ranges : List (Nat × Nat)) (c : Nat) :
    taken s (bitmapOf s u).groups ranges c = taken s (bitmapOf s v).groups ranges c := by
  rw [Bool.eq_iff_iff, taken_iff, taken_iff]

theorem taken_append (groups : List AllocGroup) (ranges : List (Nat × Nat)) (range : Nat × Nat) (c : Nat) :
    taken s groups (ranges ++ [range]) c =
      (taken s groups ranges c || decide (range.1 ≤ c ∧ c < range.1 + range.2)) := by
  simp [taken, Bool.or_assoc]

structure Level (s : Geometry) (u : Nat → Nat) (ranges : List (Nat × Nat)) : Prop where
  fits : Fits s u
  taken : ∀ i < s.nr_cluster_groups, ∀ j < bitsOf s i,
    taken s (bitmapOf s u).groups ranges (startOf s i + j) = decide (j < u i)
  inside : ∀ range ∈ ranges, 0 < range.2 ∧ range.1 + range.2 ≤ s.volume_size_in_clusters
  apart : ranges.Pairwise fun a b => a.1 + a.2 ≤ b.1 ∨ b.1 + b.2 ≤ a.1
  superblock : ∀ range ∈ ranges, s.first_cluster_group ≤ range.1
  descriptors : ∀ range ∈ ranges, ∀ i < s.nr_cluster_groups,
    ¬(range.1 ≤ descOf s i ∧ descOf s i < range.1 + range.2)

theorem Level.initial (room : s.first_cluster_group < s.volume_size_in_clusters) : Level s (initialUsed s) [] := by
  have first := s.first_cluster_group_bounds
  have groups := s.clusters_eq
  have fits : Fits s (initialUsed s) := by
    intro i
    refine ⟨by rw [initialUsed]; split <;> omega, ?_⟩
    by_cases more : 1 < s.nr_cluster_groups
    · exact initialUsed_le s more i
    · have tail := s.tail_group_bits_bounds
      have bits := bitsOf_bounds s i
      obtain one : s.nr_cluster_groups = 1 := by omega
      have whole := groups.2
      rw [one, Nat.sub_self, Nat.zero_mul, Nat.zero_add] at whole
      rw [initialUsed]
      split
      next zero =>
        rw [zero, bitsOf_zero]
        omega
      next => omega
  refine ⟨fits, fun i lt j j_lt => ?_, by simp, List.Pairwise.nil, by simp, by simp⟩
  have bits := bitsOf_bounds s i
  rw [Bool.eq_iff_iff, taken_iff, decide_eq_true_eq]
  simp only [List.not_mem_nil, false_and, exists_false, or_false]
  by_cases zero : i = 0
  · subst zero
    have start : startOf s 0 = 0 := Nat.zero_mul _
    rw [start, Nat.zero_add, initialUsed, if_pos rfl]
    constructor
    · rintro (low | ⟨k, k_lt, eq⟩)
      · omega
      · rw [descOf] at eq
        split at eq
        · omega
        next pos =>
          have same := startOf_inj (by omega) s.global_cpg_bounds.1 (show startOf s 0 + j = startOf s k + 0 by omega)
          omega
    · intro low
      by_cases desc : j = s.first_cluster_group
      · exact Or.inr ⟨0, groups.1, desc⟩
      · omega
  · have large := s.cpg_of_many lt zero
    have far : s.global_cpg ≤ startOf s i := Nat.le_mul_of_pos_left _ (by omega)
    rw [initialUsed_of_pos s zero]
    constructor
    · rintro (low | ⟨k, k_lt, eq⟩)
      · omega
      · rw [descOf] at eq
        split at eq
        · omega
        next pos =>
          have same := startOf_inj (by omega) s.global_cpg_bounds.1 (show startOf s i + j = startOf s k + 0 by omega)
          omega
    · intro low
      exact Or.inr ⟨i, lt, by rw [descOf, if_neg zero]; omega⟩

theorem Level.step {u : Nat → Nat} {ranges : List (Nat × Nat)} {k n : Nat} (level : Level s u ranges)
    (inside : k < s.nr_cluster_groups) (enough : u k + n ≤ bitsOf s k) (pos : 0 < n) :
    Level s (raise u k n) (ranges ++ [(startOf s k + u k, n)]) := by
  have bits := bitsOf_bounds s k
  have fresh : ∀ c, startOf s k + u k ≤ c → c < startOf s k + u k + n →
      ¬(c < s.first_cluster_group ∨ (∃ i < s.nr_cluster_groups, c = descOf s i) ∨
        ∃ range ∈ ranges, range.1 ≤ c ∧ c < range.1 + range.2) := by
    intro c low high
    have free := level.taken k inside (c - startOf s k) (by omega)
    rw [Nat.add_sub_cancel' (by omega), decide_eq_false (by omega)] at free
    rw [← taken_iff u ranges c, free]
    exact Bool.false_ne_true
  refine ⟨level.fits.raise enough, fun i lt j j_lt => ?_, ?_, ?_, ?_, ?_⟩
  · have bits_i := bitsOf_bounds s i
    rw [taken_append, taken_of_levels _ u, level.taken i lt j j_lt, ← Bool.decide_or, decide_eq_decide, raise]
    by_cases same : k = i
    · subst same
      rw [if_pos rfl]
      omega
    · rw [if_neg same, Nat.add_zero]
      -- a cluster of another group is not in the range
      refine or_iff_left fun within => same ?_
      exact (startOf_inj (by omega) (show j < s.global_cpg by omega) (Nat.add_sub_cancel' (by omega))).1
  · intro range mem
    rcases List.mem_append.mp mem with old | new
    · exact level.inside range old
    · rw [List.mem_singleton.mp new]
      have le := startOf_add_bitsOf_le inside
      exact ⟨pos, by simp only; omega⟩
  · refine List.pairwise_append.mpr ⟨level.apart, List.pairwise_singleton _ _, fun range old new mem => ?_⟩
    rw [List.mem_singleton.mp mem]
    have positive := level.inside range old
    by_contra meet
    push Not at meet
    -- the larger of the two starts would be in both ranges
    refine fresh (max range.1 (startOf s k + u k)) (Nat.le_max_right ..) (by omega) (Or.inr (Or.inr ⟨range, old, ?_⟩))
    omega
  · intro range mem
    rcases List.mem_append.mp mem with old | new
    · exact level.superblock range old
    · rw [List.mem_singleton.mp new]
      exact Nat.le_of_not_lt fun low => fresh _ le_rfl (by omega) (Or.inl low)
  · intro range mem i lt
    rcases List.mem_append.mp mem with old | new
    · exact level.descriptors range old i lt
    · rw [List.mem_singleton.mp new]
      rintro ⟨low, high⟩
      exact fresh _ low high (Or.inr (Or.inl ⟨i, lt, rfl⟩))

end Levels

end Ocfs2.Mkfs
