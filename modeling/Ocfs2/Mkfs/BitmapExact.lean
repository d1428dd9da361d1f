import Ocfs2.Mkfs.BitmapLevel

set_option autoImplicit false

namespace Ocfs2.Mkfs

open ByteBuffer

variable (s : Geometry)

def freeClusters (bitmap : AllocBitmap) (ranges : List (Nat × Nat)) (gd : GroupDesc) : Nat :=
  countTrue (fun j => !taken s bitmap.groups ranges (groupStart s gd + j)) gd.bg_bits

def chainGroups (bitmap : AllocBitmap) (c : Nat) : List AllocGroup := bitmap.groups.filter fun group => group.gd.bg_chain = c

structure Exact (bitmap : AllocBitmap) (ranges : List (Nat × Nat)) : Prop where
  covered : ∀ c < s.volume_size_in_clusters, ∃! i : Nat, ∃ group : AllocGroup, bitmap.groups[i]? = some group ∧
    groupStart s group.gd ≤ c ∧ c < groupStart s group.gd + group.gd.bg_bits
  bounded : ∀ group ∈ bitmap.groups, groupStart s group.gd + group.gd.bg_bits ≤ s.volume_size_in_clusters
  inside : ∀ range ∈ ranges, range.1 + range.2 ≤ s.volume_size_in_clusters
  apart : ranges.Pairwise fun a b => a.1 + a.2 ≤ b.1 ∨ b.1 + b.2 ≤ a.1
  superblock : ∀ range ∈ ranges, s.first_cluster_group ≤ range.1
  descriptors : ∀ range ∈ ranges, ∀ group ∈ bitmap.groups,
    ¬(range.1 ≤ descCluster s group.gd ∧ descCluster s group.gd < range.1 + range.2)
  bits : ∀ group ∈ bitmap.groups, ∀ j < group.gd.bg_bits,
    bit group.gd.bg_bitmap j = taken s bitmap.groups ranges (groupStart s group.gd + j)
  free : ∀ group ∈ bitmap.groups, group.gd.bg_free_bits_count = freeClusters s bitmap ranges group.gd
  chained : ∀ group ∈ bitmap.groups, group.gd.bg_chain < bitmap.num_chains
  chains : ∀ c < bitmap.num_chains, ∃ head, bitmap.groups[c]? = some head ∧
    head.chain_free = ((chainGroups bitmap c).map fun group => group.gd.bg_free_bits_count).sum ∧
    head.chain_total = ((chainGroups bitmap c).map fun group => group.gd.bg_bits).sum
  used : bitmap.bi.used_bits = countTrue (taken s bitmap.groups ranges) s.volume_size_in_clusters
  total : bitmap.bi.total_bits = s.volume_size_in_clusters
  refused : ∀ num_bits, 0 < num_bits → allocFromBitmap s num_bits bitmap = none →
    ∀ group ∈ bitmap.groups, freeClusters s bitmap ranges group.gd < num_bits

def toBytes (range : Nat × Nat) : Nat × Nat := (range.1 <<< s.cluster_size_bits, range.2 <<< s.cluster_size_bits)

variable {s}

section Counts

theorem countTrue_lt (used n : Nat) (le : used ≤ n) : countTrue (fun j => decide (j < used)) n = used := by
  obtain ⟨k, rfl⟩ := Nat.exists_eq_add_of_le le
  have first : countTrue (fun j => decide (j < used)) used = used := by
    rw [countTrue, Nat.count_iff_forall]
    intro j lt
    exact decide_eq_true lt
  have rest : countTrue (fun j => decide (used + j < used)) k = 0 := by
    rw [countTrue, Nat.count_iff_forall_not]
    intro j _
    simp
  rw [countTrue_add, first, rest, Nat.add_zero]

theorem countTrue_ge (used n : Nat) (le : used ≤ n) : countTrue (fun j => !decide (j < used)) n = n - used := by
  obtain ⟨k, rfl⟩ := Nat.exists_eq_add_of_le le
  have first : countTrue (fun j => !decide (j < used)) used = 0 := by
    rw [countTrue, Nat.count_iff_forall_not]
    intro j lt
    simp [lt]
  have rest : countTrue (fun j => !decide (used + j < used)) k = k := by
    rw [countTrue, Nat.count_iff_forall]
    intro j _
    simp
  rw [countTrue_add, first, rest]
  omega

theorem countTrue_groups (f : Nat → Bool) (n : Nat) (le : n ≤ s.nr_cluster_groups) :
    countTrue f (∑ i ∈ Finset.range n, bitsOf s i) =
      ∑ i ∈ Finset.range n, countTrue (fun j => f (startOf s i + j)) (bitsOf s i) := by
  induction n with
  | zero => rfl
  | succ n ih => rw [Finset.sum_range_succ, Finset.sum_range_succ, countTrue_add, ih (by omega), sum_bitsOf s le]

theorem sum_chainGroups (n : Nat) (u : Nat → Nat) (c : Nat) (f : AllocGroup → Nat) :
    (((groupsOf s n u).filter fun group => group.gd.bg_chain = c).map f).sum =
      chainSum s n c fun i => f (groupOf s n u i) := by
  have all : ∀ m, ((((List.range m).map (groupOf s n u)).filter fun group => group.gd.bg_chain = c).map f).sum =
      chainSum s m c fun i => f (groupOf s n u i) := by
    intro m
    induction m with
    | zero => rfl
    | succ m ih =>
      rw [chainSum_succ, ← ih, List.range_succ, List.map_append, List.filter_append, List.map_append, List.sum_append]
      congr 1
      by_cases chain : m % s.recs_per_inode = c <;> simp [groupOf, chain]
  exact all n

end Counts

theorem exists_group {c : Nat} (lt : c < s.volume_size_in_clusters) :
    ∃ i < s.nr_cluster_groups, startOf s i ≤ c ∧ c < startOf s i + bitsOf s i := by
  have cpg := s.global_cpg_bounds
  obtain ⟨groups, whole⟩ := s.clusters_eq
  have tail := s.tail_group_bits_bounds
  have split := Nat.div_add_mod' c s.global_cpg
  have rest := Nat.mod_lt c cpg.1
  have inside : c / s.global_cpg < s.nr_cluster_groups := by
    refine Nat.div_lt_of_lt_mul ?_
    obtain ⟨n, eq⟩ : ∃ n, s.nr_cluster_groups = n + 1 := ⟨s.nr_cluster_groups - 1, by omega⟩
    rw [eq, Nat.add_sub_cancel] at whole
    rw [eq, Nat.mul_succ, Nat.mul_comm]
    omega
  refine ⟨c / s.global_cpg, inside, by rw [startOf]; omega, ?_⟩
  rw [bitsOf, startOf]
  split
  next last =>
    have eq : s.nr_cluster_groups - 1 = c / s.global_cpg := by omega
    rw [eq] at whole
    omega
  next => omega

theorem Level.free {u : Nat → Nat} {ranges : List (Nat × Nat)} (level : Level s u ranges) {i : Nat}
    (lt : i < s.nr_cluster_groups) :
    freeClusters s (bitmapOf s u) ranges (groupOf s s.nr_cluster_groups u i).gd = freeOf s u i := by
  rw [freeClusters, groupStart_groupOf _ lt, freeOf_le s (level.fits i).2, ← countTrue_ge _ _ (level.fits i).2]
  refine countTrue_congr _ _ _ fun j j_lt => ?_
  rw [level.taken i lt j j_lt]

theorem Level.exact {u : Nat → Nat} {ranges : List (Nat × Nat)} (level : Level s u ranges) :
    Exact s (bitmapOf s u) ranges where
  covered := by
    intro c lt
    obtain ⟨i, inside, low, high⟩ := exists_group lt
    refine ⟨i, ⟨groupOf s s.nr_cluster_groups u i, ?_, ?_⟩, ?_⟩
    · rw [bitmapOf, getElem?_groupsOf, if_pos inside]
    · rw [groupStart_groupOf _ inside]
      exact ⟨low, high⟩
    · rintro k ⟨group, at_k, low_k, high_k⟩
      rw [bitmapOf, getElem?_groupsOf] at at_k
      split at at_k
      next k_lt =>
        cases at_k
        rw [groupStart_groupOf _ k_lt] at low_k high_k
        have bits := bitsOf_bounds s i
        have bits_k := bitsOf_bounds s k
        have bits_eq : (groupOf s s.nr_cluster_groups u k).gd.bg_bits = bitsOf s k := rfl
        exact (startOf_inj (show c - startOf s k < s.global_cpg by omega) (show c - startOf s i < s.global_cpg by omega)
          (by omega)).1
      next => cases at_k
  bounded := by
    intro group mem
    obtain ⟨i, lt, rfl⟩ := mem_groupsOf.mp mem
    rw [groupStart_groupOf _ lt]
    exact startOf_add_bitsOf_le lt
  inside := fun range mem => (level.inside range mem).2
  apart := level.apart
  superblock := level.superblock
  descriptors := by
    intro range mem group in_groups
    obtain ⟨i, lt, rfl⟩ := mem_groupsOf.mp in_groups
    rw [descCluster_groupOf]
    exact level.descriptors range mem i lt
  bits := by
    intro group mem j j_lt
    obtain ⟨i, lt, rfl⟩ := mem_groupsOf.mp mem
    have bounds := bitsOf_bounds s i
    have cpg := s.global_cpg_eq
    have fits := level.fits i
    rw [groupStart_groupOf _ lt, level.taken i lt j j_lt]
    exact bit_ones _ _ (by simp only [Geometry.maxBits] at cpg; omega) j
  free := by
    intro group mem
    obtain ⟨i, lt, rfl⟩ := mem_groupsOf.mp mem
    rw [level.free lt]
    rfl
  chained := by
    intro group mem
    obtain ⟨i, lt, rfl⟩ := mem_groupsOf.mp mem
    have recs := s.recs_per_inode_bounds
    exact lt_min (lt_of_le_of_lt (Nat.mod_le i _) lt) (Nat.mod_lt i (by omega))
  chains := by
    intro c lt
    obtain ⟨inside, head⟩ := lt_min_iff.mp lt
    refine ⟨groupOf s s.nr_cluster_groups u c, by rw [bitmapOf, getElem?_groupsOf, if_pos inside], ?_, ?_⟩
    · rw [chainGroups, bitmapOf, sum_chainGroups]
      exact if_pos head
    · rw [chainGroups, bitmapOf, sum_chainGroups]
      exact if_pos head
  used := by
    have levels : (bitmapOf s u).bi.used_bits = ∑ i ∈ Finset.range s.nr_cluster_groups, u i := rfl
    rw [levels, ← sum_bitsOf_all s, countTrue_groups _ _ le_rfl]
    refine Finset.sum_congr rfl fun i mem => ?_
    rw [Finset.mem_range] at mem
    rw [← countTrue_lt _ _ (level.fits i).2]
    exact (countTrue_congr _ _ _ fun j j_lt => level.taken i mem j j_lt).symm
  total := rfl
  refused := by
    intro num_bits pos missing group mem
    obtain ⟨i, lt, rfl⟩ := mem_groupsOf.mp mem
    rw [level.free lt]
    rcases allocFromBitmap_correct level.fits pos with ⟨-, short⟩ | ⟨k, -, -, found⟩
    · exact short i lt
    · rw [missing] at found
      cases found

theorem allocAll_level (requests : List Nat) :
    ∀ u ranges results bitmap, Level s u ranges → (∀ n ∈ requests, 0 < n) →
      allocAll s requests (bitmapOf s u) = some (results, bitmap) →
      ∃ v new, bitmap = bitmapOf s v ∧ Level s v (ranges ++ new) ∧ results = new.map (toBytes s) ∧
        new.map Prod.snd = requests := by
  induction requests with
  | nil =>
    intro u ranges results bitmap level _ run
    cases run
    exact ⟨u, [], rfl, by simpa using level, rfl, rfl⟩
  | cons n requests ih =>
    intro u ranges results bitmap level positive run
    have pos := positive n List.mem_cons_self
    rcases allocFromBitmap_correct level.fits pos with ⟨missing, -⟩ | ⟨k, inside, enough, found⟩
    · rw [allocAll, missing] at run
      cases run
    · rw [allocAll, found] at run
      simp only [bind, Option.bind] at run
      split at run
      next => cases run
      next result later =>
        cases run
        obtain ⟨v, new, bitmap, level', bytes, sizes⟩ := ih _ _ _ _ (level.step inside enough pos)
          (fun m mem => positive m (List.mem_cons_of_mem n mem)) later
        refine ⟨v, (startOf s k + u k, n) :: new, bitmap, ?_, by rw [bytes]; rfl, by rw [List.map_cons, sizes]⟩
        rwa [List.append_assoc] at level'

theorem allocFromBitmap_of_small (small : s.volume_size_in_clusters ≤ s.first_cluster_group) (n : Nat) :
    allocFromBitmap s n (bitmapOf s (initialUsed s)) = none := by
  have first := s.first_cluster_group_bounds
  have max_bits := s.maxBits_bounds
  have cpg := s.global_cpg_eq
  have clusters := s.clusters
  rcases searchChains_correct s (initialUsed s) n with ⟨missing, -⟩ | ⟨k, found, inside, -⟩
  · rw [allocFromBitmap, missing]
    rfl
  · obtain rfl : k = 0 := by
      by_contra pos
      have large := s.cpg_of_many inside pos
      omega
    have group : (bitmapOf s (initialUsed s)).groups[0]? = some (groupOf s s.nr_cluster_groups (initialUsed s) 0) := by
      rw [bitmapOf, getElem?_groupsOf, if_pos inside]
    have full : findClearBits (groupOf s s.nr_cluster_groups (initialUsed s) 0).gd.bg_bitmap
        (groupOf s s.nr_cluster_groups (initialUsed s) 0).gd.bg_bits n 0 = none := by
      refine findClearBits_full ?_ ?_
      · simp only [groupOf, bitsOf_zero, initialUsed, if_true]
        omega
      · simp only [initialUsed, if_true, Geometry.maxBits] at max_bits ⊢
        omega
    rw [allocFromBitmap, found]
    simp only [group, bind, Option.bind, full]

variable (s)

def Accepted : Prop := ∃ bitmap num_bits, initializeBitmap s = some bitmap ∧ 0 < num_bits ∧
  allocFromBitmap s num_bits bitmap ≠ none

theorem accepted_of_room (room : s.first_cluster_group + 1 < s.volume_size_in_clusters) : Accepted s := by
  have level : Level s (initialUsed s) [] := Level.initial (by omega)
  refine ⟨_, 1, initializeBitmap_correct s, Nat.one_pos, ?_⟩
  rcases allocFromBitmap_correct level.fits Nat.one_pos with ⟨-, short⟩ | ⟨k, -, -, found⟩
  · have first := s.first_cluster_group_bounds
    have max_bits := s.maxBits_bounds
    have cpg := s.global_cpg_eq
    have none := short 0 s.clusters_eq.1
    rw [freeOf_le s (level.fits 0).2, bitsOf_zero, initialUsed, if_pos rfl] at none
    omega
  · simp [found]

def twoGroups : Geometry := ⟨9, 12, 5000, by decide, by decide, by decide⟩

end Ocfs2.Mkfs
