import Ocfs2.Libocfs2.BitmapCalls

set_option autoImplicit false

namespace Ocfs2.ClusterBitmap

open Bitmap ByteBuffer Rbtree

abbrev ClusterBitmap := Bitmap Unit Unit

def globalClusterOps : Callbacks Unit Unit := ⟨none, none⟩

structure Filesys where
  fs_clusters : Nat
  fs_clustersize : Nat

def OCFS2_MIN_CLUSTERSIZE : Nat := 4096

def OCFS2_MAX_CLUSTERSIZE : Nat := 1048576

def maxBits (fs : Filesys) : Nat := intMax - (fs.fs_clustersize - 1)

def newRegions (num_bits max_bits : Nat) : Nat → Nat → ClusterBitmap → Except Errcode ClusterBitmap
  | 0, _, _ => .error .undefined
  | fuel + 1, bitoff, bitmap =>
    if bitoff < num_bits then
      -- all the bits are compared, not those that are left
      let alloc_bits := if num_bits > max_bits then max_bits else num_bits
      -- the int sum of `ocfs2_align_total` wraps here, and no memory of the resulting size can be had
      if alloc_bits + 7 > intMax then .error .noMemory
      else
        match insertRegion globalClusterOps bitmap (allocRegion bitoff alloc_bits ()) with
        | .error e => .error e
        | .ok bitmap => newRegions num_bits max_bits fuel (bitoff + alloc_bits) bitmap
    else .ok bitmap

def clusterBitmapNew (fs : Filesys) : Except Errcode ClusterBitmap :=
  newRegions fs.fs_clusters (maxBits fs) (fs.fs_clusters + 1) 0 ⟨fs.fs_clusters, 0, .nil, ()⟩

inductive Op where
  | set (bitno : Nat)
  | clear (bitno : Nat)
  | allocRange (min len : Nat)
  | clearRange (len first_bit : Nat)
  deriving DecidableEq

def step (bitmap : ClusterBitmap) : Op → Except Errcode (ClusterBitmap × Option (Nat × Nat))
  | .set bitno => (bitmap.set bitno (setGeneric globalClusterOps)).map fun out => (out.1, none)
  | .clear bitno =>
    (bitmap.clear bitno fun bitmap bitno =>
      (clearGeneric globalClusterOps bitmap bitno).map fun out => (out.1, out.2.toInt)).map fun out => (out.1, none)
  | .allocRange min len =>
    (bitmap.allocRange (allocRangeGeneric globalClusterOps) min len).map fun out => (out.1, some out.2)
  | .clearRange len first_bit =>
    (bitmap.clearRange (clearRangeGeneric globalClusterOps) len first_bit).map fun out => (out, some (first_bit, len))

/-- A failed call leaves the bitmap as it was. A run that leaves the memory of a region has no result. -/
def run (bitmap : ClusterBitmap) : List Op → Option ClusterBitmap
  | [] => some bitmap
  | op :: ops =>
    match step bitmap op with
    | .ok (bitmap, _) => run bitmap ops
    | .error .undefined => none
    | .error _ => run bitmap ops

theorem polite : Callbacks.Polite globalClusterOps := polite_silent

theorem of_map_eq_ok {α β γ : Type} {x : Except Errcode α} {f : α → β} {g : α → γ} {b : β} {c : γ}
    (ok : (x.map fun a => (f a, g a)) = .ok (b, c)) : ∃ a, x = .ok a ∧ f a = b ∧ g a = c := by
  cases x with
  | error e => cases ok
  | ok a =>
    cases ok
    exact ⟨a, rfl, rfl, rfl⟩

section Run

variable {bitmap bitmap' : ClusterBitmap} {total : Nat} (layout : Layout total bitmap.b_regions.toList)

include layout

theorem step_kept {op : Op} {range : Option (Nat × Nat)} (ok : step bitmap op = .ok (bitmap', range)) :
    Kept total bitmap bitmap' := by
  cases op with
  | set b =>
    obtain ⟨out, call, rfl, -⟩ := of_map_eq_ok ok
    exact (set_ok layout polite call).2.1
  | clear b =>
    obtain ⟨out, call, rfl, -⟩ := of_map_eq_ok ok
    exact (clear_ok layout polite call).2.1
  | allocRange min len =>
    obtain ⟨out, call, rfl, -⟩ := of_map_eq_ok ok
    exact (allocRange_ok layout polite call).2.2.1.toKept
  | clearRange len first =>
    obtain ⟨out, call, rfl, -⟩ := of_map_eq_ok ok
    exact (clearRange_ok layout polite call).1.toKept

theorem run_kept (ops : List Op) (ok : run bitmap ops = some bitmap') : Kept total bitmap bitmap' := by
  induction ops generalizing bitmap with
  | nil =>
    cases ok
    exact ⟨rfl, layout, rfl⟩
  | cons op ops ih =>
    rw [run] at ok
    split at ok
    next next _ call =>
      have kept := step_kept layout call
      have rest := ih kept.layout ok
      exact ⟨rest.total.trans kept.total, rest.layout, rest.spans.trans kept.spans⟩
    next => cases ok
    next => exact ih layout ok

end Run

section New

def regionsUpTo (m k : Nat) : List (Region Unit) := (List.range k).map fun i => allocRegion (i * m) m ()

variable {m k : Nat}

theorem regionsUpTo_layout (pos : 0 < m) {total : Nat} (room : k * m ≤ total) : Layout total (regionsUpTo m k) where
  wf := by
    simp only [regionsUpTo, List.forall_mem_map]
    exact fun i _ => Region.wf_alloc (i * m) m () pos
  sorted := by
    rw [regionsUpTo, List.pairwise_map]
    refine List.pairwise_lt_range.imp fun {i j} less => ?_
    rw [allocRegion, allocRegion, ← Nat.succ_mul]
    exact Nat.mul_le_mul_right m less
  bound := by
    simp only [regionsUpTo, List.forall_mem_map, List.mem_range]
    intro i less
    rw [allocRegion, ← Nat.succ_mul]
    exact (Nat.mul_le_mul_right m less).trans room

theorem regionsUpTo_covered (b : Nat) : Covered (regionsUpTo m k) b ↔ b < k * m := by
  rcases Nat.eq_zero_or_pos m with rfl | pos
  · simp [Covered, regionsUpTo, Region.Covers, allocRegion]
  rw [← Nat.div_lt_iff_lt_mul pos]
  constructor
  · rintro ⟨r, mem, low, high⟩
    obtain ⟨i, less, rfl⟩ := List.mem_map.mp mem
    rw [allocRegion, ← Nat.succ_mul, ← Nat.div_lt_iff_lt_mul pos] at high
    exact (Nat.le_of_lt_succ high).trans_lt (List.mem_range.mp less)
  · intro less
    refine ⟨_, List.mem_map.mpr ⟨b / m, List.mem_range.mpr less, rfl⟩, Nat.div_mul_le_self b m, ?_⟩
    rw [allocRegion, ← Nat.succ_mul, ← Nat.div_lt_iff_lt_mul pos]
    exact Nat.lt_succ_self _

theorem regionsUpTo_clear (b : Nat) : ¬ Member (regionsUpTo m k) b := by
  rintro ⟨r, mem, -, set⟩
  obtain ⟨i, -, rfl⟩ := List.mem_map.mp mem
  rw [Region.bit_alloc] at set
  cases set

theorem newRegions_spec {n max : Nat} (size : m = if n > max then max else n) (pos : 0 < m)
    (big : n > max → intMax < max + max) (room : m + 7 ≤ intMax) (fuel k : Nat) (bitmap : ClusterBitmap)
    (total : bitmap.b_total_bits = n) (list : bitmap.b_regions.toList = regionsUpTo m k)
    (first : ∀ i < k, i * m < n) (enough : n ≤ k * m + fuel) :
    ∃ regions k', newRegions n max (fuel + 1) (k * m) bitmap = .ok { bitmap with b_regions := regions } ∧
      regions.toList = regionsUpTo m k' ∧ n ≤ k' * m ∧ ∀ i < k', i * m < n := by
  induction fuel generalizing k bitmap with
  | zero =>
    rw [newRegions, if_neg (by omega)]
    exact ⟨bitmap.b_regions, k, rfl, list, enough, first⟩
  | succ fuel ih =>
    by_cases more : k * m < n
    · have next : (k + 1) * m = k * m + m := Nat.succ_mul k m
      have layout : Layout ((k + 1) * m) bitmap.b_regions.toList := by
        rw [list]
        exact regionsUpTo_layout pos (by omega)
      have behind : ∀ r ∈ bitmap.b_regions.toList, r.br_start_bit + r.br_total_bits ≤ k * m :=
        fun r mem => (regionsUpTo_layout pos (le_refl (k * m))).bound r (list ▸ mem)
      have apart : ∀ r ∈ bitmap.b_regions.toList, intMax < r.br_total_bits + m := by
        intro r mem
        rw [list] at mem
        obtain ⟨i, less, rfl⟩ := List.mem_map.mp mem
        -- a second region is needed only where the first one has the greatest size
        have whole : m ≤ k * m := Nat.le_mul_of_pos_left m (Nat.zero_lt_of_lt (List.mem_range.mp less))
        have many : n > max := by
          by_contra few
          rw [if_neg few] at size
          omega
        rw [if_pos many] at size
        rw [allocRegion, size]
        exact big many
      obtain ⟨regions, run, list'⟩ : ∃ regions,
          insertRegion globalClusterOps bitmap (allocRegion (k * m) m ()) = .ok { bitmap with b_regions := regions } ∧
            regions.toList = bitmap.b_regions.toList ++ [allocRegion (k * m) m ()] :=
        insertRegion_last layout (Region.wf_alloc _ m () pos) (by rw [allocRegion, total]; exact more.le) behind
          (by rw [allocRegion, next]) apart
      rw [newRegions, if_pos more, ← size, if_neg (by omega), run]
      simp only [← next]
      refine ih (k + 1) { bitmap with b_regions := regions } total ?_ (fun i less => ?_) (by omega)
      · rw [list', list, regionsUpTo, regionsUpTo, List.range_succ, List.map_append, List.map_singleton]
      · rcases Nat.lt_succ_iff_lt_or_eq.mp less with less | rfl
        · exact first i less
        · exact more
    · rw [newRegions, if_neg more]
      exact ⟨bitmap.b_regions, k, rfl, list, Nat.not_lt.mp more, first⟩

theorem clusterBitmapNew_spec (fs : Filesys) (least : OCFS2_MIN_CLUSTERSIZE ≤ fs.fs_clustersize)
    (greatest : fs.fs_clustersize ≤ OCFS2_MAX_CLUSTERSIZE) :
    ∃ bitmap k m, clusterBitmapNew fs = .ok bitmap ∧ bitmap.b_total_bits = fs.fs_clusters ∧ bitmap.b_set_bits = 0 ∧
      m = min fs.fs_clusters (maxBits fs) ∧ bitmap.b_regions.toList = regionsUpTo m k ∧
      Layout (k * m) bitmap.b_regions.toList ∧ fs.fs_clusters ≤ k * m ∧ ∀ i < k, i * m < fs.fs_clusters := by
  rw [OCFS2_MIN_CLUSTERSIZE] at least
  rw [OCFS2_MAX_CLUSTERSIZE] at greatest
  have max : maxBits fs = 2 ^ 31 - fs.fs_clustersize := by
    rw [maxBits, intMax]
    omega
  rcases Nat.eq_zero_or_pos fs.fs_clusters with none | some
  · refine ⟨⟨fs.fs_clusters, 0, .nil, ()⟩, 0, _, ?_, rfl, rfl, rfl, rfl, ⟨by simp [Node.toList], by simp [Node.toList],
      by simp [Node.toList]⟩, by omega, by simp⟩
    rw [clusterBitmapNew, newRegions, if_neg (by omega)]
  · have size : min fs.fs_clusters (maxBits fs) =
        if fs.fs_clusters > maxBits fs then maxBits fs else fs.fs_clusters := by
      split <;> omega
    obtain ⟨regions, k, run, list, all, first⟩ := newRegions_spec size (by omega)
      (fun _ => by rw [max, intMax]; omega) (by rw [intMax]; omega) fs.fs_clusters 0 ⟨fs.fs_clusters, 0, .nil, ()⟩ rfl rfl
      (by simp) (by omega)
    rw [Nat.zero_mul] at run
    refine ⟨_, k, _, run, rfl, rfl, rfl, list, ?_, all, first⟩
    simp only [list]
    exact regionsUpTo_layout (by omega) le_rfl

structure Partitions (n : Nat) (bitmap : ClusterBitmap) : Prop where
  disjoint : bitmap.b_regions.toList.Pairwise fun a b => ∀ x, ¬ (a.Covers x ∧ b.Covers x)
  covered : ∀ x, Covered bitmap.b_regions.toList x ↔ x < n

def AllocatesBelow (n : Nat) (bitmap : ClusterBitmap) : Prop :=
  ∀ ops bitmap', run bitmap ops = some bitmap' → ∀ min len result first found,
    bitmap'.allocRange (allocRangeGeneric globalClusterOps) min len = .ok (result, first, found) → first + found ≤ n

theorem allocatesBelow {n total : Nat} {bitmap : ClusterBitmap} (layout : Layout total bitmap.b_regions.toList)
    (covered : ∀ x, Covered bitmap.b_regions.toList x → x < n) : AllocatesBelow n bitmap := by
  intro ops bitmap' ran min len result first found call
  have kept := run_kept layout ops ran
  obtain ⟨pos, allocated, -⟩ := allocRange_ok kept.layout polite call
  obtain ⟨br, mem, covers⟩ := allocated.region
  have enough := allocated.atLeast
  have last := covered (first + found - 1) ((kept.covered _).mp ⟨br, mem, covers _ (by omega) (by omega)⟩)
  omega

theorem disjoint_of_layout {total : Nat} {xs : List (Region Unit)} (layout : Layout total xs) :
    xs.Pairwise fun a b => ∀ x, ¬ (a.Covers x ∧ b.Covers x) := by
  refine layout.sorted.imp fun {a b} before x both => ?_
  have := both.1.2
  have := both.2.1
  omega

theorem fewest_mul_eq_iff {n max : Nat} (all : n ≤ k * min n max) (first : ∀ i < k, i * min n max < n) :
    k * min n max = n ↔ n ≤ max ∨ max ∣ n := by
  by_cases few : n ≤ max
  · rw [Nat.min_eq_left few] at all first ⊢
    refine iff_of_true (le_antisymm ?_ all) (.inl few)
    by_contra more
    have two : 1 < k := by
      by_contra one
      have := Nat.mul_le_mul_right n (Nat.not_lt.mp one)
      omega
    have := first 1 two
    omega
  · rw [Nat.min_eq_right (by omega)] at all first ⊢
    rw [or_iff_right few]
    constructor
    · exact fun whole => ⟨k, by rw [← whole, Nat.mul_comm]⟩
    · rintro ⟨c, whole⟩
      rw [Nat.mul_comm] at whole
      subst whole
      refine le_antisymm (Nat.mul_le_mul_right max ?_) all
      by_contra less
      exact Nat.lt_irrefl _ (first c (Nat.not_le.mp less))

theorem clusterBitmapNew_partitions_iff (fs : Filesys) (least : OCFS2_MIN_CLUSTERSIZE ≤ fs.fs_clustersize)
    (greatest : fs.fs_clustersize ≤ OCFS2_MAX_CLUSTERSIZE) :
    (∃ bitmap, clusterBitmapNew fs = .ok bitmap ∧ Partitions fs.fs_clusters bitmap ∧
        AllocatesBelow fs.fs_clusters bitmap) ↔
      fs.fs_clusters ≤ maxBits fs ∨ maxBits fs ∣ fs.fs_clusters := by
  obtain ⟨bitmap, k, m, run, -, -, rfl, list, layout, all, first⟩ := clusterBitmapNew_spec fs least greatest
  simp only [run, Except.ok.injEq, exists_eq_left']
  have covered (x : Nat) : Covered bitmap.b_regions.toList x ↔ x < k * min fs.fs_clusters (maxBits fs) := by
    rw [list]
    exact regionsUpTo_covered x
  rw [← fewest_mul_eq_iff all first]
  constructor
  · rintro ⟨⟨-, exactly⟩, -⟩
    refine le_antisymm ?_ all
    by_contra more
    have := (exactly fs.fs_clusters).mp ((covered _).mpr (Nat.not_le.mp more))
    omega
  · intro whole
    rw [whole] at covered
    exact ⟨⟨disjoint_of_layout layout, covered⟩, allocatesBelow layout fun x inside => (covered x).mp inside⟩

end New

section Beyond

variable {m : Nat} {bitmap : ClusterBitmap} (pos : 0 < m) (fits : m ≤ intMax) (less : m < bitmap.b_total_bits)
  (beyond : bitmap.b_total_bits < 2 * m) (list : bitmap.b_regions.toList = regionsUpTo m 2)
  (below : AllocatesBelow bitmap.b_total_bits bitmap)

include pos fits less beyond list below

theorem allocRange_first {ops : List Op} {before : ClusterBitmap} (ran : run bitmap ops = some before) {i : Nat} (inside : i < 2)
    (clear : ∀ x, i * m ≤ x → x < i * m + m → ¬ Member before.b_regions.toList x) :
    ∃ after, before.allocRange (allocRangeGeneric globalClusterOps) m m = .ok (after, 0, m) ∧
      Allocated before m m after 0 m := by
  have layout : Layout (2 * m) bitmap.b_regions.toList := list ▸ regionsUpTo_layout pos le_rfl
  have kept := run_kept layout ops ran
  have spans : before.b_regions.toList.map span = (List.range 2).map fun i => (i * m, m) := by
    rw [kept.spans, list, regionsUpTo, List.map_map]
    rfl
  have sizes : ∀ br ∈ before.b_regions.toList, ∃ i < 2, br.br_start_bit = i * m ∧ br.br_total_bits = m := by
    intro br mem
    have shape : span br ∈ before.b_regions.toList.map span := List.mem_map_of_mem mem
    rw [spans, List.mem_map] at shape
    obtain ⟨i, below, same⟩ := shape
    exact ⟨i, List.mem_range.mp below, (congrArg Prod.fst same).symm, (congrArg Prod.snd same).symm⟩
  obtain ⟨br, mem, same⟩ : ∃ br ∈ before.b_regions.toList, span br = (i * m, m) :=
    List.mem_map.mp (spans ▸ List.mem_map.mpr ⟨i, List.mem_range.mpr inside, rfl⟩)
  have start : br.br_start_bit = i * m := congrArg Prod.fst same
  have size : br.br_total_bits = m := congrArg Prod.snd same
  have range : ClearRange br 0 m := by
    refine ⟨Nat.zero_le m, size.ge, fun j _ below => Bool.eq_false_iff.mpr fun set => ?_⟩
    refine clear (br.br_start_bit + j) (by omega) (by omega) ⟨br, mem, ⟨by omega, by omega⟩, ?_⟩
    rwa [Nat.add_sub_cancel_left]
  have call : before.allocRange (allocRangeGeneric globalClusterOps) m m = allocRangeGeneric globalClusterOps before m m := by
    rw [allocRange_eq kept.layout polite pos le_rfl, if_neg (by rw [kept.total]; omega)]
  rcases got : allocRangeGeneric globalClusterOps before m m with e | ⟨after, first, found⟩
  · have := (allocRangeGeneric_error kept.layout (fun br mem => by
      obtain ⟨i, -, -, size⟩ := sizes br mem
      exact size.trans_le fits) pos got).2 br mem 0 m range
    omega
  · rw [got] at call
    obtain ⟨-, allocated, -⟩ := allocRange_ok kept.layout polite call
    obtain rfl : found = m := le_antisymm allocated.atMost allocated.atLeast
    obtain ⟨br, mem, covers⟩ := allocated.region
    have low := (covers first le_rfl (by omega)).1
    have high := (covers (first + found - 1) (by omega) (by omega)).2
    have ends := below ops before ran found found after first found call
    obtain ⟨j, small, start, size⟩ := sizes br mem
    obtain rfl : j = 0 := by
      by_contra other
      obtain rfl : j = 1 := by omega
      omega
    obtain rfl : first = 0 := by omega
    exact ⟨after, call, allocated⟩

omit below

theorem not_allocatesBelow : ¬ AllocatesBelow bitmap.b_total_bits bitmap := by
  intro below
  have clear : ∀ x, ¬ Member bitmap.b_regions.toList x := fun x => list ▸ regionsUpTo_clear x
  obtain ⟨after, call, allocated⟩ := allocRange_first pos fits less beyond list below (show run bitmap [] = _ from rfl)
    (show 0 < 2 by decide) fun x _ _ => clear x
  have ran : run bitmap [.allocRange m m] = some after := by simp only [run, step, call, Except.map]
  -- the first region is used up, so that the second call gets the other one
  obtain ⟨_, -, allocated₂⟩ := allocRange_first pos fits less beyond list below ran (show 1 < 2 by decide)
    fun x low _ member => by
      rcases (allocated.member x).mp member with old | ⟨-, high⟩
      · exact clear x old
      · omega
  exact allocated₂.clear 0 le_rfl (by omega) ((allocated.member 0).mpr (.inr ⟨le_rfl, by omega⟩))

end Beyond

theorem clusterBitmapNew_partitions_sixteen :
    ∃ bitmap, clusterBitmapNew ⟨16, 4096⟩ = .ok bitmap ∧ Partitions 16 bitmap ∧ AllocatesBelow 16 bitmap :=
  (clusterBitmapNew_partitions_iff ⟨16, 4096⟩ (by decide) (by decide)).mpr (.inl (by decide))

/-- With two clusters more than a region has bits, bits behind the last cluster can be allocated. -/
theorem clusterBitmapNew_beyond_last_cluster :
    ∃ bitmap, clusterBitmapNew ⟨2147479554, 4096⟩ = .ok bitmap ∧ ¬ Partitions 2147479554 bitmap ∧
      ¬ AllocatesBelow 2147479554 bitmap := by
  obtain ⟨bitmap, k, m, run, total, -, size, list, -, all, first⟩ :=
    clusterBitmapNew_spec ⟨2147479554, 4096⟩ (by decide) (by decide)
  have max : maxBits ⟨2147479554, 4096⟩ = 2147479552 := by decide
  rw [max] at size
  simp only at total size all first
  have two : k = 2 := by
    have least : 1 < k := by
      by_contra one
      have := Nat.mul_le_mul_right m (Nat.not_lt.mp one)
      omega
    by_contra more
    have := first 2 (by omega)
    omega
  subst two
  have below := not_allocatesBelow (by omega) (by rw [size]; decide) (by omega) (by omega) list
  rw [total] at below
  refine ⟨bitmap, run, fun partitions => ?_, below⟩
  have outside := (partitions.covered 2147479554).mp (by rw [list, regionsUpTo_covered]; omega)
  omega

end Ocfs2.ClusterBitmap
