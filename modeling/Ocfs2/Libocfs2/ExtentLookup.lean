import Ocfs2.Libocfs2.ExtentMap

set_option autoImplicit false

namespace Ocfs2.ExtentTree

open Extents (ExtentRec ExtentList recClusters)
open Effect

section Tree

variable {fs : Geometry} {v : Volume}

theorem LeafChain.next_of {blocks : Blocks} {front : List ExtentBlock} {leaf : ExtentBlock} {back : List ExtentBlock}
    (chain : LeafChain blocks (front ++ leaf :: back))
    (fits : ∀ eb ∈ back, ∃ lo hi, hi < 2 ^ 32 ∧ LeafFits lo hi eb.h_list) : Next blocks leaf.h_next_leaf_blk back := by
  rcases back with _ | ⟨eb, rest⟩
  · exact chain.last leaf (by simp)
  · obtain ⟨home, stored⟩ := chain.stored eb (by simp)
    refine ⟨(List.isChain_append_cons_cons.mp chain.next).2.1, home, stored, fits eb (by simp), fun more => ?_⟩
    refine chain.full eb ?_
    rw [show front ++ leaf :: eb :: rest = (front ++ [leaf, eb]) ++ rest by simp, List.dropLast_append_of_ne_nil more]
    simp

theorem findLeaf_correct (quiet : v.Quiet) (well : MapWellFormed fs v) (deep : v.di.i_list.l_tree_depth ≠ 0) (cpos : Nat) :
    ∃ front leaf back, (findLeaf cpos).run v = some (.ok leaf, v) ∧ Reached (leaves v) cpos front leaf back := by
  have fits := well.fits
  obtain ⟨depth, level⟩ := Nat.exists_eq_succ_of_ne_zero deep
  rw [level] at fits
  obtain ⟨path, front, leaf, back, run, last, reached⟩ := findPathFrom_correct quiet depth fits.1 fits.2 (Nat.zero_le cpos)
    (by decide)
  have path_run : (findPath cpos).run v = some (.ok path, v) := by
    rw [findPath, get_bind_run]
    simp only [level]
    exact run
  refine ⟨front, leaf, back, ?_, ?_⟩
  · have small := well.depth
    have new : newPath.run v = some (.ok (), v) := by
      rw [newPath, get_bind_run, assert_bind_run _ _ small]
      exact quiet.fallible _
    rw [findLeaf, bind_ok new, bind_ok path_run, malloc, bind_ok (quiet.fallible _), last]
    rfl
  · rw [leaves, level]
    exact reached

theorem MapWellFormed.within (well : MapWellFormed fs v) : Within 0 maxClusters (extents v) := by
  have fits := well.fits
  by_cases flat : v.di.i_list.l_tree_depth = 0
  · rw [flat] at fits
    rw [extents, if_pos flat]
    exact ⟨LeafFits.sorted fits, LeafFits.inside fits⟩
  · obtain ⟨depth, level⟩ := Nat.exists_eq_succ_of_ne_zero flat
    rw [level] at fits
    obtain ⟨top, less, spans⟩ := fits.1.spans
    rw [extents, if_neg flat, leaves, level]
    exact (Below.within fits.2 spans).mono less

theorem MapWellFormed.leaf_of (well : MapWellFormed fs v) (deep : v.di.i_list.l_tree_depth ≠ 0) {eb : ExtentBlock}
    (mem : eb ∈ leaves v) : ∃ lo hi, hi < 2 ^ 32 ∧ LeafFits lo hi eb.h_list := by
  have fits := well.fits
  obtain ⟨depth, level⟩ := Nat.exists_eq_succ_of_ne_zero deep
  rw [level] at fits
  obtain ⟨top, less, spans⟩ := fits.1.spans
  rw [leaves, level] at mem
  obtain ⟨lo, hi, bound, leaf_fits⟩ := Below.leaf_of fits.2 spans mem
  rw [maxClusters] at less
  exact ⟨lo, hi, by omega, leaf_fits⟩

theorem getClusters_correct (quiet : v.Quiet) (well : MapWellFormed fs v) {v_cluster : Nat} (low : v_cluster ≤ maxClusters) :
    ∃ found, (getClusters fs v_cluster).run v = some (.ok found, v) ∧ FoundIn fs (extents v) v_cluster found := by
  have fits := well.fits
  have physical := well.physical
  rw [getClusters, get_bind_run]
  by_cases flat : v.di.i_list.l_tree_depth = 0
  · rw [flat] at fits
    rw [extents, if_pos flat] at physical ⊢
    obtain ⟨found, run, answer⟩ := getClustersIn_correct quiet low fits (by decide) none
      (show Next v.blocks 0 [] from rfl) (by simpa [leafRecords] using LeafFits.sorted fits)
      (show ∀ rec ∈ leafRecords [], _ by simp [leafRecords]) (by simp [leafRecords]) physical
    rw [if_pos flat]
    exact ⟨found, run, by simpa [leafRecords] using answer⟩
  · obtain ⟨front, leaf, back, run, reached⟩ := findLeaf_correct quiet well flat v_cluster
    have all : leaves v = front ++ leaf :: back := reached.leaves
    have split : extents v = leafRecords front ++ (records leaf.h_list ++ leafRecords back) := by
      rw [extents, if_neg flat, all, leafRecords_append]
      exact congrArg _ List.flatMap_cons
    have sorted := well.within.sorted
    rw [split] at physical sorted ⊢
    obtain ⟨lo, hi, bound, leaf_fits⟩ := well.leaf_of flat (show leaf ∈ leaves v by simp [all])
    have next := (all ▸ well.chain flat).next_of fun eb mem => well.leaf_of flat (by simp [all, mem])
    obtain ⟨found, here, answer⟩ := getClustersIn_correct quiet low leaf_fits bound (some leaf) next
      (List.pairwise_append.mp sorted).2.1 reached.left reached.right fun rec mem => physical rec (by simp [mem])
    rw [if_neg flat, bind_ok run, check_bind_run _ _ leaf_fits.leaf.depth]
    exact ⟨found, here, answer⟩

def MapsTo (fs : Geometry) (recs : List ExtentRec) (v_blkno : Nat) (mapping : Mapping) : Prop :=
  (∃ rec ∈ recs, rec.e_cpos * fs.blocks_per_cluster ≤ v_blkno ∧
    v_blkno < (rec.e_cpos + rec.e_leaf_clusters) * fs.blocks_per_cluster ∧
    mapping.p_blkno = rec.e_blkno + (v_blkno - rec.e_cpos * fs.blocks_per_cluster) ∧
    v_blkno + mapping.ret_count = (rec.e_cpos + rec.e_leaf_clusters) * fs.blocks_per_cluster ∧
    mapping.extent_flags = rec.e_flags) ∨
  (∀ rec ∈ recs, ¬ (rec.e_cpos * fs.blocks_per_cluster ≤ v_blkno ∧
    v_blkno < (rec.e_cpos + rec.e_leaf_clusters) * fs.blocks_per_cluster)) ∧ mapping.p_blkno = 0 ∧
    ∃ n, NextStart recs (v_blkno / fs.blocks_per_cluster) n ∧ v_blkno + mapping.ret_count = n * fs.blocks_per_cluster

theorem extentMapGetBlocks_correct (quiet : v.Quiet) (well : MapWellFormed fs v) (positive : 0 < fs.blocks_per_cluster)
    (word : fs.blocks_per_cluster < 2 ^ 32) {v_blkno : Nat} (below : v_blkno < maxClusters * fs.blocks_per_cluster) :
    ∃ mapping, (extentMapGetBlocks fs v_blkno).run v = some (.ok mapping, v) ∧ MapsTo fs (extents v) v_blkno mapping := by
  have cluster : v_blkno / fs.blocks_per_cluster < maxClusters := (Nat.div_lt_iff_lt_mul positive).mpr below
  have position : fs.blocksToClusters v_blkno = v_blkno / fs.blocks_per_cluster := by
    rw [Geometry.blocksToClusters]
    rw [maxClusters] at cluster
    omega
  obtain ⟨found, run, answer⟩ := getClusters_correct quiet well cluster.le
  rw [extentMapGetBlocks, position, bind_ok run]
  refine ⟨_, rfl, ?_⟩
  have inside := well.within.inside
  have whole := Nat.div_add_mod v_blkno fs.blocks_per_cluster
  have boff := Nat.mod_lt v_blkno positive
  have count (num : Nat) (some : 0 < num) (less : num < 2 ^ 32) :
      v_blkno + (num * fs.blocks_per_cluster + 2 ^ 64 - v_blkno % fs.blocks_per_cluster) % 2 ^ 64 =
        (v_blkno / fs.blocks_per_cluster + num) * fs.blocks_per_cluster := by
    have least : fs.blocks_per_cluster ≤ num * fs.blocks_per_cluster := Nat.le_mul_of_pos_left _ some
    have most : num * fs.blocks_per_cluster < 2 ^ 32 * 2 ^ 32 := Nat.mul_lt_mul'' less word
    rw [Nat.mul_comm] at whole
    rw [Nat.add_mul, show num * fs.blocks_per_cluster + 2 ^ 64 - v_blkno % fs.blocks_per_cluster =
      num * fs.blocks_per_cluster - v_blkno % fs.blocks_per_cluster + 2 ^ 64 by omega, Nat.add_mod_right,
      Nat.mod_eq_of_lt (by omega)]
    omega
  have covers_iff (rec : ExtentRec) : rec.e_cpos * fs.blocks_per_cluster ≤ v_blkno ∧
      v_blkno < (rec.e_cpos + rec.e_leaf_clusters) * fs.blocks_per_cluster ↔
        Covers rec (v_blkno / fs.blocks_per_cluster) := by
    rw [Covers, Nat.le_div_iff_mul_le positive, Nat.div_lt_iff_lt_mul positive]
  rw [maxClusters] at cluster inside
  rcases answer with ⟨rec, mem, covered, p_cluster, sum, flags⟩ | ⟨missed, p_cluster, -, hole⟩
  · have volume := well.physical rec mem
    have top := (inside rec mem).2
    obtain ⟨start, stop⟩ := (covers_iff rec).mpr covered
    refine .inl ⟨rec, mem, start, stop, ?_, ?_, flags⟩
    · have behind := volume.behind
      have aligned : rec.e_blkno / fs.blocks_per_cluster * fs.blocks_per_cluster = rec.e_blkno :=
        Nat.div_mul_cancel (Nat.dvd_of_mod_eq_zero volume.aligned)
      have start' : rec.e_cpos * fs.blocks_per_cluster ≤ v_blkno / fs.blocks_per_cluster * fs.blocks_per_cluster :=
        Nat.mul_le_mul_right _ covered.1
      rw [Nat.mul_comm] at whole
      simp only
      rw [if_neg (by omega), p_cluster, Nat.add_mul, Nat.sub_mul, aligned]
      omega
    · rw [count _ (by have := covered.2; omega) (by omega), sum]
  · refine .inr ⟨fun rec mem => by rw [covers_iff]; exact missed rec mem, by simp [p_cluster], _, hole, ?_⟩
    refine count _ ?_ ?_
    · rcases hole with ⟨rec, -, -, later, -⟩ | ⟨-, last⟩
      · omega
      · rw [maxClusters] at last
        omega
    · rcases hole with ⟨rec, mem, start, -, -⟩ | ⟨-, last⟩
      · have := (inside rec mem).2
        omega
      · rw [maxClusters] at last
        omega

end Tree

def leftLeaf : ExtentBlock := ⟨100, 101, ⟨0, 2, 2, [zeroRec, ⟨4, 3, 20⟩]⟩⟩

def rightLeaf : ExtentBlock := ⟨101, 0, ⟨0, 2, 1, [⟨10, 5, 40⟩, zeroRec]⟩⟩

def leafyInode : Dinode := ⟨50, 8, 101, ⟨1, 3, 2, [⟨0, 10, 100⟩, ⟨10, 5, 101⟩, zeroRec]⟩⟩

def leafyVolume : Volume where
  di := leafyInode
  inode := leafyInode
  blocks := fun blkno => if blkno = 100 then some leftLeaf else if blkno = 101 then some rightLeaf else none
  free := []
  faults := []

def pairs : Geometry := ⟨2, 2⟩

theorem leafyVolume_leaves : leaves leafyVolume = [leftLeaf, rightLeaf] := rfl

theorem leafyVolume_wellFormed : MapWellFormed pairs leafyVolume := by
  have left_records : records leftLeaf.h_list = [⟨4, 3, 20⟩] := rfl
  have right_records : records rightLeaf.h_list = [⟨10, 5, 40⟩] := rfl
  have left : LeafFits 0 10 leftLeaf.h_list :=
    ⟨⟨rfl, rfl, by decide, by decide⟩, by simp [left_records], by decide, by decide⟩
  have right : LeafFits 10 15 rightLeaf.h_list :=
    ⟨⟨rfl, rfl, by decide, by decide⟩, by simp [right_records], by decide, by decide⟩
  have all : used leafyVolume.di.i_list = [⟨0, 10, 100⟩, ⟨10, 5, 101⟩] := rfl
  refine ⟨by decide, ⟨⟨rfl, rfl, by decide, by decide, 15, by decide, rfl, rfl, rfl⟩, ?_⟩, fun _ => ?_, ?_⟩
  · rw [all]
    simp only [List.forall_mem_cons]
    exact ⟨⟨by decide, leftLeaf, rfl, left⟩, ⟨by decide, rightLeaf, rfl, right⟩, by simp⟩
  · rw [leafyVolume_leaves]
    refine ⟨?_, by simp [leftLeaf, rightLeaf], by simp [rightLeaf], by simp [left_records]⟩
    simp only [List.forall_mem_cons]
    exact ⟨⟨by decide, rfl⟩, ⟨by decide, rfl⟩, by simp⟩
  · have records : extents leafyVolume = [⟨4, 3, 20⟩, ⟨10, 5, 40⟩] := rfl
    rw [records]
    simp only [List.forall_mem_cons]
    exact ⟨⟨by decide, by decide, by decide⟩, ⟨by decide, by decide, by decide⟩, by simp⟩

theorem extentMapGetBlocks_leafyVolume :
    ∃ mapping, (extentMapGetBlocks pairs 15).run leafyVolume = some (.ok mapping, leafyVolume) ∧
      MapsTo pairs (extents leafyVolume) 15 mapping :=
  extentMapGetBlocks_correct (show leafyVolume.Quiet from rfl) leafyVolume_wellFormed (by decide) (by decide) (by decide)

example : (extentMapGetBlocks pairs 15).run leafyVolume = some (.ok ⟨0, 5, 0⟩, leafyVolume) := rfl

def bareInode : Dinode := ⟨50, 0, 0, ⟨0, 1, 0, [zeroRec]⟩⟩

def bareVolume : Volume := ⟨bareInode, bareInode, fun _ => none, [], []⟩

theorem bareVolume_wellFormed : MapWellFormed pairs bareVolume := by
  have fits : LeafFits 0 maxClusters bareVolume.di.i_list :=
    ⟨⟨rfl, rfl, by decide, by decide⟩, .nil, by decide, by decide⟩
  have none : extents bareVolume = [] := rfl
  exact ⟨by decide, fits, fun deep => absurd rfl deep, by simp [none]⟩

/-- The second block of the last cluster is behind the largest position, and the count wraps around. -/
theorem extentMapGetBlocks_behind_last :
    MapWellFormed pairs bareVolume ∧ extents bareVolume = [] ∧
    (extentMapGetBlocks pairs (maxClusters * 2 + 1)).run bareVolume = some (.ok ⟨0, 2 ^ 64 - 1, 0⟩, bareVolume) :=
  ⟨bareVolume_wellFormed, rfl, rfl⟩

end Ocfs2.ExtentTree
