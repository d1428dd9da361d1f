import Ocfs2.Libocfs2.ExtentWalk
import Ocfs2.Libocfs2.ExtentLookup

set_option autoImplicit false

namespace Ocfs2.ExtentTree

open Extents (ExtentRec ExtentList recClusters)

variable {σ : Type}

def leafLists (v : Volume) : List ExtentList :=
  if v.di.i_list.l_tree_depth = 0 then [v.di.i_list] else (leaves v).map (·.h_list)

def lastLeafBlk (v : Volume) : Nat := if v.di.i_list.l_tree_depth = 0 then 0 else (lastBlkno (leaves v)).getD 0

theorem extents_eq (v : Volume) : extents v = (leafLists v).flatMap records := by
  rw [extents, leafLists]
  split_ifs
  · simp
  · rw [leafRecords, List.flatMap_map]

structure WalkWellFormed (fs_blocks : Nat) (flags : InodeFlags) (v : Volume) : Prop where
  valid : flags = ⟨true, false, false, false⟩
  sane : Sane fs_blocks v.blocks v.di.i_list.l_tree_depth 0 maxClusters v.di.i_list
  distinct : (blocksBelow v.blocks v.di.i_list.l_tree_depth v.di.i_list).Nodup
  last : v.di.i_last_eb_blk = lastLeafBlk v

def Walked.volume (walked : Walked) (v : Volume) : Volume :=
  { v with di := walked.written.getD v.di, blocks := walked.blocks }

structure KeepsRecords (func : Func σ) (v : Volume) (walked : Walked) : Prop where
  success : walked.result = .ok ()
  records : List.Forall₂ (Returned func) (extents v) (extents (walked.volume v))
  last : (walked.volume v).di.i_last_eb_blk = lastLeafBlk (walked.volume v)

theorem Image.leavesUnder {func : Func σ} {before after : Blocks} {depth : Nat} {eb eb' : ExtentBlock}
    (image : Image func before after depth eb.h_list eb'.h_list) (number : eb'.h_blkno = eb.h_blkno) :
    List.Forall₂ (fun leaf leaf' => leaf'.h_blkno = leaf.h_blkno ∧ LeafOut func leaf.h_list leaf'.h_list)
      (leavesUnder before depth eb) (leavesUnder after depth eb') := by
  induction depth generalizing eb eb' with
  | zero => exact .cons ⟨number, image⟩ .nil
  | succ depth ih =>
    refine List.rel_flatMap image ?_
    rintro rec rec' ⟨named, child, child', stored, stored', number', deeper⟩
    beta_reduce
    rw [named, stored, stored']
    exact ih deeper number'

variable {func : Func σ} {v : Volume}

theorem Image.leavesBelow {before after : Blocks} {depth : Nat} {el el' : ExtentList}
    (image : Image func before after (depth + 1) el el') :
    List.Forall₂ (fun leaf leaf' => leaf'.h_blkno = leaf.h_blkno ∧ LeafOut func leaf.h_list leaf'.h_list)
      (leavesBelow before depth (used el)) (leavesBelow after depth (used el')) :=
  @Image.leavesUnder _ _ _ _ (depth + 1) ⟨0, 0, el⟩ ⟨0, 0, el'⟩ image rfl

theorem lastBlkno_forall₂ {R : ExtentList → ExtentList → Prop} {leaves leaves' : List ExtentBlock}
    (images : List.Forall₂ (fun leaf leaf' => leaf'.h_blkno = leaf.h_blkno ∧ R leaf.h_list leaf'.h_list) leaves leaves') :
    lastBlkno leaves' = lastBlkno leaves := by
  have same : leaves'.map (·.h_blkno) = leaves.map (·.h_blkno) := by
    induction images with
    | nil => rfl
    | cons image _ ih => simp [image.1, ih]
  rw [lastBlkno, lastBlkno, ← List.getLast?_map, ← List.getLast?_map, same]

theorem extentIterateEl_depth (walk : Walk σ) (depth ref : Nat) (ctxt : Context σ) (el : ExtentList) :
    (extentIterateEl walk depth ref ctxt el).2.2.l_tree_depth = el.l_tree_depth := by
  have after (out : Context σ × Iret × List ExtentRec) : (afterLoop el out).2.2.l_tree_depth = el.l_tree_depth := by
    simp only [afterLoop, recount]
    split_ifs
    · split <;> rfl
    · rfl
  cases depth <;> exact after _

structure After (func : Func σ) (v v' : Volume) : Prop where
  lists : List.Forall₂ (LeafOut func) (leafLists v) (leafLists v')
  last : v'.di.i_last_eb_blk = lastLeafBlk v'

theorem Image.after {blocks' : Blocks} {el' : ExtentList}
    (image : Image func v.blocks blocks' v.di.i_list.l_tree_depth v.di.i_list el')
    (depth : el'.l_tree_depth = v.di.i_list.l_tree_depth) (last : v.di.i_last_eb_blk = lastLeafBlk v) :
    After func v { v with di := { v.di with i_list := el' }, blocks := blocks' } := by
  rw [lastLeafBlk] at last
  constructor
  · rw [leafLists, leafLists]
    simp only [depth, leaves]
    cases deep : v.di.i_list.l_tree_depth with
    | zero =>
      rw [deep] at image
      exact .cons image .nil
    | succ n =>
      rw [deep] at image
      exact List.forall₂_map_left_iff.mpr (List.forall₂_map_right_iff.mpr (image.leavesBelow.imp fun _ _ both => both.2))
  · rw [lastLeafBlk]
    simp only [last, depth, leaves]
    cases deep : v.di.i_list.l_tree_depth with
    | zero => rfl
    | succ n =>
      rw [deep] at image
      simp only [Nat.succ_ne_zero, if_false, Nat.add_sub_cancel]
      rw [lastBlkno_forall₂ image.leavesBelow]

theorem extentIterateInode_after {walk : Walk σ} (obliging : Obliging walk.func) (reports : Reports walk.func)
    {flags : InodeFlags} (sound : WalkWellFormed walk.fs_blocks flags v) (priv_data : σ) :
    (extentIterateInode walk flags v.blocks v.di priv_data).result = .ok () ∧
      After walk.func v ((extentIterateInode walk flags v.blocks v.di priv_data).volume v) := by
  have walks := extentIterateEl_walks obliging reports v.di.i_list.l_tree_depth 0
    ⟨v.blocks, 0, none, priv_data, 0, 0⟩ v.di.i_list 0 maxClusters sound.sane sound.distinct (fun _ _ => rfl) le_rfl
  have depth := extentIterateEl_depth walk v.di.i_list.l_tree_depth 0 ⟨v.blocks, 0, none, priv_data, 0, 0⟩ v.di.i_list
  simp only [extentIterateInode, sound.valid, Bool.not_true, Bool.or_self, Bool.false_eq_true, if_false]
  revert walks depth
  generalize extentIterateEl walk v.di.i_list.l_tree_depth 0 ⟨v.blocks, 0, none, priv_data, 0, 0⟩ v.di.i_list = out
  intro walks depth
  obtain ⟨running, fine⟩ : out.2.1.abort = false ∧ out.2.1.error = false := by
    simpa [Iret.stops] using walks.goes_on
  -- the walk finds the last leaf where the inode has it
  have found : v.di.i_last_eb_blk = out.1.last_eb_blkno := by
    have last := walks.last
    rw [sound.last, lastLeafBlk, leaves]
    cases deep : v.di.i_list.l_tree_depth with
    | zero =>
      rw [deep] at last
      exact last.1.symm
    | succ n =>
      rw [deep] at last
      simp [last.2]
  have stays : (!out.2.1.abort && v.di.i_last_eb_blk != out.1.last_eb_blkno) = false := by simp [found]
  simp only [stays, fine, Bool.or_false, Bool.false_eq_true, if_false]
  by_cases changed : out.2.1.changed = true
  · rw [if_pos changed]
    exact ⟨rfl, walks.image.after depth sound.last⟩
  · rw [if_neg changed]
    exact ⟨rfl, (walks.still (by simpa using changed)).after rfl sound.last⟩

theorem LeafOut.length {el el' : ExtentList} (out : LeafOut func el el') :
    (records el').length ≤ (records el).length ∧ (Sparse el → (records el').length < (records el).length) := by
  rcases out with ⟨sparse, none⟩ | ⟨dense, returned⟩
  · rw [none]
    exact ⟨Nat.zero_le _, fun _ => List.length_pos_iff.mpr sparse.2⟩
  · exact ⟨returned.length_eq.ge, fun sparse => absurd sparse dense⟩

theorem leafOut_length {lists lists' : List ExtentList} (outs : List.Forall₂ (LeafOut func) lists lists') :
    (lists'.flatMap records).length ≤ (lists.flatMap records).length ∧
      ((∃ el ∈ lists, Sparse el) → (lists'.flatMap records).length < (lists.flatMap records).length) := by
  induction outs with
  | nil => exact ⟨le_rfl, by simp⟩
  | cons out _ ih =>
    obtain ⟨fewer, less⟩ := out.length
    simp only [List.flatMap_cons, List.length_append]
    refine ⟨by omega, ?_⟩
    rintro ⟨el, mem, sparse⟩
    rcases List.mem_cons.mp mem with rfl | later
    · have := less sparse
      omega
    · have := ih.2 ⟨el, later, sparse⟩
      omega

theorem returned_iff_dense {lists lists' : List ExtentList} (outs : List.Forall₂ (LeafOut func) lists lists') :
    List.Forall₂ (Returned func) (lists.flatMap records) (lists'.flatMap records) ↔ ∀ el ∈ lists, ¬ Sparse el := by
  constructor
  · intro returned el mem sparse
    have less := (leafOut_length outs).2 ⟨el, mem, sparse⟩
    rw [returned.length_eq] at less
    exact lt_irrefl _ less
  · intro dense
    induction outs with
    | nil => exact .nil
    | cons out _ ih =>
      obtain ⟨here, others⟩ := List.forall_mem_cons.mp dense
      rcases out with ⟨sparse, -⟩ | ⟨-, returned⟩
      · exact absurd sparse here
      · exact List.rel_append returned (ih others)

theorem extentIterateInode_keeps_iff {walk : Walk σ} (obliging : Obliging walk.func) (reports : Reports walk.func)
    {flags : InodeFlags} {v : Volume} (sound : WalkWellFormed walk.fs_blocks flags v) (priv_data : σ) :
    KeepsRecords walk.func v (extentIterateInode walk flags v.blocks v.di priv_data) ↔
      ∀ el ∈ leafLists v, ¬ Sparse el := by
  obtain ⟨success, after⟩ := extentIterateInode_after obliging reports sound priv_data
  have each := returned_iff_dense after.lists
  rw [← extents_eq, ← extents_eq] at each
  exact ⟨fun kept => each.mp kept.records, fun dense => ⟨success, each.mpr dense, after.last⟩⟩

def touch : Func Unit := fun _ rec _ _ _ _ => ((), rec, ⟨true, false, false⟩)

theorem touch_obliging : Obliging touch where
  goes_on _ _ _ _ _ _ := rfl
  clusters _ _ _ _ _ nonempty := nonempty
  above _ _ _ _ _ _ _ nonempty := ⟨nonempty, rfl, rfl⟩

theorem touch_reports : Reports touch := fun _ _ _ _ _ => rfl

def touchAll : Walk Unit := ⟨1000, false, false, touch⟩

def plainFile : InodeFlags := ⟨true, false, false, false⟩

def denseVolume : Volume :=
  { leafyVolume with
    blocks := Function.update leafyVolume.blocks 100 (some { leftLeaf with h_list := leafOf [⟨4, 3, 20⟩] [zeroRec] }) }

theorem sane_twoLeaves {left : ExtentList} (inode : v.di = leafyInode)
    (first : v.blocks 100 = some { leftLeaf with h_list := left }) (second : v.blocks 101 = some rightLeaf)
    (fits : LeafFits 0 10 left) (spare : SpareEmpty left) : WalkWellFormed 1000 plainFile v := by
  have right : LeafFits 10 15 rightLeaf.h_list :=
    ⟨⟨rfl, rfl, by decide, by decide⟩, by simp [show records rightLeaf.h_list = [⟨10, 5, 40⟩] from rfl], by decide, by decide⟩
  have all : used leafyInode.i_list = [⟨0, 10, 100⟩, ⟨10, 5, 101⟩] := rfl
  refine ⟨rfl, ?_, ?_, ?_⟩
  · rw [inode]
    refine ⟨⟨⟨rfl, rfl, by decide, by decide, 15, by decide, rfl, rfl, rfl⟩, by unfold SpareEmpty; decide⟩, ?_⟩
    rw [all]
    simp only [List.forall_mem_cons]
    exact ⟨⟨by decide, _, first, rfl, fits, spare⟩, ⟨by decide, _, second, rfl, right, by unfold SpareEmpty; decide⟩, by simp⟩
  · rw [inode]
    show (blocksBelow v.blocks 1 leafyInode.i_list).Nodup
    rw [blocksBelow, all]
    simp [first, second, blocksBelow]
  · rw [lastLeafBlk, leaves, inode]
    show 101 = (lastBlkno (leavesBelow v.blocks 0 (used leafyInode.i_list))).getD 0
    rw [all, leavesBelow]
    simp [first, second, leavesUnder, lastBlkno, rightLeaf]

theorem denseVolume_wellFormed : WalkWellFormed touchAll.fs_blocks plainFile denseVolume := by
  have records : records (leafOf [⟨4, 3, 20⟩] [zeroRec]) = [⟨4, 3, 20⟩] := rfl
  exact sane_twoLeaves rfl rfl rfl ⟨⟨rfl, rfl, by decide, by decide⟩, by simp [records], by decide, by decide⟩
    (by unfold SpareEmpty; decide)

theorem extentIterateInode_keeps_denseVolume :
    KeepsRecords touch denseVolume (extentIterateInode touchAll plainFile denseVolume.blocks denseVolume.di ()) := by
  refine (@extentIterateInode_keeps_iff _ touchAll touch_obliging touch_reports _ _ denseVolume_wellFormed ()).mpr ?_
  have lists : leafLists denseVolume = [leafOf [⟨4, 3, 20⟩] [zeroRec], rightLeaf.h_list] := rfl
  rw [lists]
  simp only [List.forall_mem_cons]
  refine ⟨fun sparse => ?_, fun sparse => ?_, by simp⟩
  · obtain ⟨⟨rec, head, empty⟩, -⟩ := sparse
    cases head
    revert empty
    decide
  · obtain ⟨⟨rec, head, empty⟩, -⟩ := sparse
    cases head
    revert empty
    decide

theorem leafyVolume_walkWellFormed : WalkWellFormed touchAll.fs_blocks plainFile leafyVolume := by
  have left : LeafFits 0 10 leftLeaf.h_list :=
    ⟨⟨rfl, rfl, by decide, by decide⟩, by simp [show records leftLeaf.h_list = [⟨4, 3, 20⟩] from rfl], by decide, by decide⟩
  exact sane_twoLeaves rfl rfl rfl left (by unfold SpareEmpty; decide)

theorem extentIterateInode_drops_record :
    WalkWellFormed touchAll.fs_blocks plainFile leafyVolume ∧ Obliging touchAll.func ∧ Reports touchAll.func ∧
    extents leafyVolume = [⟨4, 3, 20⟩, ⟨10, 5, 40⟩] ∧
    (extentIterateInode touchAll plainFile leafyVolume.blocks leafyVolume.di ()).result = .ok () ∧
    extents ((extentIterateInode touchAll plainFile leafyVolume.blocks leafyVolume.di ()).volume leafyVolume) =
      [⟨10, 5, 40⟩] :=
  ⟨leafyVolume_walkWellFormed, touch_obliging, touch_reports, rfl, rfl, rfl⟩

end Ocfs2.ExtentTree
