import Ocfs2.Libocfs2.ExtentShape

set_option autoImplicit false

namespace Ocfs2.ExtentTree

open Extents (ExtentRec ExtentList recClusters)
open Effect

section Model

variable (fs : Geometry)

def Geometry.blocksToClusters (blocks : Nat) : Nat := min (blocks / fs.blocks_per_cluster) (2 ^ 32 - 1)

def maxClusters : Nat := 2 ^ 32 - 1

def searchForHoleIndex (el : ExtentList) (v_cluster : Nat) : Nat := insertIndex (used el) v_cluster

def holeClusters (el : ExtentList) (i v_cluster : Nat) : Ext Nat :=
  if i = el.l_next_free_rec then return maxClusters - v_cluster
  else do
    let rec ← require (getRec el i)
    return sub32 rec.e_cpos v_cluster

def nextHoleClusters (el : ExtentList) (v_cluster : Nat) : Ext Nat :=
  let i := searchForHoleIndex el v_cluster
  if i = 0 then holeClusters el i v_cluster
  else do
    let first ← require (getRec el 0)
    check (¬ (i > 1 ∨ recClusters el.l_tree_depth first ≠ 0)) .corruptExtentBlock
    holeClusters el i v_cluster

def figureHoleClusters (el : ExtentList) (eb : Option ExtentBlock) (v_cluster : Nat) : Ext Nat :=
  let i := searchForHoleIndex el v_cluster
  let next := (eb.map ExtentBlock.h_next_leaf_blk).getD 0
  if i = el.l_next_free_rec ∧ next ≠ 0 then do
    malloc
    let next_eb ← readExtentBlock next
    -- part of the read
    check (next_eb.h_list.l_next_free_rec ≤ next_eb.h_list.l_count) .corruptExtentBlock
    nextHoleClusters next_eb.h_list v_cluster
  else holeClusters el i v_cluster

def findLeaf (cpos : Nat) : Ext ExtentBlock := do
  newPath
  let path ← findPath cpos
  malloc
  require path.getLast?

structure Found where
  p_cluster : Nat
  num_clusters : Nat
  extent_flags : Nat
  deriving DecidableEq

def getClustersIn (el : ExtentList) (eb : Option ExtentBlock) (v_cluster : Nat) : Ext Found :=
  match searchExtentList el v_cluster with
  | none => do
    let num_clusters ← figureHoleClusters el eb v_cluster
    return ⟨0, num_clusters, 0⟩
  | some i => do
    let rec ← require (getRec el i)
    assert (rec.e_cpos ≤ v_cluster)
    check (rec.e_blkno ≠ 0) .badBlkno
    let coff := sub32 v_cluster rec.e_cpos
    return ⟨add32 (fs.blocksToClusters rec.e_blkno) coff, sub32 (recClusters el.l_tree_depth rec) coff, rec.e_flags⟩

def getClusters (v_cluster : Nat) : Ext Found := do
  let root := (← get).di.i_list
  if root.l_tree_depth = 0 then getClustersIn fs root none v_cluster
  else do
    let eb ← findLeaf v_cluster
    check (eb.h_list.l_tree_depth = 0) .corruptExtentBlock
    getClustersIn fs eb.h_list (some eb) v_cluster

structure Mapping where
  p_blkno : Nat
  ret_count : Nat
  extent_flags : Nat
  deriving DecidableEq

def extentMapGetBlocks (v_blkno : Nat) : Ext Mapping := do
  let found ← getClusters fs (fs.blocksToClusters v_blkno)
  -- the mask of the source, as the blocks of a cluster are a power of two
  let boff := v_blkno % fs.blocks_per_cluster
  return {
    p_blkno := if found.p_cluster = 0 then 0 else found.p_cluster * fs.blocks_per_cluster + boff
    ret_count := (found.num_clusters * fs.blocks_per_cluster + 2 ^ 64 - boff) % 2 ^ 64
    extent_flags := found.extent_flags }

end Model

def leaves (v : Volume) : List ExtentBlock :=
  leavesBelow v.blocks (v.di.i_list.l_tree_depth - 1) (used v.di.i_list)

def extents (v : Volume) : List ExtentRec :=
  if v.di.i_list.l_tree_depth = 0 then records v.di.i_list else leafRecords (leaves v)

structure LeafChain (blocks : Blocks) (leaves : List ExtentBlock) : Prop where
  stored : ∀ eb ∈ leaves, eb.h_blkno ≠ 0 ∧ blocks eb.h_blkno = some eb
  next : leaves.IsChain fun eb eb' => eb.h_next_leaf_blk = eb'.h_blkno
  last : ∀ eb, leaves.getLast? = some eb → eb.h_next_leaf_blk = 0
  full : ∀ eb ∈ leaves.dropLast, records eb.h_list ≠ []

structure OnVolume (fs : Geometry) (rec : ExtentRec) : Prop where
  aligned : rec.e_blkno % fs.blocks_per_cluster = 0
  behind : 0 < rec.e_blkno / fs.blocks_per_cluster
  inside : rec.e_blkno / fs.blocks_per_cluster + rec.e_leaf_clusters ≤ maxClusters

structure MapWellFormed (fs : Geometry) (v : Volume) : Prop where
  depth : v.di.i_list.l_tree_depth < maxPathDepth
  fits : Fits v.blocks v.di.i_list.l_tree_depth 0 maxClusters v.di.i_list
  chain : v.di.i_list.l_tree_depth ≠ 0 → LeafChain v.blocks (leaves v)
  physical : ∀ rec ∈ extents v, OnVolume fs rec

def NextStart (recs : List ExtentRec) (v_cluster n : Nat) : Prop :=
  (∃ rec ∈ recs, rec.e_cpos = n ∧ v_cluster < n ∧ ∀ other ∈ recs, v_cluster < other.e_cpos → n ≤ other.e_cpos) ∨
    (∀ rec ∈ recs, rec.e_cpos ≤ v_cluster) ∧ n = maxClusters

def Covers (rec : ExtentRec) (v_cluster : Nat) : Prop :=
  rec.e_cpos ≤ v_cluster ∧ v_cluster < rec.e_cpos + rec.e_leaf_clusters

def FoundIn (fs : Geometry) (recs : List ExtentRec) (v_cluster : Nat) (found : Found) : Prop :=
  (∃ rec ∈ recs, Covers rec v_cluster ∧
    found.p_cluster = rec.e_blkno / fs.blocks_per_cluster + (v_cluster - rec.e_cpos) ∧
    v_cluster + found.num_clusters = rec.e_cpos + rec.e_leaf_clusters ∧ found.extent_flags = rec.e_flags) ∨
  (∀ rec ∈ recs, ¬ Covers rec v_cluster) ∧ found.p_cluster = 0 ∧ found.extent_flags = 0 ∧
    NextStart recs v_cluster (v_cluster + found.num_clusters)

section Leaf

variable {lo hi v_cluster : Nat} {el : ExtentList}

theorem mem_records {rec : ExtentRec} : rec ∈ records el ↔ rec ∈ used el ∧ ¬ isEmptyExtent rec := by
  simp [records, used]

variable (fits : LeafFits lo hi el)

include fits

theorem LeafFits.used_length : (used el).length = el.l_next_free_rec := by
  have length := fits.leaf.length
  have counted := fits.leaf.used
  simp [used]
  omega

theorem LeafFits.covers_iff (bound : hi < 2 ^ 32) {rec : ExtentRec} (mem : rec ∈ used el) :
    covers el.l_tree_depth rec v_cluster = true ↔ rec ∈ records el ∧ Covers rec v_cluster := by
  by_cases empty : isEmptyExtent rec
  · have none : rec.e_leaf_clusters = 0 := empty
    have zero := fits.zeroed rec mem empty
    simp [covers, recEnd, recClusters, fits.leaf.depth, none, zero, add32, mem_records, empty]
  · have inside := (fits.inside rec (mem_records.mpr ⟨mem, empty⟩)).2
    have ends : recEnd 0 rec = rec.e_cpos + rec.e_leaf_clusters := Nat.mod_eq_of_lt (by simp [recClusters]; omega)
    simp [covers, fits.leaf.depth, ends, mem_records, mem, empty, Covers]

theorem searchExtentList_some (bound : hi < 2 ^ 32) {i : Nat}
    (hit : searchExtentList el v_cluster = some i) : ∃ rec ∈ records el, getRec el i = some rec ∧ Covers rec v_cluster := by
  rw [searchExtentList, List.findIdx?_eq_some_iff_getElem] at hit
  obtain ⟨less, yes, -⟩ := hit
  have mem : (used el)[i] ∈ used el := List.getElem_mem less
  obtain ⟨rec_mem, covered⟩ := (fits.covers_iff bound mem).mp yes
  exact ⟨_, rec_mem, getRec_of_used (List.getElem?_eq_getElem less), covered⟩

theorem searchExtentList_none (bound : hi < 2 ^ 32)
    (missed : searchExtentList el v_cluster = none) : ∀ rec ∈ records el, ¬ Covers rec v_cluster := by
  rw [searchExtentList, List.findIdx?_eq_none_iff] at missed
  intro rec mem covered
  have no := missed rec (mem_records.mp mem).1
  rw [(fits.covers_iff bound (mem_records.mp mem).1).mpr ⟨mem, covered⟩] at no
  cases no

theorem searchForHoleIndex_cases (v_cluster : Nat) :
    searchForHoleIndex el v_cluster = el.l_next_free_rec ∧ (∀ rec ∈ used el, rec.e_cpos ≤ v_cluster) ∨
    ∃ front rec back, used el = front ++ rec :: back ∧ searchForHoleIndex el v_cluster = front.length ∧
      (∀ other ∈ front, other.e_cpos ≤ v_cluster) ∧ v_cluster < rec.e_cpos ∧ rec ∈ records el ∧
      ∀ other ∈ records el, v_cluster < other.e_cpos → rec.e_cpos ≤ other.e_cpos := by
  rw [searchForHoleIndex, insertIndex]
  cases found : (used el).findIdx? fun rec => v_cluster < rec.e_cpos with
  | none =>
    rw [List.findIdx?_eq_none_iff] at found
    exact .inl ⟨fits.used_length, fun rec mem => by simpa using found rec mem⟩
  | some i =>
    rw [List.findIdx?_eq_some_iff_getElem] at found
    obtain ⟨less, yes, early⟩ := found
    have behind : v_cluster < (used el)[i].e_cpos := by simpa using yes
    have shape : used el = (used el).take i ++ (used el)[i] :: (used el).drop (i + 1) := by
      rw [List.getElem_cons_drop, List.take_append_drop]
    have size : ((used el).take i).length = i := by simp [less.le]
    have front : ∀ other ∈ (used el).take i, other.e_cpos ≤ v_cluster := by
      intro other mem
      obtain ⟨j, small, rfl⟩ := List.mem_take_iff_getElem.mp mem
      simpa using early j (by omega)
    have full : ¬ isEmptyExtent (used el)[i] := fun empty => by
      have zero := fits.zeroed _ (List.getElem_mem less) empty
      omega
    refine .inr ⟨(used el).take i, (used el)[i], _, shape, size.symm, front, behind,
      mem_records.mpr ⟨List.getElem_mem less, full⟩, fun other mem later => ?_⟩
    have split : records el = ((used el).take i).filter (fun rec => ¬ isEmptyExtent rec) ++ (used el)[i] ::
        ((used el).drop (i + 1)).filter fun rec => ¬ isEmptyExtent rec := by
      rw [records, show el.l_recs.take el.l_next_free_rec = used el from rfl]
      nth_rewrite 1 [shape]
      rw [List.filter_append, List.filter_cons_of_pos (by simpa using full)]
    have sorted := fits.sorted
    rw [split] at sorted mem
    rcases List.mem_append.mp mem with left | right
    · have := front other (List.mem_filter.mp left).1
      omega
    · rcases List.mem_cons.mp right with rfl | right
      · exact le_rfl
      · have after := (List.pairwise_cons.mp (List.pairwise_append.mp sorted).2.1).1 other right
        rw [Before] at after
        omega

theorem LeafFits.front_cases (later : ∀ rec ∈ records el, v_cluster < rec.e_cpos)
    {front back : List ExtentRec} (list : used el = front ++ back) (early : ∀ rec ∈ front, rec.e_cpos ≤ v_cluster) :
    front = [] ∨ ∃ first, front = [first] ∧ isEmptyExtent first := by
  have empty : ∀ rec ∈ front, isEmptyExtent rec := by
    intro rec mem
    by_contra full
    have := early rec mem
    have := later rec (mem_records.mpr ⟨by simp [list, mem], full⟩)
    omega
  rcases front with _ | ⟨first, _ | ⟨second, rest⟩⟩
  · exact .inl rfl
  · exact .inr ⟨first, rfl, empty first (by simp)⟩
  · refine absurd (empty second (by simp)) (fits.leaf.full second ?_)
    rw [show el.l_recs.take el.l_next_free_rec = used el from rfl, list]
    simp

end Leaf

section Hole

variable {v : Volume} {lo hi v_cluster : Nat} {el : ExtentList}

def Next (blocks : Blocks) (next : Nat) : List ExtentBlock → Prop
  | [] => next = 0
  | eb :: rest => next = eb.h_blkno ∧ eb.h_blkno ≠ 0 ∧ blocks eb.h_blkno = some eb ∧
      (∃ lo hi, hi < 2 ^ 32 ∧ LeafFits lo hi eb.h_list) ∧ (rest ≠ [] → records eb.h_list ≠ [])

theorem sub32_of_le {a b : Nat} (less : b ≤ a) (word : a < 2 ^ 32) : sub32 a b = a - b := by
  rw [sub32]
  omega

theorem holeClusters_end (v : Volume) (el : ExtentList) (low : v_cluster ≤ maxClusters) :
    ∃ num, (holeClusters el el.l_next_free_rec v_cluster).run v = some (.ok num, v) ∧ v_cluster + num = maxClusters := by
  rw [holeClusters, if_pos rfl]
  exact ⟨_, rfl, by omega⟩

theorem holeClusters_rec (v : Volume) (fits : LeafFits lo hi el) (bound : hi < 2 ^ 32) {front back : List ExtentRec} {rec : ExtentRec}
    (list : used el = front ++ rec :: back) (mem : rec ∈ records el) (behind : v_cluster < rec.e_cpos) :
    ∃ num, (holeClusters el front.length v_cluster).run v = some (.ok num, v) ∧ v_cluster + num = rec.e_cpos := by
  have length := fits.used_length
  have inside := (fits.inside rec mem).2
  have other : front.length ≠ el.l_next_free_rec := by
    rw [← length, list]
    simp
  rw [holeClusters, if_neg other, getRec_of_used (by simp [list] : (used el)[front.length]? = some rec), require_bind_run]
  exact ⟨_, rfl, by rw [sub32_of_le (by omega) (by omega)]; omega⟩

theorem nextHoleClusters_correct (v : Volume) (low : v_cluster ≤ maxClusters) (fits : LeafFits lo hi el)
    (bound : hi < 2 ^ 32) (later : ∀ rec ∈ records el, v_cluster < rec.e_cpos) :
    ∃ num, (nextHoleClusters el v_cluster).run v = some (.ok num, v) ∧
      (records el = [] ∧ v_cluster + num = maxClusters ∨
        ∃ rec ∈ records el, v_cluster + num = rec.e_cpos ∧ ∀ other ∈ records el, rec.e_cpos ≤ other.e_cpos) := by
  -- the records before the index are the empty one, or none
  have skip (front back : List ExtentRec) (list : used el = front ++ back) (early : ∀ rec ∈ front, rec.e_cpos ≤ v_cluster)
      (index : searchForHoleIndex el v_cluster = front.length) :
      (nextHoleClusters el v_cluster).run v = (holeClusters el front.length v_cluster).run v := by
    rw [nextHoleClusters, index]
    rcases fits.front_cases later list early with rfl | ⟨first, rfl, empty⟩
    · rfl
    · have none : first.e_leaf_clusters = 0 := empty
      have clusters : recClusters el.l_tree_depth first = 0 := by simp [recClusters, fits.leaf.depth, none]
      have here : (used el)[0]? = some first := by simp [list]
      rw [List.length_singleton, if_neg one_ne_zero, getRec_of_used here, require_bind_run,
        check_bind_run _ _ (by simp [clusters])]
  rcases searchForHoleIndex_cases fits v_cluster with ⟨index, early⟩ | ⟨front, rec, back, list, index, early, behind, mem, least⟩
  · rw [skip (used el) [] (by simp) early (index.trans fits.used_length.symm), fits.used_length]
    obtain ⟨num, run, sum⟩ := holeClusters_end v el low
    refine ⟨num, run, .inl ⟨List.eq_nil_iff_forall_not_mem.mpr fun rec mem => ?_, sum⟩⟩
    have := later rec mem
    have := early rec (mem_records.mp mem).1
    omega
  · rw [skip front (rec :: back) list early index]
    obtain ⟨num, run, sum⟩ := holeClusters_rec v fits bound list mem behind
    exact ⟨num, run, .inr ⟨rec, mem, sum, fun other here => least other here (later other here)⟩⟩

variable {front back : List ExtentBlock} (quiet : v.Quiet) (low : v_cluster ≤ maxClusters) (fits : LeafFits lo hi el)
  (bound : hi < 2 ^ 32) (eb : Option ExtentBlock)
  (next : Next v.blocks ((eb.map ExtentBlock.h_next_leaf_blk).getD 0) back)
  (sorted : (records el ++ leafRecords back).Pairwise Before)
  (left : ∀ rec ∈ leafRecords front, rec.e_cpos + rec.e_leaf_clusters ≤ v_cluster)
  (right : ∀ rec ∈ leafRecords back, v_cluster < rec.e_cpos)

include quiet low fits bound eb next sorted left right

theorem figureHoleClusters_correct :
    ∃ num, (figureHoleClusters el eb v_cluster).run v = some (.ok num, v) ∧
      NextStart (leafRecords front ++ (records el ++ leafRecords back)) v_cluster (v_cluster + num) := by
  have behind {rec other : ExtentRec} (before : Before rec other) : rec.e_cpos ≤ other.e_cpos := by
    rw [Before] at before
    omega
  rw [figureHoleClusters]
  rcases searchForHoleIndex_cases fits v_cluster with ⟨index, early⟩ | ⟨skipped, rec, rest, list, index, -, later, mem, least⟩
  · rcases back with _ | ⟨next_eb, rest⟩
    · -- no leaf follows
      rw [if_neg (fun both => both.2 next), index]
      obtain ⟨num, run, sum⟩ := holeClusters_end v el low
      refine ⟨num, run, .inr ⟨fun rec mem => ?_, sum⟩⟩
      rcases List.mem_append.mp mem with before | mem
      · have := left rec before
        omega
      · exact early rec (mem_records.mp (by simpa [leafRecords] using mem)).1
    · obtain ⟨link, home, stored, ⟨lo', hi', bound', fits'⟩, full⟩ := next
      have first : ∀ rec ∈ records next_eb.h_list, v_cluster < rec.e_cpos :=
        fun rec mem => right rec (by simp [leafRecords, mem])
      obtain ⟨num, run, found⟩ := nextHoleClusters_correct v low fits' bound' first
      rw [if_pos ⟨index, by rwa [link]⟩, malloc, bind_ok (quiet.fallible _), link, bind_ok (quiet.read stored),
        check_bind_run _ _ fits'.leaf.used]
      refine ⟨num, run, ?_⟩
      have here : ∀ rec ∈ leafRecords front ++ records el, rec.e_cpos ≤ v_cluster := by
        intro rec mem
        rcases List.mem_append.mp mem with before | mem
        · have := left rec before
          omega
        · exact early rec (mem_records.mp mem).1
      rw [← List.append_assoc, show leafRecords (next_eb :: rest) = records next_eb.h_list ++ leafRecords rest from
        List.flatMap_cons]
      rcases found with ⟨none, sum⟩ | ⟨rec, mem, sum, least⟩
      · obtain rfl : rest = [] := by
          by_contra more
          exact full more none
        exact .inr ⟨by simpa [none, leafRecords] using here, sum⟩
      · refine .inl ⟨rec, by simp [mem], sum.symm, by have := first rec mem; omega, fun other others later => ?_⟩
        rw [sum]
        rcases List.mem_append.mp others with early | others
        · have := here other early
          omega
        · rcases List.mem_append.mp others with same | last
          · exact least other same
          · have after := (List.pairwise_append.mp sorted).2.1
            exact behind ((List.pairwise_append.mp after).2.2 rec mem other last)
  · -- the hole ends in this leaf
    have length := fits.used_length
    have other : searchForHoleIndex el v_cluster ≠ el.l_next_free_rec := by
      rw [index, ← length, list]
      simp
    obtain ⟨num, run, sum⟩ := holeClusters_rec v fits bound list mem later
    rw [if_neg (fun both => other both.1), index]
    refine ⟨num, run, .inl ⟨rec, by simp [mem], sum.symm, by omega, fun other others after => ?_⟩⟩
    rw [sum]
    rcases List.mem_append.mp others with before | others
    · have := left other before
      omega
    · rcases List.mem_append.mp others with same | last
      · exact least other same after
      · exact behind ((List.pairwise_append.mp sorted).2.2 rec mem other last)

theorem getClustersIn_correct {fs : Geometry} (physical : ∀ rec ∈ records el, OnVolume fs rec) :
    ∃ found, (getClustersIn fs el eb v_cluster).run v = some (.ok found, v) ∧
      FoundIn fs (leafRecords front ++ (records el ++ leafRecords back)) v_cluster found := by
  rw [getClustersIn]
  cases search : searchExtentList el v_cluster with
  | none =>
    obtain ⟨num, run, hole⟩ := figureHoleClusters_correct quiet low fits bound eb next sorted left right
    refine ⟨⟨0, num, 0⟩, by rw [bind_ok run]; rfl, .inr ⟨fun rec mem covered => ?_, rfl, rfl, hole⟩⟩
    rcases List.mem_append.mp mem with before | mem
    · have := left rec before
      have := covered.2
      omega
    · rcases List.mem_append.mp mem with here | after
      · exact searchExtentList_none fits bound search rec here covered
      · have := right rec after
        have := covered.1
        omega
  | some i =>
    obtain ⟨rec, mem, entry, covered⟩ := searchExtentList_some fits bound search
    obtain ⟨start, stop⟩ := covered
    have volume := physical rec mem
    have behind := volume.behind
    have inside := volume.inside
    have top := (fits.inside rec mem).2
    have blkno : rec.e_blkno ≠ 0 := by
      intro zero
      simp [zero] at behind
    have cluster : fs.blocksToClusters rec.e_blkno = rec.e_blkno / fs.blocks_per_cluster := by
      rw [Geometry.blocksToClusters]
      rw [maxClusters] at inside
      omega
    have coff : sub32 v_cluster rec.e_cpos = v_cluster - rec.e_cpos := sub32_of_le start (by omega)
    simp only [entry]
    rw [require_bind_run, assert_bind_run _ _ start, check_bind_run _ _ blkno]
    rw [maxClusters] at inside
    refine ⟨_, rfl, .inl ⟨rec, by simp [mem], ⟨start, stop⟩, ?_, ?_, rfl⟩⟩
    · simp only [cluster, coff, add32]
      exact Nat.mod_eq_of_lt (by omega)
    · simp only [coff, recClusters, fits.leaf.depth]
      rw [sub32_of_le (by simp; omega) (by simp; omega)]
      simp
      omega

end Hole

end Ocfs2.ExtentTree
