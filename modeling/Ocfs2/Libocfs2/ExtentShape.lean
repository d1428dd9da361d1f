import Ocfs2.Libocfs2.ExtentRecords

set_option autoImplicit false

namespace Ocfs2.ExtentTree

open Extents (ExtentRec ExtentList recClusters)
open Effect

abbrev Blocks := Nat → Option ExtentBlock

def used (el : ExtentList) : List ExtentRec := el.l_recs.take el.l_next_free_rec

def Spans (lo hi : Nat) : List ExtentRec → Prop
  | [] => lo = hi
  | rec :: rest => rec.e_cpos = lo ∧ Spans (lo + rec.e_int_clusters) hi rest

structure LeafFits (lo hi : Nat) (el : ExtentList) : Prop where
  leaf : Leaf el
  sorted : (records el).Pairwise Before
  inside : ∀ rec ∈ records el, lo ≤ rec.e_cpos ∧ rec.e_cpos + rec.e_leaf_clusters ≤ hi
  zeroed : ∀ rec ∈ used el, isEmptyExtent rec → rec.e_cpos = 0

structure NodeFits (depth lo hi : Nat) (el : ExtentList) : Prop where
  depth : el.l_tree_depth = depth
  length : el.l_recs.length = el.l_count
  fits : el.l_next_free_rec ≤ el.l_count
  nonempty : el.l_next_free_rec ≠ 0
  spans : ∃ top ≤ hi, Spans lo top (used el)

def Fits (blocks : Blocks) : Nat → Nat → Nat → ExtentList → Prop
  | 0, lo, hi, el => LeafFits lo hi el
  | depth + 1, lo, hi, el => NodeFits (depth + 1) lo hi el ∧ ∀ rec ∈ used el, rec.e_blkno ≠ 0 ∧
      ∃ eb, blocks rec.e_blkno = some eb ∧ Fits blocks depth rec.e_cpos (rec.e_cpos + rec.e_int_clusters) eb.h_list

def leavesUnder (blocks : Blocks) : Nat → ExtentBlock → List ExtentBlock
  | 0, eb => [eb]
  | depth + 1, eb => (used eb.h_list).flatMap fun rec => (blocks rec.e_blkno).elim [] (leavesUnder blocks depth)

def leavesBelow (blocks : Blocks) (depth : Nat) (recs : List ExtentRec) : List ExtentBlock :=
  recs.flatMap fun rec => (blocks rec.e_blkno).elim [] (leavesUnder blocks depth)

def leafRecords (leaves : List ExtentBlock) : List ExtentRec := leaves.flatMap fun eb => records eb.h_list

variable {recs back front : List ExtentRec} {lo hi cpos depth : Nat} {rec : ExtentRec} {eb leaf : ExtentBlock}
  {blocks : Blocks} {el : ExtentList} {v : Volume}

theorem Spans.le (spans : Spans lo hi recs) : lo ≤ hi := by
  induction recs generalizing lo with
  | nil => exact Nat.le_of_eq spans
  | cons rec rest ih =>
    have := ih spans.2
    omega

theorem Spans.middle
    (spans : Spans lo hi (front ++ rec :: back)) :
    Spans lo rec.e_cpos front ∧ Spans (rec.e_cpos + rec.e_int_clusters) hi back := by
  induction front generalizing lo with
  | nil =>
    obtain ⟨rfl, rest⟩ := spans
    exact ⟨rfl, rest⟩
  | cons other front ih =>
    obtain ⟨start, rest⟩ := spans
    obtain ⟨before, after⟩ := ih rest
    exact ⟨⟨start, before⟩, after⟩

theorem Spans.inside (spans : Spans lo hi recs) (mem : rec ∈ recs) :
    lo ≤ rec.e_cpos ∧ rec.e_cpos + rec.e_int_clusters ≤ hi := by
  obtain ⟨front, back, rfl⟩ := List.append_of_mem mem
  obtain ⟨before, after⟩ := spans.middle
  exact ⟨before.le, after.le⟩

theorem Spans.le_of_missed (spans : Spans lo hi recs) (low : lo ≤ cpos)
    (missed : ∀ rec ∈ recs, ¬ (rec.e_cpos ≤ cpos ∧ cpos < rec.e_cpos + rec.e_int_clusters)) : hi ≤ cpos := by
  induction recs generalizing lo with
  | nil => exact spans ▸ low
  | cons rec rest ih =>
    obtain ⟨here, others⟩ := List.forall_mem_cons.mp missed
    obtain ⟨rfl, rest_spans⟩ := spans
    exact ih rest_spans (by omega) others

theorem leafRecords_append (front back : List ExtentBlock) :
    leafRecords (front ++ back) = leafRecords front ++ leafRecords back := List.flatMap_append

theorem leavesBelow_append (blocks : Blocks) (depth : Nat) (front back : List ExtentRec) :
    leavesBelow blocks depth (front ++ back) = leavesBelow blocks depth front ++ leavesBelow blocks depth back :=
  List.flatMap_append

theorem leavesBelow_cons (depth : Nat) (rest : List ExtentRec)
    (stored : blocks rec.e_blkno = some eb) :
    leavesBelow blocks depth (rec :: rest) = leavesUnder blocks depth eb ++ leavesBelow blocks depth rest := by
  rw [leavesBelow, List.flatMap_cons, stored]
  rfl

structure Within (lo hi : Nat) (recs : List ExtentRec) : Prop where
  sorted : recs.Pairwise Before
  inside : ∀ rec ∈ recs, lo ≤ rec.e_cpos ∧ rec.e_cpos + rec.e_leaf_clusters ≤ hi

theorem Within.append {mid : Nat} (first : Within lo mid front)
    (second : Within mid hi back) (ordered : lo ≤ mid) (ordered' : mid ≤ hi) : Within lo hi (front ++ back) := by
  constructor
  · refine List.pairwise_append.mpr ⟨first.sorted, second.sorted, fun a left b right => ?_⟩
    have ends := (first.inside a left).2
    have starts := (second.inside b right).1
    rw [Before]
    omega
  · intro rec mem
    rcases List.mem_append.mp mem with left | right
    · have := first.inside rec left
      omega
    · have := second.inside rec right
      omega

def Below (blocks : Blocks) (depth : Nat) (recs : List ExtentRec) : Prop :=
  ∀ rec ∈ recs, rec.e_blkno ≠ 0 ∧ ∃ eb, blocks rec.e_blkno = some eb ∧
    Fits blocks depth rec.e_cpos (rec.e_cpos + rec.e_int_clusters) eb.h_list

theorem within_leavesBelow (spans : Spans lo hi recs)
    (below : Below blocks depth recs)
    (each : ∀ {lo hi : Nat} {eb : ExtentBlock}, Fits blocks depth lo hi eb.h_list →
      Within lo hi (leafRecords (leavesUnder blocks depth eb))) :
    Within lo hi (leafRecords (leavesBelow blocks depth recs)) := by
  induction recs generalizing lo with
  | nil => exact ⟨.nil, by simp [leavesBelow, leafRecords]⟩
  | cons rec rest ih =>
    obtain ⟨⟨-, child, stored, fits⟩, others⟩ := List.forall_mem_cons.mp below
    obtain ⟨rfl, rest_spans⟩ := spans
    rw [leavesBelow_cons depth rest stored, leafRecords_append]
    exact (each fits).append (ih rest_spans others) (by omega) rest_spans.le

theorem Within.mono {top : Nat} (within : Within lo hi recs) (less : hi ≤ top) :
    Within lo top recs :=
  ⟨within.sorted, fun rec mem => ⟨(within.inside rec mem).1, (within.inside rec mem).2.trans less⟩⟩

theorem Fits.within_block (fits : Fits blocks depth lo hi eb.h_list) :
    Within lo hi (leafRecords (leavesUnder blocks depth eb)) := by
  induction depth generalizing lo hi eb with
  | zero => exact ⟨by simpa [leavesUnder, leafRecords] using fits.sorted, by simpa [leavesUnder, leafRecords] using fits.inside⟩
  | succ depth ih =>
    obtain ⟨top, less, spans⟩ := fits.1.spans
    exact (within_leavesBelow spans fits.2 ih).mono less

theorem Below.within (below : Below blocks depth recs)
    (spans : Spans lo hi recs) : Within lo hi (leafRecords (leavesBelow blocks depth recs)) :=
  within_leavesBelow spans below Fits.within_block

theorem Fits.leaf_of (fits : Fits blocks depth lo hi eb.h_list) (mem : leaf ∈ leavesUnder blocks depth eb) :
    ∃ lo' hi', hi' ≤ hi ∧ LeafFits lo' hi' leaf.h_list := by
  induction depth generalizing lo hi eb with
  | zero =>
    obtain rfl : leaf = eb := by simpa [leavesUnder] using mem
    exact ⟨lo, hi, le_rfl, fits⟩
  | succ depth ih =>
    obtain ⟨top, less, spans⟩ := fits.1.spans
    obtain ⟨rec, inside, under⟩ := List.mem_flatMap.mp mem
    obtain ⟨-, child, stored, below⟩ := fits.2 rec inside
    rw [stored] at under
    obtain ⟨lo', hi', bound, leaf_fits⟩ := ih below under
    exact ⟨lo', hi', bound.trans ((spans.inside inside).2.trans less), leaf_fits⟩

theorem Below.leaf_of (below : Below blocks depth recs)
    (spans : Spans lo hi recs) (mem : leaf ∈ leavesBelow blocks depth recs) :
    ∃ lo' hi', hi' ≤ hi ∧ LeafFits lo' hi' leaf.h_list := by
  obtain ⟨rec, inside, under⟩ := List.mem_flatMap.mp mem
  obtain ⟨-, child, stored, fits⟩ := below rec inside
  rw [stored] at under
  obtain ⟨lo', hi', bound, leaf_fits⟩ := fits.leaf_of under
  exact ⟨lo', hi', bound.trans (spans.inside inside).2, leaf_fits⟩

theorem getRec_of_used {i : Nat} (here : (used el)[i]? = some rec) :
    getRec el i = some rec := by
  rw [used, List.getElem?_take] at here
  split_ifs at here
  exact here

theorem NodeFits.used_length (node : NodeFits depth lo hi el) :
    (used el).length = el.l_next_free_rec := by
  have length := node.length
  have fits := node.fits
  simp [used]
  omega

theorem NodeFits.pathIndex (node : NodeFits (depth + 1) lo hi el)
    (low : lo ≤ cpos) (bound : hi < 2 ^ 32) :
    ∃ front rec back, used el = front ++ rec :: back ∧ getRec el (pathIndex el cpos) = some rec ∧ rec.e_cpos ≤ cpos ∧
      (back ≠ [] → cpos < rec.e_cpos + rec.e_int_clusters) := by
  have length := node.used_length
  obtain ⟨top, less, spans⟩ := node.spans
  have entry {front : List ExtentRec} {rec : ExtentRec} {back : List ExtentRec} (list : used el = front ++ rec :: back) :
      getRec el front.length = some rec := getRec_of_used (by simp [list])
  have ends {rec : ExtentRec} (mem : rec ∈ used el) : recEnd (depth + 1) rec = rec.e_cpos + rec.e_int_clusters := by
    have inside := (spans.inside mem).2
    exact Nat.mod_eq_of_lt (by simp only [recClusters]; simp; omega)
  rcases List.eq_nil_or_concat (used el) with none | ⟨init, last, list⟩
  · simp [none] at length
    exact absurd length.symm node.nonempty
  rw [List.concat_eq_append] at list
  have init_eq : el.l_recs.take (el.l_next_free_rec - 1) = init := by
    have size : init.length = el.l_next_free_rec - 1 := by
      rw [← length, list]
      simp
    have taken : (used el).take (el.l_next_free_rec - 1) = init := by
      rw [list, ← size]
      simp
    rw [← taken, used, List.take_take]
    congr 1
    omega
  have hit {rec : ExtentRec} (mem : rec ∈ used el) : covers (depth + 1) rec cpos = true ↔
      rec.e_cpos ≤ cpos ∧ cpos < rec.e_cpos + rec.e_int_clusters := by
    simp [covers, ends mem]
  rw [ExtentTree.pathIndex, init_eq, node.depth]
  cases found : init.findIdx? fun rec => covers (depth + 1) rec cpos with
  | none =>
    rw [List.findIdx?_eq_none_iff] at found
    have size : init.length = el.l_next_free_rec - 1 := by
      rw [← length, list]
      simp
    refine ⟨init, last, [], list, by simpa [size] using entry list, ?_, by simp⟩
    refine (list ▸ spans).middle.1.le_of_missed low fun rec mem inside => ?_
    have no := found rec mem
    rw [(hit (by simp [list, mem])).mpr inside] at no
    cases no
  | some i =>
    rw [List.findIdx?_eq_some_iff_getElem] at found
    obtain ⟨less, yes, -⟩ := found
    have shape : init = init.take i ++ init[i] :: init.drop (i + 1) := by
      rw [List.getElem_cons_drop, List.take_append_drop]
    have all : used el = init.take i ++ init[i] :: (init.drop (i + 1) ++ [last]) := by
      rw [list, ← List.cons_append, ← List.append_assoc, ← shape]
    have inside := (hit (by simp [all])).mp yes
    exact ⟨init.take i, init[i], _, all, by simpa [less.le] using entry all, inside.1, fun _ => inside.2⟩

def Volume.Quiet (v : Volume) : Prop := v.faults = []

theorem Volume.Quiet.fallible (quiet : v.Quiet) (e : Errcode) : (fallible e).run v = some (.ok (), v) := by
  rw [ExtentTree.fallible]
  simp only [show v.faults = [] from quiet]

theorem Volume.Quiet.read (quiet : v.Quiet) {blkno : Nat}
    (stored : v.blocks blkno = some eb) : (readExtentBlock blkno).run v = some (.ok eb, v) := by
  rw [readExtentBlock, bind_ok (quiet.fallible .io), get_bind_run, stored]
  rfl

structure Reached (leaves : List ExtentBlock) (cpos : Nat) (front : List ExtentBlock) (leaf : ExtentBlock)
    (back : List ExtentBlock) : Prop where
  leaves : leaves = front ++ leaf :: back
  left : ∀ rec ∈ leafRecords front, rec.e_cpos + rec.e_leaf_clusters ≤ cpos
  right : ∀ rec ∈ leafRecords back, cpos < rec.e_cpos

theorem Fits.counted (fits : Fits blocks depth lo hi el) :
    el.l_next_free_rec ≤ el.l_count := by
  cases depth with
  | zero => exact LeafFits.leaf fits |>.used
  | succ depth => exact fits.1.fits

theorem NodeFits.fromBlock (node : NodeFits (depth + 1) lo hi el) (list : used el = front ++ rec :: back)
    (below : Below blocks depth (used el)) (stored : blocks rec.e_blkno = some eb)
    (start : rec.e_cpos ≤ cpos) (stop : back ≠ [] → cpos < rec.e_cpos + rec.e_int_clusters)
    {fronts : List ExtentBlock} {backs : List ExtentBlock}
    (reached : Reached (leavesUnder blocks depth eb) cpos fronts leaf backs) :
    Reached (leavesBelow blocks depth (used el)) cpos (leavesBelow blocks depth front ++ fronts) leaf
      (backs ++ leavesBelow blocks depth back) := by
  obtain ⟨top, -, spans⟩ := node.spans
  obtain ⟨before, after⟩ := (list ▸ spans).middle
  rw [list] at below ⊢
  refine ⟨?_, ?_, ?_⟩
  · rw [leavesBelow_append, leavesBelow_cons depth back stored, reached.leaves]
    simp
  · intro other mem
    rw [leafRecords_append, List.mem_append] at mem
    rcases mem with outer | inner
    · have inside := (Below.within (fun r m => below r (by simp [m])) before).inside other outer
      omega
    · exact reached.left other inner
  · intro other mem
    rw [leafRecords_append, List.mem_append] at mem
    rcases mem with inner | outer
    · exact reached.right other inner
    · have inside := (Below.within (fun r m => below r (by simp [m])) after).inside other outer
      have some : back ≠ [] := by
        rintro rfl
        simp [leavesBelow, leafRecords] at outer
      have := stop some
      omega

theorem findPathFrom_step (quiet : v.Quiet)
    (node : NodeFits (depth + 1) lo hi el) (below : Below v.blocks depth (used el)) (low : lo ≤ cpos)
    (bound : hi < 2 ^ 32) :
    ∃ front rec back eb, used el = front ++ rec :: back ∧ v.blocks rec.e_blkno = some eb ∧
      Fits v.blocks depth rec.e_cpos (rec.e_cpos + rec.e_int_clusters) eb.h_list ∧ rec.e_cpos ≤ cpos ∧
      (back ≠ [] → cpos < rec.e_cpos + rec.e_int_clusters) ∧ rec.e_cpos + rec.e_int_clusters ≤ hi ∧
      ∀ path, (findPathFrom cpos depth eb.h_list).run v = some (.ok path, v) →
        (findPathFrom cpos (depth + 1) el).run v = some (.ok (eb :: path), v) := by
  obtain ⟨front, rec, back, list, entry, start, stop⟩ := node.pathIndex low bound
  have mem : rec ∈ used el := by simp [list]
  obtain ⟨blkno, eb, stored, fits⟩ := below rec mem
  obtain ⟨top, less, spans⟩ := node.spans
  refine ⟨front, rec, back, eb, list, stored, fits, start, stop, (spans.inside mem).2.trans less, fun path run => ?_⟩
  have deep : el.l_tree_depth ≠ 0 := by simp [node.depth]
  rw [findPathFrom, assert_bind_run _ _ deep, check_bind_run _ _ node.nonempty, entry, require_bind_run,
    check_bind_run _ _ blkno, malloc, bind_ok (quiet.fallible _), bind_ok (quiet.read stored),
    check_bind_run _ _ fits.counted, bind_ok run]
  rfl

theorem findPathFrom_correct (quiet : v.Quiet) (depth : Nat)
    (node : NodeFits (depth + 1) lo hi el) (below : Below v.blocks depth (used el)) (low : lo ≤ cpos)
    (bound : hi < 2 ^ 32) :
    ∃ path front leaf back, (findPathFrom cpos (depth + 1) el).run v = some (.ok path, v) ∧
      path.getLast? = some leaf ∧ Reached (leavesBelow v.blocks depth (used el)) cpos front leaf back := by
  induction depth generalizing lo hi el with
  | zero =>
    obtain ⟨front, rec, back, eb, list, stored, fits, start, stop, -, step⟩ := findPathFrom_step quiet node below low bound
    have bottom : (findPathFrom cpos 0 eb.h_list).run v = some (.ok [], v) := by
      rw [findPathFrom, assert_bind_run _ _ (LeafFits.leaf fits).depth]
      rfl
    have here : Reached (leavesUnder v.blocks 0 eb) cpos [] eb [] :=
      ⟨rfl, by simp [leafRecords], by simp [leafRecords]⟩
    exact ⟨[eb], _, eb, _, step [] bottom, rfl, node.fromBlock list below stored start stop here⟩
  | succ depth ih =>
    obtain ⟨front, rec, back, eb, list, stored, fits, start, stop, top, step⟩ :=
      findPathFrom_step quiet node below low bound
    obtain ⟨path, fronts, leaf, backs, run, last, reached⟩ := ih fits.1 fits.2 start (by omega)
    refine ⟨eb :: path, _, leaf, _, step path run, ?_, node.fromBlock list below stored start stop reached⟩
    rw [List.getLast?_cons, last]
    rfl

end Ocfs2.ExtentTree
