import Ocfs2.Libocfs2.ExtentRecount

set_option autoImplicit false

namespace Ocfs2.ExtentTree

open Extents (ExtentRec ExtentList recClusters)

variable {σ : Type}

def Sane (fs_blocks : Nat) (blocks : Blocks) : Nat → Nat → Nat → ExtentList → Prop
  | 0, lo, hi, el => LeafFits lo hi el ∧ SpareEmpty el
  | depth + 1, lo, hi, el => (NodeFits (depth + 1) lo hi el ∧ SpareEmpty el) ∧ ∀ rec ∈ used el,
      (rec.e_int_clusters ≠ 0 ∧ 2 ≤ rec.e_blkno ∧ rec.e_blkno ≤ fs_blocks) ∧
      ∃ eb, blocks rec.e_blkno = some eb ∧ eb.h_blkno = rec.e_blkno ∧
        Sane fs_blocks blocks depth rec.e_cpos (rec.e_cpos + rec.e_int_clusters) eb.h_list

def SaneRec (fs_blocks : Nat) (blocks : Blocks) (depth : Nat) (rec : ExtentRec) : Prop :=
  (rec.e_int_clusters ≠ 0 ∧ 2 ≤ rec.e_blkno ∧ rec.e_blkno ≤ fs_blocks) ∧
  ∃ eb, blocks rec.e_blkno = some eb ∧ eb.h_blkno = rec.e_blkno ∧
    Sane fs_blocks blocks depth rec.e_cpos (rec.e_cpos + rec.e_int_clusters) eb.h_list

def blocksBelow (blocks : Blocks) : Nat → ExtentList → List Nat
  | 0, _ => []
  | depth + 1, el => (used el).flatMap fun rec =>
      rec.e_blkno :: (blocks rec.e_blkno).elim [] fun eb => blocksBelow blocks depth eb.h_list

def blocksOf (blocks : Blocks) (depth : Nat) (rec : ExtentRec) : List Nat :=
  rec.e_blkno :: (blocks rec.e_blkno).elim [] fun eb => blocksBelow blocks depth eb.h_list

variable {rec : ExtentRec} {depth : Nat} {el : ExtentList} {func : Func σ} {ctxt : Context σ}

theorem blocksOf_eq {blocks : Blocks} (depth : Nat) {eb : ExtentBlock}
    (stored : blocks rec.e_blkno = some eb) :
    blocksOf blocks depth rec = rec.e_blkno :: blocksBelow blocks depth eb.h_list := by
  rw [blocksOf, stored]
  rfl

theorem Sane.fields {fs_blocks : Nat} {blocks : Blocks} {lo hi : Nat}
    (sane : Sane fs_blocks blocks depth lo hi el) : el.l_tree_depth = depth ∧ el.l_next_free_rec ≤ el.l_count := by
  cases depth with
  | zero => exact ⟨sane.1.leaf.depth, sane.1.leaf.used⟩
  | succ depth => exact ⟨sane.1.1.depth, sane.1.1.fits⟩

def Image (func : Func σ) (before after : Blocks) : Nat → ExtentList → ExtentList → Prop
  | 0, el, el' => LeafOut func el el'
  | depth + 1, el, el' => List.Forall₂ (fun rec rec' => rec'.e_blkno = rec.e_blkno ∧
      ∃ eb eb', before rec.e_blkno = some eb ∧ after rec.e_blkno = some eb' ∧ eb'.h_blkno = eb.h_blkno ∧
        Image func before after depth eb.h_list eb'.h_list) (used el) (used el')

def ChildImage (func : Func σ) (before after : Blocks) (depth : Nat) (rec rec' : ExtentRec) : Prop :=
  rec'.e_blkno = rec.e_blkno ∧
  ∃ eb eb', before rec.e_blkno = some eb ∧ after rec.e_blkno = some eb' ∧ eb'.h_blkno = eb.h_blkno ∧
    Image func before after depth eb.h_list eb'.h_list

theorem ChildImage.self {before after : Blocks} {rec' : ExtentRec}
    (image : ChildImage func before after depth rec rec') : ChildImage func before after depth rec rec :=
  ⟨rfl, image.2⟩

theorem forall₂_childImage_self {before after : Blocks} {recs recs' : List ExtentRec}
    (images : List.Forall₂ (ChildImage func before after depth) recs recs') :
    List.Forall₂ (ChildImage func before after depth) recs recs := by
  induction images with
  | nil => exact .nil
  | cons image _ ih => exact .cons image.self ih

theorem Image.congr {before after later : Blocks} {el' : ExtentList}
    (image : Image func before after depth el el')
    (same : ∀ blkno ∈ blocksBelow before depth el, later blkno = after blkno) :
    Image func before later depth el el' := by
  induction depth generalizing el el' with
  | zero => exact image
  | succ depth ih =>
    simp only [Image, List.forall₂_iff_get] at image ⊢
    refine ⟨image.1, fun i inside inside' => ?_⟩
    obtain ⟨named, eb, eb', stored, stored', same_blkno, deeper⟩ := image.2 i inside inside'
    have own : ∀ blkno ∈ blocksOf before depth ((used el).get ⟨i, inside⟩), later blkno = after blkno :=
      fun blkno mem => same blkno (List.mem_flatMap.mpr ⟨_, List.get_mem _ _, mem⟩)
    rw [blocksOf_eq depth stored] at own
    exact ⟨named, eb, eb', stored, (own _ (by simp)).trans stored', same_blkno,
      ih deeper fun blkno mem => own blkno (by simp [mem])⟩

theorem ChildImage.congr {before after later : Blocks} {rec' : ExtentRec}
    (image : ChildImage func before after depth rec rec')
    (same : ∀ blkno ∈ blocksOf before depth rec, later blkno = after blkno) :
    ChildImage func before later depth rec rec' := by
  obtain ⟨named, eb, eb', stored, stored', same_blkno, deeper⟩ := image
  rw [blocksOf_eq depth stored] at same
  exact ⟨named, eb, eb', stored, (same _ (by simp)).trans stored', same_blkno,
    deeper.congr fun blkno mem => same blkno (by simp [mem])⟩

def lastBlkno (leaves : List ExtentBlock) : Option Nat := leaves.getLast?.map (·.h_blkno)

def LastOf (blocks : Blocks) (ctxt ctxt' : Context σ) (hi : Nat) : Nat → ExtentList → Prop
  | 0, _ => ctxt'.last_eb_blkno = ctxt.last_eb_blkno ∧ ctxt'.last_eb_cpos = ctxt.last_eb_cpos
  | depth + 1, el =>
    ctxt'.last_eb_cpos ≤ hi ∧ lastBlkno (leavesBelow blocks depth (used el)) = some ctxt'.last_eb_blkno

structure Walks (func : Func σ) (blocks : Blocks) (depth hi : Nat) (el : ExtentList) (ctxt : Context σ)
    (out : Context σ × Iret × ExtentList) : Prop where
  goes_on : out.2.1.stops = false
  frame : ∀ blkno ∉ blocksBelow blocks depth el, out.1.blocks blkno = ctxt.blocks blkno
  image : Image func blocks out.1.blocks depth el out.2.2
  still : out.2.1.changed = false → Image func blocks out.1.blocks depth el el
  last : LastOf blocks ctxt out.1 hi depth el

structure WalksRec (func : Func σ) (blocks : Blocks) (depth : Nat) (rec : ExtentRec) (ctxt : Context σ)
    (out : Context σ × Iret × ExtentRec) : Prop where
  goes_on : out.2.1.stops = false
  frame : ∀ blkno ∉ blocksOf blocks depth rec, out.1.blocks blkno = ctxt.blocks blkno
  child : ChildImage func blocks out.1.blocks depth rec out.2.2
  clusters : out.2.2.e_int_clusters ≠ 0
  cpos : out.1.last_eb_cpos ≤ rec.e_cpos + rec.e_int_clusters
  last : lastBlkno (leavesBelow blocks depth [rec]) = some out.1.last_eb_blkno

def WalksLists (walk : Walk σ) (blocks : Blocks) (depth : Nat) : Prop :=
  ∀ ref ctxt el lo hi, Sane walk.fs_blocks blocks depth lo hi el → (blocksBelow blocks depth el).Nodup →
    (∀ blkno ∈ blocksBelow blocks depth el, ctxt.blocks blkno = blocks blkno) → ctxt.last_eb_cpos ≤ lo →
    Walks walk.func blocks depth hi el ctxt (extentIterateEl walk depth ref ctxt el)

variable {walk : Walk σ} {blocks : Blocks}

structure SameRec (rec rec' : ExtentRec) : Prop where
  blkno : rec'.e_blkno = rec.e_blkno
  cpos : rec'.e_cpos = rec.e_cpos
  clusters : rec'.e_int_clusters ≠ 0

theorem Context.call_node (obliging : Obliging walk.func) (ctxt : Context σ) {rec' : ExtentRec}
    (same : SameRec rec rec') (depth ref i : Nat) :
    (ctxt.call walk.func rec' (depth + 1) ref i).2.1.stops = false ∧
      SameRec rec (ctxt.call walk.func rec' (depth + 1) ref i).2.2 := by
  obtain ⟨clusters, blkno, cpos⟩ := obliging.above ctxt.priv_data rec' (depth + 1) ctxt.ccount ref i (by simp) same.clusters
  exact ⟨obliging.goes_on _ _ _ _ _ _, blkno.trans same.blkno, cpos.trans same.cpos, clusters⟩

theorem iterateBlock_walks (lists : WalksLists walk blocks depth) {rec' : ExtentRec}
    (sane : SaneRec walk.fs_blocks blocks depth rec) (distinct : (blocksOf blocks depth rec).Nodup)
    (same : SameRec rec rec')
    (agree : ∀ blkno ∈ blocksOf blocks depth rec, ctxt.blocks blkno = blocks blkno)
    (starts : ctxt.last_eb_cpos ≤ rec.e_cpos) {iret : Iret} (goes_on : iret.stops = false) :
    ∃ ctxt' iret' eb, iterateBlock walk (extentIterateEl walk depth) depth ctxt iret rec' = (ctxt', iret') ∧
      iret'.stops = false ∧ (∀ blkno ∉ blocksOf blocks depth rec, ctxt'.blocks blkno = ctxt.blocks blkno) ∧
      blocks rec.e_blkno = some eb ∧ eb.h_blkno = rec.e_blkno ∧
      ChildImage walk.func blocks ctxt'.blocks depth rec rec' ∧
      LastOf blocks ctxt ctxt' (rec.e_cpos + rec.e_int_clusters) depth eb.h_list := by
  obtain ⟨⟨-, low, high⟩, eb, stored, number, below⟩ := sane
  rw [blocksOf_eq depth stored] at agree distinct ⊢
  obtain ⟨outside, inner⟩ := List.nodup_cons.mp distinct
  have range : ¬ (rec'.e_blkno < 2 ∨ walk.fs_blocks < rec'.e_blkno) := by
    rw [same.blkno]
    omega
  have found : ctxt.blocks rec'.e_blkno = some eb := by
    rw [same.blkno, agree _ (by simp), stored]
  have counted := below.fields.2
  have matching : ¬ (eb.h_list.l_tree_depth ≠ depth ∨ eb.h_blkno ≠ rec'.e_blkno) := by
    simp [below.fields.1, number, same.blkno]
  have walks := lists rec'.e_blkno { ctxt with errcode := none } eb.h_list _ _ below inner
    (fun blkno mem => agree blkno (by simp [mem])) starts
  simp only [iterateBlock, if_neg range, found, if_neg (Nat.not_lt.mpr counted), if_neg matching]
  revert walks
  generalize extentIterateEl walk depth rec'.e_blkno { ctxt with errcode := none } eb.h_list = out
  intro walks
  have quiet : (iret.or { out.2.1 with changed := false }).stops = false := by
    rw [Iret.or_stops, goes_on]
    exact walks.goes_on
  by_cases changed : out.2.1.changed = true
  · rw [if_pos changed]
    refine ⟨_, _, eb, rfl, quiet, fun blkno away => ?_, stored, number,
      ⟨same.blkno, eb, { eb with h_list := out.2.2 }, stored, ?_, rfl, ?_⟩, ?_⟩
    · have elsewhere : blkno ≠ rec.e_blkno := fun equal => away (by simp [equal])
      rw [same.blkno]
      refine (Function.update_of_ne elsewhere _ _).trans ?_
      exact walks.frame blkno fun mem => away (by simp [mem])
    · rw [same.blkno]
      exact Function.update_self _ _ _
    · -- the block itself is not below the list
      refine walks.image.congr fun blkno mem => Function.update_of_ne ?_ _ _
      rintro rfl
      exact outside (same.blkno ▸ mem)
    · cases depth with
      | zero => exact walks.last
      | succ depth => exact walks.last
  · rw [if_neg changed]
    refine ⟨_, _, eb, rfl, quiet, fun blkno away => ?_, stored, number, ⟨same.blkno, eb, eb, stored, ?_, rfl, ?_⟩, ?_⟩
    · exact walks.frame blkno fun mem => away (by simp [mem])
    · rw [walks.frame _ outside, ← same.blkno]
      exact found
    · exact walks.still (by simpa using changed)
    · cases depth with
      | zero => exact walks.last
      | succ depth => exact walks.last

theorem extentIterateEb_walks (obliging : Obliging walk.func) (lists : WalksLists walk blocks depth) (sane : SaneRec walk.fs_blocks blocks depth rec) (distinct : (blocksOf blocks depth rec).Nodup) (agree : ∀ blkno ∈ blocksOf blocks depth rec, ctxt.blocks blkno = blocks blkno)
    (starts : ctxt.last_eb_cpos ≤ rec.e_cpos) (ref i : Nat) :
    ∃ ctxt' iret rec' eb,
      extentIterateEb walk (extentIterateEl walk depth) (depth + 1) ref ctxt i rec = (ctxt', iret, rec') ∧
      iret.stops = false ∧ (∀ blkno ∉ blocksOf blocks depth rec, ctxt'.blocks blkno = ctxt.blocks blkno) ∧
      SameRec rec rec' ∧ blocks rec.e_blkno = some eb ∧ eb.h_blkno = rec.e_blkno ∧
      ChildImage walk.func blocks ctxt'.blocks depth rec rec' ∧
      LastOf blocks ctxt ctxt' (rec.e_cpos + rec.e_int_clusters) depth eb.h_list := by
  have own : SameRec rec rec := ⟨rfl, rfl, sane.1.1⟩
  obtain ⟨first, shown, tree, quiet, same⟩ : ∃ first, (if (walk.depth_traverse || walk.data_only) = true
      then (ctxt, Iret.none, rec) else ctxt.call walk.func rec (depth + 1) ref i) = first ∧
      SameTree ctxt first.1 ∧ first.2.1.stops = false ∧ SameRec rec first.2.2 := by
    refine ⟨_, rfl, ?_⟩
    split_ifs
    · exact ⟨⟨rfl, rfl, rfl⟩, rfl, own⟩
    · exact ⟨ctxt.call_same _ _ _ _ _, Context.call_node obliging ctxt own depth ref i⟩
  have nonzero : first.2.2.e_blkno ≠ 0 := by
    have low := sane.1.2.1
    rw [same.blkno]
    omega
  have running : first.2.1.abort = false := by
    simp only [Iret.stops, Bool.or_eq_false_iff] at quiet
    exact quiet.1
  obtain ⟨ctxt', iret', eb, run, goes_on, frame, stored, number, image, last⟩ :=
    iterateBlock_walks lists sane distinct same (fun blkno mem => (congrFun tree.blocks blkno).trans (agree blkno mem))
      (tree.cpos ▸ starts) quiet
  have last' : LastOf blocks ctxt ctxt' (rec.e_cpos + rec.e_int_clusters) depth eb.h_list := by
    cases depth with
    | zero => exact ⟨last.1.trans tree.blkno, last.2.trans tree.cpos⟩
    | succ depth => exact last
  have frame' : ∀ blkno ∉ blocksOf blocks depth rec, ctxt'.blocks blkno = ctxt.blocks blkno := by
    intro blkno away
    rw [frame blkno away, tree.blocks]
  simp only [extentIterateEb, shown]
  rw [if_neg (by simp [nonzero, running])]
  simp only [Nat.add_sub_cancel, run]
  split_ifs
  · -- the callback comes last when the tree is walked depth first
    obtain ⟨calm, same'⟩ := Context.call_node obliging ctxt' same depth ref i
    refine ⟨_, _, _, eb, rfl, calm, frame', same', stored, number, ⟨same'.blkno, image.2⟩, ?_⟩
    cases depth with
    | zero => exact last'
    | succ depth => exact last'
  · exact ⟨_, _, _, eb, rfl, goes_on, frame', same, stored, number, image, last'⟩

theorem leavesBelow_single (depth : Nat) {eb : ExtentBlock} (stored : blocks rec.e_blkno = some eb) :
    leavesBelow blocks depth [rec] = leavesUnder blocks depth eb := by
  rw [leavesBelow_cons depth [] stored]
  simp [leavesBelow]

theorem iterateNodeRec_walks (obliging : Obliging walk.func) (lists : WalksLists walk blocks depth) (sane : SaneRec walk.fs_blocks blocks depth rec) (distinct : (blocksOf blocks depth rec).Nodup) (agree : ∀ blkno ∈ blocksOf blocks depth rec, ctxt.blocks blkno = blocks blkno)
    (starts : ctxt.last_eb_cpos ≤ rec.e_cpos) (ref i : Nat) :
    WalksRec walk.func blocks depth rec ctxt
      (iterateNodeRec walk (extentIterateEl walk depth) (depth + 1) ref ctxt i rec) := by
  obtain ⟨ctxt', iret, rec', eb, run, goes_on, frame, same, stored, number, image, last⟩ :=
    extentIterateEb_walks obliging lists sane distinct agree starts ref i
  have leaves := leavesBelow_single depth stored
  simp only [iterateNodeRec, run]
  cases depth with
  | zero =>
    have taken : rec'.e_int_clusters ≠ 0 ∧ ctxt'.last_eb_cpos ≤ rec'.e_cpos :=
      ⟨same.clusters, by rw [last.2, same.cpos]; exact starts⟩
    rw [if_pos taken]
    refine ⟨goes_on, frame, image, same.clusters, ?_, ?_⟩
    · rw [same.cpos]
      exact Nat.le_add_right _ _
    · simp [leaves, leavesUnder, lastBlkno, number, same.blkno]
  | succ depth =>
    have deeper : lastBlkno (leavesUnder blocks (depth + 1) eb) = some ctxt'.last_eb_blkno := last.2
    split_ifs with taken above
    · omega
    · refine ⟨goes_on, frame, image, same.clusters, ?_, leaves ▸ deeper⟩
      rw [same.cpos]
      exact Nat.le_add_right _ _
    · exact ⟨goes_on, frame, image, same.clusters, last.1, leaves ▸ deeper⟩

theorem lastBlkno_append {front back : List ExtentBlock} {blkno : Nat} (last : lastBlkno back = some blkno) :
    lastBlkno (front ++ back) = some blkno := by
  rw [lastBlkno, Option.map_eq_some_iff] at last
  obtain ⟨eb, final, rfl⟩ := last
  simp [lastBlkno, List.getLast?_append, final]

theorem iterateRecs_node (obliging : Obliging walk.func) (lists : WalksLists walk blocks depth) (ref : Nat)
    (ctxt : Context σ) (iret : Iret) (goes_on : iret.stops = false) (i : Nat) {lo hi : Nat} (recs : List ExtentRec)
    (spans : Spans lo hi recs) (sane : ∀ rec ∈ recs, SaneRec walk.fs_blocks blocks depth rec)
    (distinct : (recs.flatMap (blocksOf blocks depth)).Nodup)
    (agree : ∀ blkno ∈ recs.flatMap (blocksOf blocks depth), ctxt.blocks blkno = blocks blkno)
    (starts : ctxt.last_eb_cpos ≤ lo) :
    ∃ ctxt' iret' recs',
      iterateRecs (iterateNodeRec walk (extentIterateEl walk depth) (depth + 1) ref) ctxt iret i recs =
        (ctxt', iret', recs') ∧ iret'.stops = false ∧
      (∀ blkno ∉ recs.flatMap (blocksOf blocks depth), ctxt'.blocks blkno = ctxt.blocks blkno) ∧
      List.Forall₂ (ChildImage walk.func blocks ctxt'.blocks depth) recs recs' ∧
      (∀ rec ∈ recs', rec.e_int_clusters ≠ 0) ∧ ctxt'.last_eb_cpos ≤ hi ∧
      (recs ≠ [] → lastBlkno (leavesBelow blocks depth recs) = some ctxt'.last_eb_blkno) := by
  induction recs generalizing ctxt iret i lo with
  | nil => exact ⟨ctxt, iret, [], rfl, goes_on, by simp, .nil, by simp, spans ▸ starts, by simp⟩
  | cons rec rest ih =>
    obtain ⟨rfl, rest_spans⟩ := spans
    obtain ⟨here, others⟩ := List.forall_mem_cons.mp sane
    rw [List.flatMap_cons] at distinct agree ⊢
    obtain ⟨own, later, apart⟩ := List.nodup_append.mp distinct
    have step := iterateNodeRec_walks obliging lists here own (fun blkno mem => agree blkno (by simp [mem])) starts ref i
    revert step
    rw [iterateRecs]
    generalize iterateNodeRec walk (extentIterateEl walk depth) (depth + 1) ref ctxt i rec = out
    intro step
    have stops : (iret.or out.2.1).stops = false := by
      rw [Iret.or_stops, goes_on, step.goes_on]
      rfl
    have untouched : ∀ blkno ∈ rest.flatMap (blocksOf blocks depth), out.1.blocks blkno = blocks blkno := by
      intro blkno mem
      rw [step.frame blkno fun mine => apart blkno mine blkno mem rfl]
      exact agree blkno (List.mem_append_right _ mem)
    obtain ⟨ctxt', iret', recs', run, goes_on', frame, images, clusters, cpos, last⟩ :=
      ih out.1 (iret.or out.2.1) stops (i + 1) rest_spans others later untouched step.cpos
    simp only [stops, Bool.false_eq_true, if_false, run]
    refine ⟨ctxt', iret', _, rfl, goes_on', fun blkno away => ?_, .cons ?_ images, ?_, cpos, fun _ => ?_⟩
    · rw [List.mem_append, not_or] at away
      rw [frame blkno away.2, step.frame blkno away.1]
    · exact step.child.congr fun blkno mem => frame blkno fun other => apart blkno mem blkno other rfl
    · exact List.forall_mem_cons.mpr ⟨step.clusters, clusters⟩
    · cases rest with
      | nil =>
        obtain rfl : ctxt' = out.1 := (congrArg Prod.fst run).symm
        simpa [leavesBelow] using step.last
      | cons other rest => exact lastBlkno_append (last (by simp))

theorem used_replaced {recs : List ExtentRec} (length : recs.length = el.l_next_free_rec) :
    used { el with l_recs := recs ++ el.l_recs.drop el.l_next_free_rec } = recs := by
  simp [used, ← length]

theorem extentIterateEl_walks (obliging : Obliging walk.func) (reports : Reports walk.func) (depth : Nat) :
    WalksLists walk blocks depth := by
  induction depth with
  | zero =>
    intro ref ctxt el lo hi sane _ _ _
    obtain ⟨ctxt', iret, el', run, same, goes_on, image, still⟩ :=
      extentIterateEl_leaf obliging reports ref ctxt sane.1.leaf sane.2
    rw [run]
    refine ⟨goes_on, fun blkno _ => congrFun same.blocks blkno, image, fun unchanged => ?_, same.blkno, same.cpos⟩
    exact still unchanged ▸ image
  | succ depth lists =>
    intro ref ctxt el lo hi sane distinct agree starts
    obtain ⟨⟨node, spare⟩, children⟩ := sane
    obtain ⟨top, less, spans⟩ := node.spans
    obtain ⟨ctxt', iret', recs', run, goes_on, frame, images, clusters, cpos, last⟩ :=
      iterateRecs_node obliging lists ref ctxt .none rfl 0 (used el) spans children distinct agree starts
    have length : recs'.length = el.l_next_free_rec := images.length_eq.symm.trans node.used_length
    have counted : recount { el with l_recs := recs' ++ el.l_recs.drop el.l_next_free_rec } =
        { el with l_recs := recs' ++ el.l_recs.drop el.l_next_free_rec } := by
      have full := node.length
      have fits := node.fits
      refine recount_full rfl ?_ (fun rec mem => ?_) spare length.symm
      · simp [length]
        omega
      · simpa [recClusters, node.depth] using clusters rec mem
    have nonempty : used el ≠ [] := by
      intro nothing
      have size := node.used_length
      rw [nothing] at size
      exact node.nonempty size.symm
    rw [extentIterateEl, run]
    simp only [afterLoop, counted, ite_self]
    refine ⟨goes_on, frame, ?_, fun _ => ?_, cpos.trans less, last nonempty⟩
    · rw [Image, used_replaced length]
      exact images
    · exact forall₂_childImage_self images

end Ocfs2.ExtentTree
