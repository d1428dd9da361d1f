import Ocfs2.Libocfs2.BitmapCalls
import Ocfs2.Libocfs2.ChainSync

set_option autoImplicit false

namespace Ocfs2.ChainAlloc

open ByteBuffer Rbtree Bitmap

variable {x y : BitmapPrivate × List ChainRegion}

def essence (br : ChainRegion) : ChainRegion :=
  { br with br_private := ⟨{ br.br_private.cr_ag with bg_bitmap := [] }, false⟩ }

/-- The bits and all counts of the groups, the chains and the inode are the same. What a write marks and
copies, and the count that the bitmap itself has, are no part of this. -/
structure Restored (before after : ChainBitmap) : Prop where
  total : after.b_total_bits = before.b_total_bits
  regions : after.b_regions.toList.map essence = before.b_regions.toList.map essence
  inode : after.b_private.ci_inode = before.b_private.ci_inode

def credit (di : Dinode) (br : ChainRegion) : Dinode :=
  { di with
    cl_recs := di.cl_recs.modify br.br_private.cr_ag.bg_chain fun rec =>
      { rec with c_free := rec.c_free + BitVec.ofInt 32 br.br_set_bits }
    i_used := di.i_used - BitVec.ofInt 32 br.br_set_bits }

def reset (br : ChainRegion) : ChainRegion :=
  { br with
    br_set_bits := 0
    br_bitmap := []
    br_private := ⟨{ br.br_private.cr_ag with
      bg_free_bits_count := br.br_private.cr_ag.bg_free_bits_count + BitVec.ofInt 16 br.br_set_bits
      bg_bitmap := [] }, false⟩ }

def settled (x : BitmapPrivate × List ChainRegion) : Dinode × List ChainRegion :=
  (x.2.foldl credit x.1.ci_inode, x.2.map reset)

theorem modify_comm {α : Type} (l : List α) (i j : Nat) (f g : α → α) (comm : ∀ a, f (g a) = g (f a)) :
    (l.modify i f).modify j g = (l.modify j g).modify i f := by
  refine List.ext_getElem? fun k => ?_
  simp only [List.getElem?_modify]
  cases l[k]? with
  | none => rfl
  | some a =>
    by_cases first : i = k <;> by_cases second : j = k <;> simp [first, second, comm]

instance : RightCommutative credit where
  right_comm di a b := by
    simp only [credit, Dinode.mk.injEq, true_and]
    refine ⟨?_, ?_⟩
    · rw [BitVec.sub_eq_add_neg, BitVec.sub_eq_add_neg, BitVec.sub_eq_add_neg, BitVec.sub_eq_add_neg, BitVec.add_assoc,
        BitVec.add_assoc, BitVec.add_comm (-BitVec.ofInt 32 a.br_set_bits)]
    · refine modify_comm _ _ _ _ _ fun rec => ?_
      simp only [ChainRec.mk.injEq, and_true]
      rw [BitVec.add_assoc, BitVec.add_assoc, BitVec.add_comm (BitVec.ofInt 32 b.br_set_bits)]

theorem foldl_credit_middle (di : Dinode) (as bs : List ChainRegion) (br : ChainRegion) :
    (as ++ br :: bs).foldl credit di = (as ++ bs).foldl credit (credit di br) :=
  List.perm_middle.foldl_eq di

theorem sub_one_add_ofInt {w : Nat} (x : BitVec w) (n : Int) :
    x - 1#w + BitVec.ofInt w (n + 1) = x + BitVec.ofInt w n := by
  rw [BitVec.ofInt_add]
  grind

theorem add_one_add_ofInt {w : Nat} (x : BitVec w) (n : Int) :
    x + 1#w + BitVec.ofInt w (n - 1) = x + BitVec.ofInt w n := by
  rw [Int.sub_eq_add_neg, BitVec.ofInt_add, BitVec.ofInt_neg]
  grind

theorem credit_notify (cb : BitmapPrivate) (br : ChainRegion) (b : Nat) (value : Bool) :
    credit (bitChangeNotify cb (flipped br b value) b value).1.ci_inode
        (bitChangeNotify cb (flipped br b value) b value).2 = credit cb.ci_inode br := by
  simp only [credit, bitChangeNotify, flipped, Dinode.mk.injEq, true_and, List.modify_modify_eq]
  cases value
  · refine ⟨?_, congrArg _ (funext fun rec => ?_)⟩
    · have moved := add_one_add_ofInt (-cb.ci_inode.i_used) br.br_set_bits
      simp only [Bool.false_eq_true, if_false]
      grind
    · simp [add_one_add_ofInt]
  · refine ⟨?_, congrArg _ (funext fun rec => ?_)⟩
    · have moved := sub_one_add_ofInt (-cb.ci_inode.i_used) br.br_set_bits
      simp only [if_true]
      grind
    · simp [sub_one_add_ofInt]

theorem reset_notify (cb : BitmapPrivate) (br : ChainRegion) (b : Nat) (value : Bool) :
    reset (bitChangeNotify cb (flipped br b value) b value).2 = reset br := by
  cases value
  · simp [reset, bitChangeNotify, flipped, add_one_add_ofInt]
  · simp [reset, bitChangeNotify, flipped, sub_one_add_ofInt]

theorem flipIn_settled (flip : FlipIn chainallocBitmapOps x y) :
    settled y = settled x := by
  obtain ⟨as, br, bs, priv, br', list, ⟨b, value, -, -, result⟩, rfl⟩ := flip
  have priv_eq : priv = (bitChangeNotify x.1 (flipped br b value) b value).1 := congrArg Prod.fst result
  have br_eq : br' = (bitChangeNotify x.1 (flipped br b value) b value).2 := congrArg Prod.snd result
  rw [settled, settled, list, foldl_credit_middle, foldl_credit_middle, priv_eq, br_eq, credit_notify,
    List.map_append, List.map_append, List.map_cons, List.map_cons, reset_notify]

theorem evolves_settled (evolves : Evolves chainallocBitmapOps x y) :
    settled y = settled x := by
  induction evolves with
  | refl => rfl
  | tail _ flip ih => exact (flipIn_settled flip).trans ih

theorem settled_of_essence (regions : y.2.map essence = x.2.map essence)
    (inode : y.1.ci_inode = x.1.ci_inode) : settled y = settled x := by
  have credits (xs : List ChainRegion) (di : Dinode) : xs.foldl credit di = (xs.map essence).foldl credit di := by
    rw [List.foldl_map]
    rfl
  have resets (xs : List ChainRegion) : xs.map reset = (xs.map essence).map reset := by
    rw [List.map_map]
    rfl
  rw [settled, settled, credits y.2, credits x.2, resets y.2, resets x.2, regions, inode]

section Back

theorem member_at {total : Nat} {xs : List ChainRegion} (layout : Layout total xs) {br : ChainRegion}
    (mem : br ∈ xs) {j : Nat} (less : j < br.br_total_bits) :
    Member xs (br.br_start_bit + j) ↔ bit br.br_bitmap j = true := by
  obtain ⟨as, bs, rfl⟩ := List.append_of_mem mem
  rw [layout.member_iff _ ⟨by omega, by omega⟩, Nat.add_sub_cancel_left]

theorem credit_inj {di di' : Dinode} {br : ChainRegion} (same : credit di' br = credit di br) : di' = di := by
  have undo (di : Dinode) : credit (credit di br) { br with br_set_bits := -br.br_set_bits } = di := by
    simp only [credit, List.modify_modify_eq]
    have recs : ((fun rec : ChainRec => { rec with c_free := rec.c_free + BitVec.ofInt 32 (-br.br_set_bits) }) ∘
        fun rec => { rec with c_free := rec.c_free + BitVec.ofInt 32 br.br_set_bits }) = id := by
      funext rec
      simp [BitVec.ofInt_neg, BitVec.add_assoc, BitVec.add_right_neg]
    rw [recs, List.modify_id, BitVec.ofInt_neg, BitVec.sub_neg, BitVec.sub_add_cancel]
  rw [← undo di', same, undo]

theorem foldl_credit_inj {di di' : Dinode} (xs : List ChainRegion) (same : xs.foldl credit di' = xs.foldl credit di) :
    di' = di := by
  induction xs generalizing di di' with
  | nil => exact same
  | cons br xs ih => exact credit_inj (ih same)

theorem essence_of_reset {br br' : ChainRegion} (wf : br.Wf) (wf' : br'.Wf) (same : reset br' = reset br)
    (bits : ∀ j < br.br_total_bits, bit br'.br_bitmap j = bit br.br_bitmap j) : essence br' = essence br := by
  have total : (reset br').br_total_bits = (reset br).br_total_bits := congrArg Region.br_total_bits same
  have start : (reset br').br_start_bit = (reset br).br_start_bit := congrArg Region.br_start_bit same
  simp only [reset] at total start
  have bytes : br'.br_bitmap.length = br.br_bitmap.length := by rw [wf.bytes, wf'.bytes, total]
  have bitmap : br'.br_bitmap = br.br_bitmap := by
    refine ext_bits bytes fun j _ => ?_
    by_cases inside : j < br.br_total_bits
    · exact bits j inside
    · rw [wf.padding j (by omega), wf'.padding j (by omega)]
  have count : br'.br_set_bits = br.br_set_bits := by rw [wf.count, wf'.count, bitmap, total]
  have group : (reset br').br_private.cr_ag = (reset br).br_private.cr_ag := congrArg (·.br_private.cr_ag) same
  have free : br'.br_private.cr_ag.bg_free_bits_count = br.br_private.cr_ag.bg_free_bits_count := by
    have sum := congrArg GroupDesc.bg_free_bits_count group
    simp only [reset, count] at sum
    exact (BitVec.add_left_inj _).mp sum
  simp only [reset, GroupDesc.mk.injEq] at group
  simp only [essence, start, total, count, bitmap, free, group]

variable {before after : ChainBitmap} {total total' : Nat}

theorem Restored.member (restored : Restored before after) (x : Nat) :
    Member after.b_regions.toList x ↔ Member before.b_regions.toList x := by
  have through (xs : List ChainRegion) : Member xs x ↔ Member (xs.map essence) x := by
    simp only [Member, List.mem_map, exists_exists_and_eq_and]
    rfl
  rw [through, restored.regions, ← through]

theorem restored_iff_member (layout : Layout total before.b_regions.toList)
    (layout' : Layout total' after.b_regions.toList) (size : after.b_total_bits = before.b_total_bits)
    (same : settled (after.b_private, after.b_regions.toList) = settled (before.b_private, before.b_regions.toList)) :
    Restored before after ↔ ∀ x, Member after.b_regions.toList x ↔ Member before.b_regions.toList x := by
  refine ⟨Restored.member, fun members => ?_⟩
  have resets : after.b_regions.toList.map reset = before.b_regions.toList.map reset := congrArg Prod.snd same
  have length : after.b_regions.toList.length = before.b_regions.toList.length := by
    simpa using congrArg List.length resets
  have regions : after.b_regions.toList.map essence = before.b_regions.toList.map essence := by
    refine List.ext_getElem (by simpa using length) fun i low high => ?_
    rw [List.getElem_map, List.getElem_map]
    rw [List.length_map] at low high
    have here := congrArg (fun ys => ys[i]?) resets
    simp only [List.getElem?_map, List.getElem?_eq_getElem low, List.getElem?_eq_getElem high, Option.map_some,
      Option.some.injEq] at here
    have inside := List.getElem_mem high
    have inside' := List.getElem_mem low
    refine essence_of_reset (layout.wf _ inside) (layout'.wf _ inside') here fun j less => ?_
    have start := congrArg Region.br_start_bit here
    have total := congrArg Region.br_total_bits here
    simp only [reset] at start total
    have value := member_at layout inside less
    have value' := member_at layout' inside' (show j < _ by omega)
    rw [start] at value'
    rw [Bool.eq_iff_iff, ← value, ← value', members]
  refine ⟨size, regions, foldl_credit_inj (before.b_regions.toList.map essence) ?_⟩
  have sums : after.b_regions.toList.foldl credit after.b_private.ci_inode =
      before.b_regions.toList.foldl credit before.b_private.ci_inode := congrArg Prod.fst same
  have credits (xs : List ChainRegion) (di : Dinode) : (xs.map essence).foldl credit di = xs.foldl credit di := by
    rw [List.foldl_map]
    rfl
  rw [credits before.b_regions.toList before.b_private.ci_inode, ← sums, ← credits after.b_regions.toList, regions]

end Back

section Trees

variable {α : Type}

theorem descend_map (order : α → Ordering) (f : α → α) (same : ∀ e, order (f e) = order e) (t : Node α)
    (path path' : List (Frame α)) : (descend order (t.map f) path').1 = (descend order t path).1.map f := by
  induction t generalizing path path' with
  | nil => rfl
  | node c l e r ihl ihr =>
    simp only [Node.map, descend, same]
    cases order e with
    | lt => exact ihl _ _
    | gt => exact ihr _ _
    | eq => rfl

theorem search_map (order : α → Ordering) (f : α → α) (same : ∀ e, order (f e) = order e) (t : Node α) :
    search order (t.map f) = (search order t).map f := by
  rw [search, search, descend_map order f same t [] []]
  cases (descend order t []).1 <;> rfl

theorem map_map (f g : α → α) (t : Node α) : (t.map g).map f = t.map (f ∘ g) := by
  induction t with
  | nil => rfl
  | node c l e r ihl ihr => simp only [Node.map, ihl, ihr, Function.comp_apply]

theorem foreachRegion_map {π τ : Type} (func : τ → Region π → τ × Region π × Visit) (f : Region π → Region π)
    (keeps : ∀ data br, f (func data br).2.1 = f br) (data : τ) (t : Node (Region π)) :
    (foreachRegion func data t).2.1.map f = t.map f := by
  induction t generalizing data with
  | nil => rfl
  | node c l br r ihl ihr =>
    have left := ihl data
    rw [foreachRegion]
    revert left
    rcases foreachRegion func data l with ⟨data, l', _ | _ | e⟩ <;> intro left
    · have here := keeps data br
      revert here
      dsimp only at left ⊢
      rcases func data br with ⟨data, br', _ | _ | e⟩ <;> intro here
      · simp only [Node.map, left, ihr data, here]
      · simp only [Node.map, left, here]
      · simp only [Node.map, left, here]
    · simp only [Node.map, left]
    · simp only [Node.map, left]

end Trees

section Writes

theorem essence_writeGroup (fs : Filesys) (dev : Device) (br : ChainRegion) :
    essence (chainallocWriteGroup fs dev br).2.1 = essence br := by
  simp only [chainallocWriteGroup]
  split_ifs
  · rfl
  · rcases writeMeta fs dev _ _ with ⟨dev, e | -⟩ <;> rfl

structure Rewrote (before after : ChainBitmap) : Prop where
  total : after.b_total_bits = before.b_total_bits
  count : after.b_set_bits = before.b_set_bits
  regions : after.b_regions.map essence = before.b_regions.map essence
  inode : after.b_private.ci_inode = before.b_private.ci_inode

theorem writeBitmap_rewrote (fs : Filesys) (dev : Device) (bitmap : ChainBitmap) :
    Rewrote bitmap (chainallocWriteBitmap fs dev bitmap).2.1 := by
  have regions := foreachRegion_map (chainallocWriteGroup fs) essence (essence_writeGroup fs) dev bitmap.b_regions
  simp only [chainallocWriteBitmap]
  split_ifs
  · exact ⟨rfl, rfl, rfl, rfl⟩
  · split
    · exact ⟨rfl, rfl, regions, rfl⟩
    · rcases writeMeta fs _ bitmap.b_private.ci_blkno _ with ⟨dev, e | -⟩ <;> exact ⟨rfl, rfl, regions, rfl⟩

theorem visitAll_writeGroup_defined (fs : Filesys) (dev : Device) (xs : List ChainRegion) :
    (visitAll (chainallocWriteGroup fs) dev xs).2.2.result ≠ .error .undefined := by
  induction xs generalizing dev with
  | nil => simp [visitAll, Visit.result]
  | cons br xs ih =>
    have here : (chainallocWriteGroup fs dev br).2.2 ≠ .failed .undefined := by
      simp only [chainallocWriteGroup]
      split_ifs
      · simp
      · rcases writeMeta_cases fs dev br.br_private.cr_ag.bg_blkno (.groupDesc { br.br_private.cr_ag with
          bg_bitmap := splice br.br_private.cr_ag.bg_bitmap 0 br.br_bitmap }) with
          ⟨faults, write⟩ | ⟨faults, e, write, defined⟩ <;> simp [write]
        exact defined
    rw [visitAll]
    revert here
    rcases chainallocWriteGroup fs dev br with ⟨dev, br', _ | _ | e⟩ <;> intro here
    · exact ih dev
    · simp [Visit.result]
    · simpa [Visit.result] using here

theorem writeBitmap_defined (fs : Filesys) (dev : Device) (bitmap : ChainBitmap) :
    (chainallocWriteBitmap fs dev bitmap).2.2 ≠ .error .undefined := by
  have groups := visitAll_writeGroup_defined fs dev bitmap.b_regions.toList
  rw [foreachRegion_eq] at groups
  simp only [chainallocWriteBitmap]
  split_ifs
  · simp
  · split
    next e failed =>
      rw [failed] at groups
      simpa using groups
    next _ =>
      rcases writeMeta_cases fs (foreachRegion (chainallocWriteGroup fs) dev bitmap.b_regions).1
        bitmap.b_private.ci_blkno (.dinode bitmap.b_private.ci_inode) with
        ⟨faults, write⟩ | ⟨faults, e, write, defined⟩ <;> simp [write]
      exact defined

variable {before after : ChainBitmap} (rewrote : Rewrote before after)

include rewrote

theorem Rewrote.list : after.b_regions.toList.map essence = before.b_regions.toList.map essence := by
  rw [← toList_map, ← toList_map, rewrote.regions]

theorem Rewrote.restored : Restored before after := ⟨rewrote.total, rewrote.list, rewrote.inode⟩

theorem Rewrote.shape : after.b_regions.map reset = before.b_regions.map reset := by
  have through (t : Node ChainRegion) : t.map reset = (t.map essence).map reset := by
    rw [map_map]
    rfl
  rw [through, rewrote.regions, ← through]

theorem Rewrote.layout {total : Nat} (layout : Layout total before.b_regions.toList) :
    Layout total after.b_regions.toList := by
  have through (xs : List ChainRegion) : Layout total xs ↔ Layout total (xs.map essence) := by
    constructor
    · rintro ⟨wf, sorted, bound⟩
      refine ⟨List.forall_mem_map.mpr fun br mem => ?_, List.pairwise_map.mpr sorted, List.forall_mem_map.mpr bound⟩
      exact ⟨(wf br mem).1, (wf br mem).2, (wf br mem).3, (wf br mem).4⟩
    · rintro ⟨wf, sorted, bound⟩
      refine ⟨fun br mem => ?_, List.pairwise_map.mp sorted, List.forall_mem_map.mp bound⟩
      have same := List.forall_mem_map.mp wf br mem
      exact ⟨same.1, same.2, same.3, same.4⟩
  rw [through, rewrote.list, ← through]
  exact layout

theorem Rewrote.settled : settled (after.b_private, after.b_regions.toList) =
    settled (before.b_private, before.b_regions.toList) := settled_of_essence rewrote.list rewrote.inode

end Writes

end Ocfs2.ChainAlloc
