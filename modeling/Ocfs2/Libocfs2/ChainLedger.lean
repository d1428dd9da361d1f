import Ocfs2.Libocfs2.BitmapRange
import Ocfs2.Libocfs2.ChainAlloc

set_option autoImplicit false

namespace Ocfs2.ChainAlloc

open ByteBuffer Rbtree Bitmap

def usedBits (br : ChainRegion) : Nat := countTrue (bit br.br_bitmap) br.br_total_bits

def freeBits (br : ChainRegion) : Nat := countTrue (fun i => !bit br.br_bitmap i) br.br_total_bits

def onChain (i : Nat) (xs : List ChainRegion) : List ChainRegion :=
  xs.filter fun br => br.br_private.cr_ag.bg_chain = i

structure Balanced (cb : BitmapPrivate) (xs : List ChainRegion) : Prop where
  group : ∀ br ∈ xs, br.br_private.cr_ag.bg_free_bits_count.toNat = freeBits br
  chain : ∀ i rec, i < cb.ci_inode.cl_next_free_rec → cb.ci_inode.cl_recs[i]? = some rec →
    rec.c_free.toNat = ((onChain i xs).map freeBits).sum
  used : cb.ci_inode.i_used.toNat = (xs.map usedBits).sum

structure Sized (cb : BitmapPrivate) (xs : List ChainRegion) : Prop where
  narrow : ∀ br ∈ xs, br.br_total_bits < 2 ^ 16
  listed : ∀ br ∈ xs, br.br_private.cr_ag.bg_chain < cb.ci_inode.cl_next_free_rec
  chainTotal : ∀ i rec, i < cb.ci_inode.cl_next_free_rec → cb.ci_inode.cl_recs[i]? = some rec →
    rec.c_total.toNat = ((onChain i xs).map (·.br_total_bits)).sum
  inodeTotal : cb.ci_inode.i_total.toNat = (xs.map (·.br_total_bits)).sum

theorem polite : Callbacks.Polite chainallocBitmapOps := by
  rintro notify ⟨⟩ s br b value
  exact ⟨_, rfl⟩

theorem forall_middle {α : Type} {P : α → Prop} {as bs : List α} {x : α} :
    (∀ y ∈ as ++ x :: bs, P y) ↔ P x ∧ ∀ y ∈ as ++ bs, P y := by
  simp only [List.mem_append, List.mem_cons, or_imp, forall_and, forall_eq]
  exact and_left_comm

section Sums

variable (f : ChainRegion → Nat) (as bs : List ChainRegion) (br : ChainRegion)

theorem sum_middle :
    ((as ++ br :: bs).map f).sum = (as.map f).sum + f br + (bs.map f).sum := by
  simp [Nat.add_assoc]

theorem sum_onChain_middle (i : Nat) :
    ((onChain i (as ++ br :: bs)).map f).sum = ((onChain i as).map f).sum +
      (if br.br_private.cr_ag.bg_chain = i then f br else 0) + ((onChain i bs).map f).sum := by
  rw [onChain, List.filter_append, List.filter_cons]
  by_cases here : br.br_private.cr_ag.bg_chain = i
  · simp [here, onChain, Nat.add_assoc]
  · simp [here, onChain]

theorem free_add_used (br : ChainRegion) : freeBits br + usedBits br = br.br_total_bits := by
  unfold freeBits usedBits
  induction br.br_total_bits with
  | zero => rfl
  | succ n ih =>
    simp only [countTrue, Nat.count_succ] at ih ⊢
    by_cases set : bit br.br_bitmap n = true <;> simp [set] at ih ⊢ <;> omega

theorem sum_free_add_used (xs : List ChainRegion) :
    (xs.map freeBits).sum + (xs.map usedBits).sum = (xs.map (·.br_total_bits)).sum := by
  induction xs with
  | nil => rfl
  | cons br xs ih =>
    have := free_add_used br
    simp only [List.map_cons, List.sum_cons]
    omega

end Sums

theorem toNat_counted {w n : Nat} (x : BitVec w) (value : Bool) (moved : n + value.toNat = x.toNat + (!value).toNat)
    (room : n < 2 ^ w) : (if value then x - 1 else x + 1).toNat = n := by
  have bits : value.toNat + (!value).toNat = 1 := by cases value <;> rfl
  have one : (1 : BitVec w).toNat = 1 := by
    have : 1 < 2 ^ w := by omega
    simpa using Nat.mod_eq_of_lt this
  cases value <;> simp only [Bool.not_false, Bool.not_true, Bool.toNat_true, Bool.toNat_false] at moved
  · rw [if_neg (by simp), BitVec.toNat_add, one, Nat.mod_eq_of_lt] <;> omega
  · rw [if_pos rfl, BitVec.toNat_sub_of_le (by rw [BitVec.le_def, one]; omega), one]
    omega

theorem flip_eq {cb cb' : BitmapPrivate} {br br' : ChainRegion}
    (flip : Flip chainallocBitmapOps (cb, br) (cb', br')) (wf : br.Wf) :
    ∃ b value, cb' = (bitChangeNotify cb (flipped br b value) b value).1 ∧
      br' = (bitChangeNotify cb (flipped br b value) b value).2 ∧
      usedBits br' + (!value).toNat = usedBits br + value.toNat := by
  obtain ⟨b, value, covers, old, result⟩ := flip
  have run : (cb', br') = bitChangeNotify cb (flipped br b value) b value := result
  have region : br' = (bitChangeNotify cb (flipped br b value) b value).2 := by rw [← run]
  refine ⟨b, value, by rw [← run], region, ?_⟩
  have count := (Changed.flip value wf covers old br'.br_private).wf.count
  have count' := wf.count
  have same : usedBits br' = usedBits { flipped br b value with br_private := br'.br_private } := by
    rw [region]
    rfl
  rw [same]
  unfold usedBits
  cases value
  · simp only [flipped, Bool.false_eq_true, if_false, Bool.not_false, Bool.toNat_true,
      Bool.toNat_false] at count ⊢
    omega
  · simp only [flipped, if_true, Bool.not_true, Bool.toNat_true, Bool.toNat_false] at count ⊢
    omega

structure Static (br br' : ChainRegion) : Prop where
  start : br'.br_start_bit = br.br_start_bit
  total : br'.br_total_bits = br.br_total_bits
  group : ∃ free, br'.br_private.cr_ag = { br.br_private.cr_ag with bg_free_bits_count := free }

theorem flip_static {cb cb' : BitmapPrivate} {br br' : ChainRegion}
    (flip : Flip chainallocBitmapOps (cb, br) (cb', br')) : Static br br' := by
  obtain ⟨b, value, -, -, result⟩ := flip
  cases result
  exact ⟨rfl, rfl, _, rfl⟩

theorem getElem?_modify_some {α : Type} {l : List α} {c i : Nat} {f : α → α} {y : α}
    (entry : (l.modify c f)[i]? = some y) :
    ∃ x, l[i]? = some x ∧ y = if c = i then f x else x := by
  rw [List.getElem?_modify] at entry
  cases old : l[i]? with
  | none => simp [old] at entry
  | some x =>
    rw [old] at entry
    split_ifs at entry ⊢ with here <;> exact ⟨x, rfl, by simpa using entry.symm⟩

section Flip

variable {cb cb' : BitmapPrivate} {as bs : List ChainRegion} {br br' : ChainRegion}

theorem notify_rec {b i : Nat} {value : Bool} {rec : ChainRec}
    (entry : (bitChangeNotify cb (flipped br b value) b value).1.ci_inode.cl_recs[i]? = some rec) :
    ∃ rec0, cb.ci_inode.cl_recs[i]? = some rec0 ∧
      rec = if br.br_private.cr_ag.bg_chain = i then
        { rec0 with c_free := if value then rec0.c_free - 1 else rec0.c_free + 1 } else rec0 :=
  getElem?_modify_some entry

theorem Static.chain (static : Static br br') :
    br'.br_private.cr_ag.bg_chain = br.br_private.cr_ag.bg_chain := by
  obtain ⟨free, group⟩ := static.group
  rw [group]

theorem Sized.flip (sized : Sized cb (as ++ br :: bs))
    (flip : Flip chainallocBitmapOps (cb, br) (cb', br')) : Sized cb' (as ++ br' :: bs) := by
  have static := flip_static flip
  obtain ⟨b, value, -, -, result⟩ := flip
  have priv : cb' = (bitChangeNotify cb (flipped br b value) b value).1 := congrArg Prod.fst result
  refine ⟨?_, ?_, ?_, ?_⟩
  · obtain ⟨mid, rest⟩ := forall_middle.mp sized.narrow
    exact forall_middle.mpr ⟨static.total ▸ mid, rest⟩
  · have next : cb'.ci_inode.cl_next_free_rec = cb.ci_inode.cl_next_free_rec := by rw [priv]; rfl
    obtain ⟨mid, rest⟩ := forall_middle.mp sized.listed
    rw [next]
    exact forall_middle.mpr ⟨by rwa [static.chain], rest⟩
  · intro i rec below entry
    rw [priv] at below entry
    obtain ⟨rec0, entry0, rfl⟩ := notify_rec entry
    have before := sized.chainTotal i rec0 below entry0
    rw [sum_onChain_middle, static.chain, static.total, ← sum_onChain_middle, ← before]
    split <;> rfl
  · have before := sized.inodeTotal
    rw [sum_middle, static.total, ← sum_middle, ← before, priv]
    rfl

theorem group_flip (wf : br.Wf) (narrow : br.br_total_bits < 2 ^ 16)
    (count : br.br_private.cr_ag.bg_free_bits_count.toNat = freeBits br)
    (flip : Flip chainallocBitmapOps (cb, br) (cb', br')) :
    br'.br_private.cr_ag.bg_free_bits_count.toNat = freeBits br' := by
  have total := (flip_static flip).total
  obtain ⟨b, value, -, region, used⟩ := flip_eq flip wf
  have before := free_add_used br
  have after := free_add_used br'
  have entry : br'.br_private.cr_ag.bg_free_bits_count =
      if value then br.br_private.cr_ag.bg_free_bits_count - 1
      else br.br_private.cr_ag.bg_free_bits_count + 1 := by
    rw [region]
    rfl
  rw [entry]
  exact toNat_counted _ value (by omega) (by omega)

theorem Balanced.flip (balanced : Balanced cb (as ++ br :: bs)) (sized : Sized cb (as ++ br :: bs))
    (wf : br.Wf) (flip : Flip chainallocBitmapOps (cb, br) (cb', br')) :
    Balanced cb' (as ++ br' :: bs) := by
  have static := flip_static flip
  have group := group_flip wf (sized.narrow br (by simp)) (balanced.group br (by simp)) flip
  obtain ⟨b, value, priv, -, used⟩ := flip_eq flip wf
  have before := free_add_used br
  have after := free_add_used br'
  have total := static.total
  refine ⟨?_, ?_, ?_⟩
  · exact forall_middle.mpr ⟨group, (forall_middle.mp balanced.group).2⟩
  · intro i rec below entry
    rw [priv] at below entry
    obtain ⟨rec0, entry0, rfl⟩ := notify_rec entry
    have free := balanced.chain i rec0 below entry0
    have all := sized.chainTotal i rec0 below entry0
    have both := sum_free_add_used (onChain i (as ++ br :: bs))
    simp only [sum_onChain_middle, static.chain] at free all both ⊢
    by_cases here : br.br_private.cr_ag.bg_chain = i
    · simp only [here, if_true] at free all both ⊢
      exact toNat_counted _ value (by omega) (by omega)
    · simp only [here, if_false] at free ⊢
      exact free
  · have count := balanced.used
    have all := sized.inodeTotal
    have both := sum_free_add_used (as ++ br :: bs)
    have entry : cb'.ci_inode.i_used =
        if !value then cb.ci_inode.i_used - 1 else cb.ci_inode.i_used + 1 := by
      rw [priv]
      cases value <;> rfl
    simp only [sum_middle] at count all both ⊢
    rw [entry]
    exact toNat_counted _ (!value) (by rw [Bool.not_not]; omega) (by omega)

end Flip

end Ocfs2.ChainAlloc
