import Ocfs2.Libocfs2.ChainSync

set_option autoImplicit false

namespace Ocfs2.ChainAlloc

open ByteBuffer Rbtree Bitmap

structure Consistent (fs : Filesys) (disk : Disk) (cb : BitmapPrivate) (xs : List ChainRegion) : Prop where
  readable : badBlkno fs cb.ci_blkno = false
  inode : disk cb.ci_blkno = .dinode cb.ci_inode
  valid : cb.ci_inode.i_valid = true
  chain : cb.ci_inode.i_chain = true
  chained : Chained cb.ci_inode xs
  stored : ∀ br ∈ xs, Stored fs disk cb.ci_inode.cl_bpc br
  layout : Layout (fs.fs_clusters * cb.ci_inode.cl_bpc) xs
  balanced : Balanced cb xs
  sized : Sized cb xs
  flag : cb.cb_dirty = false

theorem Stored.grouped {fs : Filesys} {disk : Disk} {bpc : Nat} {br : ChainRegion}
    (stored : Stored fs disk bpc br) :
    Grouped fs bpc br ∧ Clean disk br ∧ br.br_private.cr_dirty = false := by
  have region := stored.region
  rw [groupRegion] at region
  by_cases size : br.br_private.cr_ag.bg_size = groupBitmapSize fs.fs_blocksize
  · rw [if_neg (not_not_intro size)] at region
    rcases scaled : chainallocScaleStartBit fs (if br.br_private.cr_ag.bg_blkno =
      fs.s_first_cluster_group then 0 else br.br_private.cr_ag.bg_blkno) bpc with e | start
    · rw [scaled] at region
      cases region
    · rw [scaled] at region
      by_cases room : alignTotal br.br_private.cr_ag.bg_bits > br.br_private.cr_ag.bg_bitmap.length
      · simp only [room, if_true] at region
        cases region
      · simp only [room, if_false, Except.ok.injEq] at region
        have start' : start = br.br_start_bit := congrArg Region.br_start_bit region
        have bits : br.br_private.cr_ag.bg_bits = br.br_total_bits := congrArg Region.br_total_bits region
        have bitmap : br.br_private.cr_ag.bg_bitmap.take (alignTotal br.br_private.cr_ag.bg_bits) =
            br.br_bitmap := congrArg Region.br_bitmap region
        have flag : false = br.br_private.cr_dirty := congrArg (·.br_private.cr_dirty) region
        refine ⟨⟨stored.readable, size, by rw [scaled, start'], bits, ?_⟩, ⟨stored.block, ?_⟩, flag.symm⟩
        · rw [← bits]
          exact Nat.not_lt.mp room
        · rw [← bitmap, List.length_take, Nat.min_eq_left (Nat.not_lt.mp room)]
  · rw [if_pos size] at region
    cases region

theorem Consistent.load {fs : Filesys} {disk : Disk} {cb : BitmapPrivate} {xs : List ChainRegion}
    (consistent : Consistent fs disk cb xs) :
    ∃ bitmap, loadChainAllocator fs disk cb.ci_blkno = .ok bitmap ∧ bitmap.b_private = cb ∧
      bitmap.b_regions.toList = xs ∧ Sound fs disk (bitmap.b_private, bitmap.b_regions.toList) := by
  obtain ⟨bitmap, run, -, priv, list⟩ := loadChainAllocator_spec fs disk cb xs consistent.readable
    consistent.inode consistent.valid consistent.chain consistent.chained consistent.layout
    consistent.stored
  have same : bitmap.b_private = cb := by rw [priv, ← consistent.flag]
  have grouped := fun br h => (consistent.stored br h).grouped
  refine ⟨bitmap, run, same, list, ?_, ?_⟩
  · rw [same, list]
    refine ⟨consistent.readable, consistent.valid, consistent.chain, consistent.layout,
      consistent.balanced, consistent.sized, fun br h => (grouped br h).1, consistent.chained, ?_⟩
    intro br h collides
    have block := (consistent.stored br h).block
    rw [collides, consistent.inode] at block
    cases block
  · rw [same, list]
    exact ⟨fun br h _ => (grouped br h).2.1, fun _ => ⟨fun br h => (grouped br h).2.2, consistent.inode⟩⟩

def State.regions (state : State) : List ChainRegion := state.bitmap.b_regions.toList

def Fresh (xs : List ChainRegion) : Outcome → Prop
  | .allocated _ b => Covered xs b ∧ ¬ Member xs b
  | .range start found => ∀ b, start ≤ b → b < start + found → Covered xs b ∧ ¬ Member xs b
  | _ => True

structure StepSound (fs : Filesys) (state : State) (op : Op) : Prop where
  defined : (step fs state op).2 ≠ .error .undefined
  fresh : ∀ out, (step fs state op).2 = .ok out → Fresh state.regions out
  balanced : Balanced (step fs state op).1.bitmap.b_private (step fs state op).1.regions
  reload : (step fs state op).2 = .ok .written →
    ∃ bitmap, loadChainAllocator fs (step fs state op).1.disk state.bitmap.b_private.ci_blkno = .ok bitmap ∧
      bitmap.b_regions.toList = (step fs state op).1.regions ∧
      bitmap.b_private = (step fs state op).1.bitmap.b_private

def RunSound (fs : Filesys) : State → List Op → Prop
  | _, [] => True
  | state, op :: ops => StepSound fs state op ∧ RunSound fs (step fs state op).1 ops

def Op.InMemory (state : State) : Op → Prop
  | .freeRange len startBit =>
    len = 0 ∨ (len + startBit) % 2 ^ 64 > state.bitmap.b_total_bits ∨
      RangeInMemory state.bitmap len startBit
  | _ => True

def AllInMemory (fs : Filesys) : State → List Op → Prop
  | _, [] => True
  | state, op :: ops => op.InMemory state ∧ AllInMemory fs (step fs state op).1 ops

section Calls

variable {total : Nat} (fs : Filesys) (bitmap : ChainBitmap)

theorem Moves.counted {ops : Callbacks RegionPrivate BitmapPrivate} {a b : ChainBitmap}
    (moves : Moves ops a b) (n : BitVec 64) : Moves ops a { b with b_set_bits := n } :=
  ⟨moves.total, moves.evolves⟩

variable (layout : Layout total bitmap.b_regions.toList)

include layout

theorem chainSet_cases (b : Nat) :
    chainSet bitmap b = .error .invalidBit ∨
      ∃ bitmap' old, chainSet bitmap b = .ok (bitmap', old) ∧
        Moves chainallocBitmapOps bitmap bitmap' := by
  unfold chainSet Bitmap.set
  split_ifs
  · exact .inl rfl
  · rcases setGeneric_writes polite bitmap b layout with ⟨-, run⟩ | ⟨-, bitmap', old, run, -, written⟩
    · rw [run]
      exact .inl rfl
    · rw [run]
      exact .inr ⟨_, old, rfl, Moves.counted written.moves _⟩

theorem chainClear_cases (b : Nat) :
    chainClear bitmap b = .error .invalidBit ∨
      ∃ bitmap' old, chainClear bitmap b = .ok (bitmap', old) ∧
        Moves chainallocBitmapOps bitmap bitmap' := by
  unfold chainClear Bitmap.clear
  split_ifs
  · exact .inl rfl
  · rcases clearGeneric_writes polite bitmap b layout with ⟨-, run⟩ | ⟨-, bitmap', old, run, -, written⟩
    · simp only [run, Except.map]
      exact .inl trivial
    · simp only [run, Except.map]
      exact .inr ⟨_, old.toInt, rfl, Moves.counted written.moves _⟩

omit layout in
theorem findGd_defined (b : Nat) (found : Option Nat) (e : Errcode) (regions : Node ChainRegion) :
    (foreachRegion (chainallocFindGd fs b) found regions).2.2 ≠ .failed e := by
  have passes : ∀ data br, (chainallocFindGd fs b data br).2.2 = .next →
      (chainallocFindGd fs b data br).1 = data ∧ (chainallocFindGd fs b data br).2.1 = br := by
    intro data br next
    unfold chainallocFindGd at next ⊢
    split_ifs at next ⊢
    exact ⟨rfl, rfl⟩
  have visits := congrArg (·.2.2) (foreachRegion_eq (chainallocFindGd fs b) found regions)
  rw [← visits]
  rcases visitAll_search _ passes found regions.toList with ⟨-, all⟩ | ⟨as, br, bs, -, -, all⟩
  · simp [all]
  · rw [all]
    unfold chainallocFindGd
    split_ifs <;> simp

theorem chainAlloc_spec :
    Moves chainallocBitmapOps bitmap (chainAlloc fs bitmap).1 ∧
      (chainAlloc fs bitmap).2 ≠ .error .undefined ∧
      ∀ gdBlkno b, (chainAlloc fs bitmap).2 = .ok (gdBlkno, b) →
        Covered bitmap.b_regions.toList b ∧ ¬ Member bitmap.b_regions.toList b := by
  unfold chainAlloc Bitmap.findNextClear
  split_ifs with empty
  · exact ⟨.refl _ _, by simp, by simp⟩
  · rcases findNextClearGeneric_spec bitmap total 0 layout with
      ⟨b, run, -, free, -⟩ | ⟨run, -⟩
    · rw [run]
      rcases chainSet_cases bitmap layout b with set | ⟨bitmap', old, set, moves⟩
      · simp only [set]
        exact ⟨.refl _ _, by simp, by simp⟩
      · simp only [set]
        cases old with
        | true => exact ⟨moves, by simp, by simp⟩
        | false =>
          simp only [Bool.false_eq_true, if_false]
          have defined := findGd_defined fs b none
          rcases all : foreachRegion (chainallocFindGd fs b) none bitmap'.b_regions with
            ⟨found, regions, visit⟩
          cases visit with
          | next | complete =>
            cases found with
            | none => exact ⟨moves, by simp, by simp⟩
            | some gd => exact ⟨moves, by simp, by rintro _ _ ⟨⟩; exact free⟩
          | failed e => exact absurd (congrArg (·.2.2) all) (defined e bitmap'.b_regions)
    · rw [run]
      exact ⟨.refl _ _, by simp, by simp⟩

theorem chainFree_spec (b : Nat) :
    Moves chainallocBitmapOps bitmap (chainFree bitmap b).1 ∧
      (chainFree bitmap b).2 ≠ .error .undefined := by
  unfold chainFree
  rcases chainClear_cases bitmap layout b with run | ⟨bitmap', old, run, moves⟩
  · rw [run]
    exact ⟨.refl _ _, by simp⟩
  · rw [run]
    refine ⟨moves, ?_⟩
    dsimp only
    split_ifs <;> simp

theorem chainForceVal_spec (b : Nat) (newval : Bool) :
    Moves chainallocBitmapOps bitmap (chainForceVal bitmap b newval).1 ∧
      (chainForceVal bitmap b newval).2 ≠ .error .undefined := by
  unfold chainForceVal
  cases newval
  · rcases chainClear_cases bitmap layout b with run | ⟨bitmap', old, run, moves⟩ <;> rw [if_neg (by simp), run]
    · exact ⟨.refl _ _, by simp⟩
    · exact ⟨moves, by simp⟩
  · rcases chainSet_cases bitmap layout b with run | ⟨bitmap', old, run, moves⟩ <;> rw [if_pos rfl, run]
    · exact ⟨.refl _ _, by simp [Except.map]⟩
    · exact ⟨moves, by simp [Except.map]⟩

theorem chainAllocRange_spec (min requested : Nat) :
    Moves chainallocBitmapOps bitmap (chainAllocRange bitmap min requested).1 ∧
      (chainAllocRange bitmap min requested).2 ≠ .error .undefined ∧
      ∀ first found, (chainAllocRange bitmap min requested).2 = .ok (first, found) →
        ∀ b, first ≤ b → b < first + found →
          Covered bitmap.b_regions.toList b ∧ ¬ Member bitmap.b_regions.toList b := by
  unfold chainAllocRange Bitmap.allocRange
  by_cases refused : min = 0 ∨ requested = 0 ∨ requested ≥ bitmap.b_total_bits ∨ min > requested
  · simp only [refused, if_true]
    exact ⟨.refl _ _, by simp, by simp⟩
  · simp only [refused, if_false]
    rcases run : allocRangeGeneric chainallocBitmapOps bitmap min requested with e | ⟨bitmap', first, found⟩
    · rcases allocRangeGeneric_cases chainallocBitmapOps bitmap min requested with
        ⟨_, _, _, _, _, _, _, _, -, -, -, -, ok⟩ | ⟨-, none⟩
      · cases run.symm.trans ok
      · cases run.symm.trans none
        exact ⟨.refl _ _, by simp, by simp⟩
    · obtain ⟨allocated, -, moves⟩ := allocRangeGeneric_ok layout polite (by omega) run
      simp only [Nat.not_lt.mpr allocated.atLeast, if_false]
      refine ⟨moves, by simp, ?_⟩
      rintro first' found' ⟨⟩ b low high
      obtain ⟨br, member, covers⟩ := allocated.region
      exact ⟨⟨br, member, covers b low high⟩, allocated.clear b low high⟩

theorem chainFreeRange_spec (len first : Nat) (disk : Disk) :
    (Op.InMemory ⟨bitmap, disk⟩ (.freeRange len first) ∧
      Moves chainallocBitmapOps bitmap (chainFreeRange bitmap len first).1 ∧
      (chainFreeRange bitmap len first).2 ≠ .error .undefined) ∨
    ¬ Op.InMemory ⟨bitmap, disk⟩ (.freeRange len first) ∧
      (chainFreeRange bitmap len first).2 = .error .undefined := by
  unfold chainFreeRange Bitmap.clearRange
  by_cases refused : len = 0 ∨ (len + first) % 2 ^ 64 > bitmap.b_total_bits
  · simp only [refused, if_true]
    exact .inl ⟨or_assoc.mp (.inl refused), .refl _ _, by simp⟩
  · simp only [refused, if_false]
    have inMemory : Op.InMemory ⟨bitmap, disk⟩ (.freeRange len first) ↔ RangeInMemory bitmap len first := by
      rw [Op.InMemory, ← or_assoc, or_iff_right refused]
    rw [inMemory, RangeInMemory]
    rcases clearRangeGeneric_cases layout polite len first rfl with
      ⟨⟨path, missed⟩, run⟩ | ⟨c, l, br, r, path, found, -, ⟨outside, run⟩ | ⟨inside, bitmap', run, -, moves, -⟩⟩ <;>
      rw [run]
    · refine .inl ⟨fun c l br r path' found => ?_, .refl _ _, by simp⟩
      cases missed.symm.trans found
    · exact .inr ⟨fun all => outside (all c l br r path found), rfl⟩
    · refine .inl ⟨fun c' l' br' r' path' found' => ?_, moves, by simp⟩
      cases found.symm.trans found'
      exact inside

end Calls

variable {fs : Filesys} {state : State}

def State.Sound (fs : Filesys) (state : State) : Prop :=
  ChainAlloc.Sound fs state.disk (state.bitmap.b_private, state.regions)

theorem State.Sound.moved (sound : state.Sound fs)
    {bitmap : ChainBitmap} (moves : Moves chainallocBitmapOps state.bitmap bitmap) :
    State.Sound fs { state with bitmap } :=
  ChainAlloc.Sound.evolves sound moves.evolves

theorem step_of_call {op : Op} {α : Type} {bitmap : ChainBitmap} {result : Except Errcode α} {out : α → Outcome}
    (sound : state.Sound fs) (run : step fs state op = (⟨bitmap, state.disk⟩, result.map out))
    (moves : Moves chainallocBitmapOps state.bitmap bitmap) (defined : result ≠ .error .undefined)
    (fresh : ∀ x, result = .ok x → Fresh state.regions (out x) ∧ out x ≠ .written) :
    StepSound fs state op ∧ (step fs state op).1.Sound fs := by
  have sound' : (step fs state op).1.Sound fs := by
    rw [run]
    exact sound.moved moves
  refine ⟨⟨?_, ?_, sound'.fixed.balanced, ?_⟩, sound'⟩ <;> rw [run]
  · cases result <;> simp_all [Except.map]
  · cases result <;> simp_all [Except.map]
  · cases result with
    | error e => simp [Except.map]
    | ok x => exact fun written => absurd (Except.ok.inj written) (fresh x rfl).2

theorem step_write (sound : state.Sound fs) (faults : List Bool) :
    StepSound fs state (.write faults) ∧ (step fs state (.write faults)).1.Sound fs := by
  obtain ⟨dev, bitmap, result, run, sound', home, ends⟩ :=
    chainallocWriteBitmap_spec fs ⟨state.disk, faults⟩ state.bitmap sound
  have run' : step fs state (.write faults) = (⟨bitmap, dev.blocks⟩, result.map fun _ => .written) := by
    simp only [step, run]
  rw [run']
  refine ⟨⟨?_, ?_, run' ▸ sound'.fixed.balanced, ?_⟩, sound'⟩ <;> rw [run'] <;>
    rcases ends with ⟨rfl, flag⟩ | ⟨e, rfl, defined⟩
  · simp [Except.map]
  · simpa [Except.map] using defined
  · rintro _ ⟨⟩
    trivial
  · simp [Except.map]
  · obtain ⟨fresh, load, priv, list⟩ := sound'.reload flag
    exact fun _ => ⟨fresh, home ▸ load, list, priv⟩
  · simp [Except.map]

theorem step_spec (sound : state.Sound fs) (op : Op) :
    (StepSound fs state op ↔ op.InMemory state) ∧
      (op.InMemory state → (step fs state op).1.Sound fs) := by
  have layout := sound.fixed.layout
  have of_sound (both : StepSound fs state op ∧ (step fs state op).1.Sound fs)
      (always : op.InMemory state) : (StepSound fs state op ↔ op.InMemory state) ∧
        (op.InMemory state → (step fs state op).1.Sound fs) :=
    ⟨iff_of_true both.1 always, fun _ => both.2⟩
  cases op with
  | alloc =>
    obtain ⟨moves, defined, fresh⟩ := chainAlloc_spec fs state.bitmap layout
    exact of_sound (step_of_call sound rfl moves defined fun x run => ⟨fresh x.1 x.2 run, by simp⟩) trivial
  | free b =>
    obtain ⟨moves, defined⟩ := chainFree_spec state.bitmap layout b
    exact of_sound (step_of_call sound rfl moves defined fun _ _ => ⟨trivial, by simp⟩) trivial
  | forceVal b newval =>
    obtain ⟨moves, defined⟩ := chainForceVal_spec state.bitmap layout b newval
    exact of_sound (step_of_call sound rfl moves defined fun _ _ => ⟨trivial, by simp⟩) trivial
  | allocRange min requested =>
    obtain ⟨moves, defined, fresh⟩ := chainAllocRange_spec state.bitmap layout min requested
    exact of_sound (step_of_call sound rfl moves defined fun x run => ⟨fresh x.1 x.2 run, by simp⟩) trivial
  | freeRange len first =>
    rcases chainFreeRange_spec state.bitmap layout len first state.disk with
      ⟨inside, moves, defined⟩ | ⟨outside, run⟩
    · exact of_sound (step_of_call sound rfl moves defined fun _ _ => ⟨trivial, by simp⟩) inside
    · refine ⟨iff_of_false (fun good => good.defined ?_) outside, fun inside => absurd inside outside⟩
      simp [step, run, Except.map]
  | write faults => exact of_sound (step_write sound faults) trivial

theorem run_spec (ops : List Op) (state : State) (sound : state.Sound fs) :
    RunSound fs state ops ↔ AllInMemory fs state ops := by
  induction ops generalizing state with
  | nil => exact Iff.rfl
  | cons op ops ih =>
    obtain ⟨first, next⟩ := step_spec sound op
    rw [RunSound, AllInMemory, first]
    exact and_congr_right fun inside => ih _ (next inside)

theorem runSound_iff (fs : Filesys) (disk : Disk) (cb : BitmapPrivate) (xs : List ChainRegion)
    (consistent : Consistent fs disk cb xs) (ops : List Op) :
    ∃ bitmap, loadChainAllocator fs disk cb.ci_blkno = .ok bitmap ∧ bitmap.b_private = cb ∧
      bitmap.b_regions.toList = xs ∧
      (RunSound fs ⟨bitmap, disk⟩ ops ↔ AllInMemory fs ⟨bitmap, disk⟩ ops) := by
  obtain ⟨bitmap, load, priv, list, sound⟩ := consistent.load
  exact ⟨bitmap, load, priv, list, run_spec ops ⟨bitmap, disk⟩ sound⟩

section TwoGroups

def twoGroupsFs : Filesys := ⟨512, 4096, 24, 3, 1, true⟩

def twoGroupsGroup (blkno next : Nat) : GroupDesc := ⟨448, 8, 7, 0, next, blkno, 1 :: List.replicate 447 0⟩

def twoGroupsRegion (blkno next : Nat) : ChainRegion :=
  ⟨blkno, 8, 1, [1], ⟨twoGroupsGroup blkno next, false⟩⟩

def twoGroupsInode : BitmapPrivate := ⟨4, ⟨true, true, 2, 16, 8, 1, [⟨14, 16, 8⟩]⟩, false⟩

def twoGroupsDisk : Disk
  | 4 => .dinode twoGroupsInode.ci_inode
  | 8 => .groupDesc (twoGroupsGroup 8 16)
  | 16 => .groupDesc (twoGroupsGroup 16 0)
  | _ => .other

theorem twoGroupsRegion_wf (blkno next : Nat) : (twoGroupsRegion blkno next).Wf where
  nonempty := (by decide : 0 < 8)
  bytes := (by decide : 1 = alignTotal 8)
  padding i above := bit_of_ge [1] i above
  count := (by decide : (1 : Int) = countTrue (bit [1]) 8)

theorem twoGroups_consistent :
    Consistent twoGroupsFs twoGroupsDisk twoGroupsInode [twoGroupsRegion 8 16, twoGroupsRegion 16 0] where
  readable := by decide
  inode := rfl
  valid := rfl
  chain := rfl
  chained := ⟨by decide, [[(8, 0, 16), (16, 0, 0)]], by simp [Chains, Chain, twoGroupsInode], .refl _⟩
  stored := by
    simp only [List.forall_mem_cons, List.not_mem_nil, false_imp_iff, implies_true, and_true]
    exact ⟨⟨by decide, rfl, by decide +kernel⟩, ⟨by decide, rfl, by decide +kernel⟩⟩
  layout := by
    refine ⟨?_, by simp [twoGroupsRegion], ?_⟩
    · simp [twoGroupsRegion_wf]
    · simp [twoGroupsRegion, twoGroupsFs, twoGroupsInode]
  balanced := by
    refine ⟨?_, ?_, by decide⟩
    · decide
    · intro i rec below entry
      obtain rfl : i = 0 := Nat.lt_one_iff.mp below
      cases entry
      decide
  sized := by
    refine ⟨?_, ?_, ?_, by decide⟩
    · decide
    · decide
    · intro i rec below entry
      obtain rfl : i = 0 := Nat.lt_one_iff.mp below
      cases entry
      decide
  flag := rfl

theorem runSound_two_groups :
    ∃ bitmap, loadChainAllocator twoGroupsFs twoGroupsDisk 4 = .ok bitmap ∧
      RunSound twoGroupsFs ⟨bitmap, twoGroupsDisk⟩
        [.alloc, .allocRange 2 3, .write [false, true], .free 9, .forceVal 20 true, .write []] := by
  obtain ⟨bitmap, load, -, -, sound⟩ := runSound_iff twoGroupsFs twoGroupsDisk twoGroupsInode _
    twoGroups_consistent [.alloc, .allocRange 2 3, .write [false, true], .free 9, .forceVal 20 true, .write []]
  exact ⟨bitmap, load, sound.mpr ⟨trivial, trivial, trivial, trivial, trivial, trivial, trivial⟩⟩

/-- A free of the last two blocks of the first group and the first two of the second clears bits behind
the one byte of memory of the first group. -/
theorem freeRange_leaves_group :
    Consistent twoGroupsFs twoGroupsDisk twoGroupsInode [twoGroupsRegion 8 16, twoGroupsRegion 16 0] ∧
      (loadChainAllocator twoGroupsFs twoGroupsDisk 4).map (fun bitmap => (chainFreeRange bitmap 4 14).2) =
        .ok (.error .undefined) :=
  ⟨twoGroups_consistent, by decide +kernel⟩

end TwoGroups

end Ocfs2.ChainAlloc
