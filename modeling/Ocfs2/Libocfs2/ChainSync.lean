import Ocfs2.Libocfs2.ChainLoad

set_option autoImplicit false

namespace Ocfs2.ChainAlloc

open ByteBuffer Rbtree Bitmap

structure Grouped (fs : Filesys) (bpc : Nat) (br : ChainRegion) : Prop where
  readable : badBlkno fs br.br_private.cr_ag.bg_blkno = false
  size : br.br_private.cr_ag.bg_size = groupBitmapSize fs.fs_blocksize
  start : chainallocScaleStartBit fs (if br.br_private.cr_ag.bg_blkno = fs.s_first_cluster_group then 0
    else br.br_private.cr_ag.bg_blkno) bpc = .ok br.br_start_bit
  bits : br.br_private.cr_ag.bg_bits = br.br_total_bits
  room : alignTotal br.br_total_bits ≤ br.br_private.cr_ag.bg_bitmap.length

structure Clean (disk : Disk) (br : ChainRegion) : Prop where
  block : disk br.br_private.cr_ag.bg_blkno = .groupDesc br.br_private.cr_ag
  bitmap : br.br_private.cr_ag.bg_bitmap.take br.br_bitmap.length = br.br_bitmap

structure Fixed (fs : Filesys) (cb : BitmapPrivate) (xs : List ChainRegion) : Prop where
  readable : badBlkno fs cb.ci_blkno = false
  valid : cb.ci_inode.i_valid = true
  chain : cb.ci_inode.i_chain = true
  layout : Layout (fs.fs_clusters * cb.ci_inode.cl_bpc) xs
  balanced : Balanced cb xs
  sized : Sized cb xs
  grouped : ∀ br ∈ xs, Grouped fs cb.ci_inode.cl_bpc br
  chained : Chained cb.ci_inode xs
  apart : ∀ br ∈ xs, br.br_private.cr_ag.bg_blkno ≠ cb.ci_blkno

structure Synced (disk : Disk) (cb : BitmapPrivate) (xs : List ChainRegion) : Prop where
  groups : ∀ br ∈ xs, br.br_private.cr_dirty = false → Clean disk br
  inode : cb.cb_dirty = false →
    (∀ br ∈ xs, br.br_private.cr_dirty = false) ∧ disk cb.ci_blkno = .dinode cb.ci_inode

section Flip

variable {fs : Filesys} {disk : Disk} {cb cb' : BitmapPrivate} {as bs : List ChainRegion}
  {br br' : ChainRegion}

theorem Fixed.flip (fixed : Fixed fs cb (as ++ br :: bs))
    (flip : Flip chainallocBitmapOps (cb, br) (cb', br')) : Fixed fs cb' (as ++ br' :: bs) := by
  have static := flip_static flip
  obtain ⟨wf, -, -⟩ := flip.wf polite fixed.layout.mid
  have layout := fixed.layout.replace br' wf static.start static.total
  have balanced := fixed.balanced.flip fixed.sized fixed.layout.mid flip
  have sized := fixed.sized.flip flip
  obtain ⟨free, group⟩ := static.group
  obtain ⟨b, value, -, -, result⟩ := flip
  have priv : cb' = (bitChangeNotify cb (flipped br b value) b value).1 := congrArg Prod.fst result
  have bpc : cb'.ci_inode.cl_bpc = cb.ci_inode.cl_bpc := by rw [priv]; rfl
  have blkno : cb'.ci_blkno = cb.ci_blkno := by rw [priv]; rfl
  have records : (cb'.ci_inode.cl_recs.take cb'.ci_inode.cl_next_free_rec).map (·.c_blkno) =
      (cb.ci_inode.cl_recs.take cb.ci_inode.cl_next_free_rec).map (·.c_blkno) := by
    rw [priv, List.map_take, List.map_take]
    simp only [bitChangeNotify]
    congr 1
    refine List.ext_getElem? fun i => ?_
    rw [List.getElem?_map, List.getElem?_map, List.getElem?_modify]
    cases cb.ci_inode.cl_recs[i]? with
    | none => rfl
    | some rec => simp only [Option.map_eq_map, Option.map_some]; split <;> rfl
  have links : (as ++ br' :: bs).map link = (as ++ br :: bs).map link := by
    simp [link, group]
  obtain ⟨midGrouped, restGrouped⟩ := forall_middle.mp fixed.grouped
  obtain ⟨midApart, restApart⟩ := forall_middle.mp fixed.apart
  refine ⟨blkno ▸ fixed.readable, by rw [priv]; exact fixed.valid, by rw [priv]; exact fixed.chain,
    bpc ▸ layout, balanced, sized, ?_, ⟨?_, ?_⟩, ?_⟩
  · rw [bpc]
    refine forall_middle.mpr ⟨?_, restGrouped⟩
    refine ⟨?_, ?_, ?_, ?_, ?_⟩
    · rw [group]
      exact midGrouped.readable
    · rw [group]
      exact midGrouped.size
    · rw [group, static.start]
      exact midGrouped.start
    · rw [group, static.total]
      exact midGrouped.bits
    · rw [group, static.total]
      exact midGrouped.room
  · have := fixed.chained.records
    rw [priv]
    simpa [bitChangeNotify] using this
  · rw [records, links]
    exact fixed.chained.chains
  · rw [blkno]
    refine forall_middle.mpr ⟨?_, restApart⟩
    rw [group]
    exact midApart

theorem Synced.flip (synced : Synced disk cb (as ++ br :: bs))
    (flip : Flip chainallocBitmapOps (cb, br) (cb', br')) : Synced disk cb' (as ++ br' :: bs) := by
  obtain ⟨b, value, -, -, result⟩ := flip
  have priv : cb' = (bitChangeNotify cb (flipped br b value) b value).1 := congrArg Prod.fst result
  have region : br' = (bitChangeNotify cb (flipped br b value) b value).2 := congrArg Prod.snd result
  refine ⟨forall_middle.mpr ⟨fun clean => ?_, (forall_middle.mp synced.groups).2⟩, fun clean => ?_⟩
  · rw [region] at clean
    cases clean
  · rw [priv] at clean
    cases clean

end Flip

structure Sound (fs : Filesys) (disk : Disk) (x : BitmapPrivate × List ChainRegion) : Prop where
  fixed : Fixed fs x.1 x.2
  synced : Synced disk x.1 x.2

theorem Sound.evolves {fs : Filesys} {disk : Disk} {x y : BitmapPrivate × List ChainRegion}
    (sound : Sound fs disk x) (evolves : Evolves chainallocBitmapOps x y) : Sound fs disk y := by
  induction evolves with
  | refl => exact sound
  | tail _ step ih =>
    obtain ⟨fixed, synced⟩ := ih
    obtain ⟨as, br, bs, priv, br', list, flip, rfl⟩ := step
    rw [list] at fixed synced
    exact ⟨fixed.flip flip, synced.flip flip⟩

section Write

def stripped (br : ChainRegion) : ChainRegion :=
  { br with br_private := ⟨{ br.br_private.cr_ag with
    bg_bitmap := List.replicate br.br_private.cr_ag.bg_bitmap.length 0 }, false⟩ }

variable {fs : Filesys} {cb : BitmapPrivate} {xs xs' : List ChainRegion}
  (same : xs'.map stripped = xs.map stripped)

include same

theorem map_stripped {β : Type} (f : ChainRegion → β) (keeps : ∀ br, f (stripped br) = f br) :
    xs'.map f = xs.map f := by
  have through (ys : List ChainRegion) : ys.map f = (ys.map stripped).map f := by
    simp [Function.comp_def, keeps]
  rw [through, same, ← through]

theorem forall_stripped {P : ChainRegion → Prop} (keeps : ∀ br, P (stripped br) ↔ P br)
    (all : ∀ br ∈ xs, P br) : ∀ br ∈ xs', P br := by
  intro br member
  have inside : stripped br ∈ xs.map stripped := same ▸ List.mem_map_of_mem member
  obtain ⟨old, h, equal⟩ := List.mem_map.mp inside
  rw [← keeps, ← equal, keeps]
  exact all old h

theorem onChain_stripped (f : ChainRegion → Nat) (keeps : ∀ br, f (stripped br) = f br) (i : Nat) :
    (onChain i xs').map f = (onChain i xs).map f := by
  have through (ys : List ChainRegion) : (onChain i ys).map f = (onChain i (ys.map stripped)).map f := by
    rw [onChain, onChain, List.filter_map, List.map_map]
    exact List.map_congr_left fun br _ => (keeps br).symm
  rw [through, same, ← through]

theorem Fixed.stripped (fixed : Fixed fs cb xs) : Fixed fs cb xs' where
  readable := fixed.readable
  valid := fixed.valid
  chain := fixed.chain
  layout := by
    refine ⟨?_, ?_, ?_⟩
    · exact forall_stripped same (fun br => ⟨fun h => ⟨h.1, h.2, h.3, h.4⟩, fun h => ⟨h.1, h.2, h.3, h.4⟩⟩)
        fixed.layout.wf
    · have starts := map_stripped same (fun br => (br.br_start_bit, br.br_total_bits)) fun br => rfl
      have sorted (ys : List ChainRegion) :
          (ys.map fun br => (br.br_start_bit, br.br_total_bits)).Pairwise (fun a b => a.1 + a.2 ≤ b.1) ↔
            ys.Pairwise fun a b => a.br_start_bit + a.br_total_bits ≤ b.br_start_bit := List.pairwise_map
      exact (sorted xs').mp (starts ▸ (sorted xs).mpr fixed.layout.sorted)
    · exact forall_stripped same (fun br => Iff.rfl) fixed.layout.bound
  balanced := by
    refine ⟨forall_stripped same (fun br => Iff.rfl) fixed.balanced.group, ?_, ?_⟩
    · intro i rec below entry
      rw [onChain_stripped same freeBits (fun br => rfl)]
      exact fixed.balanced.chain i rec below entry
    · rw [map_stripped same usedBits (fun br => rfl)]
      exact fixed.balanced.used
  sized := by
    refine ⟨forall_stripped same (fun br => Iff.rfl) fixed.sized.narrow,
      forall_stripped same (fun br => Iff.rfl) fixed.sized.listed, ?_, ?_⟩
    · intro i rec below entry
      rw [onChain_stripped same (·.br_total_bits) (fun br => rfl)]
      exact fixed.sized.chainTotal i rec below entry
    · rw [map_stripped same (·.br_total_bits) (fun br => rfl)]
      exact fixed.sized.inodeTotal
  grouped := by
    refine forall_stripped same (fun br => ?_) fixed.grouped
    have room : (ChainAlloc.stripped br).br_private.cr_ag.bg_bitmap.length =
        br.br_private.cr_ag.bg_bitmap.length := by
      simp [ChainAlloc.stripped]
    exact ⟨fun h => ⟨h.1, h.2, h.3, h.4, room ▸ h.5⟩, fun h => ⟨h.1, h.2, h.3, h.4, room ▸ h.5⟩⟩
  chained := by
    refine ⟨fixed.chained.records, ?_⟩
    rw [map_stripped same link (fun br => rfl)]
    exact fixed.chained.chains
  apart := forall_stripped same (fun br => Iff.rfl) fixed.apart

end Write

section WriteBack

abbrev blkno (br : ChainRegion) : Nat := br.br_private.cr_ag.bg_blkno

theorem Fixed.blknos {fs : Filesys} {cb : BitmapPrivate} {xs : List ChainRegion}
    (fixed : Fixed fs cb xs) : (xs.map blkno).Nodup := by
  refine fixed.layout.nodup.map_on fun p hp q hq same => ?_
  have starts : (Except.ok p.br_start_bit : Except Errcode Nat) = .ok q.br_start_bit := by
    rw [← (fixed.grouped p hp).start, ← (fixed.grouped q hq).start,
      show p.br_private.cr_ag.bg_blkno = q.br_private.cr_ag.bg_blkno from same]
  have start := Except.ok.inj starts
  by_contra different
  have := fixed.layout.apart hp hq different
  have := (fixed.layout.wf p hp).nonempty
  have := (fixed.layout.wf q hq).nonempty
  omega

variable (fs : Filesys)

theorem writeMeta_cases (dev : Device) (b : Nat) (block : Block) :
    (∃ faults, writeMeta fs dev b block = (⟨Function.update dev.blocks b block, faults⟩, .ok ())) ∨
      ∃ faults e, writeMeta fs dev b block = (⟨dev.blocks, faults⟩, .error e) ∧ e ≠ .undefined := by
  unfold writeMeta ioWriteBlock
  split_ifs
  · exact .inr ⟨dev.faults, _, rfl, by simp⟩
  · exact .inr ⟨dev.faults, _, rfl, by simp⟩
  · exact .inr ⟨_, _, rfl, by simp⟩
  · exact .inl ⟨_, rfl⟩

theorem Clean.of_same {disk disk' : Disk} {br : ChainRegion} (clean : Clean disk br)
    (same : disk' (blkno br) = disk (blkno br)) : Clean disk' br :=
  ⟨same.trans clean.block, clean.bitmap⟩

theorem writeGroup_cases (dev : Device) (br : ChainRegion)
    (room : br.br_bitmap.length ≤ br.br_private.cr_ag.bg_bitmap.length)
    (clean : br.br_private.cr_dirty = false → Clean dev.blocks br) :
    ∃ dev' br' visit, chainallocWriteGroup fs dev br = (dev', br', visit) ∧
      stripped br' = stripped br ∧ blkno br' = blkno br ∧
      (∀ b, b ≠ blkno br → dev'.blocks b = dev.blocks b) ∧
      (visit = .next ∧ Clean dev'.blocks br' ∧ br'.br_private.cr_dirty = false ∨
        br'.br_private.cr_dirty = true ∧ ∃ e, visit = .failed e ∧ e ≠ .undefined) := by
  by_cases dirty : br.br_private.cr_dirty = true
  · have length := length_splice br.br_private.cr_ag.bg_bitmap 0 br.br_bitmap (by omega)
    simp only [chainallocWriteGroup, dirty, Bool.not_true, Bool.false_eq_true, if_false]
    rcases writeMeta_cases fs dev (blkno br) (.groupDesc { br.br_private.cr_ag with
      bg_bitmap := splice br.br_private.cr_ag.bg_bitmap 0 br.br_bitmap }) with
      ⟨faults, write⟩ | ⟨faults, e, write, defined⟩
    · rw [write]
      refine ⟨_, _, _, rfl, by simp [stripped, length], rfl, ?_, .inl ⟨rfl, ⟨?_, ?_⟩, rfl⟩⟩
      · exact fun b other => Function.update_of_ne other _ _
      · exact Function.update_self _ _ _
      · simp [splice]
    · rw [write]
      exact ⟨_, _, _, rfl, by simp [stripped, length], rfl, fun b _ => rfl, .inr ⟨rfl, e, rfl, defined⟩⟩
  · rw [Bool.not_eq_true] at dirty
    refine ⟨dev, br, .next, ?_, rfl, rfl, fun b _ => rfl, .inl ⟨rfl, clean dirty, dirty⟩⟩
    simp only [chainallocWriteGroup, dirty, Bool.not_false, if_true]

theorem writeGroups_spec (xs : List ChainRegion) (nodup : (xs.map blkno).Nodup)
    (room : ∀ br ∈ xs, br.br_bitmap.length ≤ br.br_private.cr_ag.bg_bitmap.length) (dev : Device)
    (clean : ∀ br ∈ xs, br.br_private.cr_dirty = false → Clean dev.blocks br) :
    ∃ dev' xs' visit, visitAll (chainallocWriteGroup fs) dev xs = (dev', xs', visit) ∧
      xs'.map stripped = xs.map stripped ∧
      (∀ br ∈ xs', br.br_private.cr_dirty = false → Clean dev'.blocks br) ∧
      (∀ b, b ∉ xs.map blkno → dev'.blocks b = dev.blocks b) ∧
      (visit = .next ∧ (∀ br ∈ xs', br.br_private.cr_dirty = false) ∨
        ∃ e, visit = .failed e ∧ e ≠ .undefined) := by
  induction xs generalizing dev with
  | nil => exact ⟨dev, [], .next, rfl, rfl, by simp, by simp, .inl ⟨rfl, by simp⟩⟩
  | cons br xs ih =>
    obtain ⟨headRoom, tailRoom⟩ := List.forall_mem_cons.mp room
    obtain ⟨headClean, tailClean⟩ := List.forall_mem_cons.mp clean
    rw [List.map_cons, List.nodup_cons] at nodup
    have apart : ∀ r ∈ xs, blkno r ≠ blkno br := fun r h same => nodup.1 (same ▸ List.mem_map_of_mem h)
    obtain ⟨dev₁, br₁, visit, run, same, home, others, ends⟩ := writeGroup_cases fs dev br headRoom headClean
    have tailClean₁ : ∀ r ∈ xs, r.br_private.cr_dirty = false → Clean dev₁.blocks r :=
      fun r h flag => (tailClean r h flag).of_same (others _ (apart r h))
    rcases ends with ⟨rfl, written, flag⟩ | ⟨flag, e, rfl, defined⟩
    · obtain ⟨dev', xs', visit', rest, same', clean', others', ends'⟩ := ih nodup.2 tailRoom dev₁ tailClean₁
      refine ⟨dev', br₁ :: xs', visit', by simp only [visitAll, run, rest], by simp [same, same'], ?_, ?_, ?_⟩
      · refine List.forall_mem_cons.mpr ⟨fun _ => written.of_same (others' _ ?_), clean'⟩
        rw [home]
        exact nodup.1
      · intro b outside
        rw [List.map_cons, List.mem_cons, not_or] at outside
        rw [others' b outside.2, others b outside.1]
      · exact ends'.imp_left (And.imp_right fun all => List.forall_mem_cons.mpr ⟨flag, all⟩)
    · refine ⟨dev₁, br₁ :: xs, .failed e, by simp only [visitAll, run], by simp [same], ?_, ?_,
        .inr ⟨e, rfl, defined⟩⟩
      · exact List.forall_mem_cons.mpr ⟨fun clear => absurd clear (by simp [flag]), tailClean₁⟩
      · intro b outside
        rw [List.map_cons, List.mem_cons, not_or] at outside
        exact others b outside.1

theorem chainallocWriteBitmap_spec (dev : Device) (bitmap : ChainBitmap)
    (sound : Sound fs dev.blocks (bitmap.b_private, bitmap.b_regions.toList)) :
    ∃ dev' bitmap' result, chainallocWriteBitmap fs dev bitmap = (dev', bitmap', result) ∧
      Sound fs dev'.blocks (bitmap'.b_private, bitmap'.b_regions.toList) ∧
      bitmap'.b_private.ci_blkno = bitmap.b_private.ci_blkno ∧
      (result = .ok () ∧ bitmap'.b_private.cb_dirty = false ∨
        ∃ e, result = .error e ∧ e ≠ .undefined) := by
  obtain ⟨fixed, synced⟩ := sound
  dsimp only at fixed synced
  by_cases dirty : bitmap.b_private.cb_dirty = true
  · obtain ⟨dev₁, xs₁, visit, run, same, clean, others, ends⟩ := writeGroups_spec fs
      bitmap.b_regions.toList fixed.blknos
      (fun br h => (fixed.layout.wf br h).bytes ▸ (fixed.grouped br h).room) dev synced.groups
    have visits := foreachRegion_eq (chainallocWriteGroup fs) dev bitmap.b_regions
    rcases all : foreachRegion (chainallocWriteGroup fs) dev bitmap.b_regions with ⟨d, regions, v⟩
    rw [all, run] at visits
    simp only [Prod.mk.injEq] at visits
    obtain ⟨rfl, rfl, rfl⟩ := visits
    have fixed₁ := fixed.stripped same
    have still : Sound fs dev₁.blocks (bitmap.b_private, regions.toList) :=
      ⟨fixed₁, clean, fun flag => absurd flag (by simp [dirty])⟩
    simp only [chainallocWriteBitmap, dirty, Bool.not_true, Bool.false_eq_true, if_false, all]
    rcases ends with ⟨rfl, flags⟩ | ⟨e, rfl, defined⟩
    · simp only [Visit.result]
      rcases writeMeta_cases fs dev₁ bitmap.b_private.ci_blkno
        (.dinode bitmap.b_private.ci_inode) with ⟨faults, write⟩ | ⟨faults, e, write, defined⟩
      · rw [write]
        refine ⟨_, _, _, rfl, ⟨⟨fixed₁.readable, fixed₁.valid, fixed₁.chain, fixed₁.layout, ?_, ?_,
          fixed₁.grouped, fixed₁.chained, fixed₁.apart⟩, ?_, ?_⟩, rfl, .inl ⟨rfl, rfl⟩⟩
        · exact ⟨fixed₁.balanced.group, fixed₁.balanced.chain, fixed₁.balanced.used⟩
        · exact ⟨fixed₁.sized.narrow, fixed₁.sized.listed, fixed₁.sized.chainTotal, fixed₁.sized.inodeTotal⟩
        · intro br h flag
          exact (clean br h flag).of_same (Function.update_of_ne (fixed₁.apart br h) _ _)
        · intro _
          exact ⟨flags, Function.update_self _ _ _⟩
      · rw [write]
        exact ⟨_, _, _, rfl, still, rfl, .inr ⟨e, rfl, defined⟩⟩
    · exact ⟨_, _, _, rfl, still, rfl, .inr ⟨e, rfl, defined⟩⟩
  · rw [Bool.not_eq_true] at dirty
    refine ⟨dev, bitmap, .ok (), ?_, ⟨fixed, synced⟩, rfl, .inl ⟨rfl, dirty⟩⟩
    simp only [chainallocWriteBitmap, dirty, Bool.not_false, if_true]

end WriteBack

section Reload

theorem Grouped.stored {fs : Filesys} {disk : Disk} {bpc : Nat} {br : ChainRegion}
    (grouped : Grouped fs bpc br) (clean : Clean disk br) (flag : br.br_private.cr_dirty = false)
    (wf : br.Wf) (free : br.br_private.cr_ag.bg_free_bits_count.toNat = freeBits br) :
    Stored fs disk bpc br := by
  refine ⟨grouped.readable, clean.block, ?_⟩
  have room : ¬ alignTotal br.br_private.cr_ag.bg_bits > br.br_private.cr_ag.bg_bitmap.length := by
    rw [grouped.bits]
    exact Nat.not_lt.mpr grouped.room
  have used : br.br_set_bits = usedBits br := wf.count
  have both := free_add_used br
  have bitmap := clean.bitmap
  have bits := grouped.bits
  rw [wf.bytes, ← bits] at bitmap
  rw [groupRegion, if_neg (by simp [grouped.size]), grouped.start]
  simp only [room, if_false, Except.ok.injEq, bitmap, free]
  have set : (br.br_private.cr_ag.bg_bits - freeBits br : Int) = br.br_set_bits := by omega
  rw [set, bits]
  obtain ⟨start, total, set, bits, ⟨ag, dirty⟩⟩ := br
  cases flag
  rfl

theorem Sound.reload {fs : Filesys} {disk : Disk} {bitmap : ChainBitmap}
    (sound : Sound fs disk (bitmap.b_private, bitmap.b_regions.toList))
    (flag : bitmap.b_private.cb_dirty = false) :
    ∃ fresh, loadChainAllocator fs disk bitmap.b_private.ci_blkno = .ok fresh ∧
      fresh.b_private = bitmap.b_private ∧ fresh.b_regions.toList = bitmap.b_regions.toList := by
  obtain ⟨fixed, synced⟩ := sound
  dsimp only at fixed synced
  obtain ⟨flags, inode⟩ := synced.inode flag
  obtain ⟨fresh, run, -, priv, list⟩ := loadChainAllocator_spec fs disk bitmap.b_private _ fixed.readable
    inode fixed.valid fixed.chain fixed.chained fixed.layout (fun br h => (fixed.grouped br h).stored
      (synced.groups br h (flags br h)) (flags br h) (fixed.layout.wf br h) (fixed.balanced.group br h))
  refine ⟨fresh, run, ?_, list⟩
  rw [priv, ← flag]

end Reload

end Ocfs2.ChainAlloc
