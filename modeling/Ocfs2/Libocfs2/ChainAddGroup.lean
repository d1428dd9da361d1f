import Ocfs2.Libocfs2.ClusterAlloc

set_option autoImplicit false

namespace Ocfs2.ChainAlloc

open ByteBuffer Rbtree Bitmap

section Model

structure CachedInode where
  ci_chains : ChainBitmap
  cl_cpg : Nat
  cl_count : Nat
  i_clusters : BitVec 32
  i_size : BitVec 64

def CachedInode.ci_inode (cinode : CachedInode) : Dinode := cinode.ci_chains.b_private.ci_inode

def CachedInode.withInode (cinode : CachedInode) (di : Dinode) : CachedInode :=
  { cinode with ci_chains := { cinode.ci_chains with b_private := { cinode.ci_chains.b_private with ci_inode := di } } }

structure GrowState where
  dev : Device
  fs_cluster_alloc : ChainBitmap
  cinode : CachedInode

structure GrowFaults where
  buf : Option Errcode
  process : Option Errcode
  deriving DecidableEq

def initGroupDesc (fs : Filesys) (blkno bits chain : Nat) : GroupDesc where
  bg_size := groupBitmapSize fs.fs_blocksize
  bg_bits := bits % 2 ^ 16
  bg_free_bits_count := BitVec.ofNat 16 bits - 1
  bg_chain := chain
  bg_next_group := 0
  bg_blkno := blkno
  -- the first bit is for the descriptor
  bg_bitmap := (Bitops.setBit 0 (List.replicate (groupBitmapSize fs.fs_blocksize) 0)).2

def newGroup (fs : Filesys) (cinode : CachedInode) (blkno chainNum : Nat) (rec : ChainRec) : GroupDesc :=
  { initGroupDesc fs blkno (cinode.cl_cpg * cinode.ci_inode.cl_bpc) chainNum with bg_next_group := rec.c_blkno }

def startBlkno (fs : Filesys) (bitmap : ChainBitmap) (min requested old : Nat) : Nat :=
  match (chainAllocRange bitmap min requested).2 with
  | .ok (startBit, _) => clustersToBlocks fs startBit
  | .error _ => old

def pickChain (cinode : CachedInode) : Option Nat :=
  if cinode.ci_inode.cl_next_free_rec < cinode.cl_count then some cinode.ci_inode.cl_next_free_rec
  else if cinode.cl_cpg = 0 ∨ cinode.cl_count = 0 then none
  else some (cinode.i_clusters.toNat / cinode.cl_cpg % cinode.cl_count)

def GroupDesc.used (gd : GroupDesc) : BitVec 32 := BitVec.ofInt 32 (gd.bg_bits - gd.bg_free_bits_count.toNat)

def clustersSize (fs : Filesys) (clusters : BitVec 32) : BitVec 64 :=
  clusters.setWidth 64 * BitVec.ofNat 64 fs.fs_clustersize

def addCounts (fs : Filesys) (cinode : CachedInode) (chainNum blkno : Nat) (gd : GroupDesc) : CachedInode :=
  let di := cinode.ci_inode
  let clusters := cinode.i_clusters + BitVec.ofNat 32 cinode.cl_cpg
  { cinode.withInode { di with
      cl_recs := di.cl_recs.modify chainNum fun rec =>
        ⟨rec.c_free + gd.bg_free_bits_count.setWidth 32, rec.c_total + BitVec.ofNat 32 gd.bg_bits, blkno⟩
      i_total := di.i_total + BitVec.ofNat 32 gd.bg_bits
      i_used := di.i_used + gd.used
      cl_next_free_rec := if di.cl_next_free_rec = chainNum then chainNum + 1 else di.cl_next_free_rec } with
    i_clusters := clusters
    i_size := clustersSize fs clusters }

def subCounts (fs : Filesys) (cinode : CachedInode) (chainNum oldBlkno : Nat) (gd : GroupDesc) : CachedInode :=
  let di := cinode.ci_inode
  let clusters := cinode.i_clusters - BitVec.ofNat 32 cinode.cl_cpg
  { cinode.withInode { di with
      cl_recs := di.cl_recs.modify chainNum fun rec =>
        ⟨rec.c_free - gd.bg_free_bits_count.setWidth 32, rec.c_total - BitVec.ofNat 32 gd.bg_bits, oldBlkno⟩
      i_total := di.i_total - BitVec.ofNat 32 gd.bg_bits
      i_used := di.i_used - gd.used
      cl_next_free_rec := if di.cl_next_free_rec = chainNum + 1 ∧ oldBlkno = 0 then chainNum
        else di.cl_next_free_rec } with
    i_clusters := clusters
    i_size := clustersSize fs clusters }

variable (fs : Filesys)

def writeCachedInode (dev : Device) (cinode : CachedInode) : Device × Except Errcode Unit :=
  writeMeta fs dev cinode.ci_chains.b_private.ci_blkno (.dinode cinode.ci_inode)

def giveBack (state : GrowState) (blkno : Nat) (e : Errcode) : GrowState × Except Errcode Unit :=
  if blkno = 0 then (state, .error e)
  else
    let (dev, bitmap, result) := undoClusters fs Unit state.dev state.fs_cluster_alloc state.cinode.cl_cpg blkno e
    ({ state with dev, fs_cluster_alloc := bitmap }, result)

def takeBack (state : GrowState) (chainNum oldBlkno blkno : Nat) (gd : GroupDesc) (e : Errcode) :
    GrowState × Except Errcode Unit :=
  let cinode := subCounts fs state.cinode chainNum oldBlkno gd
  giveBack fs { state with cinode, dev := (writeCachedInode fs state.dev cinode).1 } blkno e

def addToChain (faults : GrowFaults) (state : GrowState) (blkno chainNum : Nat) (rec : ChainRec) :
    GrowState × Except Errcode Unit :=
  let cinode := state.cinode
  let gd := newGroup fs cinode blkno chainNum rec
  match writeMeta fs state.dev blkno (.groupDesc gd) with
  -- here the counts are taken back before they were added
  | (dev, .error e) => takeBack fs { state with dev } chainNum rec.c_blkno blkno gd e
  | (dev, .ok ()) =>
    let cinode := addCounts fs cinode chainNum blkno gd
    match writeCachedInode fs dev cinode with
    | (dev, .error e) => takeBack fs { state with dev, cinode } chainNum rec.c_blkno blkno gd e
    | (dev, .ok ()) =>
      let loaded : Except Errcode ChainBitmap := match faults.process with
        | some e => .error e
        | none => chainallocProcessGroup fs dev.blocks blkno cinode.ci_chains
      match loaded with
      | .error .undefined => ({ state with dev, cinode }, .error .undefined)
      | .error e => takeBack fs { state with dev, cinode } chainNum rec.c_blkno blkno gd e
      | .ok chains => ({ state with dev, cinode := { cinode with ci_chains := chains } }, .ok ())

def chainAddGroup (faults : GrowFaults) (state : GrowState) : GrowState × Except Errcode Unit :=
  let cpg := state.cinode.cl_cpg
  match faults.buf with
  | some e => (state, .error e)
  | none =>
    match newClusters fs state.dev state.fs_cluster_alloc cpg cpg with
    | (dev, bitmap, .error .undefined) => ({ state with dev, fs_cluster_alloc := bitmap }, .error .undefined)
    | (dev, bitmap, .error e) =>
      giveBack fs { state with dev, fs_cluster_alloc := bitmap } (startBlkno fs state.fs_cluster_alloc cpg cpg 0) e
    | (dev, bitmap, .ok (blkno, found)) =>
      let state := { state with dev, fs_cluster_alloc := bitmap }
      if found ≠ cpg then (state, .error .undefined)
      else
        match pickChain state.cinode with
        | none => (state, .error .undefined)
        | some chainNum =>
          match state.cinode.ci_inode.cl_recs[chainNum]? with
          | none => (state, .error .undefined)
          | some rec => addToChain fs faults state blkno chainNum rec

end Model

section Counts

structure Unchanged (fs : Filesys) (before after : GrowState) : Prop where
  clusters : Restored before.fs_cluster_alloc after.fs_cluster_alloc
  chains : after.cinode.ci_chains = before.cinode.ci_chains
  total : after.cinode.i_clusters = before.cinode.i_clusters
  size : before.cinode.i_size = clustersSize fs before.cinode.i_clusters → after.cinode.i_size = before.cinode.i_size

def RecordFits (di : Dinode) (chainNum : Nat) (rec : ChainRec) : Prop :=
  (di.cl_next_free_rec = chainNum → rec.c_blkno = 0) ∧ (di.cl_next_free_rec = chainNum + 1 → rec.c_blkno ≠ 0)

variable {fs : Filesys} {cinode : CachedInode} {chainNum blkno : Nat} {rec : ChainRec} {gd : GroupDesc}

theorem newGroup_used (fs : Filesys) (cinode : CachedInode) (blkno chainNum : Nat) (rec : ChainRec) :
    (newGroup fs cinode blkno chainNum rec).used ≠ 0 := by
  simp only [GroupDesc.used, newGroup, initGroupDesc]
  generalize cinode.cl_cpg * cinode.ci_inode.cl_bpc = bits
  by_cases none : bits % 2 ^ 16 = 0
  · have free : (BitVec.ofNat 16 bits - 1).toNat = 65535 := by simp [BitVec.toNat_sub]; omega
    rw [free, none]
    decide
  · have free : (BitVec.ofNat 16 bits - 1).toNat = bits % 2 ^ 16 - 1 := by simp [BitVec.toNat_sub]; omega
    rw [free, show ((bits % 2 ^ 16 : Nat) : Int) - ((bits % 2 ^ 16 - 1 : Nat) : Int) = 1 by omega]
    decide

theorem withInode_eq_iff (cinode : CachedInode) (di : Dinode) :
    (cinode.withInode di).ci_chains = cinode.ci_chains ↔ di = cinode.ci_inode := by
  constructor
  · intro same
    exact congrArg (·.b_private.ci_inode) same
  · rintro rfl
    rfl

theorem modify_back {α : Type} {l : List α} {i : Nat} {a : α} (entry : l[i]? = some a) {f g : α → α} (back : f (g a) = a) :
    (l.modify i g).modify i f = l := by
  refine List.ext_getElem? fun j => ?_
  by_cases here : i = j
  · subst here
    simp [entry, back]
  · simp [here]

theorem subCounts_addCounts (entry : cinode.ci_inode.cl_recs[chainNum]? = some rec) :
    (subCounts fs (addCounts fs cinode chainNum blkno gd) chainNum rec.c_blkno gd).ci_chains = cinode.ci_chains ↔
      RecordFits cinode.ci_inode chainNum rec := by
  have recs : ((cinode.ci_inode.cl_recs.modify chainNum fun rec : ChainRec =>
        ⟨rec.c_free + gd.bg_free_bits_count.setWidth 32, rec.c_total + BitVec.ofNat 32 gd.bg_bits, blkno⟩).modify chainNum
      fun old => ⟨old.c_free - gd.bg_free_bits_count.setWidth 32, old.c_total - BitVec.ofNat 32 gd.bg_bits,
        rec.c_blkno⟩) = cinode.ci_inode.cl_recs := modify_back entry (by simp [BitVec.add_sub_cancel])
  have chains : (subCounts fs (addCounts fs cinode chainNum blkno gd) chainNum rec.c_blkno gd).ci_chains =
      (cinode.withInode { cinode.ci_inode with
        cl_next_free_rec := (subCounts fs (addCounts fs cinode chainNum blkno gd) chainNum rec.c_blkno gd).ci_inode.cl_next_free_rec
        }).ci_chains := by
    simp only [subCounts, addCounts, CachedInode.withInode, CachedInode.ci_inode, BitVec.add_sub_cancel] at recs ⊢
    rw [recs]
  have used (di : Dinode) (n : Nat) : { di with cl_next_free_rec := n } = di ↔ n = di.cl_next_free_rec := by
    cases di
    simp
  rw [chains, withInode_eq_iff, used, RecordFits]
  simp only [subCounts, addCounts, CachedInode.withInode, CachedInode.ci_inode]
  by_cases new : cinode.ci_chains.b_private.ci_inode.cl_next_free_rec = chainNum
  · by_cases empty : rec.c_blkno = 0 <;> simp [new, empty]
  · by_cases last : cinode.ci_chains.b_private.ci_inode.cl_next_free_rec = chainNum + 1
    · by_cases empty : rec.c_blkno = 0 <;> simp [last, empty]
    · simp [new, last]

theorem subCounts_ne (used : gd.used ≠ 0) :
    (subCounts fs cinode chainNum blkno gd).ci_chains ≠ cinode.ci_chains := by
  intro same
  have counts : cinode.ci_inode.i_used - gd.used = cinode.ci_inode.i_used :=
    congrArg (·.b_private.ci_inode.i_used) same
  exact used (by grind)

end Counts

section Failures

variable {fs : Filesys}

def InRegion (bitmap : ChainBitmap) (start len : Nat) : Prop :=
  ∃ br ∈ bitmap.b_regions.toList, ∀ x, start ≤ x → x < start + len → br.Covers x

variable {start : Nat} {before : GrowState}

theorem Tracked.inRegion {total len : Nat} {before after : ChainBitmap} (tracked : Tracked total before after)
    (inside : InRegion before start len) : InRegion after start len := by
  obtain ⟨br, mem, covers⟩ := inside
  have resets : after.b_regions.toList.map reset = before.b_regions.toList.map reset := congrArg Prod.snd tracked.same
  have held : reset br ∈ after.b_regions.toList.map reset := resets ▸ List.mem_map_of_mem mem
  obtain ⟨br', mem', same⟩ := List.mem_map.mp held
  have begins := congrArg Region.br_start_bit same
  have bits := congrArg Region.br_total_bits same
  simp only [reset] at begins bits
  refine ⟨br', mem', fun x low high => ?_⟩
  rw [Region.Covers, begins, bits]
  exact covers x low high

theorem newClusters_whole {bitmap : ChainBitmap} (layout : Layout bitmap.b_total_bits bitmap.b_regions.toList)
    (word : bitmap.b_total_bits < 2 ^ 32) (wide : 0 < fs.blocksPerCluster) (dev : Device) (cpg : Nat) :
    startBlkno fs bitmap cpg cpg 0 = 0 ∧ (∃ e, newClusters fs dev bitmap cpg cpg = (dev, bitmap, .error e)) ∨
    ∃ start, 0 < cpg ∧ cpg < 2 ^ 32 ∧ start < 2 ^ 32 ∧ startBlkno fs bitmap cpg cpg 0 = clustersToBlocks fs start ∧
      InRegion bitmap start cpg ∧ (∀ x, start ≤ x → x < start + cpg → ¬ Member bitmap.b_regions.toList x) ∧
      ∃ dev' mid result, newClusters fs dev bitmap cpg cpg = (dev', mid, result) ∧
        Tracked bitmap.b_total_bits bitmap mid ∧
        ((∃ e, result = .error e ∧ e ≠ .undefined) ∧
            (∀ x, Member mid.b_regions.toList x ↔ Member bitmap.b_regions.toList x) ∨
          result = .ok (clustersToBlocks fs start, cpg) ∧
            ∀ x, Member mid.b_regions.toList x ↔ Member bitmap.b_regions.toList x ∨ start ≤ x ∧ x < start + cpg) := by
  rcases run : bitmap.allocRange (allocRangeGeneric chainallocBitmapOps) cpg cpg with e | ⟨taken, start, found⟩
  · exact .inl ⟨by simp only [startBlkno, chainAllocRange, run], e, by simp only [newClusters, chainAllocRange, run]⟩
  · have alloc : chainAllocRange bitmap cpg cpg = (taken, .ok (start, found)) := by simp only [chainAllocRange, run]
    obtain ⟨pos, small, low, got, took, -⟩ := allocRange_tracked layout word run
    obtain rfl : found = cpg := le_antisymm got.atMost got.atLeast
    have tracked := took.trans (.write fs took.layout dev)
    have members := member_write fs dev taken
    have defined := writeBitmap_defined fs dev taken
    have first := blocksToClusters_clustersToBlocks fs wide low
    refine .inr ⟨start, pos, small, low, by simp only [startBlkno, alloc], got.region, got.clear, ?_⟩
    rcases write : chainallocWriteBitmap fs dev taken with ⟨dev', dirty, e | ⟨⟩⟩
    · rw [write] at tracked members defined
      have size : dirty.b_total_bits = bitmap.b_total_bits := tracked.size
      obtain ⟨_, _, result, undone, member⟩ := undoClusters_run (Nat × Nat) (size ▸ tracked.layout) dev' pos small
        (tracked.inRegion got.region) first e
      refine ⟨_, _, _, by simp only [newClusters, alloc, write, result]; rfl, tracked.trans (size ▸ undone),
        .inl ⟨⟨e, rfl, ?_⟩, ?_⟩⟩
      · simpa using defined
      · intro x
        rw [member x, members x, got.member x]
        by_cases range : start ≤ x ∧ x < start + found
        · exact iff_of_false (fun both => both.2 range) (got.clear x range.1 range.2)
        · simp [range]
    · rw [write] at tracked members
      refine ⟨dev', dirty, .ok (clustersToBlocks fs start, found), ?_, tracked, .inr ⟨rfl, fun x => ?_⟩⟩
      · simp only [newClusters, alloc, write]
        rw [Nat.mod_eq_of_lt small]
      · rw [members x, got.member x]

structure Granted (before mid : ChainBitmap) (start cpg : Nat) : Prop where
  layout : Layout before.b_total_bits before.b_regions.toList
  tracked : Tracked before.b_total_bits before mid
  pos : 0 < cpg
  word : cpg < 2 ^ 32
  low : start < 2 ^ 32
  inside : InRegion before start cpg
  clear : ∀ x, start ≤ x → x < start + cpg → ¬ Member before.b_regions.toList x
  member : ∀ x, Member mid.b_regions.toList x ↔ Member before.b_regions.toList x ∨ start ≤ x ∧ x < start + cpg

theorem giveBack_spec (state : GrowState) {before : ChainBitmap}
    (tracked : Tracked before.b_total_bits before state.fs_cluster_alloc) (pos : 0 < state.cinode.cl_cpg)
    (word : state.cinode.cl_cpg < 2 ^ 32) (inside : InRegion before start state.cinode.cl_cpg)
    (wide : 0 < fs.blocksPerCluster) (low : start < 2 ^ 32) (e : Errcode) :
    ∃ dev after, giveBack fs state (clustersToBlocks fs start) e = (⟨dev, after, state.cinode⟩, .error e) ∧
      Tracked before.b_total_bits before after ∧ ∀ x, Member after.b_regions.toList x ↔
        Member state.fs_cluster_alloc.b_regions.toList x ∧
          ¬ (clustersToBlocks fs start ≠ 0 ∧ start ≤ x ∧ x < start + state.cinode.cl_cpg) := by
  by_cases none : clustersToBlocks fs start = 0
  · exact ⟨_, _, by rw [giveBack, if_pos none], tracked, by simp [none]⟩
  · have size := tracked.size
    obtain ⟨_, _, run, undone, member⟩ := undoClusters_run Unit (size ▸ tracked.layout) state.dev pos word
      (tracked.inRegion inside) (blocksToClusters_clustersToBlocks fs wide low) e
    refine ⟨_, _, by rw [giveBack, if_neg none, run], tracked.trans (size ▸ undone), fun x => ?_⟩
    simp only [member x, none, ne_eq, not_false_iff, true_and]

theorem takeBack_unchanged_iff (state : GrowState) {chainNum oldBlkno : Nat} {gd : GroupDesc}
    (granted : Granted before.fs_cluster_alloc state.fs_cluster_alloc start before.cinode.cl_cpg)
    (same : state.cinode.cl_cpg = before.cinode.cl_cpg) (wide : 0 < fs.blocksPerCluster)
    (home : clustersToBlocks fs start ≠ 0) (e : Errcode) :
    Unchanged fs before (takeBack fs state chainNum oldBlkno (clustersToBlocks fs start) gd e).1 ↔
      (subCounts fs state.cinode chainNum oldBlkno gd).ci_chains = before.cinode.ci_chains ∧
      (subCounts fs state.cinode chainNum oldBlkno gd).i_clusters = before.cinode.i_clusters := by
  have cpg : (subCounts fs state.cinode chainNum oldBlkno gd).cl_cpg = before.cinode.cl_cpg := same
  obtain ⟨_, _, run, undone, back⟩ := giveBack_spec ⟨(writeCachedInode fs state.dev
      (subCounts fs state.cinode chainNum oldBlkno gd)).1, state.fs_cluster_alloc,
      subCounts fs state.cinode chainNum oldBlkno gd⟩
    granted.tracked (cpg ▸ granted.pos) (cpg ▸ granted.word) (cpg ▸ granted.inside) wide granted.low e
  simp only [takeBack, run]
  refine ⟨fun unchanged => ⟨unchanged.chains, unchanged.total⟩, ?_⟩
  rintro ⟨chains, total⟩
  refine ⟨(restored_iff_member granted.layout undone.layout undone.size undone.same).mpr fun x => ?_, chains, total, ?_⟩
  · rw [back x]
    simp only [granted.member x, cpg]
    by_cases range : start ≤ x ∧ x < start + before.cinode.cl_cpg
    · exact iff_of_false (fun both => both.2 ⟨home, range⟩) (granted.clear x range.1 range.2)
    · simp [range]
  · intro size
    rw [size]
    exact congrArg (clustersSize fs) total

theorem takeBack_added_iff {mid : ChainBitmap} {chainNum : Nat} {rec : ChainRec}
    (granted : Granted before.fs_cluster_alloc mid start before.cinode.cl_cpg) (wide : 0 < fs.blocksPerCluster)
    (home : clustersToBlocks fs start ≠ 0) (entry : before.cinode.ci_inode.cl_recs[chainNum]? = some rec)
    (dev : Device) (gd : GroupDesc) (e : Errcode) :
    Unchanged fs before (takeBack fs ⟨dev, mid, addCounts fs before.cinode chainNum (clustersToBlocks fs start) gd⟩
      chainNum rec.c_blkno (clustersToBlocks fs start) gd e).1 ↔ RecordFits before.cinode.ci_inode chainNum rec := by
  rw [takeBack_unchanged_iff ⟨dev, mid, addCounts fs before.cinode chainNum (clustersToBlocks fs start) gd⟩ granted rfl
    wide home e, subCounts_addCounts entry, and_iff_left]
  exact BitVec.add_sub_cancel _ _

theorem takeBack_cinode (state : GrowState) (chainNum oldBlkno blkno : Nat) (gd : GroupDesc) (e : Errcode) :
    (takeBack fs state chainNum oldBlkno blkno gd e).1.cinode = subCounts fs state.cinode chainNum oldBlkno gd := by
  rw [takeBack, giveBack]
  split_ifs <;> rfl

theorem writeMeta_ok {dev dev' : Device} {blkno : Nat} {block : Block}
    (write : writeMeta fs dev blkno block = (dev', .ok ())) : blkno ≠ 0 := by
  rintro rfl
  have bad : badBlkno fs 0 = true := by simp [badBlkno, superBlockBlkno]
  cases flag : fs.rw <;> simp [writeMeta, bad, flag] at write

theorem addToChain_unchanged_iff (mid : GrowState) {chainNum : Nat} {rec : ChainRec}
    (granted : Granted before.fs_cluster_alloc mid.fs_cluster_alloc start before.cinode.cl_cpg)
    (cinode : mid.cinode = before.cinode) (wide : 0 < fs.blocksPerCluster)
    (entry : before.cinode.ci_inode.cl_recs[chainNum]? = some rec) (faults : GrowFaults) {e : Errcode}
    (failed : (addToChain fs faults mid (clustersToBlocks fs start) chainNum rec).2 = .error e) (defined : e ≠ .undefined) :
    Unchanged fs before (addToChain fs faults mid (clustersToBlocks fs start) chainNum rec).1 ↔
      (writeMeta fs mid.dev (clustersToBlocks fs start)
        (.groupDesc (newGroup fs before.cinode (clustersToBlocks fs start) chainNum rec))).2 = .ok () ∧
      RecordFits before.cinode.ci_inode chainNum rec := by
  rw [addToChain, cinode] at failed ⊢
  rcases write : writeMeta fs mid.dev (clustersToBlocks fs start)
    (.groupDesc (newGroup fs before.cinode (clustersToBlocks fs start) chainNum rec)) with ⟨dev, e' | ⟨⟩⟩
  · refine iff_of_false (fun unchanged => ?_) (by simp)
    have chains := unchanged.chains
    simp only [takeBack_cinode] at chains
    exact subCounts_ne (newGroup_used fs before.cinode (clustersToBlocks fs start) chainNum rec) chains
  · have home := writeMeta_ok write
    simp only [write, true_and] at failed ⊢
    rcases inode : writeCachedInode fs dev (addCounts fs before.cinode chainNum (clustersToBlocks fs start)
      (newGroup fs before.cinode (clustersToBlocks fs start) chainNum rec)) with ⟨dev', e' | ⟨⟩⟩
    · exact takeBack_added_iff granted wide home entry _ _ _
    · simp only [inode] at failed ⊢
      generalize (match faults.process with
        | some e => Except.error e
        | none => chainallocProcessGroup fs dev'.blocks (clustersToBlocks fs start) (addCounts fs before.cinode chainNum
            (clustersToBlocks fs start) (newGroup fs before.cinode (clustersToBlocks fs start) chainNum rec)).ci_chains) =
        loaded at failed ⊢
      rcases loaded with e' | chains
      · by_cases known : e' = .undefined
        · subst known
          simp only [Except.error.injEq] at failed
          exact absurd failed.symm defined
        · simp only
          exact takeBack_added_iff granted wide home entry _ _ e'
      · cases failed

def FailsHarmlessly (fs : Filesys) (faults : GrowFaults) (state : GrowState) : Prop :=
  faults.buf = none → ∀ dev bitmap blkno found,
    newClusters fs state.dev state.fs_cluster_alloc state.cinode.cl_cpg state.cinode.cl_cpg =
      (dev, bitmap, .ok (blkno, found)) →
    ∀ chainNum rec, pickChain state.cinode = some chainNum → state.cinode.ci_inode.cl_recs[chainNum]? = some rec →
      (writeMeta fs dev blkno (.groupDesc (newGroup fs state.cinode blkno chainNum rec))).2 = .ok () ∧
      RecordFits state.cinode.ci_inode chainNum rec

theorem chainAddGroup_unchanged_iff {state : GrowState}
    (layout : Layout state.fs_cluster_alloc.b_total_bits state.fs_cluster_alloc.b_regions.toList)
    (word : state.fs_cluster_alloc.b_total_bits < 2 ^ 32) (wide : 0 < fs.blocksPerCluster) (faults : GrowFaults)
    {e : Errcode} (failed : (chainAddGroup fs faults state).2 = .error e) (defined : e ≠ .undefined) :
    Unchanged fs state (chainAddGroup fs faults state).1 ↔ FailsHarmlessly fs faults state := by
  rw [FailsHarmlessly]
  cases buf : faults.buf with
  | some reason =>
    simp only [chainAddGroup, buf]
    exact iff_of_true ⟨⟨rfl, rfl, rfl⟩, rfl, rfl, fun _ => rfl⟩ (by simp)
  | none =>
    simp only [chainAddGroup, buf, true_imp_iff] at failed ⊢
    rcases newClusters_whole layout word wide state.dev state.cinode.cl_cpg with
      ⟨none, reason, run⟩ | ⟨start, pos, small, low, block, inside, clear, dev, mid, result, run, tracked, ends⟩
    · simp only [run, none] at failed ⊢
      refine iff_of_true ?_ (by simp)
      by_cases known : reason = .undefined
      · subst known
        exact ⟨⟨rfl, rfl, rfl⟩, rfl, rfl, fun _ => rfl⟩
      · simp only [giveBack]
        exact ⟨⟨rfl, rfl, rfl⟩, rfl, rfl, fun _ => rfl⟩
    · rcases ends with ⟨⟨reason, rfl, known⟩, member⟩ | ⟨rfl, member⟩
      · simp only [run, block] at failed ⊢
        refine iff_of_true ?_ (by simp)
        obtain ⟨_, _, undo, undone, back⟩ := giveBack_spec ⟨dev, mid, state.cinode⟩ tracked pos small inside wide low reason
        rw [undo]
        refine ⟨(restored_iff_member layout undone.layout undone.size undone.same).mpr fun x => ?_, rfl, rfl, fun _ => rfl⟩
        rw [back x]
        simp only [member x]
        exact and_iff_left_of_imp fun held range => clear x range.2.1 range.2.2 held
      · simp only [run, ne_eq, not_true_eq_false, if_false] at failed ⊢
        cases chain : pickChain state.cinode with
        | none =>
          simp only [chain, Except.error.injEq] at failed
          exact absurd failed.symm defined
        | some chainNum =>
          simp only [chain] at failed ⊢
          cases entry : state.cinode.ci_inode.cl_recs[chainNum]? with
          | none =>
            simp only [entry, Except.error.injEq] at failed
            exact absurd failed.symm defined
          | some rec =>
            simp only [entry] at failed ⊢
            have granted : Granted state.fs_cluster_alloc mid start state.cinode.cl_cpg :=
              ⟨layout, tracked, pos, small, low, inside, clear, member⟩
            refine (addToChain_unchanged_iff ⟨dev, mid, state.cinode⟩ granted rfl wide entry faults failed defined).trans
              ⟨fun fits => ?_, fun all => all dev mid _ _ rfl chainNum rec rfl entry⟩
            intro dev' mid' blkno found same chainNum' rec' chain' entry'
            simp only [Prod.mk.injEq, Except.ok.injEq, Option.some.injEq] at same chain'
            obtain ⟨rfl, rfl, rfl, rfl⟩ := same
            subst chain'
            rw [entry, Option.some.injEq] at entry'
            subst entry'
            exact fits

end Failures

def halfFree : ChainBitmap where
  b_total_bits := 16
  b_set_bits := 0
  b_regions := .node .black .nil ⟨0, 16, 8, [0xff#8, 0x00#8], ⟨⟨960, 16, 8#16, 0, 0, 4, [0xff#8, 0x00#8]⟩, false⟩⟩ .nil
  b_private := ⟨8, ⟨true, true, 8#32, 16#32, 1, 1, [⟨8#32, 16#32, 4⟩]⟩, false⟩

theorem halfFree_layout : Layout 16 halfFree.b_regions.toList := by
  refine ⟨?_, by simp [halfFree, Node.toList], by simp [halfFree, Node.toList]⟩
  simp only [halfFree, Node.toList, List.nil_append, List.forall_mem_singleton]
  refine ⟨by decide, by decide, fun i above => bit_of_ge _ _ (by simpa using above), by decide⟩

def oneGroup (faults : List Bool) : GrowState where
  dev := ⟨fun _ => .other, faults⟩
  fs_cluster_alloc := halfFree
  cinode :=
    { ci_chains :=
        { b_total_bits := 64
          b_set_bits := 1
          b_regions := .node .black .nil ⟨20, 8, 1, [1#8], ⟨⟨960, 8, 7#16, 0, 0, 20, [1#8]⟩, false⟩⟩ .nil
          b_private := ⟨10, ⟨true, true, 1#32, 8#32, 4, 1, [⟨7#32, 8#32, 20⟩]⟩, false⟩ }
      cl_cpg := 2
      cl_count := 1
      i_clusters := 2#32
      i_size := 8192#64 }

theorem chainAddGroup_unchanged_oneGroup :
    Unchanged smallFs (oneGroup [false, false, false, true])
      (chainAddGroup smallFs ⟨none, none⟩ (oneGroup [false, false, false, true])).1 := by
  have failed : (chainAddGroup smallFs ⟨none, none⟩ (oneGroup [false, false, false, true])).2 = .error .io := rfl
  refine (chainAddGroup_unchanged_iff (by exact halfFree_layout) (by decide) (by decide) ⟨none, none⟩ failed
    (by decide)).mpr ?_
  intro _ dev bitmap blkno found run chainNum rec chain entry
  have device : (newClusters smallFs ⟨fun _ => .other, [false, false, false, true]⟩ halfFree 2 2).1 = dev :=
    congrArg Prod.fst run
  have result : Except.ok (32, 2) = Except.ok (blkno, found) := congrArg (·.2.2) run
  have first : some 0 = some chainNum := chain
  cases result
  cases first
  cases entry
  subst device
  exact ⟨rfl, by decide, by decide⟩

/-- The third write is that of the descriptor, and the counts of the old group are lost when it fails. -/
theorem chainAddGroup_counts_lost :
    Layout 16 halfFree.b_regions.toList ∧
    (oneGroup [false, false, true]).cinode.ci_inode.cl_recs = [⟨7#32, 8#32, 20⟩] ∧
    (chainAddGroup smallFs ⟨none, none⟩ (oneGroup [false, false, true])).2 = .error .io ∧
    (chainAddGroup smallFs ⟨none, none⟩ (oneGroup [false, false, true])).1.cinode.ci_inode.cl_recs = [⟨0#32, 0#32, 20⟩] ∧
    (chainAddGroup smallFs ⟨none, none⟩ (oneGroup [false, false, true])).1.cinode.i_clusters = 0#32 :=
  ⟨halfFree_layout, rfl, rfl, rfl, rfl⟩

end Ocfs2.ChainAlloc
