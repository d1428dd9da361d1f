import Ocfs2.Libocfs2.Bitmap

set_option autoImplicit false

/-!
An allocator inode has chains of groups, each with a bitmap. The disk holds decoded blocks: the byte
order, the signature and the check of a block are not part of this model. A loaded allocator is a
bitmap with one region for each group and the cached inode as its private data.
-/

namespace Ocfs2.ChainAlloc

open ByteBuffer Rbtree Bitmap

structure GroupDesc where
  bg_size : Nat
  bg_bits : Nat
  bg_free_bits_count : BitVec 16
  bg_chain : Nat
  bg_next_group : Nat
  bg_blkno : Nat
  bg_bitmap : Buffer
  deriving DecidableEq

structure ChainRec where
  c_free : BitVec 32
  c_total : BitVec 32
  c_blkno : Nat
  deriving DecidableEq

structure Dinode where
  i_valid : Bool
  i_chain : Bool
  i_used : BitVec 32
  i_total : BitVec 32
  cl_bpc : Nat
  cl_next_free_rec : Nat
  cl_recs : List ChainRec
  deriving DecidableEq

inductive Block where
  | dinode (di : Dinode)
  | groupDesc (gd : GroupDesc)
  | other
  deriving DecidableEq

abbrev Disk := Nat → Block

structure Filesys where
  fs_blocksize : Nat
  fs_clustersize : Nat
  fs_blocks : Nat
  fs_clusters : Nat
  s_first_cluster_group : Nat
  rw : Bool
  deriving DecidableEq

structure Device where
  blocks : Disk
  faults : List Bool

structure RegionPrivate where
  cr_ag : GroupDesc
  cr_dirty : Bool
  deriving DecidableEq

structure BitmapPrivate where
  ci_blkno : Nat
  ci_inode : Dinode
  cb_dirty : Bool
  deriving DecidableEq

abbrev ChainRegion := Region RegionPrivate

abbrev ChainBitmap := Bitmap RegionPrivate BitmapPrivate

def superBlockBlkno : Nat := 2

def groupBitmapSize (blocksize : Nat) : Nat := blocksize - 64

def badBlkno (fs : Filesys) (blkno : Nat) : Bool := blkno < superBlockBlkno || blkno > fs.fs_blocks

def readGroupDesc (fs : Filesys) (disk : Disk) (blkno : Nat) : Except Errcode GroupDesc :=
  if badBlkno fs blkno then .error .badBlkno
  else
    match disk blkno with
    | .groupDesc gd => .ok gd
    | _ => .error .badGroupDescMagic

def readInode (fs : Filesys) (disk : Disk) (blkno : Nat) : Except Errcode Dinode :=
  if badBlkno fs blkno then .error .badBlkno
  else
    match disk blkno with
    | .dinode di => .ok di
    | _ => .error .badInodeMagic

def ioWriteBlock (dev : Device) (blkno : Nat) (block : Block) : Device × Except Errcode Unit :=
  if dev.faults.headD false then ({ dev with faults := dev.faults.tail }, .error .io)
  else (⟨Function.update dev.blocks blkno block, dev.faults.tail⟩, .ok ())

def writeMeta (fs : Filesys) (dev : Device) (blkno : Nat) (block : Block) :
    Device × Except Errcode Unit :=
  if !fs.rw then (dev, .error .roFilesys)
  else if badBlkno fs blkno then (dev, .error .badBlkno)
  else ioWriteBlock dev blkno block

section Callbacks

def bitChangeNotify (cb : BitmapPrivate) (br : ChainRegion) (_bitno : Nat) (newVal : Bool) :
    BitmapPrivate × ChainRegion :=
  let cr := br.br_private
  let ag := cr.cr_ag
  let di := cb.ci_inode
  let free (rec : ChainRec) := { rec with c_free := if newVal then rec.c_free - 1 else rec.c_free + 1 }
  let ag := { ag with
    bg_free_bits_count := if newVal then ag.bg_free_bits_count - 1 else ag.bg_free_bits_count + 1 }
  let di := { di with
    cl_recs := di.cl_recs.modify ag.bg_chain free
    i_used := if newVal then di.i_used + 1 else di.i_used - 1 }
  ({ cb with ci_inode := di, cb_dirty := true }, { br with br_private := ⟨ag, true⟩ })

def chainallocBitmapOps : Callbacks RegionPrivate BitmapPrivate where
  merge_region := some fun _ _ => false
  bit_change_notify := some bitChangeNotify

end Callbacks

section Load

def chainallocScaleStartBit (fs : Filesys) (blkno bpc : Nat) : Except Errcode Nat :=
  let bitsize := fs.fs_clustersize / bpc
  if bpc = 0 ∨ bitsize = 0 ∨ fs.fs_blocksize = 0 then .error .undefined
  else if bitsize = fs.fs_blocksize then .ok blkno
  else if bitsize < fs.fs_blocksize then .ok (blkno * (fs.fs_blocksize / bitsize) % 2 ^ 64)
  else .ok (blkno / (bitsize / fs.fs_blocksize))

def groupRegion (fs : Filesys) (bpc gdBlkno : Nat) (gd : GroupDesc) : Except Errcode ChainRegion :=
  if gd.bg_size ≠ groupBitmapSize fs.fs_blocksize then .error .corruptGroupDesc
  else
    match chainallocScaleStartBit fs (if gdBlkno = fs.s_first_cluster_group then 0 else gdBlkno) bpc with
    | .error e => .error e
    | .ok startBit =>
      -- the copy of the bitmap ends in the block
      if alignTotal gd.bg_bits > gd.bg_bitmap.length then .error .undefined
      else .ok
        { br_start_bit := startBit
          br_total_bits := gd.bg_bits
          br_set_bits := gd.bg_bits - gd.bg_free_bits_count.toNat
          br_bitmap := gd.bg_bitmap.take (alignTotal gd.bg_bits)
          br_private := ⟨gd, false⟩ }

def chainallocProcessGroup (fs : Filesys) (disk : Disk) (gdBlkno : Nat) (bitmap : ChainBitmap) :
    Except Errcode ChainBitmap :=
  match readGroupDesc fs disk gdBlkno with
  | .error e => .error e
  | .ok gd =>
    match groupRegion fs bitmap.b_private.ci_inode.cl_bpc gdBlkno gd with
    | .error e => .error e
    | .ok br => insertRegion chainallocBitmapOps bitmap br

inductive Iret where
  | done
  | abort
  | error (e : Errcode)
  deriving DecidableEq

/-- The walk along one chain. With as many steps as the device has blocks it ends, or visits a block
again and does not end. -/
def chainIterateGd (fs : Filesys) (disk : Disk) (chainNum : Nat) :
    Nat → Nat → ChainBitmap → ChainBitmap × Iret
  | 0, _, bitmap => (bitmap, .error .undefined)
  | fuel + 1, blkno, bitmap =>
    if blkno = 0 then (bitmap, .done)
    else
      match chainallocProcessGroup fs disk blkno bitmap with
      | .error .undefined => (bitmap, .error .undefined)
      | .error _ => (bitmap, .abort)
      | .ok bitmap =>
        match readGroupDesc fs disk blkno with
        | .error e => (bitmap, .error e)
        | .ok gd =>
          if gd.bg_blkno ≠ blkno ∨ gd.bg_chain ≠ chainNum then (bitmap, .error .corruptGroupDesc)
          else chainIterateGd fs disk chainNum fuel gd.bg_next_group bitmap

def chainIterateCl (fs : Filesys) (disk : Disk) :
    Nat → List ChainRec → ChainBitmap → ChainBitmap × Iret
  | _, [], bitmap => (bitmap, .done)
  | i, rec :: recs, bitmap =>
    match chainIterateGd fs disk i (fs.fs_blocks + 1) rec.c_blkno bitmap with
    | (bitmap, .done) => chainIterateCl fs disk (i + 1) recs bitmap
    | (bitmap, iret) => (bitmap, iret)

def chainIterate (fs : Filesys) (disk : Disk) (blkno : Nat) (bitmap : ChainBitmap) :
    Except Errcode ChainBitmap :=
  match readInode fs disk blkno with
  | .error e => .error e
  | .ok inode =>
    if !inode.i_valid then .error .inodeNotValid
    else if !inode.i_chain then .error .inodeCannotBeIterated
    else
      match chainIterateCl fs disk 0 (inode.cl_recs.take inode.cl_next_free_rec) bitmap with
      | (_, .error e) => .error e
      | (bitmap, _) => .ok bitmap

def loadChainAllocator (fs : Filesys) (disk : Disk) (blkno : Nat) : Except Errcode ChainBitmap :=
  match readInode fs disk blkno with
  | .error e => .error e
  | .ok inode =>
    chainIterate fs disk blkno
      { b_total_bits := fs.fs_clusters * inode.cl_bpc
        b_set_bits := 0
        b_regions := .nil
        b_private := ⟨blkno, inode, false⟩ }

end Load

section Write

def chainallocWriteGroup (fs : Filesys) (dev : Device) (br : ChainRegion) :
    Device × ChainRegion × Visit :=
  let cr := br.br_private
  if !cr.cr_dirty then (dev, br, .next)
  else
    let ag := { cr.cr_ag with bg_bitmap := splice cr.cr_ag.bg_bitmap 0 br.br_bitmap }
    match writeMeta fs dev ag.bg_blkno (.groupDesc ag) with
    | (dev, .ok ()) => (dev, { br with br_private := ⟨ag, false⟩ }, .next)
    | (dev, .error e) => (dev, { br with br_private := ⟨ag, true⟩ }, .failed e)

def chainallocWriteBitmap (fs : Filesys) (dev : Device) (bitmap : ChainBitmap) :
    Device × ChainBitmap × Except Errcode Unit :=
  let cb := bitmap.b_private
  if !cb.cb_dirty then (dev, bitmap, .ok ())
  else
    let (dev, regions, visit) := foreachRegion (chainallocWriteGroup fs) dev bitmap.b_regions
    let bitmap := { bitmap with b_regions := regions }
    match visit.result with
    | .error e => (dev, bitmap, .error e)
    | .ok () =>
      match writeMeta fs dev cb.ci_blkno (.dinode cb.ci_inode) with
      | (dev, .ok ()) => (dev, { bitmap with b_private := { cb with cb_dirty := false } }, .ok ())
      | (dev, .error e) => (dev, bitmap, .error e)

end Write

section Calls

variable (fs : Filesys) (bitmap : ChainBitmap)

def chainSet (bitno : Nat) : Except Errcode (ChainBitmap × Bool) :=
  bitmap.set bitno (setGeneric chainallocBitmapOps)

def chainClear (bitno : Nat) : Except Errcode (ChainBitmap × Int) :=
  bitmap.clear bitno fun bitmap bitno =>
    (clearGeneric chainallocBitmapOps bitmap bitno).map fun (bitmap, old) => (bitmap, old.toInt)

def chainallocFindGd (bitno : Nat) (found : Option Nat) (br : ChainRegion) :
    Option Nat × ChainRegion × Visit :=
  if bitno ≥ br.br_start_bit ∧ bitno < br.br_start_bit + br.br_total_bits then
    let gdBlkno := br.br_private.cr_ag.bg_blkno
    (some (if gdBlkno = fs.s_first_cluster_group then 0 else gdBlkno), br, .complete)
  else (found, br, .next)

def chainAlloc : ChainBitmap × Except Errcode (Nat × Nat) :=
  match bitmap.findNextClear 0 findNextClearGeneric with
  | .error e => (bitmap, .error e)
  | .ok bitno =>
    match chainSet bitmap bitno with
    | .error e => (bitmap, .error e)
    | .ok (bitmap, old) =>
      if old then (bitmap, .error .internalFailure)
      else
        match foreachRegion (chainallocFindGd fs bitno) none bitmap.b_regions with
        | (_, _, .failed e) => (bitmap, .error e)
        | (some gdBlkno, _, _) => (bitmap, .ok (gdBlkno, bitno))
        | (none, _, _) => (bitmap, .error .internalFailure)

def chainFree (bitno : Nat) : ChainBitmap × Except Errcode Unit :=
  match chainClear bitmap bitno with
  | .error e => (bitmap, .error e)
  | .ok (bitmap, old) =>
    (bitmap, if old = 0 then .error .freeingUnallocatedRegion else .ok ())

def chainForceVal (bitno : Nat) (newval : Bool) : ChainBitmap × Except Errcode Int :=
  let result := if newval then (chainSet bitmap bitno).map fun (bitmap, old) => (bitmap, old.toInt)
    else chainClear bitmap bitno
  match result with
  | .error e => (bitmap, .error e)
  | .ok (bitmap, old) => (bitmap, .ok old)

def chainAllocRange (min requested : Nat) : ChainBitmap × Except Errcode (Nat × Nat) :=
  match bitmap.allocRange (allocRangeGeneric chainallocBitmapOps) min requested with
  | .error e => (bitmap, .error e)
  | .ok (bitmap, startBit, bitsFound) => (bitmap, .ok (startBit, bitsFound))

def chainFreeRange (len startBit : Nat) : ChainBitmap × Except Errcode Unit :=
  match bitmap.clearRange (clearRangeGeneric chainallocBitmapOps) len startBit with
  | .error e => (bitmap, .error e)
  | .ok bitmap => (bitmap, .ok ())

end Calls

inductive Op where
  | alloc
  | free (bitno : Nat)
  | forceVal (bitno : Nat) (newval : Bool)
  | allocRange (min requested : Nat)
  | freeRange (len startBit : Nat)
  | write (faults : List Bool)
  deriving DecidableEq

inductive Outcome where
  | allocated (gdBlkno bitno : Nat)
  | freed
  | old (value : Int)
  | range (startBit bitsFound : Nat)
  | rangeFreed
  | written
  deriving DecidableEq

structure State where
  bitmap : ChainBitmap
  disk : Disk

def step (fs : Filesys) (state : State) : Op → State × Except Errcode Outcome
  | .alloc =>
    let (bitmap, result) := chainAlloc fs state.bitmap
    ({ state with bitmap }, result.map fun (gdBlkno, bitno) => .allocated gdBlkno bitno)
  | .free bitno =>
    let (bitmap, result) := chainFree state.bitmap bitno
    ({ state with bitmap }, result.map fun _ => .freed)
  | .forceVal bitno newval =>
    let (bitmap, result) := chainForceVal state.bitmap bitno newval
    ({ state with bitmap }, result.map .old)
  | .allocRange min requested =>
    let (bitmap, result) := chainAllocRange state.bitmap min requested
    ({ state with bitmap }, result.map fun (startBit, bitsFound) => .range startBit bitsFound)
  | .freeRange len startBit =>
    let (bitmap, result) := chainFreeRange state.bitmap len startBit
    ({ state with bitmap }, result.map fun _ => .rangeFreed)
  | .write faults =>
    let (dev, bitmap, result) := chainallocWriteBitmap fs ⟨state.disk, faults⟩ state.bitmap
    (⟨bitmap, dev.blocks⟩, result.map fun _ => .written)

end Ocfs2.ChainAlloc
