import Ocfs2.Libocfs2.Bitops

set_option autoImplicit false

/-!
The groups of the cluster bitmap are made when the volume is made, and what the system files need is allocated from them.
A call of `exit` is no result.
-/

namespace Ocfs2.Mkfs

open ByteBuffer

def uint16 (n : Nat) : Nat := n % 2 ^ 16

def uint32 (n : Nat) : Nat := n % 2 ^ 32

def sub16 (a b : Nat) : Nat := (a + 2 ^ 16 - b % 2 ^ 16) % 2 ^ 16

def sub32 (a b : Nat) : Nat := (a + 2 ^ 32 - b % 2 ^ 32) % 2 ^ 32

structure Geometry where
  blocksize_bits : Nat
  cluster_size_bits : Nat
  volume_size_in_clusters : Nat
  block_size : 9 ≤ blocksize_bits ∧ blocksize_bits ≤ 12
  cluster_size : 12 ≤ cluster_size_bits ∧ cluster_size_bits ≤ 20
  clusters : 0 < volume_size_in_clusters ∧ volume_size_in_clusters < 2 ^ 32

def OCFS2_SUPER_BLOCK_BLKNO : Nat := 2

-- the bitmap of a descriptor stands at byte 64, the chain records of an inode at byte 208
def groupBitmapSize (blocksize : Nat) : Nat := blocksize - 64

def chainRecsPerInode (blocksize : Nat) : Nat := (blocksize - 208) / 16

structure ClusterGroupSizes where
  cgs_cpg : Nat
  cgs_tail_group_bits : Nat
  cgs_cluster_groups : Nat
  deriving DecidableEq

def calcClusterGroups (clusters blocksize : Nat) : ClusterGroupSizes :=
  let max_bits := uint16 (8 * groupBitmapSize blocksize)
  let cpg := if max_bits > clusters then uint16 clusters else max_bits
  let tail := uint16 (clusters % cpg)
  ⟨cpg, if tail = 0 then cpg else tail, uint32 ((clusters + cpg - 1) / cpg)⟩

namespace Geometry

variable (s : Geometry)

def blocksize : Nat := 2 ^ s.blocksize_bits

def global_cpg : Nat := (calcClusterGroups s.volume_size_in_clusters s.blocksize).cgs_cpg

def nr_cluster_groups : Nat := (calcClusterGroups s.volume_size_in_clusters s.blocksize).cgs_cluster_groups

def tail_group_bits : Nat := (calcClusterGroups s.volume_size_in_clusters s.blocksize).cgs_tail_group_bits

def c_to_b_bits : Nat := s.cluster_size_bits - s.blocksize_bits

def recs_per_inode : Nat := chainRecsPerInode s.blocksize

def first_cluster_group : Nat := (OCFS2_SUPER_BLOCK_BLKNO + 1 + (2 ^ s.c_to_b_bits - 1)) >>> s.c_to_b_bits

def first_cluster_group_blkno : Nat := s.first_cluster_group <<< s.c_to_b_bits

end Geometry

structure GroupDesc where
  bg_bits : Nat
  bg_chain : Nat
  bg_blkno : Nat
  bg_free_bits_count : Nat
  bg_next_group : Nat
  bg_bitmap : Buffer
  deriving DecidableEq

structure AllocGroup where
  gd : GroupDesc
  chain_free : Nat
  chain_total : Nat
  next : Option Nat
  deriving DecidableEq

structure BitInfo where
  used_bits : Nat
  total_bits : Nat
  deriving DecidableEq

structure AllocBitmap where
  groups : List AllocGroup
  num_chains : Nat
  bi : BitInfo
  deriving DecidableEq

variable (s : Geometry)

def initializeAllocGroup (bi : BitInfo) (blkno chain cpg bpc : Nat) : AllocGroup × BitInfo :=
  let bg_bits := uint16 (cpg * bpc)
  let gd : GroupDesc :=
    { bg_bits
      bg_chain := chain
      bg_blkno := blkno
      bg_free_bits_count := sub16 bg_bits 1
      bg_next_group := 0
      bg_bitmap := (Bitops.setBit 0 (List.replicate (groupBitmapSize s.blocksize) 0)).2 }
  (⟨gd, 0, 0, none⟩, ⟨uint32 (bi.used_bits + 1), uint32 (bi.total_bits + bg_bits)⟩)

def reserveBit (state : AllocGroup × BitInfo) (i : Nat) : AllocGroup × BitInfo :=
  let (group, bi) := state
  ({ group with gd :=
      { group.gd with
        bg_bitmap := (Bitops.setBit i group.gd.bg_bitmap).2
        bg_free_bits_count := sub16 group.gd.bg_free_bits_count 1 } },
    { bi with used_bits := uint32 (bi.used_bits + 1) })

def initializeFirstGroup : AllocGroup × BitInfo :=
  let start := initializeAllocGroup s ⟨0, 0⟩ s.first_cluster_group_blkno 0 s.global_cpg 1
  let (group, bi) := (List.range' 1 s.first_cluster_group).foldl reserveBit start
  ({ group with chain_total := s.global_cpg, chain_free := group.gd.bg_free_bits_count }, bi)

structure Loop where
  groups : List AllocGroup
  bi : BitInfo
  chain : Nat
  blkno : Nat
  wrapped : Bool
  deriving DecidableEq

def AllocGroup.link (blkno i : Nat) (group : AllocGroup) : AllocGroup :=
  { group with gd := { group.gd with bg_next_group := blkno }, next := some i }

def AllocGroup.count (gd : GroupDesc) (group : AllocGroup) : AllocGroup :=
  { group with
    chain_total := uint32 (group.chain_total + gd.bg_bits)
    chain_free := uint32 (group.chain_free + gd.bg_free_bits_count) }

def addGroup (loop : Loop) (i : Nat) : Loop :=
  let cpg := if i = s.nr_cluster_groups - 1 then s.tail_group_bits else s.global_cpg
  let added := initializeAllocGroup s loop.bi loop.blkno loop.chain cpg 1
  let groups := loop.groups ++ [added.1]
  let linked := if loop.wrapped then groups.modify (i - s.recs_per_inode) (.link loop.blkno i) else groups
  let last := loop.chain + 1 ≥ s.recs_per_inode
  { groups := linked.modify loop.chain (.count added.1.gd)
    bi := added.2
    chain := if last then 0 else loop.chain + 1
    blkno := loop.blkno + s.global_cpg <<< s.c_to_b_bits
    wrapped := loop.wrapped || last }

def initializeLoop : Loop :=
  let first := initializeFirstGroup s
  (List.range' 1 (s.nr_cluster_groups - 1)).foldl (addGroup s)
    ⟨[first.1], first.2, 1, s.global_cpg <<< s.c_to_b_bits, false⟩

def initializeBitmap : Option AllocBitmap :=
  let loop := initializeLoop s
  if loop.bi.total_bits ≠ s.volume_size_in_clusters then none
  else some ⟨loop.groups, if loop.wrapped then s.recs_per_inode else loop.chain, loop.bi⟩

def findClearBitsLoop (buf : Buffer) (size num_bits : Nat) : Nat → Nat → Nat → Option Nat → Option Nat
  | 0, _, _, _ => none
  | fuel + 1, off, count, first_zero =>
    if size - off + count ≥ num_bits then
      let next_zero := Bitops.findNextBitClear buf size off
      if next_zero ≥ size then none
      else
        let (first_zero, off, count) :=
          if next_zero ≠ off then (some next_zero, next_zero + 1, 0)
          else (if count = 0 then some next_zero else first_zero, off + 1, count)
        if count + 1 = num_bits then first_zero
        else findClearBitsLoop buf size num_bits fuel off (count + 1) first_zero
    else none

-- every turn goes to a higher position
def findClearBits (buf : Buffer) (size num_bits offset : Nat) : Option Nat :=
  match findClearBitsLoop buf size num_bits (size + 1 - offset) offset 0 none with
  | none => none
  | some first_zero => if first_zero > size then none else some first_zero

def searchChain (groups : List AllocGroup) (num_bits : Nat) : Nat → Nat → Option Nat
  | 0, _ => none
  | fuel + 1, i =>
    match groups[i]? with
    | none => none
    | some group =>
      if group.gd.bg_free_bits_count ≥ num_bits then some i
      else group.next.bind (searchChain groups num_bits fuel)

def searchChains (bitmap : AllocBitmap) (num_bits : Nat) : Option Nat :=
  (List.range bitmap.num_chains).findSome? (searchChain bitmap.groups num_bits bitmap.groups.length)

def groupStart (gd : GroupDesc) : Nat :=
  if gd.bg_blkno = s.first_cluster_group_blkno then 0
  else (gd.bg_blkno <<< s.blocksize_bits) >>> s.cluster_size_bits

def AllocGroup.take (start_bit num_bits : Nat) (group : AllocGroup) : AllocGroup :=
  { group with gd :=
    { group.gd with
      bg_free_bits_count := sub16 group.gd.bg_free_bits_count num_bits
      bg_bitmap := (List.range' start_bit num_bits).foldl (fun buf i => (Bitops.setBit i buf).2) group.gd.bg_bitmap } }

def AllocGroup.uncount (num_bits : Nat) (group : AllocGroup) : AllocGroup :=
  { group with chain_free := sub32 group.chain_free num_bits }

def allocFromBitmap (num_bits : Nat) (bitmap : AllocBitmap) : Option ((Nat × Nat) × AllocBitmap) := do
  let i ← searchChains bitmap num_bits
  let group ← bitmap.groups[i]?
  let start_bit ← findClearBits group.gd.bg_bitmap group.gd.bg_bits num_bits 0
  let start := start_bit + groupStart s group.gd
  let groups := (bitmap.groups.modify i (.take start_bit num_bits)).modify group.gd.bg_chain (.uncount num_bits)
  let bi := { bitmap.bi with used_bits := uint32 (bitmap.bi.used_bits + num_bits) }
  return ((start <<< s.cluster_size_bits, num_bits <<< s.cluster_size_bits), { bitmap with groups, bi })

def allocAll : List Nat → AllocBitmap → Option (List (Nat × Nat) × AllocBitmap)
  | [], bitmap => some ([], bitmap)
  | num_bits :: rest, bitmap => do
    let (range, bitmap) ← allocFromBitmap s num_bits bitmap
    let (ranges, bitmap) ← allocAll rest bitmap
    return (range :: ranges, bitmap)

end Ocfs2.Mkfs
