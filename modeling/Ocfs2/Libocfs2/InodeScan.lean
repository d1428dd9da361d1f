import Ocfs2.Libocfs2.Common
import Ocfs2.Shared.ByteBuffer

set_option autoImplicit false

/-!
The scan goes over the groups of the inode allocators with a buffer of a few blocks. The unsigned counters have 32
bits. A call of `abort` is the undefined error.
-/

namespace Ocfs2.InodeScan

open ByteBuffer

structure GroupDesc where
  bg_blkno : Nat
  bg_bits : Nat
  bg_next_group : Nat
  deriving DecidableEq

structure ChainRec where
  c_total : Nat
  c_blkno : Nat
  deriving DecidableEq

structure Dinode where
  i_total : Nat
  cl_recs : List ChainRec
  deriving DecidableEq

structure Env where
  read_group_desc : Nat → Except Errcode GroupDesc
  read_block : Nat → Except Errcode Buffer
  buffer_blocks : Nat
  inode_alloc : List Dinode

structure Scan where
  next_inode_file : Nat
  cur_inode_alloc : Option Dinode
  cur_rec : Option ChainRec
  next_rec : Nat
  cur_desc : Option GroupDesc
  count : Nat
  cur_blkno : Nat
  group_buffer : List Buffer
  cur_block : Nat
  blocks_in_buffer : Nat
  blocks_left : Nat
  bpos : Nat
  deriving DecidableEq

def bufferBlocks (fs_blocksize fs_clustersize : Nat) : Nat :=
  if fs_clustersize / fs_blocksize < 8 then
    (8 * fs_blocksize + (fs_clustersize - 1)) / fs_clustersize * (fs_clustersize / fs_blocksize)
  else fs_clustersize / fs_blocksize

def openInodeScan : Scan := ⟨0, none, none, 0, none, 0, 0, [], 0, 0, 0, 0⟩

def uint (n : Nat) : Nat := n % 2 ^ 32

def pred32 (n : Nat) : Nat := (n + 2 ^ 32 - 1) % 2 ^ 32

variable (env : Env)

def GroupDesc.next (desc : GroupDesc) : Nat := desc.bg_blkno + desc.bg_bits

def Scan.enterGroup (scan : Scan) (desc : GroupDesc) : Scan :=
  { scan with
    cur_desc := some desc
    cur_blkno := desc.bg_blkno + 1
    count := uint (scan.count + 1)
    blocks_left := pred32 scan.blocks_left
    bpos := desc.bg_blkno + 1 }

def getNextGroup (scan : Scan) : Except Errcode Scan := do
  let blkno ←
    match scan.cur_desc with
    | none => if scan.bpos ≠ 0 then .error .undefined else .ok scan.cur_blkno
    | some desc => .ok (if scan.bpos ≠ 0 then desc.bg_next_group else scan.cur_blkno)
  if blkno = 0 then .error .undefined
  else
    let desc ← env.read_group_desc blkno
    if desc.bg_blkno ≠ blkno then .error .corruptGroupDesc
    else return scan.enterGroup desc

def Scan.enterChain (scan : Scan) (rec : ChainRec) : Scan :=
  { scan with
    cur_rec := some rec
    next_rec := scan.next_rec + 1
    count := 0
    bpos := 0
    cur_blkno := rec.c_blkno }

def getNextChain (scan : Scan) : Except Errcode Scan :=
  match scan.cur_inode_alloc with
  | none => .error .undefined
  | some di =>
    match di.cl_recs[scan.next_rec]? with
    | none => if scan.next_rec = 0 then .error .corruptChain else .error .undefined
    | some rec => .ok (scan.enterChain rec)

def nextChainIfDone (scan : Scan) : Except Errcode Scan :=
  match scan.cur_rec with
  | none => getNextChain scan
  | some rec =>
    match scan.cur_desc with
    | none => .error .undefined
    | some desc =>
      if scan.count > rec.c_total then .error .undefined
      else if scan.bpos > desc.next then .error .undefined
      else if scan.count = rec.c_total then getNextChain scan
      else .ok scan

def nextGroupIfDone (scan : Scan) : Except Errcode Scan :=
  if scan.bpos = 0 then getNextGroup env scan
  else
    match scan.cur_desc with
    | none => .error .undefined
    | some desc => if scan.bpos = desc.next then getNextGroup env scan else .ok scan

def Scan.fill (scan : Scan) (num_blocks : Nat) (blocks : List Buffer) : Scan :=
  { scan with
    group_buffer := blocks
    bpos := scan.bpos + num_blocks
    blocks_in_buffer := num_blocks
    cur_block := 0 }

def readBuffer (scan : Scan) : Except Errcode Scan :=
  match scan.cur_desc with
  | none => .error .undefined
  | some desc => do
    let num_blocks := min (desc.next - scan.bpos) env.buffer_blocks
    let blocks ← (List.range' scan.cur_blkno num_blocks).mapM env.read_block
    return scan.fill num_blocks blocks

def fillGroupBuffer (scan : Scan) : Except Errcode Scan := do
  let scan ← nextChainIfDone scan
  let scan ← nextGroupIfDone env scan
  readBuffer env scan

def Scan.enterAlloc (scan : Scan) (di : Dinode) : Scan :=
  { scan with next_rec := 0, count := 0, cur_blkno := 0, cur_rec := none, blocks_left := di.i_total }

def getNextInodeAllocLoop (scan : Scan) : List Dinode → Option Scan × Scan
  | [] => (none, scan)
  | di :: rest =>
    let scan := { scan with cur_inode_alloc := some di, next_inode_file := scan.next_inode_file + 1 }
    if di.i_total = 0 then getNextInodeAllocLoop scan rest
    else (some (scan.enterAlloc di), scan.enterAlloc di)

def getNextInodeAlloc (scan : Scan) : Except Errcode (Option Scan × Scan) :=
  if scan.cur_inode_alloc.isSome ∧ scan.blocks_left ≠ 0 then .error .undefined
  else .ok (getNextInodeAllocLoop scan (env.inode_alloc.drop scan.next_inode_file))

def Scan.advance (scan : Scan) : Scan :=
  { scan with
    cur_block := scan.cur_block + 1
    blocks_in_buffer := scan.blocks_in_buffer - 1
    blocks_left := pred32 scan.blocks_left
    cur_blkno := scan.cur_blkno + 1
    count := uint (scan.count + 1) }

def takeBlock (scan : Scan) : Except Errcode (Nat × Buffer × Scan) :=
  match scan.group_buffer[scan.cur_block]? with
  | none => .error .undefined
  | some inode => .ok (scan.cur_blkno, inode, scan.advance)

def fillIfEmpty (scan : Scan) : Except Errcode (Nat × Buffer × Scan) := do
  let scan ← if scan.blocks_in_buffer = 0 then fillGroupBuffer env scan else .ok scan
  takeBlock scan

def getNextInode (scan : Scan) (inode : Buffer) : Except Errcode (Nat × Buffer × Scan) :=
  if scan.blocks_left = 0 then
    if scan.blocks_in_buffer ≠ 0 then .error .undefined
    else do
      match ← getNextInodeAlloc env scan with
      | (none, scan) => return (0, inode, scan)
      | (some scan, _) => fillIfEmpty env scan
  else fillIfEmpty env scan

def getInodes : Nat → Scan → Buffer → Except Errcode (List (Nat × Buffer) × Scan)
  | 0, scan, _ => return ([], scan)
  | n + 1, scan, inode => do
    let (blkno, inode, scan) ← getNextInode env scan inode
    let (rest, scan) ← getInodes n scan inode
    return ((blkno, inode) :: rest, scan)

end Ocfs2.InodeScan
