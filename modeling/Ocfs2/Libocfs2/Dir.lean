import Ocfs2.Libocfs2.DirBlock

set_option autoImplicit false

/-!
The walk over the entries of a directory, and the functions that add and remove one. Reading and writing
the inode succeed. The allocator is asked at most once; what it gives is a parameter.
-/

namespace Ocfs2.Dir

open ByteBuffer

section Iterate

structure Flags where
  include_empty : Bool := false
  include_removed : Bool := false
  exclude_dots : Bool := false
  include_trailer : Bool := false

structure Visited (σ : Type) where
  buf : Buffer
  priv : σ
  changed : Bool
  abort : Bool

def isDots (buf : Buffer) (dirent : Nat) : Bool :=
  let len := nameLen buf dirent
  (len == 1 || len == 2 && buf.getD (dirent + 13) 0 == 0x2e) && buf.getD (dirent + 12) 0 == 0x2e

def validateEntry (buf : Buffer) (final_offset : Nat) : Nat → Nat → Bool
  | 0, offset => offset == final_offset
  | fuel + 1, offset =>
    if offset < final_offset then
      let rec_len := recLen buf offset
      if rec_len < 8 || rec_len % 4 != 0 || nameLen buf offset + 8 > rec_len then false
      else validateEntry buf final_offset fuel (offset + rec_len)
    else offset == final_offset

def nextRemoved (buf : Buffer) (final_offset : Nat) : Nat → Nat → Nat
  | 0, offset => offset
  | fuel + 1, offset =>
    if offset < final_offset && !validateEntry buf final_offset final_offset offset then
      nextRemoved buf final_offset fuel (offset + 4)
    else offset

structure Scan (σ : Type) where
  buf : Buffer
  priv : σ
  changed : Bool
  abort : Bool
  errcode : Option Errcode

variable {σ : Type} (fs : Filesys) (di : Dinode) (flags : Flags) (func : Buffer → Nat → σ → Visited σ)

def badEntry (buf : Buffer) (offset : Nat) : Bool :=
  offset + recLen buf offset > fs.fs_blocksize || recLen buf offset < 8 || recLen buf offset % 4 != 0 ||
    nameLen buf offset + 8 > recLen buf offset

def skipped (buf : Buffer) (offset : Nat) : Bool :=
  if skipDirTrailer fs di offset then !flags.include_trailer
  else inode buf offset == 0 && !flags.include_empty || flags.exclude_dots && isDots buf offset

def nextOffset (buf : Buffer) (offset : Nat) : Nat :=
  let size := (nameLen buf offset + 11) / 4 * 4
  if flags.include_removed && recLen buf offset != size then
    nextRemoved buf (offset + recLen buf offset) (offset + recLen buf offset) (offset + size)
  else offset + recLen buf offset

def processDirEntry : Nat → Nat → Buffer → σ → Bool → Scan σ
  | 0, _, buf, priv, changed => ⟨buf, priv, changed, false, none⟩
  | fuel + 1, offset, buf, priv, changed =>
    if offset < fs.fs_blocksize then
      if badEntry fs buf offset then ⟨buf, priv, changed, false, some .dirCorrupted⟩
      else if skipped fs di flags buf offset then
        processDirEntry fuel (nextOffset flags buf offset) buf priv changed
      else
        let v := func buf offset priv
        if v.abort then ⟨v.buf, v.priv, changed || v.changed, true, none⟩
        else processDirEntry fuel (nextOffset flags v.buf offset) v.buf v.priv (changed || v.changed)
    else ⟨buf, priv, changed, false, none⟩

structure Walk (σ : Type) where
  disk : Nat → Buffer
  priv : σ
  errcode : Option Errcode
  stop : Bool

def processDirBlock (disk : Nat → Buffer) (blocknr : Nat) (priv : σ) : Walk σ :=
  match readDirBlock fs di disk blocknr with
  | .error e => ⟨disk, priv, some e, true⟩
  | .ok buf =>
    let scan := processDirEntry fs di flags func fs.fs_blocksize 0 buf priv false
    if scan.errcode.isSome then ⟨disk, scan.priv, scan.errcode, true⟩
    else if scan.changed then
      match writeDirBlock fs di disk blocknr scan.buf with
      | .error e => ⟨disk, scan.priv, some e, true⟩
      | .ok disk => ⟨disk, scan.priv, none, scan.abort⟩
    else ⟨disk, scan.priv, none, scan.abort⟩

def blockIterate : List Nat → Nat → (Nat → Buffer) → σ → Walk σ
  | [], _, disk, priv => ⟨disk, priv, none, false⟩
  | blkno :: blocks, bcount, disk, priv =>
    if bcount * fs.fs_blocksize ≥ di.i_size then ⟨disk, priv, none, false⟩
    else
      let w := processDirBlock fs di flags func disk blkno priv
      if w.stop then w else blockIterate blocks (bcount + 1) w.disk w.priv

end Iterate

section Directory

structure Directory where
  disk : Nat → Buffer
  di : Dinode

def idData : Nat := 200

variable {σ : Type} (fs : Filesys)

/-- With the entries in the inode, a walk that fails returns the bit that stops it and not its error. -/
def inlineDirIterate (flags : Flags) (func : Buffer → Nat → σ → Visited σ) (dir : Directory) (priv : σ) :
    Directory × σ × Option Errcode :=
  let scan := processDirEntry fs dir.di flags func fs.fs_blocksize idData dir.di.i_block priv false
  if scan.errcode.isSome then (dir, scan.priv, some .blockAbort)
  else if scan.changed then ({ dir with di := { dir.di with i_block := scan.buf } }, scan.priv, none)
  else (dir, scan.priv, none)

def dirIterate (flags : Flags) (func : Buffer → Nat → σ → Visited σ) (dir : Directory) (priv : σ) :
    Directory × σ × Option Errcode :=
  if isInline fs dir.di then inlineDirIterate fs flags func dir priv
  else
    let w := blockIterate fs dir.di flags func dir.di.i_blocks 0 dir.disk priv
    ({ dir with disk := w.disk }, w.priv, w.errcode)

structure Allocator where
  new_cluster : Except Errcode (List Nat)
  memory : Buffer

def expandLastDirentLoop (buf : Buffer) (limit : Nat) : Nat → Nat → Nat
  | 0, de => de
  | fuel + 1, de =>
    if de + recLen buf de < limit then expandLastDirentLoop buf limit fuel (de + recLen buf de) else de

def expandLastDirent (buf : Buffer) (old_size new_size : Nat) : Buffer :=
  let prev_de := expandLastDirentLoop buf old_size old_size 0
  setRecLen buf prev_de (recLen buf prev_de + (new_size - old_size))

def emptyBlocks (fs : Filesys) (blocks : List Nat) (disk : Nat → Buffer) : Nat → Buffer :=
  blocks.foldl (fun disk b => Function.update disk b (List.replicate fs.fs_blocksize 0)) disk

def convertInlineDataToExtents (alloc : Allocator) (dir : Directory) : Directory × Option Errcode :=
  let got := min dir.di.i_size fs.fs_blocksize
  let inline_data := splice alloc.memory 0 (slice dir.di.i_block idData got)
  match alloc.new_cluster with
  | .error e => (dir, some e)
  | .ok [] => (dir, none)
  | .ok (p_start :: rest) =>
    let disk := emptyBlocks fs (p_start :: rest) dir.disk
    let di := { dir.di with i_inline := false, i_blocks := p_start :: rest }
    if dir.di.i_size = 0 then ({ disk, di }, none)
    else
      let new_size := if fs.meta_ecc then dirTrailerBlkOff fs else fs.fs_blocksize
      let inline_data := expandLastDirent inline_data dir.di.i_size new_size
      let inline_data := if fs.meta_ecc then initDirTrailer fs di p_start inline_data else inline_data
      match writeDirBlock fs di disk p_start inline_data with
      | .error e => ({ dir with disk }, some e)
      | .ok disk => ({ disk, di := { di with i_size := fs.fs_blocksize } }, none)

/-- A new block at the end of the directory. A block that no extent maps is read as number zero. -/
def expandDir (alloc : Allocator) (dir : Directory) : Directory × Option Errcode :=
  if !fs.fs_rw then (dir, some .roFilesys)
  else if isInline fs dir.di then convertInlineDataToExtents fs alloc dir
  else
    let used_blks := dir.di.i_size / fs.fs_blocksize
    let extended : Except Errcode Dinode :=
      if used_blks ≥ dir.di.i_blocks.length then
        alloc.new_cluster.map fun new => { dir.di with i_blocks := dir.di.i_blocks ++ new }
      else .ok dir.di
    match extended with
    | .error e => (dir, some e)
    | .ok di =>
      let new_blk := di.i_blocks.getD used_blks 0
      let buf := List.replicate fs.fs_blocksize 0
      let buf :=
        if dirHasTrailer fs di then initDirTrailer fs di new_blk (setRecLen buf 0 (dirTrailerBlkOff fs))
        else setRecLen buf 0 fs.fs_blocksize
      match writeDirBlock fs di dir.disk new_blk buf with
      | .error e => ({ dir with di }, some e)
      | .ok disk => ({ disk, di := { di with i_size := di.i_size + fs.fs_blocksize } }, none)

end Directory

section Link

structure LinkStruct where
  name : Buffer
  inode : Nat
  flags : Nat
  done : Bool
  blockend : Nat
  deriving DecidableEq

def absorbNext (blockend : Nat) (buf : Buffer) (offset : Nat) : Buffer × Bool :=
  let next := offset + recLen buf offset
  if next + 8 < blockend ∧ inode buf next = 0 ∧ next + recLen buf next ≤ blockend then
    (setRecLen buf offset (recLen buf offset + recLen buf next), true)
  else (buf, false)

def linkProc (buf : Buffer) (offset : Nat) (ls : LinkStruct) : Visited LinkStruct :=
  let rec_len := dirRecLen ls.name.length
  let (buf, ret) := absorbNext ls.blockend buf offset
  if inode buf offset ≠ 0 then
    let min_rec_len := dirRecLen (nameLen buf offset)
    if recLen buf offset < min_rec_len + rec_len then ⟨buf, ls, ret, false⟩
    else
      let rec_len := recLen buf offset - min_rec_len
      let buf := setRecLen buf offset min_rec_len
      let next := offset + min_rec_len
      let buf := setInode buf next 0
      let buf := setNameLen buf next 0
      ⟨setRecLen buf next rec_len, ls, true, false⟩
  else if recLen buf offset < rec_len then ⟨buf, ls, ret, false⟩
  else
    let buf := setInode buf offset ls.inode
    let buf := setNameLen buf offset ls.name.length
    let buf := setName buf offset ls.name
    ⟨setFileType buf offset ls.flags, { ls with done := true }, true, true⟩

variable (fs : Filesys)

def blockEnd (di : Dinode) : Nat := if dirHasTrailer fs di then dirTrailerBlkOff fs else fs.fs_blocksize

def link (alloc : Allocator) (dir : Directory) (name : Buffer) (ino flags : Nat) :
    Directory × Option Errcode :=
  if !fs.fs_rw then (dir, some .roFilesys)
  else if ino < 2 ∨ ino > fs.fs_blocks then (dir, some .invalidArgument)
  else
    let ls : LinkStruct := ⟨name, ino, flags, false, blockEnd fs dir.di⟩
    let (dir, ls, err) := dirIterate fs { include_empty := true } linkProc dir ls
    if err.isSome then (dir, err)
    else if ls.done then (dir, none)
    else
      let (dir, err) := expandDir fs alloc dir
      if err.isSome then (dir, err)
      else
        let ls := { ls with blockend := blockEnd fs dir.di }
        let (dir, ls, err) := dirIterate fs { include_empty := true } linkProc dir ls
        if err.isNone && !ls.done then (dir, some .internalFailure) else (dir, err)

structure UnlinkStruct where
  name : Buffer
  inode : Nat
  done : Bool
  deriving DecidableEq

def unlinkProc (buf : Buffer) (offset : Nat) (ls : UnlinkStruct) : Visited UnlinkStruct :=
  if nameLen buf offset ≠ ls.name.length then ⟨buf, ls, false, false⟩
  else if name buf offset (nameLen buf offset) ≠ ls.name then ⟨buf, ls, false, false⟩
  else if ls.inode ≠ 0 ∧ inode buf offset ≠ ls.inode then ⟨buf, ls, false, false⟩
  else ⟨setInode buf offset 0, { ls with done := true }, true, true⟩

def unlink (dir : Directory) (name : Buffer) (ino : Nat) : Directory × Option Errcode :=
  if !fs.fs_rw then (dir, some .roFilesys)
  else
    let (dir, ls, err) := dirIterate fs {} unlinkProc dir ⟨name, ino, false⟩
    if err.isSome then (dir, err) else if ls.done then (dir, none) else (dir, some .dirNoSpace)

end Link

end Ocfs2.Dir
