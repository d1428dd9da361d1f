import Ocfs2.Libocfs2.Image

set_option autoImplicit false

namespace Ocfs2.Image

open ByteBuffer Bitops
open Crc32 (Endian)

structure Volume where
  fs_blocks : Nat
  fs_blocksize : Nat
  read : Nat → Except Errcode Buffer
  nonempty : 0 < fs_blocks
  blocksize : 512 ≤ fs_blocksize
  bounded : fs_blocks * fs_blocksize ≤ 2 ^ 52
  full : ∀ b buf, read b = .ok buf → buf.length = fs_blocksize

def backupSuperBlkno (blocksize index : Nat) : Nat := 2 ^ 30 * 2 ^ (2 * index) / blocksize

def getBackupSuperOffsets (vol : Volume) : List Nat :=
  ((List.range maxBackupSuperblocks).map (backupSuperBlkno vol.fs_blocksize)).takeWhile (· < vol.fs_blocks)

structure Sink where
  file : Buffer
  calls : Nat
  deriving DecidableEq

inductive Stop where
  | error (e : Errcode)
  | written (bytes : Int)
  deriving DecidableEq

structure WriteEnv where
  host : Endian
  time : Nat
  block : Buffer
  result : Nat → Nat → Int

variable (env : WriteEnv) (vol : Volume) (ost : ImageState)

def write (data : Buffer) (sink : Sink) : Int × Sink :=
  let bytes := env.result sink.calls data.length
  (bytes, ⟨sink.file ++ data.take bytes.toNat, sink.calls + 1⟩)

def countBlocks : List Nat → Nat → Except Errcode Nat
  | [], blk => return blk
  | i :: rest, blk => do
    let set ← imageTestBit ost i
    countBlocks rest (if set then blk + 1 else blk)

def imageHdr : Except Errcode ImageHdr := do
  let old := hdrOfBlock env.host env.block
  let blk ← countBlocks ost (List.range vol.fs_blocks) 0
  let supers := getBackupSuperOffsets vol
  let superblocks ← supers.mapM (imageGetBlockno ost)
  imageSwapHeader env.host
    { hdr_magic := imageMagic
      hdr_timestamp := env.time % 2 ^ 32
      hdr_magic_desc := imageDesc ++ old.hdr_magic_desc.drop imageDesc.length
      hdr_version := imageVersion
      hdr_fsblkcnt := vol.fs_blocks
      hdr_fsblksz := vol.fs_blocksize
      hdr_imgblkcnt := blk
      hdr_bmpblksz := ost.ost_bmpblksz
      hdr_superblkcnt := supers.length
      hdr_superblocks := superblocks ++ old.hdr_superblocks.drop supers.length }

def writeBlocks : List Nat → Sink → Option Stop × Sink
  | [], sink => (none, sink)
  | blk :: rest, sink =>
    match imageTestBit ost blk with
    | .error e => (some (.error e), sink)
    | .ok false => writeBlocks rest sink
    | .ok true =>
      match vol.read blk with
      | .error e => (some (.error e), sink)
      | .ok buf =>
        let (bytes, sink) := write env buf sink
        if bytes < vol.fs_blocksize then (some (.written bytes), sink) else writeBlocks rest sink

def writeBitmaps : List BitmapArr → Sink → Option Stop × Sink
  | [], sink => (none, sink)
  | arr :: rest, sink =>
    let (bytes, sink) := write env (arr.arr_map.take ost.ost_bmpblksz) sink
    if bytes < ost.ost_bmpblksz then (some (.written bytes), sink) else writeBitmaps rest sink

def writeImageFile : Option Stop × Sink :=
  match imageHdr env vol ost with
  | .error e => (some (.error e), ⟨[], 0⟩)
  | .ok hdr =>
    let bytes := (hdr.parts env.host).flatten
    let (bytes, sink) := write env (bytes ++ env.block.drop bytes.length) ⟨[], 0⟩
    if bytes ≠ vol.fs_blocksize then (some (.written bytes), sink)
    else
      match writeBlocks env vol ost (List.range vol.fs_blocks) sink with
      | (some stop, sink) => (some stop, sink)
      | (none, sink) => writeBitmaps env ost (ost.ost_bmparr.take ost.ost_bmpblks) sink

end Ocfs2.Image
