import Ocfs2.Libocfs2.Bitops
import Ocfs2.Libocfs2.Common
import Ocfs2.Libocfs2.Crc32
import Ocfs2.Shared.Packed

set_option autoImplicit false

/-!
A packed image has a header block, the blocks that are marked in a bitmap and the bitmap. The header is kept in little
endian; hosts of both byte orders are modelled.
-/

namespace Ocfs2.Image

open ByteBuffer Bitops
open Crc32 (Endian)

def imageMagic : Nat := 0x72a3d45f

def imageDesc : Buffer := [0x4f, 0x43, 0x46, 0x53, 0x32, 0x20, 0x49, 0x4d, 0x41, 0x47, 0x45, 0x00]

def imageVersion : Nat := 1

def bitmapBlocksize : Nat := 4096

def bitsInBlock : Nat := bitmapBlocksize * 8

def maxBackupSuperblocks : Nat := 6

section Header

structure ImageHdr where
  hdr_magic : Nat
  hdr_timestamp : Nat
  hdr_magic_desc : Buffer
  hdr_version : Nat
  hdr_fsblkcnt : Nat
  hdr_fsblksz : Nat
  hdr_imgblkcnt : Nat
  hdr_bmpblksz : Nat
  hdr_superblkcnt : Nat
  hdr_superblocks : List Nat
  deriving DecidableEq

def load : Endian → Buffer → Nat
  | .little, bytes => leValue bytes
  | .big, bytes => leValue bytes.reverse

def store : Endian → Nat → Nat → Buffer
  | .little, n, v => leBytes n v
  | .big, n, v => (leBytes n v).reverse

def bswap (n v : Nat) : Nat := leValue (leBytes n v).reverse

def hdrWidths : List Nat := [4, 4, 16, 8, 8, 8, 8, 8, 8] ++ List.replicate maxBackupSuperblocks 8

def ImageHdr.parts (host : Endian) (hdr : ImageHdr) : List Buffer :=
  [store host 4 hdr.hdr_magic, store host 4 hdr.hdr_timestamp, hdr.hdr_magic_desc, store host 8 hdr.hdr_version,
    store host 8 hdr.hdr_fsblkcnt, store host 8 hdr.hdr_fsblksz, store host 8 hdr.hdr_imgblkcnt,
    store host 8 hdr.hdr_bmpblksz, store host 8 hdr.hdr_superblkcnt] ++ hdr.hdr_superblocks.map (store host 8)

def hdrOfParts (host : Endian) (parts : List Buffer) : ImageHdr where
  hdr_magic := load host (parts.getD 0 [])
  hdr_timestamp := load host (parts.getD 1 [])
  hdr_magic_desc := parts.getD 2 []
  hdr_version := load host (parts.getD 3 [])
  hdr_fsblkcnt := load host (parts.getD 4 [])
  hdr_fsblksz := load host (parts.getD 5 [])
  hdr_imgblkcnt := load host (parts.getD 6 [])
  hdr_bmpblksz := load host (parts.getD 7 [])
  hdr_superblkcnt := load host (parts.getD 8 [])
  hdr_superblocks := (parts.drop 9).map (load host)

def hdrOfBlock (host : Endian) (blk : Buffer) : ImageHdr := hdrOfParts host (parts hdrWidths blk)

/-- The count that bounds the loop over the superblocks is the one before its own swap. The version, a field of 64
bits, is swapped as one of 32. -/
def imageSwapHeader (host : Endian) (hdr : ImageHdr) : Except Errcode ImageHdr :=
  match host with
  | .little => .ok hdr
  | .big =>
    if hdr.hdr_superblkcnt > hdr.hdr_superblocks.length then .error .undefined
    else .ok
      { hdr with
        hdr_superblocks := (hdr.hdr_superblocks.take hdr.hdr_superblkcnt).map (bswap 8) ++
          hdr.hdr_superblocks.drop hdr.hdr_superblkcnt
        hdr_magic := bswap 4 hdr.hdr_magic
        hdr_version := bswap 4 (hdr.hdr_version % 2 ^ 32)
        hdr_timestamp := bswap 4 hdr.hdr_timestamp
        hdr_fsblkcnt := bswap 8 hdr.hdr_fsblkcnt
        hdr_fsblksz := bswap 8 hdr.hdr_fsblksz
        hdr_imgblkcnt := bswap 8 hdr.hdr_imgblkcnt
        hdr_bmpblksz := bswap 8 hdr.hdr_bmpblksz
        hdr_superblkcnt := bswap 8 hdr.hdr_superblkcnt }

end Header

section State

structure BitmapArr where
  arr_set_bit_cnt : Nat
  arr_map : Buffer
  deriving DecidableEq

structure ImageState where
  ost_fsblksz : Nat
  ost_fsblkcnt : Nat
  ost_imgblkcnt : Nat
  ost_bmpblks : Nat
  ost_bmpblksz : Nat
  ost_bmparr : List BitmapArr
  deriving DecidableEq

def bitmapBlocks (fsblkcnt : Nat) : Nat := (fsblkcnt + 2 ^ 64 - 1) % 2 ^ 64 / bitsInBlock + 1

def imageAllocBitmap (memory : Nat → Buffer) (ost : ImageState) : ImageState :=
  let blks := bitmapBlocks ost.ost_fsblkcnt
  { ost with
    ost_bmpblks := blks
    ost_bmpblksz := bitmapBlocksize
    ost_bmparr := (List.range blks).map fun i => ⟨0, (memory i).take bitmapBlocksize⟩ }

def bitmapArr (ost : ImageState) (blkno : Nat) : Except Errcode BitmapArr :=
  match ost.ost_bmparr[blkno / bitsInBlock]? with
  | none => .error .undefined
  | some arr => .ok arr

def imageTestBit (ost : ImageState) (blkno : Nat) : Except Errcode Bool := do
  let arr ← bitmapArr ost blkno
  return testBit (blkno % bitsInBlock) arr.arr_map

def imageGetBlockno (ost : ImageState) (blkno : Nat) : Except Errcode Nat := do
  let arr ← bitmapArr ost blkno
  let bit := blkno % bitsInBlock
  if testBit bit arr.arr_map then
    return arr.arr_set_bit_cnt + 1 + countTrue (fun i => testBit i arr.arr_map) bit
  else return uint64Max

end State

section Load

def loadBlocks (file : Buffer) (memory : Nat → Buffer) : Nat → Nat → Nat → Nat → List BitmapArr
  | _, 0, _, _ => []
  | i, left + 1, blk_off, bits_set =>
    let data := (file.drop blk_off).take bitmapBlocksize
    let map := (data ++ (memory i).drop data.length).take bitmapBlocksize
    if data.length < bitmapBlocksize then
      ⟨bits_set, map⟩ :: (List.range' (i + 1) left).map fun j => ⟨0, (memory j).take bitmapBlocksize⟩
    else
      let bits := countTrue (fun j => testBit j map) (bitmapBlocksize * 8)
      ⟨bits_set, map⟩ :: loadBlocks file memory (i + 1) left (blk_off + bitmapBlocksize) (bits_set + bits)

/-- Until the block size of the volume is known the channel has blocks of 512 bytes. The size of a bitmap block that
the header has is overwritten by the allocation. -/
def imageLoadBitmap (host : Endian) (file : Buffer) (memory : Nat → Buffer) : Except Errcode ImageState := do
  if file.length < 512 then .error .shortRead
  else
    let hdr ← imageSwapHeader host (hdrOfBlock host (file.take 512))
    if hdr.hdr_magic ≠ imageMagic then .error .badMagic
    else if hdr.hdr_magic_desc.take imageDesc.length ≠ imageDesc then .error .badMagic
    else if hdr.hdr_version > imageVersion then .error .ocfsRev
    else
      let ost := imageAllocBitmap memory
        ⟨hdr.hdr_fsblksz, hdr.hdr_fsblkcnt, hdr.hdr_imgblkcnt, 0, hdr.hdr_bmpblksz, []⟩
      let blk_off := (ost.ost_imgblkcnt + 1) * ost.ost_fsblksz % 2 ^ 64
      return { ost with ost_bmparr := loadBlocks file memory 0 ost.ost_bmpblks blk_off 0 }

end Load

end Ocfs2.Image
