import Ocfs2.Shared.Field
import Ocfs2.Libocfs2.BlockCheck

set_option autoImplicit false

/-!
A directory entry is an offset into its block: eight bytes of inode number, two of record length, one of
name length, one of type, and the name. The host is little endian, so that the bytes of a block in memory
are those on disk.
-/

namespace Ocfs2.Dir

open ByteBuffer

structure Filesys where
  fs_blocksize : Nat
  fs_blocks : Nat
  fs_rw : Bool
  meta_ecc : Bool
  inline_data : Bool
  deriving DecidableEq

structure Dinode where
  i_blkno : Nat
  i_size : Nat
  i_inline : Bool
  i_blocks : List Nat
  i_block : Buffer
  deriving DecidableEq

section Entry

variable (buf : Buffer) (dirent : Nat)

def inode : Nat := leValue (slice buf dirent 8)

def recLen : Nat := leValue (slice buf (dirent + 8) 2)

def nameLen : Nat := leValue (slice buf (dirent + 10) 1)

def fileType : Nat := leValue (slice buf (dirent + 11) 1)

def name (len : Nat) : Buffer := slice buf (dirent + 12) len

def setInode (v : Nat) : Buffer := splice buf dirent (leBytes 8 v)

def setRecLen (v : Nat) : Buffer := splice buf (dirent + 8) (leBytes 2 v)

def setNameLen (v : Nat) : Buffer := splice buf (dirent + 10) (leBytes 1 v)

def setFileType (v : Nat) : Buffer := splice buf (dirent + 11) (leBytes 1 v)

def setName (bytes : Buffer) : Buffer := splice buf (dirent + 12) bytes

end Entry

def dirRecLen (name_len : Nat) : Nat := (name_len + 12 + 3) / 4 * 4

section Trailer

def sizeofTrailer : Nat := 64

def dirTrailerBlkOff (fs : Filesys) : Nat := fs.fs_blocksize - sizeofTrailer

def isInline (fs : Filesys) (di : Dinode) : Bool := fs.inline_data && di.i_inline

def dirHasTrailer (fs : Filesys) (di : Dinode) : Bool := if isInline fs di then false else fs.meta_ecc

def skipDirTrailer (fs : Filesys) (di : Dinode) (offset : Nat) : Bool :=
  dirHasTrailer fs di && offset == dirTrailerBlkOff fs

def trailerSignature : Buffer := [0x44, 0x49, 0x52, 0x54, 0x52, 0x4c, 0x31]

def initDirTrailer (fs : Filesys) (di : Dinode) (blkno : Nat) (buf : Buffer) : Buffer :=
  let trailer := dirTrailerBlkOff fs
  let buf := splice buf trailer (List.replicate sizeofTrailer 0)
  let buf := splice buf (trailer + 16) trailerSignature
  let buf := splice buf (trailer + 8) (leBytes 2 sizeofTrailer)
  let buf := splice buf (trailer + 32) (leBytes 8 blkno)
  splice buf (trailer + 40) (leBytes 8 di.i_blkno)

def dbCheck (fs : Filesys) : Nat := dirTrailerBlkOff fs + 48

end Trailer

section Block

def swapDirEntriesLoop (buf : Buffer) (bytes : Nat) : Nat → Nat → Bool → Except Errcode Unit
  | 0, _, bad => if bad then .error .dirCorrupted else .ok ()
  | fuel + 1, p, bad =>
    if p + 12 < bytes then
      let rec_len := recLen buf p
      let broken := rec_len < 12 || rec_len % 4 != 0
      let rec_len := if broken then 12 else rec_len
      swapDirEntriesLoop buf bytes fuel (p + rec_len) (bad || broken || nameLen buf p + 12 > rec_len)
    else if bad then .error .dirCorrupted
    else .ok ()

def swapDirEntries (buf : Buffer) (bytes : Nat) : Except Errcode Unit :=
  swapDirEntriesLoop buf bytes bytes 0 false

def validateMetaEcc (fs : Filesys) (buf : Buffer) : Except Errcode Buffer :=
  if fs.meta_ecc then
    match BlockCheck.blockCheckValidate .little 0 buf (dbCheck fs) with
    | none => .error .undefined
    | some (.error e, _) => .error e
    | some (.ok (), buf) => .ok buf
  else .ok buf

def computeMetaEcc (fs : Filesys) (buf : Buffer) : Except Errcode Buffer :=
  if fs.meta_ecc then
    match BlockCheck.blockCheckCompute .little 0 buf (dbCheck fs) with
    | none => .error .undefined
    | some buf => .ok buf
  else .ok buf

def readDirBlock (fs : Filesys) (di : Dinode) (disk : Nat → Buffer) (block : Nat) : Except Errcode Buffer := do
  let buf := disk block
  if dirHasTrailer fs di then
    let buf ← validateMetaEcc fs buf
    if slice buf (dirTrailerBlkOff fs + 16) 7 ≠ trailerSignature then throw .badDirBlockMagic
    swapDirEntries buf (dirTrailerBlkOff fs)
    return buf
  else
    swapDirEntries buf fs.fs_blocksize
    return buf

def writeDirBlock (fs : Filesys) (di : Dinode) (disk : Nat → Buffer) (block : Nat) (inbuf : Buffer) :
    Except Errcode (Nat → Buffer) := do
  let bytes := if dirHasTrailer fs di then dirTrailerBlkOff fs else fs.fs_blocksize
  swapDirEntries inbuf bytes
  let buf ← computeMetaEcc fs inbuf
  return Function.update disk block buf

end Block

end Ocfs2.Dir
