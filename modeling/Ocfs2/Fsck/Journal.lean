import Ocfs2.Shared.ByteBuffer
import Ocfs2.Libocfs2.Common
import Ocfs2.Libocfs2.KernelRbtree

set_option autoImplicit false

/-!
The two walks over the journals of the slots. The superblock of a journal is decoded, its inode is a map
of its blocks to those of the disk, which is zero in a hole. Reads and writes of the disk succeed.
A walk that does not return, or that ends the program, has no result.
-/

namespace Ocfs2.Journal

open ByteBuffer Rbtree

def magicNumber : BitVec 32 := 0xc03b3998

def descriptorBlock : BitVec 32 := 1

def commitBlock : BitVec 32 := 2

def superblockV2 : BitVec 32 := 4

def revokeBlock : BitVec 32 := 5

def flagEscape : BitVec 32 := 1

def flagSameUuid : BitVec 32 := 2

def flagLastTag : BitVec 32 := 8

def featureIncompat64bit : BitVec 32 := 2

structure Superblock where
  h_blocktype : BitVec 32
  s_blocksize : Nat
  s_maxlen : Nat
  s_first : Nat
  s_sequence : BitVec 32
  s_start : Nat
  s_feature_incompat : BitVec 32
  deriving DecidableEq

structure RevokeEntry where
  r_block : Nat
  r_seq : BitVec 32
  deriving DecidableEq

structure JournalInfo where
  ji_slot : Nat
  ji_dirty : Bool
  ji_replay : Bool
  ji_revoke : Node RevokeEntry
  ji_jsb : Superblock
  ji_blocks : Nat → Nat
  ji_set_final_seq : Bool
  ji_final_seq : BitVec 32

structure Copy where
  slot : Nat
  journalBlock : Nat
  block : Nat
  data : Buffer
  deriving DecidableEq

structure Fsck where
  fs_blocks : Nat
  disk : Nat → Buffer
  used_blocks : Finset Nat
  copies : List Copy

def be32 (buf : Buffer) (off : Nat) : BitVec 32 :=
  buf.getD off 0 ++ buf.getD (off + 1) 0 ++ buf.getD (off + 2) 0 ++ buf.getD (off + 3) 0

section Revoke

def seqGt (x y : BitVec 32) : Bool := 0 < (x - y).toInt

def seqGeq (x y : BitVec 32) : Bool := 0 ≤ (x - y).toInt

def revokeOrder (block : Nat) (re : RevokeEntry) : Ordering := compare block re.r_block

def revokeInsert (root : Node RevokeEntry) (block : Nat) (seq : BitVec 32) : Node RevokeEntry :=
  match descend (revokeOrder block) root [] with
  | (.node c l re r, path) =>
    plug (.node c l (if seqGt seq re.r_seq then { re with r_seq := seq } else re) r) path
  | (.nil, path) => rbInsertColor (.node .red .nil ⟨block, seq⟩ .nil) path

/-- A block that is found but not revoked leaves the loop of the source where it is. -/
def revokeThisBlock (root : Node RevokeEntry) (block : Nat) (seq : BitVec 32) : Option Bool :=
  match (descend (revokeOrder block) root []).1 with
  | .nil => some false
  | .node _ _ re _ => if !seqGt seq re.r_seq then some true else none

def addRevokeRecords (ji : JournalInfo) (buf : Buffer) (max : Nat) (seq : BitVec 32) : JournalInfo :=
  let r_count := (be32 buf 12).toNat
  if r_count < 16 ∨ r_count > max then ji
  else
    let num := (r_count - 16) / 8
    let blknos := (List.range num).map fun i => (be32 buf (16 + 4 * i)).toNat
    { ji with ji_revoke := blknos.foldl (fun root blkno => revokeInsert root blkno seq) ji.ji_revoke }

end Revoke

section Blocks

def jwrapLoop (maxlen diff : Nat) : Nat → Nat → Nat
  | 0, block => block
  | fuel + 1, block => if block ≥ maxlen then jwrapLoop maxlen diff fuel (block - diff) else block

/-- Each round of the loop takes away one or more, so that there are at most `block` of them. -/
def jwrap (jsb : Superblock) (block : Nat) : Nat :=
  let diff := jsb.s_maxlen - jsb.s_first
  if diff = 0 then 0 else jwrapLoop jsb.s_maxlen diff block block

structure Tag where
  block : Nat
  t_flags : BitVec 32
  deriving DecidableEq

def Tag.has (tag : Tag) (flag : BitVec 32) : Bool := tag.t_flags &&& flag != 0

def journalTagBytes (jsb : Superblock) : Nat :=
  if jsb.h_blocktype = superblockV2 ∧ jsb.s_feature_incompat &&& featureIncompat64bit ≠ 0 then 12 else 8

def readTag (jsb : Superblock) (buf : Buffer) (tagp : Nat) : Tag where
  block := (be32 buf tagp).toNat +
    if journalTagBytes jsb > 8 then 2 ^ 32 * (be32 buf (tagp + 8)).toNat else 0
  t_flags := be32 buf (tagp + 4)

def nextTag (jsb : Superblock) (tag : Tag) (tagp : Nat) : Nat :=
  tagp + journalTagBytes jsb + if tag.has flagSameUuid then 0 else 16

def blockOutOfRange (fs : Fsck) (block : Nat) : Bool := block < 2 || block > fs.fs_blocks

def countTagsLoop (fs : Fsck) (jsb : Superblock) (buf : Buffer) : Nat → Nat → Nat → Except Errcode Nat
  | 0, _, nr => .ok nr
  | fuel + 1, tagp, nr =>
    if tagp + journalTagBytes jsb ≤ jsb.s_blocksize then
      let tag := readTag jsb buf tagp
      if blockOutOfRange fs tag.block then .error .badJournalTag
      else if tag.has flagLastTag then .ok (nr + 1)
      else countTagsLoop fs jsb buf fuel (nextTag jsb tag tagp) (nr + 1)
    else .ok nr

def countTags (fs : Fsck) (jsb : Superblock) (buf : Buffer) : Except Errcode Nat :=
  if jsb.s_blocksize < 12 + journalTagBytes jsb then .error .badJournalTag
  else countTagsLoop fs jsb buf jsb.s_blocksize 12 0

/-- With a check for blocks used twice, a block behind the file system ends the program. -/
def readJournalBlock (fs : Fsck) (ji : JournalInfo) (blkoff : Nat) (checkDup : Bool) :
    Option (Fsck × Except Errcode Buffer) :=
  let blkno := ji.ji_blocks blkoff
  if checkDup then
    if blkno ≥ fs.fs_blocks then none
    else if blkno ∈ fs.used_blocks then some (fs, .error .duplicateBlock)
    else some ({ fs with used_blocks := insert blkno fs.used_blocks }, .ok (fs.disk blkno))
  else some (fs, .ok (fs.disk blkno))

def unescape (tag : Tag) (buf : Buffer) : Buffer :=
  if tag.has flagEscape then splice buf 0 [0xc0, 0x3b, 0x39, 0x98] else buf

def replayTag (ji : JournalInfo) (tag : Tag) (seq : BitVec 32) (nextBlock : Nat) (fs : Fsck)
    (ret : Option Errcode) : Option (Fsck × Option Errcode) :=
  match revokeThisBlock ji.ji_revoke tag.block seq with
  | none => none
  | some true => some (fs, ret)
  | some false =>
    match readJournalBlock fs ji nextBlock true with
    | none => none
    | some (fs, .error e) => some (fs, some e)
    | some (fs, .ok buf) =>
      let data := unescape tag buf
      some ({ fs with
        disk := Function.update fs.disk tag.block data
        copies := fs.copies ++ [⟨ji.ji_slot, nextBlock, tag.block, data⟩] }, ret)

def replayLoop (ji : JournalInfo) (buf : Buffer) (seq : BitVec 32) :
    Nat → Nat → Nat → Fsck → Option Errcode → Option (Fsck × Nat × Option Errcode)
  | 0, _, nextBlock, fs, ret => some (fs, nextBlock, ret)
  | n + 1, tagp, nextBlock, fs, ret =>
    let tag := readTag ji.ji_jsb buf tagp
    let nextBlock := jwrap ji.ji_jsb nextBlock
    match replayTag ji tag seq nextBlock fs ret with
    | none => none
    | some (fs, ret) =>
      if tag.has flagLastTag then some (fs, nextBlock + 1, ret)
      else replayLoop ji buf seq n (nextTag ji.ji_jsb tag tagp) (nextBlock + 1) fs ret

def replayBlocks (fs : Fsck) (ji : JournalInfo) (buf : Buffer) (seq : BitVec 32) (nextBlock : Nat) :
    Option (Fsck × Nat × Option Errcode) :=
  let num := (ji.ji_jsb.s_blocksize - 12) / journalTagBytes ji.ji_jsb
  replayLoop ji buf seq num 12 nextBlock fs none

end Blocks

section Walk

structure Walk where
  fs : Fsck
  ji : JournalInfo
  next_seq : BitVec 32
  next_block : Nat
  ret : Option Errcode

def walkRecord (recover : Bool) (w : Walk) (buf : Buffer) : Option Walk :=
  if be32 buf 4 = descriptorBlock then
    if recover then
      match replayBlocks w.fs w.ji buf w.next_seq w.next_block with
      | none => none
      | some (fs, next_block, err) =>
        -- the block that follows is not wrapped here
        some { w with fs, next_block, ret := err.or w.ret }
    else
      match countTags w.fs w.ji.ji_jsb buf with
      | .error e => some { w with ret := some e }
      | .ok nr => some { w with next_block := jwrap w.ji.ji_jsb (w.next_block + nr) }
  else if be32 buf 4 = commitBlock then some { w with next_seq := w.next_seq + 1 }
  else if be32 buf 4 = revokeBlock then
    some { w with ji := addRevokeRecords w.ji buf w.ji.ji_jsb.s_blocksize w.next_seq }
  else some w

def walkLoop (recover : Bool) : Nat → Walk → Option Walk
  | 0, _ => none
  | fuel + 1, w =>
    if !(recover || w.ret.isNone) then some w
    else if recover && seqGeq w.next_seq w.ji.ji_final_seq then some w
    else
      match readJournalBlock w.fs w.ji w.next_block (!recover) with
      | none => none
      | some (fs, .error e) => some { w with fs, ret := some e }
      | some (fs, .ok buf) =>
        let w := { w with fs, next_block := jwrap w.ji.ji_jsb (w.next_block + 1) }
        if be32 buf 0 ≠ magicNumber then some w
        else if be32 buf 8 ≠ w.next_seq then some w
        else
          match walkRecord recover w buf with
          | none => none
          | some w => walkLoop recover fuel w

/-- The source sets the wrong variable when the second walk stops early, and returns no error then. -/
def walkJournal (fuel : Nat) (fs : Fsck) (ji : JournalInfo) (recover : Bool) :
    Option (Fsck × JournalInfo × Option Errcode) :=
  if ji.ji_jsb.s_start = 0 then some (fs, ji, none)
  else
    match walkLoop recover fuel ⟨fs, ji, ji.ji_jsb.s_sequence, ji.ji_jsb.s_start, none⟩ with
    | none => none
    | some w =>
      if recover then some (w.fs, w.ji, w.ret)
      else some (w.fs, { w.ji with ji_set_final_seq := true, ji_final_seq := w.next_seq }, w.ret)

end Walk

section Slots

def prepJournalInfo (fs : Fsck) (ji : JournalInfo) : Option (Fsck × JournalInfo × Option Errcode) :=
  if !ji.ji_dirty then some (fs, ji, none)
  else
    match readJournalBlock fs ji 0 true with
    | none => none
    | some (fs, .error e) => some (fs, ji, some e)
    | some (fs, .ok _) => some (fs, { ji with ji_replay := true }, none)

def scanSlots (fuel : Nat) : Fsck → List JournalInfo → Option (Fsck × List JournalInfo)
  | fs, [] => some (fs, [])
  | fs, ji :: jis =>
    match prepJournalInfo fs ji with
    | none => none
    | some (fs, ji, err) =>
      if err.isSome || !ji.ji_replay then
        (scanSlots fuel fs jis).map fun (fs, jis) => (fs, ji :: jis)
      else
        match walkJournal fuel fs ji false with
        | none => none
        | some (fs, ji, _) => (scanSlots fuel fs jis).map fun (fs, jis) => (fs, ji :: jis)

def resetJournal (ji : JournalInfo) : JournalInfo :=
  { ji with ji_jsb := { ji.ji_jsb with
    s_start := 0
    s_sequence := if ji.ji_set_final_seq then ji.ji_final_seq + 1 else ji.ji_jsb.s_sequence } }

def replaySlots (fuel : Nat) : Fsck → List JournalInfo → Option (Fsck × List JournalInfo)
  | fs, [] => some (fs, [])
  | fs, ji :: jis =>
    if !ji.ji_replay then (replaySlots fuel fs jis).map fun (fs, jis) => (fs, ji :: jis)
    else
      match walkJournal fuel fs ji true with
      | none => none
      | some (fs, ji, err) =>
        let ji := if err.isSome then ji else resetJournal ji
        (replaySlots fuel fs jis).map fun (fs, jis) => (fs, ji :: jis)

def replayJournals (fuel : Nat) (fs : Fsck) (jis : List JournalInfo) : Option (Fsck × List JournalInfo) :=
  match scanSlots fuel fs jis with
  | none => none
  | some (fs, jis) => replaySlots fuel fs jis

end Slots

end Ocfs2.Journal
