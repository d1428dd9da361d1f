import Ocfs2.Fsck.Pass3
import Ocfs2.Libocfs2.Dir
import Ocfs2.Shared.StepLoop

set_option autoImplicit false

/-!
Pass 2 of the check goes through the entries of one block of a directory and repairs what it may. An entry is
an offset into the block. The block is all the memory there is: a repair that reads or writes behind it has no
meaning. The answers to the questions are a sequence, read in the order of the questions.
-/

namespace Ocfs2.Pass2

open ByteBuffer Dir StepLoop

structure Context where
  fs : Filesys
  e_ino : Nat
  e_blkno : Nat
  e_blkcount : Nat
  answers : Nat → Bool
  test_inode_allocated : Nat → Bool
  ost_dir_inodes : Nat → Except Errcode Bool
  ost_reg_inodes : Nat → Except Errcode Bool
  type_from_dinode : Nat → Except Errcode Nat

structure State where
  buf : Buffer
  offset : Nat
  asked : Nat
  changed : Bool
  ost_dir_parents : List Pass3.DirParent
  strings : List Buffer
  s_allocated : Nat
  ost_icount_refs : Nat → Nat

namespace State

variable (s : State)

def inode : Nat := Dir.inode s.buf s.offset

def recLen : Nat := Dir.recLen s.buf s.offset

def nameLen : Nat := Dir.nameLen s.buf s.offset

def write (buf : Buffer) : State := { s with buf := buf, changed := true }

def clear : State := s.write (setInode s.buf s.offset 0)

end State

def ftUnknown : Nat := 0

def ftRegFile : Nat := 1

def ftDir : Nat := 2

section Lengths

variable (buf : Buffer) (dirent : Nat)

def direntLeavesPartial (left : Int) : Bool :=
  let left := left - recLen buf dirent
  decide (0 < left ∧ left < 12)

def corruptDirentLengths (left : Nat) : Bool :=
  !(decide (dirRecLen 1 ≤ recLen buf dirent) && recLen buf dirent % 4 == 0 &&
    decide (recLen buf dirent ≤ left) && decide (dirRecLen (nameLen buf dirent) ≤ recLen buf dirent) &&
    !direntLeavesPartial buf dirent left)

def blank : Buffer :=
  setFileType (setInode (setNameLen buf dirent 0) dirent 0) dirent ftUnknown

def shift (left : Nat) : Option Buffer :=
  let left := left - recLen buf dirent
  let buf := splice buf dirent (slice buf (dirent + recLen buf dirent) left)
  if dirent + left + recLen buf dirent ≤ buf.length then
    some (splice buf (dirent + left) (List.replicate (recLen buf dirent) 0))
  else none

def padPartial (left : Int) : Buffer :=
  if direntLeavesPartial buf dirent left then setRecLen buf dirent (recLen buf dirent + left).toNat else buf

def wipe (left : Nat) : Buffer := padPartial (blank (setRecLen buf dirent left) dirent) dirent 0

def fixDirentLengths (left : Nat) : Option Buffer :=
  let rec_len := recLen buf dirent
  let name_len := nameLen buf dirent
  if rec_len < 12 ∨ left < rec_len ∨ left < name_len then some (wipe buf dirent left)
  else if rec_len = 12 then (shift buf dirent left).map (padPartial · dirent (left - rec_len))
  -- the length is rounded in a wrong way
  else if dirRecLen name_len ≠ rec_len ∧ dirRecLen name_len = dirRecLen rec_len then
    some (padPartial (setRecLen buf dirent (dirRecLen name_len)) dirent (left - dirRecLen name_len))
  -- the length of the name is wrong
  else if rec_len % 4 = 0 ∧ ¬ direntLeavesPartial buf dirent left then
    some (padPartial (blank buf dirent) dirent (left - rec_len))
  else some (wipe buf dirent left)

end Lengths

section Checks

variable (ctx : Context)

def prompt (s : State) : Bool × State := (ctx.answers s.asked, { s with asked := s.asked + 1 })

def promptIf (cond : Bool) (s : State) : Bool × State := if cond then prompt ctx s else (false, s)

def direntHasDots (buf : Buffer) (dirent num_dots : Nat) : Bool :=
  if num_dots < 1 ∨ 2 < num_dots ∨ num_dots ≠ nameLen buf dirent then false
  else if num_dots = 2 ∧ buf.getD (dirent + 13) 0 ≠ 0x2e then false
  else buf.getD (dirent + 12) 0 == 0x2e

def expectedDots (offset : Nat) : Nat :=
  if ctx.e_blkcount = 0 then
    if offset = 0 ∨ ctx.e_ino = ctx.e_blkno ∧ offset = idData then 1
    else if offset = dirRecLen 1 ∨ ctx.e_ino = ctx.e_blkno ∧ offset = idData + dirRecLen 1 then 2
    else 0
  else 0

def splitRecord (buf : Buffer) (dirent rec_len : Nat) : Buffer :=
  let next := dirent + rec_len
  let buf := setRecLen buf dirent rec_len
  let buf := setNameLen (setInode buf next 0) next 0
  setRecLen buf next (dirRecLen (recLen buf next))

def splitDot (changed_len : Bool) (s : State) : Except Errcode State :=
  let rec_len := dirRecLen s.nameLen
  if rec_len = s.recLen then .ok s
  else
    let (split, s) := if changed_len then (true, s) else prompt ctx s
    if !split then .ok s
    else if s.buf.length < s.offset + rec_len + 12 then .error .undefined
    else .ok (s.write (splitRecord s.buf s.offset rec_len))

def clobberName (expect_dots : Nat) (s : State) : State :=
  let buf := setName (setNameLen s.buf s.offset expect_dots) s.offset (List.replicate expect_dots 0x2e)
  s.write (setFileType buf s.offset ftDir)

/-- An answer no to the removal of a second dot entry lets it fall into the repair of the `.` entry. -/
def fixDirentDots (s : State) : Except Errcode State :=
  let expect_dots := expectedDots ctx s.offset
  let dotty := direntHasDots s.buf s.offset 1 || direntHasDots s.buf s.offset 2
  if expect_dots = 0 ∧ (s.inode = 0 ∨ dotty = false) then .ok s
  else
    let (remove, s) := promptIf ctx (expect_dots == 0) s
    if remove then .ok s.clear
    else
      let (changed_len, s) := promptIf ctx (!direntHasDots s.buf s.offset expect_dots) s
      let s := if changed_len then clobberName expect_dots s else s
      if expect_dots = 2 then
        match Pass3.dirParentLookup s.ost_dir_parents ctx.e_ino with
        | none => .error .internalFailure
        | some _ =>
          .ok { s with
            ost_dir_parents := Pass3.modify s.ost_dir_parents ctx.e_ino ({ · with dp_dot_dot := s.inode }) }
      else
        let (fix, s) := promptIf ctx (s.inode != ctx.e_ino) s
        let s := if fix then s.write (setInode s.buf s.offset ctx.e_ino) else s
        splitDot ctx changed_len s

def fixNameChars : Nat → Nat → Bool → State → State
  | 0, _, _, s => s
  | len + 1, chr, fix, s =>
    if s.buf.getD chr 0 = 0x2f ∨ s.buf.getD chr 0 = 0 then
      let (fix, s) := if fix then (true, s) else prompt ctx s
      if fix then fixNameChars len (chr + 1) true (s.write (s.buf.set chr 0x2e)) else s
    else s

def fixDirentName (s : State) : Except Errcode State :=
  let len := s.nameLen
  let (zero, s) := promptIf ctx (len == 0) s
  let s := if zero then s.clear else s
  .ok (fixNameChars ctx len (s.offset + 12) false s)

def superBlockBlkno : Nat := 2

def blockOutOfRange (block : Nat) : Bool := decide (block < superBlockBlkno ∨ ctx.fs.fs_blocks < block)

def fixDirentInode (s : State) : Except Errcode State :=
  let (range, s) := promptIf ctx (blockOutOfRange ctx s.inode) s
  if range then .ok s.clear
  else
    let (free, s) := promptIf ctx (!ctx.test_inode_allocated s.inode) s
    .ok (if free then s.clear else s)

def expectedType (ino : Nat) : Except Errcode Nat :=
  match ctx.ost_dir_inodes ino with
  | .error e => .error e
  | .ok true => .ok ftDir
  | .ok false =>
    match ctx.ost_reg_inodes ino with
    | .error e => .error e
    | .ok true => .ok ftRegFile
    | .ok false => ctx.type_from_dinode ino

def fixDirentFiletype (s : State) : Except Errcode State :=
  match expectedType ctx s.inode with
  | .error e => .error e
  | .ok expected_type =>
    let (reset, s) := promptIf ctx (fileType s.buf s.offset != expected_type) s
    .ok (if reset then s.write (setFileType s.buf s.offset expected_type) else s)

/-- When the test of the bit fails, the code goes on with a variable that nothing has set. -/
def fixDirentLinkage (s : State) : Except Errcode State :=
  if expectedDots ctx s.offset ≠ 0 then .ok s
  else
    match ctx.ost_dir_inodes s.inode with
    | .error _ => .error .undefined
    | .ok false => .ok s
    | .ok true =>
      match Pass3.dirParentLookup s.ost_dir_parents s.inode with
      | none => .error .internalFailure
      | some dp =>
        if dp.dp_dirent = 0 then
          .ok { s with
            ost_dir_parents := Pass3.modify s.ost_dir_parents s.inode ({ · with dp_dirent := ctx.e_ino }) }
        else
          let (dup, s) := prompt ctx s
          .ok (if dup then s.clear else s)

def cString (bytes : Buffer) : Buffer := bytes.takeWhile (· != 0)

def tryNames (strings : List Buffer) : List Nat → Buffer → Option Buffer
  | [], _ => none
  | i :: places, new_name =>
    let new_name := new_name.set i 0x5f
    if strings.contains (cString new_name) then tryNames strings places new_name else some (cString new_name)

def mangle (strings : List Buffer) (name : Buffer) (rec_len : Nat) : Option Buffer :=
  tryNames strings (List.range' name.length (rec_len - name.length) ++ (List.range name.length).reverse)
    (name ++ List.replicate (rec_len + 1 - name.length) 0)

def stringsInsert (string : Buffer) (s : State) : State :=
  if s.strings.contains string then s
  else { s with strings := string :: s.strings, s_allocated := s.s_allocated + 32 + string.length }

def maxStrings : Nat := 4 * 1024 * 1024

def rename (new_name : Buffer) (s : State) : Except Errcode State :=
  let name_len := new_name.length % 256
  if s.buf.length < s.offset + 12 + name_len then .error .undefined
  else .ok (s.write (setName (setNameLen s.buf s.offset name_len) s.offset (new_name.take name_len)))

def fixDirentDups (s : State) : Except Errcode State :=
  let s := if maxStrings < s.s_allocated then { s with strings := [], s_allocated := 0 } else s
  let entry_name := name s.buf s.offset s.nameLen
  if !s.strings.contains entry_name then .ok (stringsInsert entry_name s)
  else
    match mangle s.strings entry_name s.recLen with
    | none => .ok s
    | some new_name =>
      let (replace, s) := prompt ctx s
      if replace then rename new_name (stringsInsert new_name s) else .ok s

def icountDelta (s : State) : Except Errcode State :=
  .ok { s with
    ost_icount_refs := Function.update s.ost_icount_refs s.inode ((s.ost_icount_refs s.inode + 1) % 2 ^ 16) }

def runChecks : List (State → Except Errcode State) → State → Except Errcode State
  | [], s => .ok s
  | check :: checks, s =>
    match check s with
    | .error e => .error e
    | .ok s => if s.inode = 0 then .ok s else runChecks checks s

def checkDirent : State → Except Errcode State :=
  runChecks [fixDirentDots ctx, fixDirentName ctx, fixDirentInode ctx, fixDirentFiletype ctx,
    fixDirentLinkage ctx, fixDirentDups ctx, icountDelta]

end Checks

section Loop

def round (ctx : Context) (fin : Nat) (s : State) : Step State (Except Errcode State) :=
  if fin ≤ s.offset then .stop (.ok s)
  else if s.buf.length < s.offset + 12 then .stop (.error .undefined)
  else if corruptDirentLengths s.buf s.offset (fin - s.offset) then
    let (repair, s) := prompt ctx s
    if repair then
      match fixDirentLengths s.buf s.offset (fin - s.offset) with
      | none => .stop (.error .undefined)
      | some buf => .again (s.write buf)
    else .stop (.ok s)
  else
    match checkDirent ctx s with
    | .error e => .stop (.error e)
    | .ok s => .again { s with offset := s.offset + s.recLen }

def RepairEnds (ctx : Context) (fin : Nat) (s : State) : Prop :=
  ∃ r, Stops (round ctx fin) s r ∧ r ≠ .error .undefined

end Loop

end Ocfs2.Pass2
