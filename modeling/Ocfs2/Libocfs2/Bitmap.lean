import Ocfs2.Libocfs2.Bitops
import Ocfs2.Libocfs2.Common
import Ocfs2.Libocfs2.KernelRbtree

set_option autoImplicit false

/-!
A bitmap is a tree of regions, each with the memory for its bits. A region is known by its first bit,
which no other region of the tree has. Allocations of memory that can exist succeed.
-/

namespace Ocfs2

open ByteBuffer Rbtree

structure Region (π : Type) where
  br_start_bit : Nat
  br_total_bits : Nat
  br_set_bits : Int
  br_bitmap : Buffer
  br_private : π
  deriving DecidableEq

structure Bitmap (π σ : Type) where
  b_total_bits : Nat
  b_set_bits : BitVec 64
  b_regions : Node (Region π)
  b_private : σ

structure Callbacks (π σ : Type) where
  merge_region : Option (Region π → Region π → Bool)
  bit_change_notify : Option (σ → Region π → Nat → Bool → σ × Region π)

namespace Bitmap

variable {π σ : Type}

def alignTotal (totalBits : Nat) : Nat := (totalBits + 7) / 8

def allocRegion (startBit totalBits : Nat) (priv : π) : Region π where
  br_start_bit := startBit
  br_total_bits := totalBits
  br_set_bits := 0
  br_bitmap := List.replicate (alignTotal totalBits) 0
  br_private := priv

def reallocRegion (bitmap : Bitmap π σ) (br : Region π) (totalBits : Nat) :
    Except Errcode (Region π) :=
  if br.br_start_bit + totalBits > bitmap.b_total_bits then .error .invalidBit
  -- here the int sum of `ocfs2_align_total` wraps, and no memory of the resulting size can be had
  else if totalBits + 7 > intMax then .error .noMemory
  else
    let more := alignTotal totalBits - br.br_bitmap.length
    .ok { br with
      br_bitmap := br.br_bitmap ++ List.replicate more 0
      br_total_bits := totalBits }

def shiftIn (offset : Nat) (nbitmap : Buffer) : Nat → Int → Nat → Nat → Buffer → Buffer
  | 0, _, _, _, pbitmap => pbitmap
  | bytes + 1, total, pbm, nbm, pbitmap =>
    if total > 0 then
      let diff := 8 - offset
      let n := nbitmap.getD nbm 0
      let pbitmap := pbitmap.modify pbm fun p =>
        (p &&& (BitVec.ofNat 8 (2 ^ offset - 1))) ||| ((n &&& BitVec.ofNat 8 (2 ^ diff - 1)) <<< offset)
      let total := total - diff
      if total > 0 then
        shiftIn offset nbitmap bytes (total - offset) (pbm + 1) (nbm + 1)
          (pbitmap.modify (pbm + 1) fun _ => n >>> diff)
      else shiftIn offset nbitmap bytes total (pbm + 1) nbm pbitmap
    else pbitmap

def mergeBits (prevBytes offset : Nat) (pbitmap : Buffer) (next : Region π) : Buffer :=
  if offset = 0 then splice pbitmap prevBytes next.br_bitmap
  else shiftIn offset next.br_bitmap next.br_bitmap.length next.br_total_bits (prevBytes - 1) 0 pbitmap

def replaceRegion (br : Region π) (regions : Node (Region π)) : Node (Region π) :=
  regions.map fun r => if r.br_start_bit = br.br_start_bit then br else r

def mergeRegion (ops : Callbacks π σ) (bitmap : Bitmap π σ) (prev next : Region π) :
    Except Errcode (Bitmap π σ) :=
  let newBits := prev.br_total_bits + next.br_total_bits
  if prev.br_start_bit + prev.br_total_bits ≠ next.br_start_bit then .error .invalidBit
  else if ops.merge_region.any fun merge => !merge prev next then .error .invalidBit
  else if newBits > intMax then .error .invalidBit
  else
    match reallocRegion bitmap prev newBits with
    | .error e => .error e
    | .ok grown =>
      -- the bytes and the offset are those of the region before it grew
      let grown := { grown with
        br_bitmap := mergeBits prev.br_bitmap.length (prev.br_total_bits % 8) grown.br_bitmap next
        br_set_bits := grown.br_set_bits + next.br_set_bits }
      let regions := rbEraseEntry (fun r => r.br_start_bit == next.br_start_bit) bitmap.b_regions
      .ok { bitmap with b_regions := replaceRegion grown regions }

def order (bitno endBit : Nat) (br : Region π) : Ordering :=
  if endBit ≤ br.br_start_bit then .lt
  else if bitno ≥ br.br_start_bit + br.br_total_bits then .gt
  else .eq

def lookup (bitmap : Bitmap π σ) (bitno totalBits : Nat) : Node (Region π) × List (Frame (Region π)) :=
  descend (order bitno (bitno + totalBits)) bitmap.b_regions []

def nodesFrom : Node (Region π) × List (Frame (Region π)) → List (Region π)
  | (.nil, path) => after path
  | (.node _ _ br r, path) => br :: r.toList ++ after path

def tryMerge (ops : Callbacks π σ) (bitmap : Bitmap π σ) (prev next : Region π) : Bitmap π σ :=
  match mergeRegion ops bitmap prev next with
  | .ok bitmap => bitmap
  | .error _ => bitmap

def neighbours (regions : Node (Region π)) (startBit : Nat) : Option (Region π) × Option (Region π) :=
  match locate (fun r => r.br_start_bit == startBit) regions [] with
  | none => (none, none)
  | some (_, l, r, path) => (rbPrev l path, rbNext r path)

def mergeNeighbours (ops : Callbacks π σ) (bitmap : Bitmap π σ) (br : Region π) : Bitmap π σ :=
  let (bitmap, startBit) := match (neighbours bitmap.b_regions br.br_start_bit).1 with
    | some prev => (tryMerge ops bitmap prev br, prev.br_start_bit)
    | none => (bitmap, br.br_start_bit)
  match bitmap.b_regions.toList.find? (·.br_start_bit == startBit),
    (neighbours bitmap.b_regions startBit).2 with
  | some br, some next => tryMerge ops bitmap br next
  | _, _ => bitmap

def insertRegion (ops : Callbacks π σ) (bitmap : Bitmap π σ) (br : Region π) :
    Except Errcode (Bitmap π σ) :=
  if br.br_start_bit > bitmap.b_total_bits then .error .invalidBit
  else
    match lookup bitmap br.br_start_bit br.br_total_bits with
    | (.node _ _ _ _, _) => .error .invalidBit
    | (.nil, path) =>
      let regions := rbInsertColor (.node .red .nil br .nil) path
      .ok (mergeNeighbours ops { bitmap with b_regions := regions } br)

def setGenericShared (ops : Callbacks π σ) (priv : σ) (br : Region π) (bitno : Nat) :
    Bool × σ × Region π :=
  let (old, bits) := Bitops.setBit (bitno - br.br_start_bit) br.br_bitmap
  let br := { br with br_bitmap := bits }
  if old then (old, priv, br)
  else
    let br := { br with br_set_bits := br.br_set_bits + 1 }
    match ops.bit_change_notify with
    | some notify => (old, notify priv br bitno true)
    | none => (old, priv, br)

def clearGenericShared (ops : Callbacks π σ) (priv : σ) (br : Region π) (bitno : Nat) :
    Bool × σ × Region π :=
  let (old, bits) := Bitops.clearBit (bitno - br.br_start_bit) br.br_bitmap
  let br := { br with br_bitmap := bits }
  if old then
    let br := { br with br_set_bits := br.br_set_bits - 1 }
    match ops.bit_change_notify with
    | some notify => (old, notify priv br bitno false)
    | none => (old, priv, br)
  else (old, priv, br)

def setGeneric (ops : Callbacks π σ) (bitmap : Bitmap π σ) (bitno : Nat) :
    Except Errcode (Bitmap π σ × Bool) :=
  match lookup bitmap bitno 1 with
  | (.nil, _) => .error .invalidBit
  | (.node c l br r, path) =>
    let (old, priv, br) := setGenericShared ops bitmap.b_private br bitno
    .ok ({ bitmap with b_regions := plug (.node c l br r) path, b_private := priv }, old)

def clearGeneric (ops : Callbacks π σ) (bitmap : Bitmap π σ) (bitno : Nat) :
    Except Errcode (Bitmap π σ × Bool) :=
  match lookup bitmap bitno 1 with
  | (.nil, _) => .error .invalidBit
  | (.node c l br r, path) =>
    let (old, priv, br) := clearGenericShared ops bitmap.b_private br bitno
    .ok ({ bitmap with b_regions := plug (.node c l br r) path, b_private := priv }, old)

def testGeneric (bitmap : Bitmap π σ) (bitno : Nat) : Except Errcode Bool :=
  match (lookup bitmap bitno 1).1 with
  | .nil => .error .invalidBit
  | .node _ _ br _ => .ok (Bitops.testBit (bitno - br.br_start_bit) br.br_bitmap)

def findNextIn (findBit : Buffer → Nat → Nat → Nat) (start : Nat) : List (Region π) → Except Errcode Nat
  | [] => .error .bitNotFound
  | br :: rest =>
    let offset := if start > br.br_start_bit then start - br.br_start_bit else 0
    let ret := findBit br.br_bitmap br.br_total_bits offset
    if ret ≠ br.br_total_bits then .ok (br.br_start_bit + ret) else findNextIn findBit start rest

def findNextSetGeneric (bitmap : Bitmap π σ) (start : Nat) : Except Errcode Nat :=
  findNextIn Bitops.findNextBitSet start (nodesFrom (lookup bitmap start 1))

def findNextClearGeneric (bitmap : Bitmap π σ) (start : Nat) : Except Errcode Nat :=
  findNextIn Bitops.findNextBitClear start (nodesFrom (lookup bitmap start 1))

inductive Visit where
  | next
  | complete
  | failed (e : Errcode)
  deriving DecidableEq

def Visit.result : Visit → Except Errcode Unit
  | .next => .ok ()
  | .complete => .ok ()
  | .failed e => .error e

def foreachRegion {τ : Type} (func : τ → Region π → τ × Region π × Visit) (data : τ) :
    Node (Region π) → τ × Node (Region π) × Visit
  | .nil => (data, .nil, .next)
  | .node c l br r =>
    match foreachRegion func data l with
    | (data, l, .next) =>
      match func data br with
      | (data, br, .next) =>
        let (data, r, visit) := foreachRegion func data r
        (data, .node c l br r, visit)
      | (data, br, visit) => (data, .node c l br r, visit)
    | (data, l, visit) => (data, .node c l br r, visit)

def bestRange (minLen : Nat) : Option (Nat × Nat) → Option (Nat × Nat)
  | some (start, len) => if len < minLen then none else some (start, start + len)
  | none => none

def searchRange (br : Region π) (minLen len : Nat) :
    Nat → Nat → Option (Nat × Nat) → Option (Nat × Nat)
  | 0, _, best => bestRange minLen best
  | fuel + 1, start, best =>
    if start + minLen ≤ br.br_total_bits then
      let start := Bitops.findNextBitClear br.br_bitmap br.br_total_bits start
      if start = br.br_total_bits then bestRange minLen best
      else
        let stop := Bitops.findNextBitSet br.br_bitmap br.br_total_bits start
        if stop - start ≥ len then some (start, start + len)
        else
          let best := if stop - start > (best.map Prod.snd).getD 0 then some (start, stop - start) else best
          searchRange br minLen len fuel (stop + 1) best
    else bestRange minLen best

def setBits (ops : Callbacks π σ) : Nat → Nat → σ → Region π → σ × Region π
  | 0, _, priv, br => (priv, br)
  | n + 1, bitno, priv, br =>
    let (_, priv, br) := setGenericShared ops priv br bitno
    setBits ops n (bitno + 1) priv br

def allocRangeFunc (ops : Callbacks π σ) (minLen len : Nat) (data : σ × Option (Nat × Nat))
    (br : Region π) : (σ × Option (Nat × Nat)) × Region π × Visit :=
  if ((br.br_total_bits - br.br_set_bits) % 2 ^ 64 : Int) < minLen then (data, br, .next)
  else
    match searchRange br minLen len (br.br_total_bits + 1) 0 none with
    | none => (data, br, .next)
    | some (start, stop) =>
      let (priv, br) := setBits ops (stop - start) (br.br_start_bit + start) data.1 br
      ((priv, some (br.br_start_bit + start, stop - start)), br, .complete)

def allocRangeGeneric (ops : Callbacks π σ) (bitmap : Bitmap π σ) (minLen len : Nat) :
    Except Errcode (Bitmap π σ × Nat × Nat) :=
  let ((priv, found), regions, visit) :=
    foreachRegion (allocRangeFunc ops minLen len) (bitmap.b_private, none) bitmap.b_regions
  match visit.result, found with
  | .error e, _ => .error e
  | .ok (), none => .error .bitNotFound
  | .ok (), some found => .ok ({ bitmap with b_regions := regions, b_private := priv }, found)

/-- The loop of `ocfs2_bitmap_clear_range_generic`. Nothing there keeps the index inside the memory of
the region. -/
def clearBits (ops : Callbacks π σ) : Nat → Nat → σ → Region π → Except Errcode (σ × Region π)
  | 0, _, priv, br => .ok (priv, br)
  | n + 1, bitno, priv, br =>
    if br.br_start_bit ≤ bitno ∧ bitno - br.br_start_bit < 8 * br.br_bitmap.length then
      let (_, priv, br) := clearGenericShared ops priv br bitno
      clearBits ops n (bitno + 1) priv br
    else .error .undefined

def clearRangeGeneric (ops : Callbacks π σ) (bitmap : Bitmap π σ) (len firstBit : Nat) :
    Except Errcode (Bitmap π σ) :=
  let endBit := (firstBit + len) % 2 ^ 64
  match descend (order firstBit endBit) bitmap.b_regions [] with
  | (.nil, _) => .error .invalidBit
  | (.node c l br r, path) =>
    match clearBits ops (endBit - firstBit) firstBit bitmap.b_private br with
    | .error e => .error e
    | .ok (priv, br) =>
      .ok { bitmap with b_regions := plug (.node c l br r) path, b_private := priv }

def setHoles (ops : Callbacks π σ) (bitmap : Bitmap π σ) (bitno : Nat) (priv : π) :
    Except Errcode (Bitmap π σ × Bool) :=
  match setGeneric ops bitmap bitno with
  | .ok result => .ok result
  | .error _ => do
    let bitmap ← insertRegion ops bitmap (allocRegion bitno 1 priv)
    setGeneric ops bitmap bitno

/-- `oldval` is what the variable of the caller held: a clear that had to allocate leaves it so. -/
def clearHoles (ops : Callbacks π σ) (bitmap : Bitmap π σ) (bitno : Nat) (priv : π) (oldval : Int) :
    Except Errcode (Bitmap π σ × Int) :=
  match clearGeneric ops bitmap bitno with
  | .ok (bitmap, old) => .ok (bitmap, old.toInt)
  | .error _ => do
    let bitmap ← insertRegion ops bitmap (allocRegion bitno 1 priv)
    return (bitmap, oldval)

def testHoles (bitmap : Bitmap π σ) (bitno : Nat) : Except Errcode Bool :=
  match testGeneric bitmap bitno with
  | .ok value => .ok value
  | .error _ => .ok false

def findNextSetHoles (bitmap : Bitmap π σ) (start : Nat) : Except Errcode Nat :=
  findNextSetGeneric bitmap start

def findNextClearFrom (start : Nat) : Nat → List (Region π) → Except Errcode Nat
  | _, [] => .error .bitNotFound
  | seen, br :: rest =>
    if seen < br.br_start_bit then .ok seen
    else
      let offset := if start > br.br_start_bit then start - br.br_start_bit else 0
      let ret := Bitops.findNextBitClear br.br_bitmap br.br_total_bits offset
      if ret ≠ br.br_total_bits then .ok (br.br_start_bit + ret)
      else findNextClearFrom start (br.br_start_bit + br.br_total_bits) rest

def findNextClearHoles (bitmap : Bitmap π σ) (start : Nat) : Except Errcode Nat :=
  match nodesFrom (lookup bitmap start 1) with
  -- there was nothing past `start`
  | [] => .ok start
  | nodes => findNextClearFrom start start nodes

section PublicInterface

variable (bitmap : Bitmap π σ) (bitno : Nat)

def set (setBit : Bitmap π σ → Nat → Except Errcode (Bitmap π σ × Bool)) :
    Except Errcode (Bitmap π σ × Bool) :=
  if bitno ≥ bitmap.b_total_bits then .error .invalidBit
  else
    match setBit bitmap bitno with
    | .error e => .error e
    | .ok (bitmap, old) =>
      .ok ({ bitmap with b_set_bits := bitmap.b_set_bits + if old then 0 else 1 }, old)

def clear (clearBit : Bitmap π σ → Nat → Except Errcode (Bitmap π σ × Int)) :
    Except Errcode (Bitmap π σ × Int) :=
  if bitno ≥ bitmap.b_total_bits then .error .invalidBit
  else
    match clearBit bitmap bitno with
    | .error e => .error e
    | .ok (bitmap, old) =>
      .ok ({ bitmap with b_set_bits := bitmap.b_set_bits - if old = 0 then 0 else 1 }, old)

def test (testBit : Bitmap π σ → Nat → Except Errcode Bool) : Except Errcode Bool :=
  if bitno ≥ bitmap.b_total_bits then .error .invalidBit else testBit bitmap bitno

def findNextSet (findNext : Bitmap π σ → Nat → Except Errcode Nat) : Except Errcode Nat :=
  if bitno ≥ bitmap.b_total_bits then .error .invalidBit else findNext bitmap bitno

def findNextClear (findNext : Bitmap π σ → Nat → Except Errcode Nat) : Except Errcode Nat :=
  if bitno ≥ bitmap.b_total_bits then .error .invalidBit else findNext bitmap bitno

def allocRange (alloc : Bitmap π σ → Nat → Nat → Except Errcode (Bitmap π σ × Nat × Nat))
    (min len : Nat) : Except Errcode (Bitmap π σ × Nat × Nat) :=
  if min = 0 ∨ len = 0 ∨ len ≥ bitmap.b_total_bits ∨ min > len then .error .invalidArgument
  else
    match alloc bitmap min len with
    | .error e => .error e
    | .ok (bitmap, firstBit, bitsFound) =>
      -- the source aborts here
      if bitsFound < min then .error .undefined else .ok (bitmap, firstBit, bitsFound)

def clearRange (clearRange : Bitmap π σ → Nat → Nat → Except Errcode (Bitmap π σ))
    (len firstBit : Nat) : Except Errcode (Bitmap π σ) :=
  if len = 0 ∨ (len + firstBit) % 2 ^ 64 > bitmap.b_total_bits then .error .invalidArgument
  else clearRange bitmap len firstBit

end PublicInterface

end Bitmap

end Ocfs2
