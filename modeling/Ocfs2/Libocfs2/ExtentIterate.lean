import Ocfs2.Libocfs2.ExtentMap

set_option autoImplicit false

namespace Ocfs2.ExtentTree

open Extents (ExtentRec ExtentList recClusters)

section Model

structure Iret where
  changed : Bool
  abort : Bool
  error : Bool
  deriving DecidableEq

def Iret.none : Iret := ⟨false, false, false⟩

def Iret.or (a b : Iret) : Iret := ⟨a.changed || b.changed, a.abort || b.abort, a.error || b.error⟩

def Iret.stops (iret : Iret) : Bool := iret.abort || iret.error

variable {σ : Type}

structure Context (σ : Type) where
  blocks : Blocks
  ccount : Nat
  errcode : Option Errcode
  priv_data : σ
  last_eb_blkno : Nat
  last_eb_cpos : Nat

abbrev Func (σ : Type) := σ → ExtentRec → Nat → Nat → Nat → Nat → σ × ExtentRec × Iret

structure Walk (σ : Type) where
  fs_blocks : Nat
  depth_traverse : Bool
  data_only : Bool
  func : Func σ

def Context.call (ctxt : Context σ) (func : Func σ) (rec : ExtentRec) (tree_depth ref_blkno ref_recno : Nat) :
    Context σ × Iret × ExtentRec :=
  let out := func ctxt.priv_data rec tree_depth ctxt.ccount ref_blkno ref_recno
  ({ ctxt with priv_data := out.1 }, out.2.2, out.2.1)

def iterateRecs (step : Context σ → Nat → ExtentRec → Context σ × Iret × ExtentRec) :
    Context σ → Iret → Nat → List ExtentRec → Context σ × Iret × List ExtentRec
  | ctxt, iret, _, [] => (ctxt, iret, [])
  | ctxt, iret, i, rec :: rest =>
    let out := step ctxt i rec
    let iret := iret.or out.2.1
    if iret.stops then (out.1, iret, out.2.2 :: rest)
    else
      let later := iterateRecs step out.1 iret (i + 1) rest
      (later.1, later.2.1, out.2.2 :: later.2.2)

/-- The records in use end before the first one without clusters, in use or not. -/
def recount (el : ExtentList) : ExtentList :=
  match (el.l_recs.take el.l_count).findIdx? fun rec => recClusters el.l_tree_depth rec = 0 with
  | none => el
  | some i => { el with l_next_free_rec := i }

def afterLoop (el : ExtentList) (out : Context σ × Iret × List ExtentRec) : Context σ × Iret × ExtentList :=
  let el := { el with l_recs := out.2.2 ++ el.l_recs.drop el.l_next_free_rec }
  (out.1, out.2.1, if out.2.1.changed then recount el else el)

variable (walk : Walk σ)

def iterateLeafRec (ref_blkno : Nat) (ctxt : Context σ) (i : Nat) (rec : ExtentRec) : Context σ × Iret × ExtentRec :=
  -- a sparse file may have an empty record in the first place
  if i = 0 ∧ rec.e_leaf_clusters = 0 then (ctxt, .none, rec)
  else
    let out := ctxt.call walk.func rec 0 ref_blkno i
    ({ out.1 with ccount := add32 out.1.ccount (recClusters 0 out.2.2) }, out.2)

def iterateBlock (below : Nat → Context σ → ExtentList → Context σ × Iret × ExtentList) (tree_depth : Nat)
    (ctxt : Context σ) (iret : Iret) (rec : ExtentRec) : Context σ × Iret :=
  let fails (ctxt : Context σ) (e : Errcode) : Context σ × Iret :=
    ({ ctxt with errcode := some e }, iret.or ⟨false, false, true⟩)
  if rec.e_blkno < 2 ∨ walk.fs_blocks < rec.e_blkno then fails ctxt .badBlkno
  else
    match ctxt.blocks rec.e_blkno with
    | none => fails ctxt .badExtentBlockMagic
    | some eb =>
      if eb.h_list.l_count < eb.h_list.l_next_free_rec then fails ctxt .corruptExtentBlock
      else if eb.h_list.l_tree_depth ≠ tree_depth ∨ eb.h_blkno ≠ rec.e_blkno then fails ctxt .corruptExtentBlock
      else
        let out := below rec.e_blkno { ctxt with errcode := none } eb.h_list
        -- that the list below has changed is not handed on
        let iret := iret.or { out.2.1 with changed := false }
        if out.2.1.changed then
          ({ out.1 with blocks := Function.update out.1.blocks rec.e_blkno (some { eb with h_list := out.2.2 }) }, iret)
        else (out.1, iret)

def extentIterateEb (below : Nat → Context σ → ExtentList → Context σ × Iret × ExtentList) (ref_tree_depth ref_blkno : Nat)
    (ctxt : Context σ) (ref_recno : Nat) (rec : ExtentRec) : Context σ × Iret × ExtentRec :=
  let first := if walk.depth_traverse || walk.data_only then (ctxt, .none, rec)
    else ctxt.call walk.func rec ref_tree_depth ref_blkno ref_recno
  if first.2.2.e_blkno = 0 ∨ first.2.1.abort then first
  else
    let out := iterateBlock walk below (ref_tree_depth - 1) first.1 first.2.1 first.2.2
    if walk.depth_traverse && !walk.data_only && !out.2.stops then
      out.1.call walk.func first.2.2 ref_tree_depth ref_blkno ref_recno
    else (out.1, out.2, first.2.2)

def iterateNodeRec (below : Nat → Context σ → ExtentList → Context σ × Iret × ExtentList) (tree_depth ref_blkno : Nat)
    (ctxt : Context σ) (i : Nat) (rec : ExtentRec) : Context σ × Iret × ExtentRec :=
  let out := extentIterateEb walk below tree_depth ref_blkno ctxt i rec
  if out.2.2.e_int_clusters ≠ 0 ∧ out.1.last_eb_cpos ≤ out.2.2.e_cpos then
    ({ out.1 with
      -- only a list above leaves names one
      last_eb_blkno := if tree_depth = 1 then out.2.2.e_blkno else out.1.last_eb_blkno
      last_eb_cpos := out.2.2.e_cpos }, out.2)
  else out

def extentIterateEl : Nat → Nat → Context σ → ExtentList → Context σ × Iret × ExtentList
  | 0, ref_blkno, ctxt, el => afterLoop el (iterateRecs (iterateLeafRec walk ref_blkno) ctxt .none 0 (used el))
  | depth + 1, ref_blkno, ctxt, el =>
    afterLoop el (iterateRecs (iterateNodeRec walk (extentIterateEl depth) (depth + 1) ref_blkno) ctxt .none 0 (used el))

structure InodeFlags where
  valid : Bool
  super_block : Bool
  local_alloc : Bool
  chain : Bool
  deriving DecidableEq

structure Walked where
  di : Dinode
  blocks : Blocks
  written : Option Dinode
  result : Except Errcode Unit

def extentIterateInode (flags : InodeFlags) (blocks : Blocks) (di : Dinode) (priv_data : σ) : Walked :=
  if !flags.valid then ⟨di, blocks, none, .error .inodeNotValid⟩
  else if flags.super_block || flags.local_alloc || flags.chain then
    ⟨di, blocks, none, .error .inodeCannotBeIterated⟩
  else
    let out := extentIterateEl walk di.i_list.l_tree_depth 0 ⟨blocks, 0, none, priv_data, 0, 0⟩ di.i_list
    let di := { di with i_list := out.2.2 }
    let moved : Bool := !out.2.1.abort && di.i_last_eb_blk != out.1.last_eb_blkno
    let di := if moved then { di with i_last_eb_blk := out.1.last_eb_blkno } else di
    if out.2.1.error then ⟨di, out.1.blocks, none, .error (out.1.errcode.getD .undefined)⟩
    else if out.2.1.changed || moved then ⟨di, out.1.blocks, some di, .ok ()⟩
    else ⟨di, out.1.blocks, none, .ok ()⟩

end Model

end Ocfs2.ExtentTree
