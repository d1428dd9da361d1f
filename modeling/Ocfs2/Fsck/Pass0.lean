import Ocfs2.Libocfs2.Bitops
import Ocfs2.Libocfs2.Common

set_option autoImplicit false

/-!
The check of an allocator inode: its chains are walked from the last to the first, each group descriptor is
repaired, and the counters are summed up. Blocks are decoded; a read fails only for a block of another kind,
and writes succeed. The counters are numbers that do not wrap. A function that does not return has no result.
-/

namespace Ocfs2.Pass0

open ByteBuffer Bitops

structure GroupDesc where
  bg_generation : Nat
  bg_parent_dinode : Nat
  bg_blkno : Nat
  bg_chain : Nat
  bg_bits : Nat
  bg_free_bits_count : Nat
  bg_next_group : Nat
  bg_bitmap : Buffer
  deriving DecidableEq

structure ChainRec where
  c_free : Nat
  c_total : Nat
  c_blkno : Nat
  deriving DecidableEq

structure Dinode where
  i_signature : Bool
  i_valid : Bool
  i_bitmap : Bool
  i_chain : Bool
  i_blkno : Nat
  i_total : Nat
  i_used : Int
  i_clusters : Nat
  i_size : Nat
  cl_cpg : Nat
  cl_bpc : Nat
  cl_count : Nat
  cl_next_free_rec : Nat
  cl_recs : List ChainRec
  deriving DecidableEq

inductive Block where
  | groupDesc (gd : GroupDesc)
  | dinode (di : Dinode)
  | other
  deriving DecidableEq

abbrev Disk := Nat → Block

structure Filesys where
  fs_blocks : Nat
  fs_clustersize : Nat
  blocks_per_cluster : Nat

inductive Problem where
  | groupGen
  | groupDuplicate
  | groupParent
  | groupBlkno
  | groupChain
  | groupFreeBits
  | chainLinkRange
  | chainLinkMagic
  | chainLinkGen
  | chainBits
  | chainHeadLinkRange
  | chainCount
  | chainNextFree
  | chainEmpty
  | chainGroupBits
  | chainIClusters
  | chainISize
  deriving DecidableEq

structure O2fsckState where
  disk : Disk
  allocated_clusters : Nat → Bool
  duplicate_clusters : Nat → Bool
  allowed : Option (Nat → Bool)
  forbidden : Option (Nat → Bool)

structure ChainState where
  cs_free_bits : Nat
  cs_total_bits : Nat
  cs_chain_no : Nat
  cs_cpg : Nat
  deriving DecidableEq

section Group

def findMaxFreeBitsLoop (bitmap : Buffer) (bits : Nat) : Nat → Nat → Nat → Nat
  | 0, _, max_free_bits => max_free_bits
  | fuel + 1, last, max_free_bits =>
    if last < bits then
      let start := findNextBitClear bitmap bits last
      if start ≥ bits then max_free_bits
      else
        let last := findNextBitSet bitmap bits start
        findMaxFreeBitsLoop bitmap bits fuel last (max_free_bits + (last - start))
    else max_free_bits

def findMaxFreeBits (gd : GroupDesc) : Nat := findMaxFreeBitsLoop gd.bg_bitmap gd.bg_bits (gd.bg_bits + 1) 0 0

variable (fs : Filesys) (generation : Nat) (prompt : Problem → Nat → Bool)

def blockOutOfRange (block : Nat) : Bool := block < 2 || block > fs.fs_blocks

def readGroupDesc (disk : Disk) (blkno : Nat) : Except Errcode GroupDesc :=
  if blockOutOfRange fs blkno then .error .badBlkno
  else
    match disk blkno with
    | .groupDesc gd => .ok gd
    | _ => .error .badGroupDescMagic

def readInode (disk : Disk) (blkno : Nat) : Except Errcode Dinode :=
  if blockOutOfRange fs blkno then .error .badBlkno
  else
    match disk blkno with
    | .dinode di => .ok di
    | _ => .error .badInodeMagic

def findGroup (disk : Disk) (group : Nat) : Nat → Nat → Option (Except Errcode Bool)
  | 0, _ => none
  | fuel + 1, gd_blkno =>
    if gd_blkno = 0 then some (.ok false)
    else if gd_blkno = group then some (.ok true)
    else
      match readGroupDesc fs disk gd_blkno with
      | .error e => some (.error e)
      | .ok gd => findGroup disk group fuel gd.bg_next_group

def checkGroupParent (disk : Disk) (group ino chain : Nat) : Option (Except Errcode Bool) :=
  match readInode fs disk ino with
  | .error e => some (.error e)
  | .ok di =>
    if !di.i_valid || !di.i_bitmap || !di.i_chain then some (.ok false)
    else if di.i_total = 0 then some (.ok false)
    else if di.cl_next_free_rec ≤ chain then some (.ok false)
    else findGroup fs disk group (fs.fs_blocks + 2) ((di.cl_recs.map ChainRec.c_blkno).getD chain 0)

def repairFields (cs : ChainState) (blkno : Nat) (bg : GroupDesc) : GroupDesc :=
  let bg := if bg.bg_blkno ≠ blkno ∧ prompt .groupBlkno blkno then { bg with bg_blkno := blkno } else bg
  let bg :=
    if bg.bg_chain ≠ cs.cs_chain_no ∧ prompt .groupChain blkno then { bg with bg_chain := cs.cs_chain_no } else bg
  if bg.bg_free_bits_count > findMaxFreeBits bg ∧ prompt .groupFreeBits blkno then
    { bg with bg_free_bits_count := findMaxFreeBits bg }
  else bg

structure Repaired where
  disk : Disk
  cs : ChainState
  bg : GroupDesc
  clear_ref : Bool
  ret : Option Errcode

def finishRepair (disk : Disk) (cs : ChainState) (old bg : GroupDesc) (ret : Option Errcode) : Repaired :=
  let cs := { cs with
    cs_total_bits := cs.cs_total_bits + bg.bg_bits
    cs_free_bits := cs.cs_free_bits + bg.bg_free_bits_count }
  if bg ≠ old then ⟨Function.update disk bg.bg_blkno (.groupDesc bg), cs, bg, false, none⟩
  else ⟨disk, cs, bg, false, ret⟩

def repairGroupDesc (disk : Disk) (di : Dinode) (cs : ChainState) (bg : GroupDesc) (blkno : Nat) :
    Option Repaired :=
  let old := bg
  let bg :=
    if bg.bg_generation ≠ generation ∧ prompt .groupGen blkno then { bg with bg_generation := generation } else bg
  if bg.bg_parent_dinode ≠ di.i_blkno then
    match checkGroupParent fs disk bg.bg_blkno bg.bg_parent_dinode bg.bg_chain with
    | none => none
    | some exist =>
      if exist matches .ok true ∧ prompt .groupDuplicate blkno then some ⟨disk, cs, bg, true, none⟩
      else
        let bg := if prompt .groupParent blkno then { bg with bg_parent_dinode := di.i_blkno } else bg
        let ret :=
          match exist with
          | .error e => some e
          | .ok _ => none
        some (finishRepair disk cs old (repairFields prompt cs blkno bg) ret)
  else some (finishRepair disk cs old (repairFields prompt cs blkno bg) none)

end Group

section Chain

variable (fs : Filesys) (generation : Nat) (prompt : Problem → Nat → Bool)

def markClusterAllocated (ost : O2fsckState) (cluster : Nat) : O2fsckState :=
  if ost.allocated_clusters cluster then
    { ost with duplicate_clusters := Function.update ost.duplicate_clusters cluster true }
  else { ost with allocated_clusters := Function.update ost.allocated_clusters cluster true }

def markGroupUsed (ost : O2fsckState) (cs : ChainState) (blkno : Nat) (just_desc : Bool) : O2fsckState :=
  let clusters := if just_desc then 1 else cs.cs_cpg
  (List.range' (blkno / fs.blocks_per_cluster) clusters).foldl markClusterAllocated ost

def noteGroup (ost : O2fsckState) (cs : ChainState) (blkno : Nat) : O2fsckState :=
  match ost.allowed with
  | none => markGroupUsed fs ost cs blkno false
  | some allowed =>
    if allowed blkno then
      markGroupUsed fs { ost with allowed := some (Function.update allowed blkno false) } cs blkno true
    else
      match ost.forbidden with
      | none => ost
      | some forbidden => { ost with forbidden := some (Function.update forbidden blkno true) }

structure ChainWalk where
  ost : O2fsckState
  cs : ChainState
  bg1 : Option GroupDesc
  clear_ref : Bool
  ret : Option Errcode

def noteLast (ost : O2fsckState) (cs : ChainState) : Option GroupDesc → O2fsckState
  | none => ost
  | some bg1 => noteGroup fs ost cs bg1.bg_blkno

def pending (c_blkno : Nat) : Option GroupDesc → Nat
  | none => c_blkno
  | some bg1 => bg1.bg_next_group

def checkChainLoop (di : Dinode) (chain : ChainRec) :
    Nat → O2fsckState → ChainState → Option GroupDesc → Option ChainWalk
  | 0, _, _, _ => none
  | fuel + 1, ost, cs, bg1 =>
    let ost := noteLast fs ost cs bg1
    let blkno := pending chain.c_blkno bg1
    if blkno = 0 then some ⟨ost, cs, bg1, false, none⟩
    else if blockOutOfRange fs blkno ∧ prompt .chainLinkRange blkno then some ⟨ost, cs, bg1, true, none⟩
    else
      match readGroupDesc fs ost.disk blkno with
      | .error .badGroupDescMagic => some ⟨ost, cs, bg1, prompt .chainLinkMagic blkno, none⟩
      | .error e => some ⟨ost, cs, bg1, false, some e⟩
      | .ok bg2 =>
        if bg2.bg_generation ≠ generation ∧ prompt .chainLinkGen blkno then some ⟨ost, cs, bg1, true, none⟩
        else
          match repairGroupDesc fs generation prompt ost.disk di cs bg2 blkno with
          | none => none
          | some r =>
            let ost := { ost with disk := r.disk }
            if r.ret.isSome then some ⟨ost, r.cs, bg1, false, r.ret⟩
            else if r.clear_ref then some ⟨ost, r.cs, bg1, true, none⟩
            else checkChainLoop di chain fuel ost r.cs (some r.bg)

structure CheckedChain where
  ost : O2fsckState
  cs : ChainState
  chain : ChainRec
  changed : Bool

def checkChain (ost : O2fsckState) (di : Dinode) (cs : ChainState) (chain : ChainRec) (changed : Bool) :
    Option CheckedChain :=
  match checkChainLoop fs generation prompt di chain (fs.fs_blocks + 2) ost cs none with
  | none => none
  | some w =>
    if w.ret.isSome then some ⟨w.ost, w.cs, chain, changed⟩
    else
      let cleared : O2fsckState × ChainRec × Bool :=
        match w.clear_ref, w.bg1 with
        | false, _ => (w.ost, chain, changed)
        | true, none => (w.ost, { chain with c_blkno := 0 }, true)
        | true, some bg1 =>
          let disk := Function.update w.ost.disk bg1.bg_blkno (.groupDesc { bg1 with bg_next_group := 0 })
          ({ w.ost with disk }, chain, changed)
      let (ost, chain, changed) := cleared
      if (w.cs.cs_total_bits ≠ chain.c_total ∨ w.cs.cs_free_bits ≠ chain.c_free) ∧
          prompt .chainBits cs.cs_chain_no then
        let chain := { chain with c_total := w.cs.cs_total_bits, c_free := w.cs.cs_free_bits }
        some ⟨ost, w.cs, chain, true⟩
      else some ⟨ost, w.cs, chain, changed⟩

end Chain

section Alloc

variable (fs : Filesys) (generation : Nat) (prompt : Problem → Nat → Bool)

structure Sums where
  free : Nat
  total : Nat
  changed : Bool

def emptyRec : ChainRec := ⟨0, 0, 0⟩

/-- The last record takes the place of an empty one, which is checked again then. -/
def removeChain (di : Dinode) (i : Nat) : Dinode × Bool :=
  let last := di.cl_next_free_rec - 1
  if i < last then
    ({ di with
      cl_recs := (di.cl_recs.set i (di.cl_recs.getD last emptyRec)).set last emptyRec
      cl_next_free_rec := last }, true)
  else ({ di with cl_next_free_rec := last }, false)

def verifyChains (trust_next_free : Bool) :
    Nat → Nat → O2fsckState → Dinode → Sums → Option (O2fsckState × Dinode × Sums)
  | 0, _, _, _, _ => none
  | _ + 1, 0, ost, di, sums => some (ost, di, sums)
  | fuel + 1, i + 1, ost, di, sums =>
    let cs : ChainState := ⟨0, 0, i, di.cl_cpg⟩
    match checkChain fs generation prompt ost di cs (di.cl_recs.getD i emptyRec) sums.changed with
    | none => none
    | some c =>
      let di := { di with cl_recs := di.cl_recs.set i c.chain }
      let sums := { sums with changed := c.changed }
      if c.chain.c_blkno ≠ 0 then
        verifyChains trust_next_free fuel i c.ost di
          { sums with free := sums.free + c.cs.cs_free_bits, total := sums.total + c.cs.cs_total_bits }
      else if prompt .chainEmpty i then
        if !trust_next_free then verifyChains trust_next_free fuel i c.ost di sums
        else
          let (di, moved) := removeChain di i
          verifyChains trust_next_free fuel (if moved then i + 1 else i) c.ost di { sums with changed := true }
      else verifyChains trust_next_free fuel i c.ost di sums

def clearHeads (di : Dinode) : Dinode × Bool :=
  let bad (i : Nat) (cr : ChainRec) : Bool :=
    cr.c_blkno != 0 && blockOutOfRange fs cr.c_blkno && prompt .chainHeadLinkRange i
  let recs := di.cl_recs.mapIdx fun i cr => if bad i cr then { cr with c_blkno := 0 } else cr
  ({ di with cl_recs := recs }, (di.cl_recs.mapIdx bad).any id)

def clampRecords (di : Dinode) : Dinode × Nat × Bool × Bool :=
  let max_count := di.cl_recs.length
  let clamp := decide (di.cl_count > max_count) && prompt .chainCount di.i_blkno
  let di := if clamp then { di with cl_count := max_count } else di
  let max_count := min max_count di.cl_count
  if di.cl_next_free_rec > max_count then
    if prompt .chainNextFree di.i_blkno then
      let di := { di with cl_next_free_rec := di.cl_count }
      (di, di.cl_next_free_rec, true, true)
    else (di, max_count, false, clamp)
  else (di, di.cl_next_free_rec, true, clamp)

def fixCounts (di : Dinode) (sums : Sums) : Dinode × Bool :=
  let wrong := decide (di.i_total ≠ sums.total) || decide (di.i_used ≠ (sums.total : Int) - sums.free)
  let fix := wrong && prompt .chainGroupBits di.i_blkno
  let di := if fix then { di with i_used := (sums.total : Int) - sums.free, i_total := sums.total } else di
  let total := sums.total / di.cl_bpc
  let fix_clusters := decide (di.i_clusters ≠ total) && prompt .chainIClusters di.i_blkno
  let di := if fix_clusters then { di with i_clusters := total } else di
  let chain_bytes := total * fs.fs_clustersize
  let fix_size := decide (di.i_size ≠ chain_bytes) && prompt .chainISize di.i_blkno
  let di := if fix_size then { di with i_size := chain_bytes } else di
  (di, fix || fix_clusters || fix_size)

def clearUnused (di : Dinode) : Dinode :=
  { di with
    cl_recs := di.cl_recs.mapIdx fun i cr => if di.cl_next_free_rec ≤ i ∧ i < di.cl_count then emptyRec else cr }

def verifyChainAlloc (ost : O2fsckState) (di : Dinode) : Option (Except Errcode (O2fsckState × Dinode)) :=
  if !di.i_signature then some (.error .badInodeMagic)
  else if !di.i_valid then some (.error .inodeNotValid)
  else if !di.i_chain then some (.error .inodeNotValid)
  else
    let (di, heads) := clearHeads fs prompt di
    let (di, max_count, trust_next_free, clamped) := clampRecords prompt di
    match verifyChains fs generation prompt trust_next_free (2 * max_count + 1) max_count ost di
        ⟨0, 0, heads || clamped⟩ with
    | none => none
    | some (ost, di, sums) =>
      -- the clusters are counted by a division
      if di.cl_bpc = 0 then none
      else
        let (di, fixed) := fixCounts fs prompt (clearUnused di) sums
        if sums.changed || fixed then
          some (.ok ({ ost with disk := Function.update ost.disk di.i_blkno (.dinode di) }, di))
        else some (.ok (ost, di))

end Alloc

end Ocfs2.Pass0
