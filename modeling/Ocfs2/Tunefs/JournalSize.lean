import Ocfs2.Libocfs2.Sizes

set_option autoImplicit false

namespace Ocfs2.Tunefs.JournalSize

inductive Block where
  | zero
  | superblock (s_maxlen : Nat)
  | other
  deriving DecidableEq

structure Journal where
  i_clusters : Nat
  i_size : Nat
  blocks : Nat → Block

inductive Call where
  | lookup
  | readInode
  | readCachedInode
  | extendAllocation
  | writeInode
  | truncate
  | fileWrite
  | setFeatures
  | getBlocks
  | writeSuperblock
  deriving DecidableEq

inductive TunefsError where
  | call (ret : Errcode)
  | journalTooSmall
  | assertion
  deriving DecidableEq

abbrev Env := Nat → Call → Option Errcode

def minJournalSize : Nat := 4 * 1024 * 1024

variable (fs : Sizes) (env : Env) (slot : Nat)

def run (call : Call) : Except TunefsError Unit :=
  match env slot call with
  | some ret => .error (.call ret)
  | none => .ok ()

def writeZeros (offset len : Nat) (blocks : Nat → Block) (b : Nat) : Block :=
  if offset ≤ b * fs.fs_blocksize ∧ b * fs.fs_blocksize < offset + len then .zero else blocks b

def zeroLoop : Nat → Nat → Nat → (Nat → Block) → Nat → Block
  | 0, _, _, blocks => blocks
  | fuel + 1, count, offset, blocks =>
    let wrote := min 1048576 count
    zeroLoop fuel (count - wrote) (offset + wrote) (writeZeros fs offset wrote blocks)

def formatJournal (j : Journal) : Except TunefsError Journal := do
  let count := j.i_size % 2 ^ 32
  run env slot .fileWrite
  let blocks := zeroLoop fs count count 0 j.blocks
  let jrnl_blocks := j.i_clusters * 2 ^ fs.bToCBits % 2 ^ 32
  if jrnl_blocks < 1024 then throw .journalTooSmall
  run env slot .setFeatures
  run env slot .getBlocks
  run env slot .writeSuperblock
  return { j with blocks := Function.update blocks 0 (.superblock jrnl_blocks) }

def truncate (j : Journal) (new_i_size : Nat) : Journal :=
  let clusters := fs.clustersInBlocks (fs.blocksInBytes new_i_size)
  if j.i_size = new_i_size then j
  else if j.i_size < new_i_size then { j with i_size := new_i_size, i_clusters := max j.i_clusters clusters }
  else { j with i_size := new_i_size, i_clusters := min j.i_clusters clusters }

def makeJournal (clusters : Nat) (j : Journal) : Except TunefsError Journal := do
  -- shifts of 32-bit values
  let bytes := clusters * fs.fs_clustersize % 2 ^ 32
  if bytes < minJournalSize then throw .journalTooSmall
  run env slot .readCachedInode
  if j.i_clusters < clusters then
    run env slot .extendAllocation
    run env slot .writeInode
    formatJournal fs env slot { j with i_clusters := clusters, i_size := bytes }
  else if clusters < j.i_clusters then
    run env slot .truncate
    formatJournal fs env slot (truncate fs j bytes)
  else formatJournal fs env slot j

def setJournal (clusters : Nat) (j : Journal) : Except TunefsError Journal := do
  run env slot .lookup
  run env slot .readInode
  if clusters = j.i_clusters then return j
  makeJournal fs env slot clusters j

def setJournals (clusters : Nat) : Nat → List Journal → Except TunefsError (List Journal)
  | _, [] => return []
  | slot, j :: rest => do
    let j ← setJournal fs env slot clusters j
    let rest ← setJournals clusters (slot + 1) rest
    return j :: rest

def tunefsSetJournalSize (ts_journal_clusters new_size : Nat) (js : List Journal) :
    Except TunefsError (List Journal) :=
  let num_clusters := fs.clustersInBlocks (fs.blocksInBytes new_size)
  let num_clusters := if num_clusters = 0 then ts_journal_clusters else num_clusters
  if num_clusters = 0 then .error .assertion else setJournals fs env num_clusters 0 js

structure Formatted (j : Journal) : Prop where
  size : j.i_size = j.i_clusters * fs.fs_clustersize
  superblock : j.blocks 0 = .superblock (j.i_clusters * 2 ^ fs.bToCBits)
  cleared : ∀ b, 0 < b → b < j.i_clusters * 2 ^ fs.bToCBits → j.blocks b = .zero

variable {fs env slot}

theorem run_bind_iff {α : Type} {call : Call} {rest : Unit → Except TunefsError α} {x : α} :
    (run env slot call >>= rest) = .ok x ↔ env slot call = none ∧ rest () = .ok x := by
  unfold run
  cases env slot call with
  | none => exact (and_iff_right rfl).symm
  | some ret => exact iff_of_false (fun ok => by cases ok) (fun ok => by cases ok.1)

theorem zeroLoop_eq {fuel count : Nat} (enough : count ≤ fuel) (offset : Nat) (blocks : Nat → Block) :
    zeroLoop fs fuel count offset blocks = writeZeros fs offset count blocks := by
  induction fuel generalizing count offset blocks with
  | zero =>
    funext b
    rw [zeroLoop, writeZeros, if_neg (by omega)]
  | succ fuel ih =>
    rw [zeroLoop, ih (by omega)]
    funext b
    simp only [writeZeros]
    split_ifs <;> first | rfl | omega

theorem formatJournal_formatted {j j' : Journal} (size : j.i_size = j.i_clusters * fs.fs_clustersize)
    (small : j.i_size < 2 ^ 32) (ok : formatJournal fs env slot j = .ok j') :
    j'.i_clusters = j.i_clusters ∧ Formatted fs j' := by
  have block : 0 < fs.fs_blocksize := Nat.two_pow_pos _
  have bytes : j.i_clusters * 2 ^ fs.bToCBits * fs.fs_blocksize = j.i_size := by
    rw [size, fs.clustersize_eq, Nat.mul_assoc]
  have few : j.i_clusters * 2 ^ fs.bToCBits < 2 ^ 32 := by
    have := Nat.le_mul_of_pos_right (j.i_clusters * 2 ^ fs.bToCBits) block
    omega
  simp only [formatJournal, Nat.mod_eq_of_lt small, Nat.mod_eq_of_lt few, zeroLoop_eq le_rfl] at ok
  replace ok := (run_bind_iff.mp ok).2
  split_ifs at ok with little
  · cases ok
  simp only [run_bind_iff] at ok
  cases ok.2.2.2
  refine ⟨rfl, size, by simp, fun b pos inside => ?_⟩
  have below : b * fs.fs_blocksize < j.i_size := bytes ▸ Nat.mul_lt_mul_of_pos_right inside block
  exact (Function.update_of_ne (by omega) ..).trans (if_pos ⟨Nat.zero_le _, by omega⟩)

section Small

variable {clusters : Nat} (small : clusters * fs.fs_clustersize < 2 ^ 32)

include small

theorem truncate_eq {j : Journal} (size : j.i_size = j.i_clusters * fs.fs_clustersize)
    (shrinks : clusters < j.i_clusters) :
    truncate fs j (clusters * fs.fs_clustersize) =
      { j with i_size := clusters * fs.fs_clustersize, i_clusters := clusters } := by
  have pos := fs.cluster_pos
  have less : clusters * fs.fs_clustersize < j.i_size := by
    rw [size]
    exact Nat.mul_lt_mul_of_pos_right shrinks pos
  have few : clusters ≤ uint32Max := by
    have := Nat.le_mul_of_pos_right clusters pos
    simp only [uint32Max]
    omega
  have exact : (clusters * fs.fs_clustersize + fs.fs_clustersize - 1) / fs.fs_clustersize = clusters := by
    rw [Nat.add_sub_assoc pos, Nat.mul_comm, Nat.mul_add_div pos, Nat.div_eq_of_lt (by omega), Nat.add_zero]
  rw [truncate, if_neg (by omega), if_neg (by omega), fs.clustersInBlocks_eq (Nat.mul_le_mul_right _ few), exact,
    Nat.min_eq_right shrinks.le]

theorem makeJournal_formatted {j j' : Journal} (size : j.i_size = j.i_clusters * fs.fs_clustersize)
    (changed : clusters ≠ j.i_clusters) (ok : makeJournal fs env slot clusters j = .ok j') :
    j'.i_clusters = clusters ∧ Formatted fs j' := by
  simp only [makeJournal, Nat.mod_eq_of_lt small] at ok
  split at ok
  · cases ok
  replace ok := (run_bind_iff.mp ok).2
  split_ifs at ok with grows shrinks
  · simp only [run_bind_iff] at ok
    exact formatJournal_formatted rfl small ok.2.2
  · simp only [run_bind_iff, truncate_eq small size shrinks] at ok
    exact formatJournal_formatted rfl small ok.2
  · omega

theorem setJournals_formatted {js js' : List Journal} (sizes : ∀ j ∈ js, j.i_size = j.i_clusters * fs.fs_clustersize)
    (ok : setJournals fs env clusters slot js = .ok js') :
    List.Forall₂ (fun j j' => j'.i_clusters = clusters ∧ (j.i_clusters ≠ clusters → Formatted fs j')) js js' := by
  induction js generalizing slot js' with
  | nil =>
    cases ok
    exact .nil
  | cons j rest ih =>
    simp only [setJournals, bind, Except.bind] at ok
    split at ok
    next => cases ok
    next first =>
      split at ok
      next => cases ok
      next later =>
        cases ok
        refine .cons ?_ (ih (fun j' mem => sizes j' (List.mem_cons_of_mem _ mem)) later)
        simp only [setJournal, run_bind_iff] at first
        obtain ⟨-, -, first⟩ := first
        split_ifs at first with same
        · cases first
          exact ⟨same.symm, fun changed => absurd same.symm changed⟩
        · obtain ⟨count, formatted⟩ := makeJournal_formatted small (sizes j List.mem_cons_self) same first
          exact ⟨count, fun _ => formatted⟩

end Small

end Ocfs2.Tunefs.JournalSize
