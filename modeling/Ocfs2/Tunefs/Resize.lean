import Ocfs2.Libocfs2.Sizes

set_option autoImplicit false

namespace Ocfs2.Tunefs.Resize

inductive ResizeUnits where
  | bytes
  | blocks
  | clusters
  deriving DecidableEq

structure ResizeSpecs where
  rs_unit : ResizeUnits
  rs_size : Nat
  rs_size_lt : rs_size < 2 ^ 64

structure Volume extends Sizes where
  fs_clusters : Nat

inductive Refusal where
  | deviceSize (ret : Errcode)
  | largerThanOcfs2 (clusters bytes : Nat)
  | largerThanDevice (clusters bytes : Nat)
  | shrinking
  | journaledBlocks (blocks : Nat)
  deriving DecidableEq

def resizeVolumeParseOption (arg : Option ResizeSpecs) : ResizeSpecs := arg.getD ⟨.bytes, 0, by decide⟩

namespace Volume

variable (fs : Volume)

def unitBits : ResizeUnits → Nat
  | .bytes => 0
  | .blocks => fs.s_blocksize_bits
  | .clusters => fs.s_clustersize_bits

def newSize (specs : ResizeSpecs) : Nat :=
  let new_size := specs.rs_size * 2 ^ fs.unitBits specs.rs_unit % 2 ^ 64
  -- "Handle wrapping"
  if new_size < specs.rs_size then uint64Max else new_size

def checkNewSize (device_size : Except Errcode Nat) (new_size : Nat) : Except Refusal Nat :=
  let max_bytes := fs.clustersToBytes uint32Max
  if max_bytes < new_size then .error (.largerThanOcfs2 uint32Max max_bytes)
  else match device_size with
  | .error ret => .error (.deviceSize ret)
  | .ok device_blocks =>
    let device_clusters := min (device_blocks / 2 ^ fs.bToCBits) uint32Max
    let try_clusters := fs.clustersInBytes new_size
    let try_clusters := if try_clusters = 0 then device_clusters else try_clusters
    -- a shift of a 32-bit value, which is widened after it
    let try_blocks := try_clusters * 2 ^ fs.bToCBits % 2 ^ 32
    if device_clusters < try_clusters then
      .error (.largerThanDevice device_clusters (device_clusters * fs.fs_clustersize))
    else if try_clusters < fs.fs_clusters then .error .shrinking
    else if uint32Max < try_blocks then .error (.journaledBlocks uint32Max)
    else .ok try_clusters

def resizeVolumeRun (device_size : Except Errcode Nat) (arg : Option ResizeSpecs) : Except Refusal Nat :=
  fs.checkNewSize device_size (fs.newSize (resizeVolumeParseOption arg))

def wanted (device_blocks : Nat) : Option ResizeSpecs → Nat
  | some specs =>
    (specs.rs_size * 2 ^ fs.unitBits specs.rs_unit + fs.fs_clustersize - 1) / fs.fs_clustersize
  | none => device_blocks / 2 ^ fs.bToCBits

structure Right (device_blocks : Nat) (arg : Option ResizeSpecs) (clusters : Nat) : Prop where
  wanted : clusters = fs.wanted device_blocks arg
  grows : fs.fs_clusters ≤ clusters
  held : clusters ≤ device_blocks / 2 ^ fs.bToCBits
  addressed : clusters * 2 ^ fs.bToCBits ≤ 2 ^ 32 - 1

theorem accepted {device_blocks new_size clusters : Nat}
    (ok : fs.checkNewSize (.ok device_blocks) new_size = .ok clusters) :
    new_size ≤ uint32Max * fs.fs_clustersize ∧
      clusters = (if new_size = 0 then min (device_blocks / 2 ^ fs.bToCBits) uint32Max
        else (new_size + fs.fs_clustersize - 1) / fs.fs_clustersize) ∧
      fs.fs_clusters ≤ clusters ∧ clusters ≤ min (device_blocks / 2 ^ fs.bToCBits) uint32Max := by
  have pos := fs.cluster_pos
  simp only [checkNewSize, fs.maxBytes_eq] at ok
  split at ok
  · cases ok
  have small : new_size ≤ uint32Max * fs.fs_clustersize := by omega
  have none_iff : (new_size + fs.fs_clustersize - 1) / fs.fs_clustersize = 0 ↔ new_size = 0 := by
    rw [Nat.div_eq_zero_iff]
    omega
  simp only [fs.clustersInBytes_eq small, none_iff] at ok
  generalize (if new_size = 0 then _ else _) = count at ok ⊢
  split_ifs at ok with large shrinks blocks
  obtain rfl := Except.ok.inj ok
  exact ⟨small, rfl, Nat.not_lt.mp shrinks, Nat.not_lt.mp large⟩

theorem unit_le (unit : ResizeUnits) : 2 ^ fs.unitBits unit ≤ fs.fs_clustersize := by
  have blocks := fs.blocksize_range
  have clusters := fs.clustersize_range
  exact Nat.pow_le_pow_right (by decide) (by cases unit <;> simp only [unitBits] <;> omega)

theorem bytes_lt {clusters : Nat} (addressed : clusters * 2 ^ fs.bToCBits < 2 ^ 32) :
    clusters * fs.fs_clustersize < 2 ^ 44 :=
  calc clusters * fs.fs_clustersize = clusters * 2 ^ fs.bToCBits * fs.fs_blocksize := by
        rw [fs.clustersize_eq, Nat.mul_assoc]
    _ < 2 ^ 32 * 2 ^ 12 := Nat.mul_lt_mul_of_lt_of_le addressed fs.block_le (by decide)
    _ = 2 ^ 44 := by decide

theorem newSize_zero {specs : ResizeSpecs} (zero : specs.rs_size = 0) : fs.newSize specs = 0 := by
  simp [newSize, zero]

-- A product that wraps is refused, or is still as large as the size that was given: then it has too many blocks.
theorem newSize_eq {specs : ResizeSpecs} {device_blocks clusters : Nat}
    (ok : fs.checkNewSize (.ok device_blocks) (fs.newSize specs) = .ok clusters)
    (addressed : clusters * 2 ^ fs.bToCBits < 2 ^ 32) :
    fs.newSize specs = specs.rs_size * 2 ^ fs.unitBits specs.rs_unit := by
  obtain ⟨small, count, -, -⟩ := fs.accepted ok
  have cluster := fs.cluster_le
  have pos := fs.cluster_pos
  have limit : uint32Max * fs.fs_clustersize ≤ uint32Max * 2 ^ 20 := Nat.mul_le_mul_left _ cluster
  have kept : specs.rs_size ≤ fs.newSize specs := by
    rw [newSize]
    split
    · exact Nat.le_pred_of_lt specs.rs_size_lt
    · omega
  have covered : fs.newSize specs ≤ clusters * fs.fs_clustersize := by
    rcases Nat.eq_zero_or_pos (fs.newSize specs) with zero | given
    · omega
    · rw [if_neg (by omega)] at count
      have rounded := Nat.lt_div_mul_add pos (a := fs.newSize specs + fs.fs_clustersize - 1)
      rw [← count] at rounded
      omega
  have exact : specs.rs_size * 2 ^ fs.unitBits specs.rs_unit < 2 ^ 64 :=
    calc specs.rs_size * 2 ^ fs.unitBits specs.rs_unit
        ≤ specs.rs_size * 2 ^ 20 := Nat.mul_le_mul_left _ ((fs.unit_le _).trans cluster)
      _ < 2 ^ 44 * 2 ^ 20 := by
        have bytes := fs.bytes_lt addressed
        exact Nat.mul_lt_mul_of_pos_right (by omega) (by decide)
      _ = 2 ^ 64 := by decide
  have whole : specs.rs_size ≤ specs.rs_size * 2 ^ fs.unitBits specs.rs_unit :=
    Nat.le_mul_of_pos_right _ (by positivity)
  rw [newSize, Nat.mod_eq_of_lt exact, if_neg (Nat.not_lt.mpr whole)]

def largeClusters : Volume := ⟨.largeClusters, 2 ^ 20⟩

end Volume

end Ocfs2.Tunefs.Resize
