import Ocfs2.Shared.Field

set_option autoImplicit false

namespace ByteBuffer

section Rank

theorem length_filter_range (p : Nat → Bool) (n : Nat) : ((List.range n).filter p).length = countTrue p n := by
  induction n with
  | zero => rfl
  | succ n ih =>
    rw [List.range_succ, List.filter_append, List.length_append, ih, countTrue, countTrue, Nat.count_succ]
    cases h : p n <;> simp [h]

theorem getElem?_filter_range (p : Nat → Bool) (n b : Nat) (inside : b < n) (set : p b = true) :
    ((List.range n).filter p)[countTrue p b]? = some b := by
  induction n with
  | zero => omega
  | succ n ih =>
    rw [List.range_succ, List.filter_append]
    rcases Nat.lt_or_ge b n with below | top
    · have found := ih below
      rw [List.getElem?_append_left (List.getElem?_eq_some_iff.mp found).choose]
      exact found
    · obtain rfl : b = n := by omega
      rw [List.getElem?_append_right (length_filter_range p b).le, length_filter_range]
      simp [set]

theorem countTrue_parts (g : Nat → Nat → Bool) (size k j : Nat) (inside : j ≤ size) :
    countTrue (fun i => g (i / size) (i % size)) (k * size + j) =
      ((List.range k).map fun i => countTrue (g i) size).sum + countTrue (g k) j := by
  have part (k j : Nat) (inside : j ≤ size) :
      countTrue (fun i => g ((k * size + i) / size) ((k * size + i) % size)) j = countTrue (g k) j := by
    refine countTrue_congr _ _ j fun i lt => ?_
    have lt' : i < size := by omega
    have index : (k * size + i) / size = k := by
      rw [Nat.mul_comm, Nat.mul_add_div (by omega), Nat.div_eq_of_lt lt', Nat.add_zero]
    have offset : (k * size + i) % size = i := by
      rw [Nat.mul_comm, Nat.mul_add_mod, Nat.mod_eq_of_lt lt']
    rw [index, offset]
  rw [countTrue_add, part k j inside]
  congr 1
  induction k with
  | zero => simp [countTrue]
  | succ k ih =>
    rw [Nat.succ_mul, countTrue_add, ih, part k size le_rfl, List.range_succ]
    simp

end Rank

section Blocks

theorem blockAt_flatten (blocks : List Buffer) (size : Nat) (full : ∀ x ∈ blocks, x.length = size) (rest : Buffer) :
    ∀ i x, blocks[i]? = some x → blockAt (blocks.flatten ++ rest) size i = x := by
  induction blocks with
  | nil => simp
  | cons first blocks ih =>
    have len : first.length = size := full first List.mem_cons_self
    intro i x found
    cases i with
    | zero =>
      obtain rfl := Option.some.inj found
      simp [blockAt, ← len]
    | succ i =>
      have next := ih (fun y mem => full y (List.mem_cons_of_mem _ mem)) i x found
      rw [← next, blockAt, blockAt, List.flatten_cons, List.append_assoc, Nat.succ_mul, Nat.add_comm, ← List.drop_drop,
        ← len, List.drop_left]

theorem length_flatten_of_full (blocks : List Buffer) (size : Nat) (full : ∀ x ∈ blocks, x.length = size) :
    blocks.flatten.length = blocks.length * size := by
  rw [List.length_flatten, List.map_congr_left full, List.map_const', List.sum_replicate, smul_eq_mul]

def parts : List Nat → Buffer → List Buffer
  | [], _ => []
  | w :: ws, buf => buf.take w :: parts ws (buf.drop w)

theorem parts_flatten (bufs : List Buffer) (rest : Buffer) :
    parts (bufs.map List.length) (bufs.flatten ++ rest) = bufs := by
  induction bufs with
  | nil => rfl
  | cons first bufs ih => simp [parts, ih]

theorem leBytes_leValue (bytes : Buffer) : leBytes bytes.length (leValue bytes) = bytes := by
  induction bytes with
  | nil => rfl
  | cons b bytes ih =>
    have small := b.isLt
    have rest : (b.toNat + 256 * leValue bytes) / 256 = leValue bytes := by omega
    rw [List.length_cons, leBytes, leValue, rest, ih]
    congr 1
    apply BitVec.eq_of_toNat_eq
    rw [BitVec.toNat_ofNat]
    omega

end Blocks

end ByteBuffer
