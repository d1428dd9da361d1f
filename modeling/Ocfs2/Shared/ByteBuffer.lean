import Mathlib.Tactic

set_option autoImplicit false

/-!
A buffer is a list of bytes; bit `i` is bit `i % 8` of byte `i / 8`, so that bit numbers
run from the least significant bit of the first byte.
-/

namespace ByteBuffer

abbrev Byte := BitVec 8

abbrev Buffer := List Byte

def bit (buf : Buffer) (i : Nat) : Bool :=
  (buf.getD (i / 8) 0).getLsbD (i % 8)

variable (buf : Buffer) (off : Nat) (bytes : Buffer)

theorem bit_of_ge (i : Nat) (h : 8 * buf.length ≤ i) : bit buf i = false := by
  have out : buf.length ≤ i / 8 := by omega
  simp [bit, List.getD_eq_getElem?_getD, List.getElem?_eq_none out]

theorem bit_byte (k j : Nat) (small : j < 8) :
    bit buf (8 * k + j) = (buf.getD k 0).getLsbD j := by
  have index : (8 * k + j) / 8 = k := by omega
  have offset : (8 * k + j) % 8 = j := by omega
  simp only [bit, index, offset]

theorem ext_bits {a b : Buffer} (len : a.length = b.length)
    (same : ∀ i, i < 8 * a.length → bit a i = bit b i) : a = b := by
  apply List.ext_getElem len
  intro k ha hb
  apply BitVec.eq_of_getLsbD_eq
  intro j hj
  have h := same (8 * k + j) (by omega)
  simpa [bit_byte _ _ _ hj, List.getD_eq_getElem?_getD, ha, hb] using h

def update (buf : Buffer) (i : Nat) (f : Byte → Byte) : Buffer :=
  buf.modify (i / 8) f

@[simp] theorem length_update (i : Nat) (f : Byte → Byte) :
    (update buf i f).length = buf.length := by
  simp [update]

theorem getD_update (i k : Nat) (f : Byte → Byte) (inside : i < 8 * buf.length) :
    (update buf i f).getD k 0 = if k = i / 8 then f (buf.getD k 0) else buf.getD k 0 := by
  have byte : i / 8 < buf.length := by omega
  by_cases same : k = i / 8
  · subst same
    simp [update, List.getD_eq_getElem?_getD, byte]
  · have other : i / 8 ≠ k := fun h => same h.symm
    simp [update, List.getD_eq_getElem?_getD, same, other]

theorem bit_update (i j : Nat) (f : Byte → Byte) (inside : i < 8 * buf.length)
    (keeps : ∀ x k, k < 8 → k ≠ i % 8 → (f x).getLsbD k = x.getLsbD k) :
    bit (update buf i f) j =
      if j = i then (f (buf.getD (i / 8) 0)).getLsbD (i % 8) else bit buf j := by
  rw [bit, getD_update buf i (j / 8) f inside]
  by_cases byte : j / 8 = i / 8
  · rw [if_pos byte]
    by_cases same : j = i
    · rw [if_pos same, same]
    · rw [if_neg same, keeps _ _ (by omega) (by omega), bit, byte]
  · rw [if_neg byte, if_neg (fun h => byte (by rw [h])), bit]

theorem getD_modify (k m : Nat) (f : Byte → Byte) (inside : k < buf.length) :
    (buf.modify k f).getD m 0 = if m = k then f (buf.getD m 0) else buf.getD m 0 := by
  have update := getD_update buf (8 * k) m f (by omega)
  rwa [ByteBuffer.update, show 8 * k / 8 = k by omega] at update

def flip (buf : Buffer) (i : Nat) : Buffer :=
  update buf i (· ^^^ BitVec.twoPow 8 (i % 8))

@[simp] theorem length_flip (i : Nat) : (flip buf i).length = buf.length := by
  simp [flip]

theorem bit_flip (i j : Nat) (inside : i < 8 * buf.length) :
    bit (flip buf i) j = if j = i then !bit buf i else bit buf j := by
  have small : i % 8 < 8 := by omega
  rw [flip, bit_update buf i j _ inside]
  · simp [bit, small]
  · intro x k _ other
    simp [BitVec.getLsbD_twoPow, other.symm]

theorem flip_flip (i : Nat) (inside : i < 8 * buf.length) :
    flip (flip buf i) i = buf := by
  apply ext_bits (by simp)
  intro j _
  rw [bit_flip _ _ _ (by simpa using inside), bit_flip _ _ _ inside, bit_flip _ _ _ inside]
  by_cases same : j = i <;> simp [same]

theorem getD_flip (i k : Nat) (inside : i < 8 * buf.length) :
    (flip buf i).getD k 0 =
      if k = i / 8 then buf.getD k 0 ^^^ BitVec.twoPow 8 (i % 8) else buf.getD k 0 :=
  getD_update buf i k _ inside

theorem ext_getD {a b : Buffer} (len : a.length = b.length)
    (same : ∀ k, k < a.length → a.getD k 0 = b.getD k 0) : a = b := by
  apply List.ext_getElem len
  intro k ha hb
  simpa [List.getD_eq_getElem?_getD, ha, hb] using same k ha

def splice (buf : Buffer) (off : Nat) (bytes : Buffer) : Buffer :=
  buf.take off ++ bytes ++ buf.drop (off + bytes.length)

theorem length_splice
    (room : off + bytes.length ≤ buf.length) : (splice buf off bytes).length = buf.length := by
  simp [splice]
  omega

theorem getElem?_splice (k : Nat)
    (room : off + bytes.length ≤ buf.length) :
    (splice buf off bytes)[k]? =
      if off ≤ k ∧ k < off + bytes.length then bytes[k - off]? else buf[k]? := by
  have front : (buf.take off).length = off := by simp; omega
  simp only [splice, List.append_assoc]
  rcases Nat.lt_or_ge k off with before | later
  · rw [List.getElem?_append_left (by omega), if_neg (by omega), List.getElem?_take_of_lt before]
  · rw [List.getElem?_append_right (by omega), front]
    rcases Nat.lt_or_ge (k - off) bytes.length with inside | after
    · rw [List.getElem?_append_left inside, if_pos (by omega)]
    · rw [List.getElem?_append_right after, if_neg (by omega), List.getElem?_drop]
      congr 1
      omega

theorem getD_splice (k : Nat)
    (room : off + bytes.length ≤ buf.length) :
    (splice buf off bytes).getD k 0 =
      if off ≤ k ∧ k < off + bytes.length then bytes.getD (k - off) 0 else buf.getD k 0 := by
  simp only [List.getD_eq_getElem?_getD, getElem?_splice buf off bytes k room]
  split <;> rfl

@[simp] theorem splice_nil : splice buf off [] = buf := by
  simp [splice]

theorem splice_full (buf bytes : Buffer) (len : bytes.length = buf.length) :
    splice buf 0 bytes = bytes := by
  simp [splice, len]

theorem splice_splice (a b : Buffer) (room : off + a.length ≤ buf.length) :
    splice (splice buf off a) (off + a.length) b = splice buf off (a ++ b) := by
  have front : (buf.take off).length = off := by simp; omega
  have head : (buf.take off ++ a).length = off + a.length := by simp [front]
  have first : (splice buf off a).take (off + a.length) = buf.take off ++ a := by
    rw [splice, List.take_append_of_le_length (by omega), List.take_of_length_le (by omega)]
  have last : (splice buf off a).drop (off + a.length + b.length) =
      buf.drop (off + a.length + b.length) := by
    rw [splice, List.drop_append, List.drop_of_length_le (by omega), List.nil_append, head,
      List.drop_drop]
    congr 1
    omega
  rw [splice, first, last, splice, List.length_append]
  simp [Nat.add_assoc]

def blockAt (buf : Buffer) (size b : Nat) : Buffer := (buf.drop (b * size)).take size

theorem getElem?_blockAt (size b k : Nat) :
    (blockAt buf size b)[k]? = if k < size then buf[b * size + k]? else none := by
  rw [blockAt]
  split
  · next inside => rw [List.getElem?_take_of_lt inside, List.getElem?_drop]
  · next outside => rw [List.getElem?_eq_none (by simp; omega)]

theorem blockAt_append_take (size b n : Nat) :
    blockAt buf size b ++ (buf.drop ((b + 1) * size)).take (n * size) =
      (buf.drop (b * size)).take ((n + 1) * size) := by
  rw [blockAt, Nat.add_mul b, Nat.one_mul, ← List.drop_drop, Nat.add_mul n, Nat.one_mul,
    Nat.add_comm (n * size), List.take_add]

theorem blockAt_splice_outside (size b c n : Nat) (bytes : Buffer)
    (room : b * size + bytes.length ≤ buf.length) (short : bytes.length ≤ n * size)
    (outside : c < b ∨ b + n ≤ c) :
    blockAt (splice buf (b * size) bytes) size c = blockAt buf size c := by
  apply List.ext_getElem?
  intro k
  rw [getElem?_blockAt, getElem?_blockAt]
  split
  · next inside =>
    rw [getElem?_splice _ _ _ _ room, if_neg]
    rintro ⟨low, high⟩
    rcases outside with before | behind
    · have := Nat.mul_le_mul_right size (Nat.succ_le_of_lt before)
      rw [Nat.succ_mul] at this
      omega
    · have := Nat.mul_le_mul_right size behind
      rw [Nat.add_mul] at this
      omega
  · rfl

theorem blockAt_splice_inside (size b i n : Nat) (bytes : Buffer)
    (room : b * size + bytes.length ≤ buf.length) (full : n * size ≤ bytes.length) (inside : i < n) :
    blockAt (splice buf (b * size) bytes) size (b + i) = blockAt bytes size i := by
  have fits : i * size + size ≤ n * size := by
    have := Nat.mul_le_mul_right size (Nat.succ_le_of_lt inside)
    rwa [Nat.succ_mul] at this
  apply List.ext_getElem?
  intro k
  rw [getElem?_blockAt, getElem?_blockAt]
  split
  · next small =>
    rw [getElem?_splice _ _ _ _ room, if_pos (by rw [Nat.add_mul]; omega), Nat.add_mul]
    congr 1
    omega
  · rfl

section Count

abbrev countTrue (f : Nat → Bool) (n : Nat) : Nat := Nat.count (fun i => f i = true) n

theorem countTrue_congr (f g : Nat → Bool) (n : Nat) (same : ∀ i, i < n → f i = g i) :
    countTrue f n = countTrue g n := by
  induction n with
  | zero => rfl
  | succ n ih =>
    have prior := ih (fun i hi => same i (by omega))
    simp only [countTrue] at prior
    simp only [countTrue, Nat.count_succ, same n (by omega), prior]

theorem countTrue_set (f g : Nat → Bool) (n k : Nat) (inside : k < n) (clear : f k = false)
    (set : g k = true) (same : ∀ i, i ≠ k → g i = f i) : countTrue g n = countTrue f n + 1 := by
  induction n with
  | zero => omega
  | succ n ih =>
    simp only [countTrue, Nat.count_succ]
    rcases Nat.lt_or_ge k n with below | top
    · have prior := ih below
      simp only [countTrue] at prior
      rw [prior, same n (by omega)]
      omega
    · obtain rfl : k = n := by omega
      have prior := countTrue_congr g f k (fun i hi => same i (by omega))
      simp only [countTrue] at prior
      simp [prior, clear, set]

theorem countTrue_add (f : Nat → Bool) (m n : Nat) :
    countTrue f (m + n) = countTrue f m + countTrue (fun i => f (m + i)) n :=
  Nat.count_add (fun i => f i = true) m n

end Count

structure IsNext (p : Nat → Bool) (lo hi r : Nat) : Prop where
  lower : lo ≤ r
  upper : r ≤ hi
  before : ∀ i, lo ≤ i → i < r → p i = false
  found : r < hi → p r = true

theorem IsNext.unique {p : Nat → Bool} {lo hi r s : Nat} (hr : IsNext p lo hi r)
    (hs : IsNext p lo hi s) : r = s := by
  have order : ∀ {a b}, IsNext p lo hi a → IsNext p lo hi b → ¬ a < b := by
    intro a b ha hb less
    have set := ha.found (lt_of_lt_of_le less hb.upper)
    have clear := hb.before a ha.lower less
    simp [set] at clear
  exact le_antisymm (not_lt.mp (order hs hr)) (not_lt.mp (order hr hs))

theorem IsNext.extend {p : Nat → Bool} {lo mid hi r : Nat} (h : IsNext p mid hi r) (le : lo ≤ mid)
    (passed : ∀ i, lo ≤ i → i < mid → p i = false) : IsNext p lo hi r where
  lower := le.trans h.lower
  upper := h.upper
  before := by
    intro i low less
    by_cases early : i < mid
    · exact passed i low early
    · exact h.before i (not_lt.mp early) less
  found := h.found

theorem IsNext.none {p : Nat → Bool} {lo hi : Nat} (le : lo ≤ hi)
    (passed : ∀ i, lo ≤ i → i < hi → p i = false) : IsNext p lo hi hi :=
  ⟨le, le_rfl, passed, fun h => absurd h (lt_irrefl _)⟩

end ByteBuffer
