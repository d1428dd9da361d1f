import Ocfs2.Shared.ByteBuffer

set_option autoImplicit false

namespace Ocfs2.Bitops

open ByteBuffer

variable (addr : Buffer) (nr : Nat) (size offset : Nat)

def mask (nr : Nat) : Byte := 1#8 <<< (nr % 8)

def testBit (nr : Nat) (addr : Buffer) : Bool :=
  mask nr &&& addr.getD (nr / 8) 0 != 0

def setBit (nr : Nat) (addr : Buffer) : Bool × Buffer :=
  (testBit nr addr, update addr nr (· ||| mask nr))

def clearBit (nr : Nat) (addr : Buffer) : Bool × Buffer :=
  (testBit nr addr, update addr nr (· &&& ~~~mask nr))

theorem mask_eq : mask nr = BitVec.twoPow 8 (nr % 8) := by
  simp [mask, BitVec.twoPow_eq]

theorem testBit_eq (addr : Buffer) : testBit nr addr = bit addr nr := by
  have small : nr % 8 < 8 := by omega
  have nonzero : BitVec.twoPow 8 (nr % 8) ≠ 0#8 := by
    intro zero
    have low := congrArg (fun w => w.getLsbD (nr % 8)) zero
    simp [small] at low
  rw [testBit, mask_eq, BitVec.and_comm, BitVec.and_twoPow, bit]
  cases (addr.getD (nr / 8) 0).getLsbD (nr % 8) <;> simp [nonzero]

@[simp] theorem setBit_fst (addr : Buffer) : (setBit nr addr).1 = bit addr nr := by
  simp [setBit, testBit_eq]

@[simp] theorem clearBit_fst (addr : Buffer) : (clearBit nr addr).1 = bit addr nr := by
  simp [clearBit, testBit_eq]

@[simp] theorem length_setBit (addr : Buffer) :
    (setBit nr addr).2.length = addr.length := by
  simp [setBit]

@[simp] theorem length_clearBit (addr : Buffer) :
    (clearBit nr addr).2.length = addr.length := by
  simp [clearBit]

theorem bit_setBit (nr j : Nat) (addr : Buffer) (inside : nr < 8 * addr.length) :
    bit (setBit nr addr).2 j = if j = nr then true else bit addr j := by
  have small : nr % 8 < 8 := by omega
  rw [setBit, mask_eq, bit_update addr nr j _ inside]
  · simp [small]
  · intro x k _ other
    simp [BitVec.getLsbD_twoPow, other.symm]

theorem bit_clearBit (nr j : Nat) (addr : Buffer) (inside : nr < 8 * addr.length) :
    bit (clearBit nr addr).2 j = if j = nr then false else bit addr j := by
  have small : nr % 8 < 8 := by omega
  rw [clearBit, mask_eq, bit_update addr nr j _ inside]
  · simp [small]
  · intro x k hk other
    simp [hk, other]

theorem setBit_of_set (addr : Buffer) (set : bit addr nr = true) :
    (setBit nr addr).2 = addr := by
  have inside : nr < 8 * addr.length := by
    by_contra outside
    rw [bit_of_ge addr nr (by omega)] at set
    cases set
  refine ext_bits (length_setBit nr addr) fun j _ => ?_
  rw [bit_setBit nr j addr inside]
  split <;> simp_all

theorem clearBit_of_clear (addr : Buffer) (inside : nr < 8 * addr.length)
    (clear : bit addr nr = false) : (clearBit nr addr).2 = addr := by
  refine ext_bits (length_clearBit nr addr) fun j _ => ?_
  rw [bit_clearBit nr j addr inside]
  split <;> simp_all

def ffs (w : BitVec 32) : Nat :=
  ((List.range 32).find? w.getLsbD).elim 0 (· + 1)

theorem ffs_eq_zero {w : BitVec 32} (none : ffs w = 0) (i : Nat) : w.getLsbD i = false := by
  unfold ffs at none
  cases found : (List.range 32).find? w.getLsbD with
  | some k => simp [found] at none
  | none =>
    by_cases small : i < 32
    · have h := List.find?_eq_none.mp found i (by simpa using small)
      simpa using h
    · exact BitVec.getLsbD_of_ge w i (by omega)

theorem ffs_eq_succ {w : BitVec 32} {k : Nat} (found : ffs w = k + 1) :
    w.getLsbD k = true ∧ ∀ i, i < k → w.getLsbD i = false := by
  unfold ffs at found
  cases h : (List.range 32).find? w.getLsbD with
  | none => simp [h] at found
  | some n =>
    have same : n = k := by simpa [h] using found
    subst same
    refine ⟨List.find?_some h, ?_⟩
    intro i less
    have first := List.find?_range_eq_some.mp h
    simpa using first.2.2 i less

def skipBytes (full : Byte) (size : Nat) : Nat → Buffer → Nat
  | res, [] => res
  | res, p :: rest => if res < size ∧ p = full then skipBytes full size (res + 8) rest else res

def byteAt (addr : Buffer) (res : Nat) : BitVec 32 := (addr.getD (res / 8) 0).setWidth 32

def tailMask (size res : Nat) : BitVec 32 :=
  if size < res + 8 then 255#32 >>> (8 - (size - res)) else 255#32

def findNextBit (full : Byte) (first : BitVec 32) (last : Nat → BitVec 32)
    (addr : Buffer) (size offset : Nat) : Nat :=
  if size = 0 then 0 else
  let start := 8 * (offset / 8)
  let set := if offset % 8 = 0 then 0 else ffs first
  if set ≠ 0 then start + set - 1 else
  let from_ := if offset % 8 = 0 then start else start + 8
  let res := skipBytes full size from_ (addr.drop (from_ / 8))
  if size ≤ res then size else
  let d0 := ffs (last res)
  if d0 = 0 then size else res + d0 - 1

def findNextBitSet (addr : Buffer) (size offset : Nat) : Nat :=
  findNextBit 0 (byteAt addr (8 * (offset / 8)) &&& ~~~((1#32 <<< (offset % 8)) - 1))
    (fun res => byteAt addr res &&& tailMask size res) addr size offset

def findNextBitClear (addr : Buffer) (size offset : Nat) : Nat :=
  findNextBit 255 (~~~byteAt addr (8 * (offset / 8)) &&& ~~~((1#32 <<< (offset % 8)) - 1) &&& 255#32)
    (fun res => ~~~(byteAt addr res &&& tailMask size res)) addr size offset

theorem getLsbD_byteAt (res j : Nat) (aligned : res % 8 = 0) (small : j < 8) :
    (byteAt addr res).getLsbD j = bit addr (res + j) := by
  have index : (res + j) / 8 = res / 8 := by omega
  have offset : (res + j) % 8 = j := by omega
  have wide : j < 32 := by omega
  simp [byteAt, bit, index, offset, wide]

theorem getLsbD_byteAt_of_ge (res j : Nat) (big : 8 ≤ j) :
    (byteAt addr res).getLsbD j = false := by
  simp only [byteAt, BitVec.getLsbD_setWidth]
  simp [BitVec.getLsbD_of_ge _ j big]

theorem getLsbD_below (low j : Nat) (hl : low < 8) (hj : j < 8) :
    ((1#32 <<< low) - 1).getLsbD j = decide (j < low) := by
  have all : ∀ low < 8, ∀ j < 8, ((1#32 <<< low) - 1).getLsbD j = decide (j < low) := by decide
  exact all low hl j hj

theorem getLsbD_tail (k j : Nat) (hk : k < 8) (hj : j < 8) :
    (255#32 >>> (8 - k)).getLsbD j = decide (j < k) := by
  have all : ∀ k < 8, ∀ j < 8, (255#32 >>> (8 - k)).getLsbD j = decide (j < k) := by decide
  exact all k hk j hj

theorem getLsbD_255 (j : Nat) : (255#32).getLsbD j = decide (j < 8) := by
  by_cases wide : j < 32
  · revert j
    decide
  · rw [BitVec.getLsbD_of_ge _ _ (by omega)]
    simp
    omega

theorem skipBytes_spec (full : Byte) (other : Bool) (uniform : ∀ j, j < 8 → full.getLsbD j = other)
    (addr : Buffer) (size k : Nat) :
    ∃ n, skipBytes full size (8 * k) (addr.drop k) = 8 * n ∧ k ≤ n ∧
      (∀ i, 8 * k ≤ i → i < 8 * n → bit addr i = other) ∧
      (8 * n < size → n < addr.length → addr.getD n 0 ≠ full) ∧
      (k ≤ addr.length → n ≤ addr.length) := by
  generalize hrest : addr.drop k = rest
  induction rest generalizing k with
  | nil =>
    have short : addr.length ≤ k := List.drop_eq_nil_iff.mp hrest
    refine ⟨k, rfl, le_rfl, ?_, ?_, fun h => h⟩
    · intro i low high; omega
    · intro _ inside; omega
  | cons p rest ih =>
    have inside : k < addr.length := by
      by_contra h
      rw [List.drop_eq_nil_of_le (by omega)] at hrest
      simp at hrest
    have byte : addr.getD k 0 = p := by
      have h := congrArg List.head? hrest
      simpa [List.head?_drop, List.getD_eq_getElem?_getD, inside] using h
    by_cases more : 8 * k < size ∧ p = full
    · have tail : addr.drop (k + 1) = rest := by
        rw [← List.tail_drop, hrest, List.tail_cons]
      obtain ⟨n, hn, le, passed, stop, bound⟩ := ih (k + 1) tail
      refine ⟨n, ?_, by omega, ?_, stop, fun _ => bound (by omega)⟩
      · rw [skipBytes, if_pos more]
        exact hn
      · intro i low high
        by_cases this : i < 8 * (k + 1)
        · have h := bit_byte addr k (i - 8 * k) (by omega)
          rw [byte, more.2, uniform _ (by omega)] at h
          rwa [Nat.add_sub_cancel' low] at h
        · exact passed i (by omega) high
    · refine ⟨k, by rw [skipBytes, if_neg more], le_rfl, ?_, ?_, fun h => h⟩
      · intro i low high; omega
      · intro less _ same
        exact more ⟨less, by rw [← byte]; exact same⟩

theorem getLsbD_tailMask (size res j : Nat) (small : j < 8) :
    (tailMask size res).getLsbD j = decide (j < size - res) := by
  unfold tailMask
  split
  · exact getLsbD_tail _ _ (by omega) small
  · rw [getLsbD_255]
    simp only [decide_eq_decide]
    omega

theorem getLsbD_and_tailMask (size n j : Nat) (small : j < 8) :
    (byteAt addr (8 * n) &&& tailMask size (8 * n)).getLsbD j =
      (bit addr (8 * n + j) && decide (8 * n + j < size)) := by
  rw [BitVec.getLsbD_and, getLsbD_byteAt _ _ _ (by omega) small, getLsbD_tailMask _ _ _ small]
  congr 1
  simp only [decide_eq_decide]
  omega

def CleanTail (addr : Buffer) (size : Nat) : Prop :=
  ∀ i, size ≤ i → i < 8 * ((size + 7) / 8) → bit addr i = false

theorem firstByte_spec (p : Nat → Bool) (w : BitVec 32) (offset : Nat)
    (read : ∀ j, j < 8 → w.getLsbD j = (p (8 * (offset / 8) + j) && decide (offset % 8 ≤ j)))
    (high : ∀ j, 8 ≤ j → w.getLsbD j = false) :
    (ffs w = 0 → ∀ i, offset ≤ i → i < 8 * (offset / 8) + 8 → p i = false) ∧
    (∀ k, ffs w = k + 1 → k < 8 ∧ offset % 8 ≤ k ∧ p (8 * (offset / 8) + k) = true ∧
      ∀ i, offset ≤ i → i < 8 * (offset / 8) + k → p i = false) := by
  refine ⟨fun none i low below => ?_, fun k found => ?_⟩
  · have zero := ffs_eq_zero none (i - 8 * (offset / 8))
    rw [read _ (by omega), Nat.add_sub_cancel' (by omega)] at zero
    have from_ : offset % 8 ≤ i - 8 * (offset / 8) := by omega
    simpa [from_] using zero
  · obtain ⟨one, before⟩ := ffs_eq_succ found
    have small : k < 8 := by
      by_contra big
      simp [high k (by omega)] at one
    rw [read k small] at one
    simp only [Bool.and_eq_true, decide_eq_true_eq] at one
    refine ⟨small, one.2, one.1, fun i low below => ?_⟩
    have clear := before (i - 8 * (offset / 8)) (by omega)
    rw [read _ (by omega), Nat.add_sub_cancel' (by omega)] at clear
    have from_ : offset % 8 ≤ i - 8 * (offset / 8) := by omega
    simpa [from_] using clear

theorem firstByte_read_set (offset j : Nat) (hj : j < 8) :
    (byteAt addr (8 * (offset / 8)) &&& ~~~((1#32 <<< (offset % 8)) - 1)).getLsbD j =
      (bit addr (8 * (offset / 8) + j) && decide (offset % 8 ≤ j)) := by
  have wide : j < 32 := by omega
  rw [BitVec.getLsbD_and, getLsbD_byteAt _ _ _ (by omega) hj, BitVec.getLsbD_not,
    getLsbD_below _ _ (by omega) hj]
  simp only [wide, decide_true, Bool.true_and, ← decide_not, not_lt]

theorem firstByte_read_clear (offset j : Nat) (hj : j < 8) :
    (~~~byteAt addr (8 * (offset / 8)) &&& ~~~((1#32 <<< (offset % 8)) - 1) &&& 255#32).getLsbD j =
      (!bit addr (8 * (offset / 8) + j) && decide (offset % 8 ≤ j)) := by
  have wide : j < 32 := by omega
  rw [BitVec.getLsbD_and, BitVec.getLsbD_and, BitVec.getLsbD_not, BitVec.getLsbD_not,
    getLsbD_byteAt _ _ _ (by omega) hj, getLsbD_below _ _ (by omega) hj, getLsbD_255]
  simp only [wide, hj, decide_true, Bool.true_and, Bool.and_true, ← decide_not, not_lt]

theorem exists_bit_of_ne (full : Byte) (other : Bool) (uniform : ∀ j, j < 8 → full.getLsbD j = other)
    (addr : Buffer) (n : Nat) (ne : addr.getD n 0 ≠ full) :
    ∃ j, j < 8 ∧ bit addr (8 * n + j) = !other := by
  by_contra none
  apply ne
  apply BitVec.eq_of_getLsbD_eq
  intro j hj
  rw [uniform j hj, ← bit_byte addr n j hj]
  cases h : bit addr (8 * n + j) <;> cases other <;> simp_all

theorem lastByte_set (size n : Nat) (more : 8 * n < size)
    (ne : addr.getD n 0 ≠ 0) :
    let d0 := ffs (byteAt addr (8 * n) &&& tailMask size (8 * n))
    IsNext (bit addr) (8 * n) size (if d0 = 0 then size else 8 * n + d0 - 1) := by
  intro d0
  cases hd : d0 with
  | zero =>
    have clear : ∀ j, j < 8 → 8 * n + j < size → bit addr (8 * n + j) = false := by
      intro j hj less
      have zero := ffs_eq_zero hd j
      rw [getLsbD_and_tailMask _ _ _ _ hj] at zero
      simpa [less] using zero
    obtain ⟨j, hj, one⟩ := exists_bit_of_ne 0 false (by simp) addr n ne
    refine .none (by omega) fun i low high => ?_
    have short : 8 * n + j ≥ size := by
      by_contra less
      simp [clear j hj (by omega)] at one
    have h := clear (i - 8 * n) (by omega) (by omega)
    rwa [Nat.add_sub_cancel' low] at h
  | succ k =>
    obtain ⟨one, before⟩ := ffs_eq_succ hd
    have small : k < 8 := by
      by_contra big
      rw [BitVec.getLsbD_and, getLsbD_byteAt_of_ge _ _ _ (by omega)] at one
      simp at one
    rw [getLsbD_and_tailMask _ _ _ _ small] at one
    simp only [Bool.and_eq_true, decide_eq_true_eq] at one
    simp only [Nat.add_eq_zero_iff, one_ne_zero, and_false, if_false, Nat.add_succ_sub_one]
    refine ⟨by omega, by omega, fun i low less => ?_, fun _ => one.1⟩
    have zero := before (i - 8 * n) (by omega)
    rw [getLsbD_and_tailMask _ _ _ _ (by omega), Nat.add_sub_cancel' low] at zero
    have inside : i < size := by omega
    simpa [inside] using zero

theorem lastByte_clear (size n : Nat) (more : 8 * n < size)
    (ne : addr.getD n 0 ≠ 255) :
    let d0 := ffs (~~~(byteAt addr (8 * n) &&& tailMask size (8 * n)))
    IsNext (fun i => !bit addr i) (8 * n) size (if d0 = 0 then size else 8 * n + d0 - 1) := by
  intro d0
  have read : ∀ j, j < 8 → (~~~(byteAt addr (8 * n) &&& tailMask size (8 * n))).getLsbD j =
      (!bit addr (8 * n + j) || decide (size ≤ 8 * n + j)) := by
    intro j hj
    have wide : j < 32 := by omega
    rw [BitVec.getLsbD_not, getLsbD_and_tailMask _ _ _ _ hj]
    simp only [wide, decide_true, Bool.true_and, Bool.not_and, ← decide_not, not_lt]
  obtain ⟨j, hj, clear⟩ := exists_bit_of_ne 255 true (by decide) addr n ne
  cases hd : d0 with
  | zero =>
    have zero := ffs_eq_zero hd j
    simp_all
  | succ k =>
    obtain ⟨one, before⟩ := ffs_eq_succ hd
    have first : k ≤ j := by
      by_contra less
      have zero := before j (by omega)
      simp_all
    have inside : 8 * n + k ≤ size := by
      by_contra past
      have zero := before (size - 8 * n) (by omega)
      rw [read _ (by omega)] at zero
      simp_all
      omega
    simp only [Nat.add_eq_zero_iff, one_ne_zero, and_false, if_false, Nat.add_succ_sub_one]
    refine ⟨by omega, inside, fun i low less => ?_, fun short => ?_⟩
    · have zero := before (i - 8 * n) (by omega)
      rw [read _ (by omega), Nat.add_sub_cancel' low] at zero
      simp only [Bool.or_eq_false_iff] at zero
      exact zero.1
    · rw [read k (by omega)] at one
      have past : ¬ size ≤ 8 * n + k := by omega
      simpa [past] using one

/-- The byte the search starts inside has wanted bits, and the first of them is past `size`. -/
def Stray (p : Nat → Bool) (size offset : Nat) : Prop :=
  offset % 8 ≠ 0 ∧ (∀ i, offset ≤ i → i ≤ size → p i = false) ∧ ∃ i, size < i ∧ i < 8 * (offset / 8) + 8 ∧ p i = true

theorem findNextBit_isNext_iff (p : Nat → Bool) (full : Byte) (other : Bool)
    (uniform : ∀ j, j < 8 → full.getLsbD j = other) (addr : Buffer)
    (rejects : ∀ i, bit addr i = other → p i = false) (size offset : Nat)
    (first : BitVec 32) (last : Nat → BitVec 32)
    (read : ∀ j, j < 8 → first.getLsbD j = (p (8 * (offset / 8) + j) && decide (offset % 8 ≤ j)))
    (high : ∀ j, 8 ≤ j → first.getLsbD j = false)
    (final : ∀ n, 8 * n < size → addr.getD n 0 ≠ full →
      IsNext p (8 * n) size (if ffs (last (8 * n)) = 0 then size else 8 * n + ffs (last (8 * n)) - 1))
    (inside : offset ≤ size) (room : size ≤ 8 * addr.length) :
    IsNext p offset size (findNextBit full first last addr size offset) ↔ ¬ Stray p size offset := by
  -- from a byte boundary on, whole bytes are skipped and then one byte decides
  have scan : ∀ k, offset ≤ 8 * k → (∀ i, offset ≤ i → i < 8 * k → p i = false) →
      IsNext p offset size
        (if size ≤ skipBytes full size (8 * k) (addr.drop k) then size
          else if ffs (last (skipBytes full size (8 * k) (addr.drop k))) = 0 then size
          else skipBytes full size (8 * k) (addr.drop k) +
            ffs (last (skipBytes full size (8 * k) (addr.drop k))) - 1) := by
    intro k le before
    obtain ⟨n, hres, more, passed, stop, _⟩ := skipBytes_spec full other uniform addr size k
    have skipped : ∀ i, offset ≤ i → i < 8 * n → p i = false := by
      intro i low less
      by_cases early : i < 8 * k
      · exact before i low early
      · exact rejects i (passed i (not_lt.mp early) less)
    rw [hres]
    by_cases ends : size ≤ 8 * n
    · rw [if_pos ends]
      exact .none inside fun i low less => skipped i low (by omega)
    · rw [if_neg ends]
      exact (final n (by omega) (stop (by omega) (by omega))).extend (by omega) skipped
  unfold findNextBit
  by_cases empty : size = 0
  · rw [if_pos empty]
    refine iff_of_true ⟨by omega, by omega, fun i _ less => by omega, fun less => by omega⟩ fun stray => ?_
    have := stray.1
    omega
  rw [if_neg empty]
  by_cases aligned : offset % 8 = 0
  · have start : 8 * (offset / 8) = offset := by omega
    have h := scan (offset / 8) (by omega) (fun i low less => by omega)
    exact iff_of_true (by simpa [aligned, start] using h) fun stray => stray.1 aligned
  · have byte := firstByte_spec p first offset read high
    simp only [aligned, if_false]
    split
    next found =>
      obtain ⟨k, hk⟩ := Nat.exists_eq_succ_of_ne_zero found
      obtain ⟨small, low, one, before⟩ := byte.2 k hk
      rw [hk, Nat.succ_eq_add_one, ← Nat.add_assoc, Nat.add_sub_cancel]
      constructor
      · rintro next ⟨-, none, -⟩
        rw [none _ (by omega) next.upper] at one
        cases one
      · refine fun inside => ⟨by omega, ?_, before, fun _ => one⟩
        by_contra past
        exact inside ⟨aligned, fun i low high => before i low (by omega), _, Nat.not_le.mp past, by omega, one⟩
    next none =>
      have rest := byte.1 (not_not.mp none)
      have next : (8 * (offset / 8) + 8) / 8 = offset / 8 + 1 := by omega
      have h := scan (offset / 8 + 1) (by omega) (fun i low less => rest i low (by omega))
      rw [show 8 * (offset / 8 + 1) = 8 * (offset / 8) + 8 by ring] at h
      refine iff_of_true (by simpa only [next] using h) ?_
      rintro ⟨-, -, i, past, below, one⟩
      rw [rest i (by omega) below] at one
      cases one

theorem findNextBitSet_isNext_iff (room : size ≤ 8 * addr.length) (inside : offset ≤ size) :
    IsNext (bit addr) offset size (findNextBitSet addr size offset) ↔ ¬ Stray (bit addr) size offset := by
  refine findNextBit_isNext_iff (bit addr) 0 false (by simp) addr (fun _ h => h) size offset _ _
    (firstByte_read_set addr offset) (fun j hj => ?_) (fun n => lastByte_set addr size n) inside room
  rw [BitVec.getLsbD_and, getLsbD_byteAt_of_ge _ _ _ hj, Bool.false_and]

theorem findNextBitClear_isNext_iff (room : size ≤ 8 * addr.length) (inside : offset ≤ size) :
    IsNext (fun i => !bit addr i) offset size (findNextBitClear addr size offset) ↔
      ¬ Stray (fun i => !bit addr i) size offset := by
  refine findNextBit_isNext_iff (fun i => !bit addr i) 255 true (by decide) addr (fun _ h => by simp [h]) size offset
    _ _ (firstByte_read_clear addr offset) (fun j hj => ?_) (fun n => lastByte_clear addr size n) inside room
  rw [BitVec.getLsbD_and, getLsbD_255]
  simp [hj]

/-- A search from a byte boundary is right whatever the bits beyond `size` are. From inside a byte it does not stop
at `size` there, and the wanted bit it finds may be past it. -/
theorem find_next_bit_least_iff (room : size ≤ 8 * addr.length) (inside : offset ≤ size) :
    (IsNext (bit addr) offset size (findNextBitSet addr size offset) ↔ ¬ Stray (bit addr) size offset) ∧
    (IsNext (fun i => !bit addr i) offset size (findNextBitClear addr size offset) ↔
      ¬ Stray (fun i => !bit addr i) size offset) :=
  ⟨findNextBitSet_isNext_iff addr size offset room inside, findNextBitClear_isNext_iff addr size offset room inside⟩

theorem find_next_bit_least_twelve :
    IsNext (bit [0#8, 0xf8#8]) 9 12 (findNextBitSet [0#8, 0xf8#8] 12 9) := by
  refine (find_next_bit_least_iff [0#8, 0xf8#8] 12 9 (by decide) (by decide)).1.mpr fun stray => ?_
  exact absurd (stray.2.1 11 (by decide) (by decide)) (by decide)

theorem stray_bit_found :
    findNextBitSet [0x80#8] 4 1 = 7 ∧ ¬ IsNext (bit [0x80#8]) 1 4 (findNextBitSet [0x80#8] 4 1) ∧
    findNextBitClear [0x7f#8] 4 1 = 7 ∧ ¬ IsNext (fun i => !bit [0x7f#8] i) 1 4 (findNextBitClear [0x7f#8] 4 1) :=
  ⟨by decide, fun next => absurd next.upper (by decide), by decide, fun next => absurd next.upper (by decide)⟩

theorem findNextBitSet_isNext (room : size ≤ 8 * addr.length)
    (clean : CleanTail addr size) (inside : offset ≤ size) :
    IsNext (bit addr) offset size (findNextBitSet addr size offset) := by
  refine (findNextBitSet_isNext_iff addr size offset room inside).mpr ?_
  rintro ⟨unaligned, -, i, past, below, one⟩
  simp [clean i past.le (by omega)] at one

theorem findNextBitClear_isNext_of (room : size ≤ 8 * addr.length)
    (clean : offset % 8 ≠ 0 → CleanTail addr size) (inside : offset ≤ size) :
    IsNext (fun i => !bit addr i) offset size (findNextBitClear addr size offset) := by
  refine (findNextBitClear_isNext_iff addr size offset room inside).mpr ?_
  rintro ⟨unaligned, set, i, past, below, -⟩
  simpa [clean unaligned size le_rfl (by omega)] using set size inside le_rfl

theorem findNextBitClear_isNext (room : size ≤ 8 * addr.length)
    (clean : CleanTail addr size) (inside : offset ≤ size) :
    IsNext (fun i => !bit addr i) offset size (findNextBitClear addr size offset) :=
  findNextBitClear_isNext_of addr size offset room (fun _ => clean) inside

end Ocfs2.Bitops
