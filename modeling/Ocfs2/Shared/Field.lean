import Ocfs2.Shared.ByteBuffer

set_option autoImplicit false

namespace ByteBuffer

def slice (buf : Buffer) (off n : Nat) : Buffer := (buf.drop off).take n

def leValue : Buffer → Nat
  | [] => 0
  | b :: bs => b.toNat + 256 * leValue bs

def leBytes : Nat → Nat → Buffer
  | 0, _ => []
  | n + 1, v => BitVec.ofNat 8 v :: leBytes n (v / 256)

@[simp] theorem length_leBytes (n v : Nat) : (leBytes n v).length = n := by
  induction n generalizing v with
  | zero => rfl
  | succ n ih => simp [leBytes, ih]

theorem leValue_leBytes (n v : Nat) (small : v < 256 ^ n) : leValue (leBytes n v) = v := by
  induction n generalizing v with
  | zero =>
    simp only [pow_zero] at small
    simp [leBytes, leValue]
    omega
  | succ n ih =>
    have rest : v / 256 < 256 ^ n := by
      rw [Nat.div_lt_iff_lt_mul (by omega), ← pow_succ]
      exact small
    rw [leBytes, leValue, ih _ rest, BitVec.toNat_ofNat]
    omega

theorem leValue_lt (bytes : Buffer) : leValue bytes < 256 ^ bytes.length := by
  induction bytes with
  | nil => simp [leValue]
  | cons b bs ih =>
    have := b.isLt
    rw [leValue, List.length_cons, pow_succ]
    omega

theorem getElem?_slice (buf : Buffer) (off n k : Nat) :
    (slice buf off n)[k]? = if k < n then buf[off + k]? else none := by
  rw [slice, List.getElem?_take]
  split
  · rw [List.getElem?_drop]
  · rfl

theorem length_slice (buf : Buffer) (off n : Nat) (room : off + n ≤ buf.length) :
    (slice buf off n).length = n := by
  simp [slice]
  omega

theorem slice_slice (buf : Buffer) (off n off' n' : Nat) (inside : off' + n' ≤ n) :
    slice (slice buf off n) off' n' = slice buf (off + off') n' := by
  apply List.ext_getElem?
  intro k
  rw [getElem?_slice, getElem?_slice buf (off + off')]
  split
  · rw [getElem?_slice, if_pos (by omega), Nat.add_assoc]
  · rfl

def Agree (a b : Buffer) (lo hi : Nat) : Prop := ∀ k, lo ≤ k → k < hi → a[k]? = b[k]?

theorem Agree.refl (a : Buffer) (lo hi : Nat) : Agree a a lo hi := fun _ _ _ => rfl

theorem Agree.symm {a b : Buffer} {lo hi : Nat} (agree : Agree a b lo hi) : Agree b a lo hi :=
  fun k lower upper => (agree k lower upper).symm

theorem Agree.trans {a b c : Buffer} {lo hi : Nat} (ab : Agree a b lo hi) (bc : Agree b c lo hi) :
    Agree a c lo hi :=
  fun k lower upper => (ab k lower upper).trans (bc k lower upper)

theorem Agree.mono {a b : Buffer} {lo hi lo' hi' : Nat} (agree : Agree a b lo hi) (lower : lo ≤ lo')
    (upper : hi' ≤ hi) : Agree a b lo' hi' :=
  fun k hk hk' => agree k (lower.trans hk) (hk'.trans_le upper)

theorem Agree.slice {a b : Buffer} {lo hi : Nat} (agree : Agree a b lo hi) (off n : Nat) (lower : lo ≤ off)
    (upper : off + n ≤ hi) : slice a off n = slice b off n := by
  apply List.ext_getElem?
  intro k
  rw [getElem?_slice, getElem?_slice]
  split
  · exact agree (off + k) (by omega) (by omega)
  · rfl

variable (buf : Buffer) (off : Nat) (bytes : Buffer) (room : off + bytes.length ≤ buf.length)

include buf off bytes room

theorem agree_splice (lo hi : Nat) (apart : hi ≤ off ∨ off + bytes.length ≤ lo) :
    Agree (splice buf off bytes) buf lo hi := by
  intro k lower upper
  rw [getElem?_splice buf off bytes k room, if_neg (by omega)]

theorem slice_splice : slice (splice buf off bytes) off bytes.length = bytes := by
  apply List.ext_getElem?
  intro k
  rw [getElem?_slice, getElem?_splice buf off bytes _ room]
  split
  · rw [if_pos (by omega), Nat.add_sub_cancel_left]
  · rw [List.getElem?_eq_none (by omega)]

theorem slice_splice_of_ne (off' n : Nat) (apart : off' + n ≤ off ∨ off + bytes.length ≤ off') :
    slice (splice buf off bytes) off' n = slice buf off' n :=
  (agree_splice buf off bytes room off' (off' + n) apart).slice off' n le_rfl le_rfl

end ByteBuffer
