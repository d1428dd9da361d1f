import Ocfs2.Libocfs2.Bitmap

set_option autoImplicit false

namespace Ocfs2

open ByteBuffer Rbtree

namespace Region

variable {π : Type}

structure Wf (br : Region π) : Prop where
  nonempty : 0 < br.br_total_bits
  bytes : br.br_bitmap.length = Bitmap.alignTotal br.br_total_bits
  padding : ∀ i, br.br_total_bits ≤ i → bit br.br_bitmap i = false
  count : br.br_set_bits = countTrue (bit br.br_bitmap) br.br_total_bits

def Covers (br : Region π) (b : Nat) : Prop :=
  br.br_start_bit ≤ b ∧ b < br.br_start_bit + br.br_total_bits

instance (br : Region π) (b : Nat) : Decidable (br.Covers b) :=
  inferInstanceAs (Decidable (_ ∧ _))

def Holds (br : Region π) (b : Nat) : Prop :=
  br.Covers b ∧ bit br.br_bitmap (b - br.br_start_bit) = true

theorem Wf.room {br : Region π} (wf : br.Wf) : br.br_total_bits ≤ 8 * br.br_bitmap.length := by
  rw [wf.bytes, Bitmap.alignTotal]
  omega

theorem Wf.inside {br : Region π} (wf : br.Wf) {b : Nat} (covers : br.Covers b) :
    b - br.br_start_bit < 8 * br.br_bitmap.length := by
  obtain ⟨low, high⟩ := covers
  have := wf.room
  omega

theorem Wf.clean {br : Region π} (wf : br.Wf) : Bitops.CleanTail br.br_bitmap br.br_total_bits :=
  fun i lower _ => wf.padding i lower

theorem bit_alloc (startBit totalBits : Nat) (priv : π) (i : Nat) :
    bit (Bitmap.allocRegion startBit totalBits priv).br_bitmap i = false := by
  simp only [bit, Bitmap.allocRegion, List.getD_eq_getElem?_getD, List.getElem?_replicate]
  split <;> simp

theorem wf_alloc (startBit totalBits : Nat) (priv : π) (some : 0 < totalBits) :
    (Bitmap.allocRegion startBit totalBits priv).Wf := by
  have clear := bit_alloc startBit totalBits priv
  refine ⟨some, by simp [Bitmap.allocRegion], fun i _ => clear i, ?_⟩
  rw [countTrue_congr _ (fun _ => false) _ (fun i _ => clear i)]
  simp [Bitmap.allocRegion, countTrue, Nat.count_false]

end Region

namespace Bitmap

variable {π σ : Type}

variable (prev next : Region π) {pbits nbits buf : Buffer}

theorem getLsbD_joined (offset j : Nat) (p n : Byte) (small : offset < 8) (hj : j < 8) :
    ((p &&& (BitVec.ofNat 8 (2 ^ offset - 1))) |||
        ((n &&& BitVec.ofNat 8 (2 ^ (8 - offset) - 1)) <<< offset)).getLsbD j =
      if j < offset then p.getLsbD j else n.getLsbD (j - offset) := by
  have mask (k i : Nat) (hi : i < 8) :
      (BitVec.ofNat 8 (2 ^ k - 1)).getLsbD i = decide (i < k) := by
    rw [BitVec.getLsbD_ofNat]
    simp [hi, Nat.testBit_two_pow_sub_one]
  rw [BitVec.getLsbD_or, BitVec.getLsbD_and, BitVec.getLsbD_shiftLeft, BitVec.getLsbD_and,
    mask offset j hj, mask (8 - offset) (j - offset) (by omega)]
  by_cases low : j < offset
  · simp [low]
  · have inside : j - offset < 8 - offset := by omega
    simp [low, hj, inside]

def Joined (pbits nbits : Buffer) (total done : Nat) (buf : Buffer) : Prop :=
  ∀ i, bit buf i =
    if i < total then bit pbits i else if i < total + done then bit nbits (i - total) else false

theorem Joined.low {total j : Nat} (offset : 0 < total % 8)
    (joined : Joined pbits nbits total (8 * j) buf) (inside : total / 8 + j < buf.length) :
    Joined pbits nbits total (8 * j + (8 - total % 8))
      (buf.modify (total / 8 + j) fun p =>
        (p &&& (BitVec.ofNat 8 (2 ^ (total % 8) - 1))) |||
          ((nbits.getD j 0 &&& BitVec.ofNat 8 (2 ^ (8 - total % 8) - 1)) <<< (total % 8))) := by
  intro i
  have before := joined i
  simp only [bit] at before ⊢
  rw [getD_modify _ _ _ _ inside]
  by_cases here : i / 8 = total / 8 + j
  · rw [if_pos here, getLsbD_joined _ _ _ _ (by omega) (by omega)]
    by_cases low : i % 8 < total % 8
    · rw [if_pos low, before]
      split_ifs <;> first | rfl | omega
    · rw [if_neg low, if_neg (by omega), if_pos (by omega)]
      congr 2 <;> omega
  · rw [if_neg here, before]
    split_ifs <;> first | rfl | omega

theorem Joined.high {total j : Nat} (offset : 0 < total % 8)
    (joined : Joined pbits nbits total (8 * j + (8 - total % 8)) buf)
    (inside : total / 8 + j + 1 < buf.length) :
    Joined pbits nbits total (8 * (j + 1))
      (buf.modify (total / 8 + j + 1) fun _ => nbits.getD j 0 >>> (8 - total % 8)) := by
  intro i
  have before := joined i
  simp only [bit] at before ⊢
  rw [getD_modify _ _ _ _ inside]
  by_cases here : i / 8 = total / 8 + j + 1
  · rw [if_pos here, BitVec.getLsbD_ushiftRight, if_neg (by omega)]
    by_cases low : i % 8 < total % 8
    · rw [if_pos (by omega)]
      congr 2 <;> omega
    · rw [if_neg (by omega), BitVec.getLsbD_of_ge _ _ (by omega)]
  · rw [if_neg here, before]
    split_ifs <;> first | rfl | omega

theorem Joined.all {total done more : Nat}
    (joined : Joined pbits nbits total done buf) (enough : more ≤ done)
    (padding : ∀ i, more ≤ i → bit nbits i = false) (i : Nat) :
    bit buf i = if i < total then bit pbits i else bit nbits (i - total) := by
  rw [joined i]
  split_ifs with low inside
  · rfl
  · rfl
  · rw [padding _ (by omega)]

theorem shiftIn_spec (pbits nbits : Buffer) (total more : Nat) (offset : 0 < total % 8)
    (padding : ∀ i, more ≤ i → bit nbits i = false) (bytes j : Nat) (buf : Buffer)
    (left : more ≤ 8 * (j + bytes)) (room : buf.length = alignTotal (total + more))
    (joined : Joined pbits nbits total (8 * j) buf) (i : Nat) :
    bit (shiftIn (total % 8) nbits bytes ((more : Int) - (8 * j : Nat)) (total / 8 + j) j buf) i =
      if i < total then bit pbits i else bit nbits (i - total) := by
  rw [alignTotal] at room
  induction bytes generalizing j buf with
  | zero => exact joined.all (by omega) padding i
  | succ bytes ih =>
    rw [shiftIn]
    split
    next some =>
      have first := joined.low offset (by omega)
      simp only
      split
      next rest =>
        have second := first.high offset (by simp; omega)
        have step : (more : Int) - (8 * j : Nat) - ((8 - total % 8 : Nat) : Int) - (total % 8 : Nat) =
            (more : Int) - (8 * (j + 1) : Nat) := by omega
        rw [step]
        exact ih (j + 1) _ (by omega) (by simpa using room) second
      next last =>
        -- the bits left of this byte are padding, and the next round stops at once
        have stop : ∀ (n k m : Nat) (b : Buffer), shiftIn (total % 8) nbits n
            ((more : Int) - (8 * j : Nat) - ((8 - total % 8 : Nat) : Int)) k m b = b := by
          intro n k m b
          cases n with
          | zero => rfl
          | succ n => rw [shiftIn, if_neg last]
        rw [stop]
        exact first.all (by omega) padding i
    next none => exact joined.all (by omega) padding i

theorem length_shiftIn (offset : Nat) (nbits : Buffer) (bytes : Nat) (total : Int) (pbm nbm : Nat)
    (buf : Buffer) : (shiftIn offset nbits bytes total pbm nbm buf).length = buf.length := by
  induction bytes generalizing total pbm nbm buf with
  | zero => rfl
  | succ bytes ih =>
    rw [shiftIn]
    split
    · simp only
      split <;> simp [ih]
    · rfl

theorem mergeBits_spec (wfp : prev.Wf) (wfn : next.Wf) :
    let grown := prev.br_bitmap ++
      List.replicate (alignTotal (prev.br_total_bits + next.br_total_bits) - prev.br_bitmap.length) 0
    (mergeBits prev.br_bitmap.length (prev.br_total_bits % 8) grown next).length =
        alignTotal (prev.br_total_bits + next.br_total_bits) ∧
      ∀ i, bit (mergeBits prev.br_bitmap.length (prev.br_total_bits % 8) grown next) i =
        if i < prev.br_total_bits then bit prev.br_bitmap i
        else bit next.br_bitmap (i - prev.br_total_bits) := by
  intro grown
  have bytesP := wfp.bytes
  have bytesN := wfn.bytes
  have someN := wfn.nonempty
  simp only [alignTotal] at bytesP bytesN
  have len : grown.length = alignTotal (prev.br_total_bits + next.br_total_bits) := by
    simp only [grown, List.length_append, List.length_replicate, alignTotal]
    omega
  have byte (k : Nat) : grown.getD k 0 = prev.br_bitmap.getD k 0 := by
    simp only [grown, List.getD_eq_getElem?_getD]
    rcases Nat.lt_or_ge k prev.br_bitmap.length with inside | outside
    · rw [List.getElem?_append_left inside]
    · rw [List.getElem?_append_right outside, List.getElem?_eq_none outside, List.getElem?_replicate]
      split <;> rfl
  rcases Nat.eq_zero_or_pos (prev.br_total_bits % 8) with aligned | offset
  · have fits : prev.br_bitmap.length + next.br_bitmap.length ≤ grown.length := by
      rw [len, alignTotal]
      omega
    rw [mergeBits, if_pos aligned]
    refine ⟨(length_splice _ _ _ fits).trans len, fun i => ?_⟩
    rw [bit, getD_splice _ _ _ _ fits, byte]
    by_cases low : i < prev.br_total_bits
    · rw [if_neg (by omega), if_pos low, bit]
    · rw [if_neg low, bit, show (i - prev.br_total_bits) / 8 = i / 8 - prev.br_bitmap.length by omega,
        show (i - prev.br_total_bits) % 8 = i % 8 by omega]
      by_cases inside : i / 8 < prev.br_bitmap.length + next.br_bitmap.length
      · rw [if_pos (by omega)]
      · have noneP : prev.br_bitmap.getD (i / 8) 0 = 0 := by
          rw [List.getD_eq_getElem?_getD, List.getElem?_eq_none (by omega)]
          rfl
        have noneN : next.br_bitmap.getD (i / 8 - prev.br_bitmap.length) 0 = 0 := by
          rw [List.getD_eq_getElem?_getD, List.getElem?_eq_none (by omega)]
          rfl
        rw [if_neg (by omega), noneP, noneN]
  · rw [mergeBits, if_neg (by omega)]
    refine ⟨(length_shiftIn _ _ _ _ _ _ _).trans len, fun i => ?_⟩
    have start : Joined prev.br_bitmap next.br_bitmap prev.br_total_bits (8 * 0) grown := by
      intro i
      rw [bit, byte, ← bit]
      split_ifs
      · rfl
      · omega
      · exact wfp.padding i (by omega)
    have spec := shiftIn_spec prev.br_bitmap next.br_bitmap prev.br_total_bits next.br_total_bits offset
      wfn.padding next.br_bitmap.length 0 grown (by omega) len start i
    rw [show prev.br_bitmap.length - 1 = prev.br_total_bits / 8 + 0 by omega]
    simpa using spec

def merged (prev next : Region π) : Region π :=
  { prev with
    br_total_bits := prev.br_total_bits + next.br_total_bits
    br_bitmap := mergeBits prev.br_bitmap.length (prev.br_total_bits % 8)
      (prev.br_bitmap ++ List.replicate
        (alignTotal (prev.br_total_bits + next.br_total_bits) - prev.br_bitmap.length) 0) next
    br_set_bits := prev.br_set_bits + next.br_set_bits }

theorem merged_wf (wfp : prev.Wf) (wfn : next.Wf) : (merged prev next).Wf := by
  obtain ⟨len, bits⟩ := mergeBits_spec prev next wfp wfn
  have some := wfp.nonempty
  refine ⟨by simp only [merged]; omega, len, fun i above => ?_, ?_⟩
  · simp only [merged] at above ⊢
    rw [bits i, if_neg (by omega), wfn.padding _ (by omega)]
  · have low := countTrue_congr (bit (merged prev next).br_bitmap) (bit prev.br_bitmap)
      prev.br_total_bits (fun i inside => by rw [merged, bits i, if_pos inside])
    have high := countTrue_congr (fun i => bit (merged prev next).br_bitmap (prev.br_total_bits + i))
      (bit next.br_bitmap) next.br_total_bits (fun i _ => by
        rw [merged, bits, if_neg (by omega), Nat.add_sub_cancel_left])
    have total : (merged prev next).br_total_bits = prev.br_total_bits + next.br_total_bits := rfl
    rw [total, countTrue_add, low, high]
    simp only [merged, wfp.count, wfn.count]
    rfl

theorem merged_covers (adjacent : prev.br_start_bit + prev.br_total_bits =
    next.br_start_bit) (b : Nat) : (merged prev next).Covers b ↔ prev.Covers b ∨ next.Covers b := by
  simp only [Region.Covers, merged]
  omega

theorem merged_holds (wfp : prev.Wf) (wfn : next.Wf) (adjacent :
    prev.br_start_bit + prev.br_total_bits = next.br_start_bit) (b : Nat) :
    (merged prev next).Holds b ↔ prev.Holds b ∨ next.Holds b := by
  obtain ⟨-, bits⟩ := mergeBits_spec prev next wfp wfn
  have read := bits (b - prev.br_start_bit)
  simp only [Region.Holds, merged_covers prev next adjacent]
  simp only [merged] at read ⊢
  rw [read]
  by_cases low : b - prev.br_start_bit < prev.br_total_bits
  · simp only [Region.Covers, low, if_true]
    constructor
    · rintro ⟨inside | inside, set⟩
      · exact .inl ⟨inside, set⟩
      · omega
    · rintro (⟨inside, set⟩ | ⟨inside, set⟩)
      · exact ⟨.inl inside, set⟩
      · omega
  · rw [if_neg low, show b - prev.br_start_bit - prev.br_total_bits = b - next.br_start_bit by omega]
    simp only [Region.Covers]
    constructor
    · rintro ⟨inside | inside, set⟩
      · omega
      · exact .inr ⟨inside, set⟩
    · rintro (⟨inside, set⟩ | ⟨inside, set⟩)
      · omega
      · exact ⟨.inr inside, set⟩

end Bitmap

end Ocfs2
