import Ocfs2.Libocfs2.BitmapLayout
import Mathlib.Logic.Relation

set_option autoImplicit false

namespace Ocfs2.Bitmap

open ByteBuffer Rbtree

variable {π σ : Type}

def Callbacks.Polite (ops : Callbacks π σ) : Prop :=
  ∀ notify ∈ ops.bit_change_notify, ∀ s r b v, ∃ priv, (notify s r b v).2 = { r with br_private := priv }

structure Changed (br : Region π) (b : Nat) (value : Bool) (br' : Region π) : Prop where
  start : br'.br_start_bit = br.br_start_bit
  total : br'.br_total_bits = br.br_total_bits
  wf : br'.Wf
  bits : ∀ x, br.Covers x → (bit br'.br_bitmap (x - br.br_start_bit) =
    if x = b then value else bit br.br_bitmap (x - br.br_start_bit))

theorem Changed.of_bits {br br' : Region π} {b : Nat} {value : Bool} (wf : br.Wf)
    (covers : br.Covers b) (start : br'.br_start_bit = br.br_start_bit)
    (total : br'.br_total_bits = br.br_total_bits)
    (len : br'.br_bitmap.length = br.br_bitmap.length)
    (bits : ∀ j, bit br'.br_bitmap j =
      if j = b - br.br_start_bit then value else bit br.br_bitmap j)
    (count : br'.br_set_bits = br.br_set_bits + value.toNat -
      (bit br.br_bitmap (b - br.br_start_bit)).toNat) : Changed br b value br' := by
  obtain ⟨low, high⟩ := covers
  refine ⟨start, total, ⟨total ▸ wf.nonempty, by rw [len, total, wf.bytes], fun i above => ?_, ?_⟩, ?_⟩
  · rw [bits, if_neg (by omega)]
    exact wf.padding i (by omega)
  · have inside : b - br.br_start_bit < br.br_total_bits := by omega
    rw [count, wf.count, total]
    cases old : bit br.br_bitmap (b - br.br_start_bit) <;> cases value
    · have same := countTrue_congr (bit br'.br_bitmap) (bit br.br_bitmap) br.br_total_bits
        (fun i _ => by rw [bits]; split <;> simp_all)
      simp [same]
    · have more := countTrue_set (bit br.br_bitmap) (bit br'.br_bitmap) br.br_total_bits _ inside old
        (by simp [bits]) (fun i other => by simp [bits, other])
      simp [more]
    · have less := countTrue_set (bit br'.br_bitmap) (bit br.br_bitmap) br.br_total_bits _ inside
        (by simp [bits]) old (fun i other => by simp [bits, other])
      simp [less]
    · have same := countTrue_congr (bit br'.br_bitmap) (bit br.br_bitmap) br.br_total_bits
        (fun i _ => by rw [bits]; split <;> simp_all)
      simp [same]
  · intro x inside
    rw [bits]
    have equal : x - br.br_start_bit = b - br.br_start_bit ↔ x = b := by
      have := inside.1
      omega
    simp only [equal]

def writeBit (value : Bool) (nr : Nat) (addr : Buffer) : Buffer :=
  if value then (Bitops.setBit nr addr).2 else (Bitops.clearBit nr addr).2

theorem length_writeBit (value : Bool) (nr : Nat) (addr : Buffer) :
    (writeBit value nr addr).length = addr.length := by
  cases value <;> simp [writeBit]

theorem bit_writeBit (value : Bool) (nr j : Nat) (addr : Buffer) (inside : nr < 8 * addr.length) :
    bit (writeBit value nr addr) j = if j = nr then value else bit addr j := by
  cases value
  · exact Bitops.bit_clearBit nr j addr inside
  · exact Bitops.bit_setBit nr j addr inside

def flipped (br : Region π) (b : Nat) (value : Bool) : Region π :=
  { br with
    br_bitmap := writeBit value (b - br.br_start_bit) br.br_bitmap
    br_set_bits := if value then br.br_set_bits + 1 else br.br_set_bits - 1 }

def noticed (ops : Callbacks π σ) (priv : σ) (br : Region π) (b : Nat) (value : Bool) :
    σ × Region π :=
  match ops.bit_change_notify with
  | some notify => notify priv br b value
  | none => (priv, br)

theorem noticed_region (ops : Callbacks π σ) (polite : Callbacks.Polite ops) (priv : σ)
    (br : Region π) (b : Nat) (value : Bool) :
    ∃ data, (noticed ops priv br b value).2 = { br with br_private := data } := by
  unfold noticed
  split
  next notify told => exact polite notify told priv br b value
  next => exact ⟨br.br_private, rfl⟩

theorem setGenericShared_cases (ops : Callbacks π σ) (priv : σ) (br : Region π) (b : Nat) :
    bit br.br_bitmap (b - br.br_start_bit) = true ∧
        setGenericShared ops priv br b = (true, priv, br) ∨
      bit br.br_bitmap (b - br.br_start_bit) = false ∧
        setGenericShared ops priv br b = (false, noticed ops priv (flipped br b true) b true) := by
  rw [setGenericShared]
  cases old : bit br.br_bitmap (b - br.br_start_bit)
  · right
    simp only [Bitops.setBit_fst, old, noticed, flipped, writeBit, Bool.false_eq_true, if_false, if_true,
      true_and]
    cases ops.bit_change_notify <;> rfl
  · left
    simp only [Bitops.setBit_fst, Bitops.setBit_of_set _ _ old, old, if_true, true_and]

theorem clearGenericShared_cases (ops : Callbacks π σ) (priv : σ) (br : Region π) (b : Nat)
    (inside : b - br.br_start_bit < 8 * br.br_bitmap.length) :
    bit br.br_bitmap (b - br.br_start_bit) = false ∧
        clearGenericShared ops priv br b = (false, priv, br) ∨
      bit br.br_bitmap (b - br.br_start_bit) = true ∧
        clearGenericShared ops priv br b = (true, noticed ops priv (flipped br b false) b false) := by
  rw [clearGenericShared]
  cases old : bit br.br_bitmap (b - br.br_start_bit)
  · left
    simp only [Bitops.clearBit_fst, Bitops.clearBit_of_clear _ _ inside old, old, Bool.false_eq_true,
      if_false, true_and]
  · right
    simp only [Bitops.clearBit_fst, old, noticed, flipped, writeBit, Bool.false_eq_true, if_false,
      if_true, true_and]
    cases ops.bit_change_notify <;> rfl

theorem Changed.flip {br : Region π} {b : Nat} (value : Bool) (wf : br.Wf) (covers : br.Covers b)
    (old : bit br.br_bitmap (b - br.br_start_bit) = !value) (data : π) :
    Changed br b value { flipped br b value with br_private := data } := by
  have bits (j : Nat) := bit_writeBit value (b - br.br_start_bit) j br.br_bitmap (wf.inside covers)
  refine .of_bits wf covers rfl rfl (length_writeBit _ _ _) bits ?_
  rw [old]
  cases value <;> simp [flipped]

theorem Changed.refl {br : Region π} {b : Nat} {value : Bool} (wf : br.Wf) (covers : br.Covers b)
    (old : bit br.br_bitmap (b - br.br_start_bit) = value) : Changed br b value br := by
  refine .of_bits wf covers rfl rfl rfl (fun j => ?_) (by rw [old]; simp)
  split
  next same => rw [same, old]
  next => rfl

section

variable (ops : Callbacks π σ) (polite : Callbacks.Polite ops) (s : σ) (br : Region π) (b : Nat) (wf : br.Wf)
  (covers : br.Covers b)

include ops polite s br b wf covers

theorem setGenericShared_spec :
    (setGenericShared ops s br b).1 = bit br.br_bitmap (b - br.br_start_bit) ∧
      Changed br b true (setGenericShared ops s br b).2.2 := by
  rcases setGenericShared_cases ops s br b with ⟨old, run⟩ | ⟨old, run⟩
  · rw [run, old]
    exact ⟨rfl, .refl wf covers old⟩
  · obtain ⟨data, kept⟩ := noticed_region ops polite s (flipped br b true) b true
    rw [run, old, kept]
    exact ⟨rfl, Changed.flip true wf covers old data⟩

theorem clearGenericShared_spec :
    (clearGenericShared ops s br b).1 = bit br.br_bitmap (b - br.br_start_bit) ∧
      Changed br b false (clearGenericShared ops s br b).2.2 := by
  rcases clearGenericShared_cases ops s br b (wf.inside covers) with ⟨old, run⟩ | ⟨old, run⟩
  · rw [run, old]
    exact ⟨rfl, .refl wf covers old⟩
  · obtain ⟨data, kept⟩ := noticed_region ops polite s (flipped br b false) b false
    rw [run, old, kept]
    exact ⟨rfl, Changed.flip false wf covers old data⟩

end

def Flip (ops : Callbacks π σ) (x y : σ × Region π) : Prop :=
  ∃ b value, x.2.Covers b ∧ bit x.2.br_bitmap (b - x.2.br_start_bit) = !value ∧
    y = noticed ops x.1 (flipped x.2 b value) b value

def Flips (ops : Callbacks π σ) : σ × Region π → σ × Region π → Prop :=
  Relation.ReflTransGen (Flip ops)

def FlipIn (ops : Callbacks π σ) (x y : σ × List (Region π)) : Prop :=
  ∃ as br bs priv br', x.2 = as ++ br :: bs ∧ Flip ops (x.1, br) (priv, br') ∧
    y = (priv, as ++ br' :: bs)

def Evolves (ops : Callbacks π σ) : σ × List (Region π) → σ × List (Region π) → Prop :=
  Relation.ReflTransGen (FlipIn ops)

theorem Flips.evolves {ops : Callbacks π σ} {x y : σ × Region π} (flips : Flips ops x y)
    (as bs : List (Region π)) : Evolves ops (x.1, as ++ x.2 :: bs) (y.1, as ++ y.2 :: bs) :=
  Relation.ReflTransGen.lift (fun z : σ × Region π => (z.1, as ++ z.2 :: bs))
    (fun u v flip => ⟨as, u.2, bs, v.1, v.2, rfl, flip, rfl⟩) _ _ flips

theorem Flip.wf {ops : Callbacks π σ} {x y : σ × Region π} (flip : Flip ops x y)
    (polite : Callbacks.Polite ops) (wf : x.2.Wf) :
    y.2.Wf ∧ y.2.br_start_bit = x.2.br_start_bit ∧ y.2.br_total_bits = x.2.br_total_bits := by
  obtain ⟨b, value, covers, old, rfl⟩ := flip
  obtain ⟨data, kept⟩ := noticed_region ops polite x.1 (flipped x.2 b value) b value
  have changed := Changed.flip value wf covers old data
  rw [kept]
  exact ⟨changed.wf, changed.start, changed.total⟩

section Shared

variable (ops : Callbacks π σ) (priv : σ) (br : Region π) (b : Nat)

theorem setGenericShared_flips (covers : br.Covers b) :
    Flips ops (priv, br) (setGenericShared ops priv br b).2 := by
  rcases setGenericShared_cases ops priv br b with ⟨old, run⟩ | ⟨old, run⟩
  · rw [run]
    exact .refl
  · rw [run]
    exact .single ⟨b, true, covers, old, rfl⟩

theorem clearGenericShared_flips (wf : br.Wf) (low : br.br_start_bit ≤ b)
    (inside : b - br.br_start_bit < 8 * br.br_bitmap.length) :
    Flips ops (priv, br) (clearGenericShared ops priv br b).2 := by
  rcases clearGenericShared_cases ops priv br b inside with ⟨old, run⟩ | ⟨old, run⟩
  · rw [run]
    exact .refl
  · rw [run]
    have high : b - br.br_start_bit < br.br_total_bits := by
      by_contra above
      rw [wf.padding _ (by omega)] at old
      cases old
    have covers : br.Covers b := ⟨low, by omega⟩
    exact .single ⟨b, false, covers, old, rfl⟩

end Shared

end Ocfs2.Bitmap
