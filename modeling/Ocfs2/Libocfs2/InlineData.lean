import Ocfs2.Libocfs2.Common
import Ocfs2.Shared.Field

set_option autoImplicit false

/-!
The bytes of an inline inode are those from the start of its data to the end of its block. What reaches beyond them
is undefined.
-/

namespace Ocfs2.FileIo

open ByteBuffer

structure Dinode where
  i_size : BitVec 64
  i_inline : Bool
  id_count : BitVec 16
  id_data : Buffer
  deriving DecidableEq

def inlineDataRead (di : Dinode) (count : BitVec 32) (offset : BitVec 64) : Except Errcode Buffer :=
  if !di.i_inline then .error .invalidArgument
  else if offset.toNat > di.id_count.toNat then .ok []
  else
    let got := min (di.i_size - offset).toNat count.toNat
    if got ≠ 0 ∧ offset.toNat + got > di.id_data.length then .error .undefined
    else .ok (slice di.id_data offset.toNat got)

def inlineDataWrite (di : Dinode) (buf : Buffer) (count : BitVec 32) (offset : BitVec 64) : Except Errcode Dinode :=
  if !di.i_inline then .error .invalidArgument
  else if (offset + count.setWidth 64).toNat > di.id_count.toNat then .error .noSpace
  else if count.toNat ≠ 0 ∧ offset.toNat + count.toNat > di.id_data.length then .error .undefined
  else .ok { di with id_data := splice di.id_data offset.toNat buf }

def sizeFitsInlineData (di : Dinode) (new_size : BitVec 64) : Bool := new_size.toNat ≤ di.id_count.toNat

def tryToWriteInlineData (convert : Option Errcode) (written : Except Errcode Unit) (di : Dinode) (buf : Buffer)
    (count : BitVec 32) (offset : BitVec 64) : Except Errcode Dinode :=
  let last := offset + count.setWidth 64
  if sizeFitsInlineData di last then do
    let di ← inlineDataWrite di buf count offset
    written
    return di
  else .error (convert.getD .cannotInlineData)

structure Faithful (di : Dinode) (count : BitVec 32) (offset : BitVec 64) : Prop where
  read : ∃ got, inlineDataRead di count offset = .ok got ∧ got.length ≤ di.i_size.toNat - offset.toNat
  write : ∀ buf convert written, buf.length = count.toNat → sizeFitsInlineData di (offset + count.setWidth 64) = true →
    inlineDataWrite di buf count offset ≠ .error .undefined ∧
    ∀ di', tryToWriteInlineData convert written di buf count offset = .ok di' →
      inlineDataRead di' count offset = .ok buf ∧
      ∀ k, k < offset.toNat ∨ offset.toNat + count.toNat ≤ k → di'.id_data[k]? = di.id_data[k]?

def FaithfulWhen (di : Dinode) (count : BitVec 32) (offset : BitVec 64) : Prop :=
  count.toNat = 0 ∨
    (di.id_count.toNat < offset.toNat ∧ di.id_count.toNat < (offset + count.setWidth 64).toNat) ∨
    (offset.toNat ≤ di.id_count.toNat ∧ offset.toNat ≤ di.i_size.toNat ∧
      (offset.toNat = di.i_size.toNat ∨
        offset.toNat + min (di.i_size.toNat - offset.toNat) count.toNat ≤ di.id_data.length) ∧
      (offset.toNat + count.toNat ≤ di.i_size.toNat ∨ di.id_count.toNat < offset.toNat + count.toNat))
  deriving Decidable

section

variable {di : Dinode} {count : BitVec 32} {offset : BitVec 64} (inline : di.i_inline = true)

include inline

theorem inlineDataRead_near (near : offset.toNat ≤ di.id_count.toNat) {got : Nat}
    (eq : got = if offset.toNat ≤ di.i_size.toNat then min (di.i_size.toNat - offset.toNat) count.toNat
      else count.toNat) (data : Buffer) : inlineDataRead { di with id_data := data } count offset =
    if got ≠ 0 ∧ offset.toNat + got > data.length then .error .undefined
    else .ok (slice data offset.toNat got) := by
  have value : min (di.i_size - offset).toNat count.toNat = got := by
    rw [eq, BitVec.toNat_sub]
    split <;> omega
  simp only [inlineDataRead, inline, Bool.not_true, Bool.false_eq_true, if_false, Nat.not_lt.mpr near, value, gt_iff_lt]

theorem inlineDataWrite_fits (fits : sizeFitsInlineData di (offset + count.setWidth 64) = true) (buf : Buffer) :
    inlineDataWrite di buf count offset =
      if count.toNat ≠ 0 ∧ offset.toNat + count.toNat > di.id_data.length then .error .undefined
      else .ok { di with id_data := splice di.id_data offset.toNat buf } := by
  have room : ¬ di.id_count.toNat < (offset + count.setWidth 64).toNat := by
    simpa [sizeFitsInlineData] using fits
  simp only [inlineDataWrite, inline, Bool.not_true, Bool.false_eq_true, if_false, gt_iff_lt, room]

theorem tryToWriteInlineData_ok (fits : sizeFitsInlineData di (offset + count.setWidth 64) = true)
    {convert : Option Errcode} {written : Except Errcode Unit} {buf : Buffer} {di' : Dinode} :
    tryToWriteInlineData convert written di buf count offset = .ok di' ↔
      ¬ (count.toNat ≠ 0 ∧ offset.toNat + count.toNat > di.id_data.length) ∧ written = .ok () ∧
        { di with id_data := splice di.id_data offset.toNat buf } = di' := by
  rw [tryToWriteInlineData, if_pos fits, inlineDataWrite_fits inline fits]
  split
  next bad => exact ⟨nofun, fun ok => absurd bad ok.1⟩
  next room =>
    cases written with
    | error e => exact ⟨nofun, fun ok => nomatch ok.2.1⟩
    | ok _ => exact ⟨fun ok => ⟨room, rfl, Except.ok.inj ok⟩, fun ok => congrArg Except.ok ok.2.2⟩

theorem faithful_iff (block : di.id_data.length < 2 ^ 64) : Faithful di count offset ↔ FaithfulWhen di count offset := by
  have sum : (offset + count.setWidth 64).toNat = (offset.toNat + count.toNat) % 2 ^ 64 := by
    rw [BitVec.toNat_add, BitVec.toNat_setWidth, Nat.mod_eq_of_lt (by omega : count.toNat < 2 ^ 64)]
  have zeros : (List.replicate count.toNat (0 : Byte)).length = count.toNat := by simp
  obtain ⟨n, eq⟩ : ∃ n, n = if offset.toNat ≤ di.i_size.toNat then
      min (di.i_size.toNat - offset.toNat) count.toNat else count.toNat := ⟨_, rfl⟩
  have near_read (near : offset.toNat ≤ di.id_count.toNat) := inlineDataRead_near inline near eq
  constructor
  · rintro ⟨⟨got, read, bound⟩, write⟩
    by_cases zero : count.toNat = 0
    · exact Or.inl zero
    refine Or.inr ?_
    by_cases far : di.id_count.toNat < offset.toNat
    · refine Or.inl ⟨far, Nat.lt_of_not_le fun le => ?_⟩
      have fits : sizeFitsInlineData di (offset + count.setWidth 64) = true := by simpa [sizeFitsInlineData] using le
      have defined := (write _ none (.ok ()) zeros fits).1
      rw [inlineDataWrite_fits inline fits, if_pos ⟨zero, by omega⟩] at defined
      exact absurd rfl defined
    have near := Nat.le_of_not_lt far
    rw [show inlineDataRead di count offset = _ from near_read near di.id_data] at read
    split at read
    next => cases read
    next room =>
      obtain rfl := Except.ok.inj read
      have length : n = 0 ∨ (slice di.id_data offset.toNat n).length = n := by
        by_cases none : n = 0
        · exact Or.inl none
        · exact Or.inr (length_slice _ _ _ (by omega))
      have before : offset.toNat ≤ di.i_size.toNat := by
        by_contra behind
        rw [if_neg behind] at eq
        omega
      refine Or.inr ⟨near, before, by rw [if_pos before] at eq; omega, ?_⟩
      -- a request that ends between the size and the room for data is written as a whole and read back in part
      by_contra neither
      have fits : sizeFitsInlineData di (offset + count.setWidth 64) = true := by
        rw [sizeFitsInlineData, decide_eq_true_eq, sum]
        omega
      obtain ⟨defined, back⟩ := write _ none (.ok ()) zeros fits
      rw [inlineDataWrite_fits inline fits] at defined
      have again := (back _ ((tryToWriteInlineData_ok inline fits).mpr ⟨fun bad => defined (if_pos bad), rfl, rfl⟩)).1
      rw [near_read near] at again
      split at again
      next => cases again
      next =>
        have short := congrArg List.length (Except.ok.inj again)
        rw [slice, List.length_take, List.length_replicate] at short
        omega
  · intro cond
    by_cases far : di.id_count.toNat < offset.toNat
    · refine ⟨⟨[], by simp [inlineDataRead, inline, far], by simp⟩, fun buf convert written _ fits => ?_⟩
      rw [sizeFitsInlineData, decide_eq_true_eq] at fits
      rcases cond with zero | ⟨-, beyond⟩ | ⟨near, -⟩ <;> omega
    have near := Nat.le_of_not_lt far
    have bound : n ≤ di.i_size.toNat - offset.toNat ∧ ¬ (n ≠ 0 ∧ offset.toNat + n > di.id_data.length) := by
      rcases cond with zero | ⟨beyond, -⟩ | ⟨-, before, inside, -⟩
      · split at eq <;> omega
      · omega
      · rw [if_pos before] at eq
        omega
    refine ⟨⟨_, (near_read near di.id_data).trans (if_neg bound.2), ?_⟩, fun buf convert written len fits => ?_⟩
    · exact le_trans (List.length_take_le _ _) bound.1
    have all : n = buf.length := by
      rw [sizeFitsInlineData, decide_eq_true_eq, sum] at fits
      rcases cond with zero | ⟨beyond, -⟩ | ⟨-, before, -, inside⟩
      · split at eq <;> omega
      · omega
      · rw [if_pos before] at eq
        omega
    rw [inlineDataWrite_fits inline fits, ← len, if_neg (all ▸ bound.2)]
    refine ⟨by simp, fun di' run => ?_⟩
    obtain ⟨-, -, rfl⟩ := (tryToWriteInlineData_ok inline fits).mp run
    rw [near_read near, all]
    by_cases none : buf.length = 0
    · obtain rfl := List.length_eq_zero_iff.mp none
      rw [splice_nil]
      exact ⟨rfl, fun _ _ => rfl⟩
    · have room : offset.toNat + buf.length ≤ di.id_data.length := by omega
      have length := length_splice di.id_data offset.toNat buf room
      rw [if_neg (by rw [length]; omega), slice_splice _ _ _ room]
      refine ⟨rfl, fun k other => ?_⟩
      rw [getElem?_splice _ _ _ _ room, if_neg (by omega)]

end

def threeBytes : Dinode := ⟨3, true, 8, List.replicate 8 0⟩

theorem faithful_first_bytes : threeBytes.i_inline = true ∧ Faithful threeBytes 3 0 :=
  ⟨rfl, (faithful_iff rfl (by decide)).mpr (by decide)⟩

theorem read_behind_end : threeBytes.i_inline = true ∧ ¬ Faithful threeBytes 1 5 := by
  refine ⟨rfl, fun faithful => ?_⟩
  obtain ⟨got, read, bound⟩ := faithful.read
  obtain rfl : [0] = got := Except.ok.inj (.trans (by decide) read)
  exact absurd bound (by decide)

end Ocfs2.FileIo
