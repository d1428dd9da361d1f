import Ocfs2.Fsck.JournalLog

set_option autoImplicit false

namespace Ocfs2.Journal

open ByteBuffer Rbtree

section Format

variable (jsb : Superblock)

def wide : Bool := decide (journalTagBytes jsb > 8)

def EncodesTags (buf : Buffer) : Nat → List Tag → Prop
  | _, [] => False
  | tagp, tag :: tags =>
    tagp + journalTagBytes jsb ≤ jsb.s_blocksize ∧ readTag jsb buf tagp = tag ∧
      tag.has flagLastTag = tags.isEmpty ∧ (tags = [] ∨ EncodesTags buf (nextTag jsb tag tagp) tags)

instance decidableEncodesTags (buf : Buffer) :
    (tagp : Nat) → (tags : List Tag) → Decidable (EncodesTags jsb buf tagp tags)
  | _, [] => inferInstanceAs (Decidable False)
  | tagp, tag :: tags =>
    have := decidableEncodesTags buf (nextTag jsb tag tagp) tags
    inferInstanceAs (Decidable (_ ∧ _ ∧ _ ∧ _))

def revokeBytes : Nat := if wide jsb then 8 else 4

def readRevoked (buf : Buffer) (i : Nat) : Nat :=
  if wide jsb then 2 ^ 32 * (be32 buf (16 + 8 * i)).toNat + (be32 buf (16 + 8 * i + 4)).toNat
  else (be32 buf (16 + 4 * i)).toNat

def Encodes (buf : Buffer) (seq : BitVec 32) (record : Record) : Prop :=
  be32 buf 0 = magicNumber ∧ be32 buf 8 = seq ∧
    match record with
    | .descriptor tags => be32 buf 4 = descriptorBlock ∧ EncodesTags jsb buf 12 tags
    | .revoke blocks =>
      be32 buf 4 = revokeBlock ∧ (be32 buf 12).toNat = 16 + revokeBytes jsb * blocks.length ∧
        16 + revokeBytes jsb * blocks.length ≤ jsb.s_blocksize ∧
        blocks = (List.range blocks.length).map (readRevoked jsb buf)
    | .commit => be32 buf 4 = commitBlock

instance decidableEncodes (buf : Buffer) (seq : BitVec 32) (record : Record) :
    Decidable (Encodes jsb buf seq record) := by
  unfold Encodes
  cases record <;> infer_instance

end Format

section Logs

structure Log where
  committed : List Record
  tail : List Record
  closed : committed = [] ∨ committed.getLast? = some .commit
  unfinished : .commit ∉ tail

namespace Log

variable (log : Log)

def records : List Record := log.committed ++ log.tail

def transactions : Nat := commits log.committed

def tags : List Logged := (place 0 0 log.committed).flatMap Placed.tags

def revokes : List (Nat × Nat) := (place 0 0 log.committed).flatMap Placed.revoked

def isRevoked (x : Logged) : Bool :=
  log.revokes.any fun e => e.1 == x.tag.block && decide (x.transaction ≤ e.2)

theorem commits_records : commits log.records = log.transactions := by
  rw [records, commits_append, transactions, commits, commits, List.count_eq_zero.mpr log.unfinished,
    Nat.add_zero]

theorem place_records : place 0 0 log.records =
    place 0 0 log.committed ++ place (logSize log.committed) log.transactions log.tail := by
  rw [records, place_append, Nat.zero_add, Nat.zero_add, transactions]

theorem transaction_lt (p : Placed) (member : p ∈ place 0 0 log.committed) :
    p.transaction < log.transactions := by
  rcases log.closed with empty | last
  · rw [empty] at member
    cases member
  · obtain ⟨records, split⟩ := List.getLast?_eq_some_iff.mp last
    rw [transactions, split, commits_append]
    rw [split, place_append, List.mem_append] at member
    rcases member with earlier | isLast
    · have := (place_bounds 0 0 records p earlier).2.2.2
      have : commits [Record.commit] = 1 := rfl
      omega
    · rw [place, place, List.mem_singleton] at isLast
      subst isLast
      simp [commits]

theorem tags_bounds (x : Logged) (member : x ∈ log.tags) :
    0 < x.offset ∧ x.offset < logSize log.committed ∧ x.transaction < log.transactions := by
  obtain ⟨p, inside, tagged⟩ := List.mem_flatMap.mp member
  obtain ⟨lower, upper, same⟩ := p.tags_bounds x tagged
  have bounds := place_bounds 0 0 log.committed p inside
  have := log.transaction_lt p inside
  omega

end Log

def copyOf (ji : JournalInfo) (disk : Nat → Buffer) (x : Logged) : Copy where
  slot := ji.ji_slot
  journalBlock := ring ji.ji_jsb x.offset
  block := x.tag.block
  data := unescape x.tag (disk (ji.ji_blocks (ring ji.ji_jsb x.offset)))

def Log.copies (log : Log) (ji : JournalInfo) (disk : Nat → Buffer) : List Copy :=
  (log.tags.filter fun x => !log.isRevoked x).map (copyOf ji disk)

def applyCopies (disk : Nat → Buffer) (copies : List Copy) : Nat → Buffer :=
  copies.foldl (fun disk c => Function.update disk c.block c.data) disk

end Logs

section Reading

variable (jsb : Superblock)

def counted (blocks : List Nat) : List Nat :=
  if wide jsb then
    (List.range blocks.length).map fun i =>
      if i % 2 = 0 then blocks.getD (i / 2) 0 / 2 ^ 32 else blocks.getD (i / 2) 0 % 2 ^ 32
  else blocks.take (blocks.length / 2)

def Placed.counted (p : Placed) : List (Nat × Nat) :=
  match p.record with
  | .revoke blocks => (Journal.counted jsb blocks).map (·, p.transaction)
  | _ => []

def Log.entries (log : Log) : List (Nat × Nat) := (place 0 0 log.records).flatMap (Placed.counted jsb)

def Record.isDescriptor : Record → Bool
  | .descriptor _ => true
  | _ => false

def Log.stops (log : Log) : Bool :=
  (place 0 0 log.committed).any fun p =>
    p.record.isDescriptor && p.offset + p.record.size == jsb.turn

def Log.reached (log : Log) (x : Logged) : Bool := !log.stops jsb || decide (x.offset < jsb.turn)

def Log.Faithful (log : Log) (x : Logged) : Prop :=
  if log.reached jsb x then
    decision (log.entries jsb) x.tag.block x.transaction = some (log.isRevoked x)
  else log.isRevoked x = true

instance decidableFaithful (log : Log) (x : Logged) : Decidable (log.Faithful jsb x) := by
  unfold Log.Faithful
  infer_instance

variable {jsb}

theorem journalTagBytes_ge (jsb : Superblock) : 8 ≤ journalTagBytes jsb := by
  rw [journalTagBytes]
  split <;> omega

variable {buf : Buffer} {tags : List Tag}

theorem EncodesTags.room {tagp : Nat}
    (encodes : EncodesTags jsb buf tagp tags) :
    tagp + journalTagBytes jsb * tags.length ≤ jsb.s_blocksize ∧ 0 < tags.length := by
  induction tags generalizing tagp with
  | nil => exact encodes.elim
  | cons tag tags ih =>
    obtain ⟨fits, -, -, rest⟩ := encodes
    rcases rest with rfl | rest
    · simpa using fits
    · have := (ih rest).1
      rw [nextTag] at this
      rw [List.length_cons, Nat.mul_add, Nat.mul_one]
      exact ⟨by omega, by omega⟩

theorem countTagsLoop_eq (fs : Fsck) {tagp : Nat} (fuel nr : Nat)
    (encodes : EncodesTags jsb buf tagp tags) (range : ∀ tag ∈ tags, blockOutOfRange fs tag.block = false)
    (enough : tags.length ≤ fuel) :
    countTagsLoop fs jsb buf fuel tagp nr = .ok (nr + tags.length) := by
  induction tags generalizing tagp fuel nr with
  | nil => exact encodes.elim
  | cons tag tags ih =>
    obtain ⟨fits, read, last, rest⟩ := encodes
    obtain ⟨fuel, rfl⟩ : ∃ n, fuel = n + 1 := ⟨fuel - 1, by simp only [List.length_cons] at enough; omega⟩
    have inRange := range tag List.mem_cons_self
    simp only [countTagsLoop, if_pos fits, read, inRange, Bool.false_eq_true, if_false]
    rcases rest with rfl | rest
    · simp [last]
    · obtain ⟨-, pos⟩ := rest.room
      have more : tags.isEmpty = false := by
        cases tags
        · simp at pos
        · rfl
      simp only [last, more, Bool.false_eq_true, if_false]
      rw [ih fuel (nr + 1) rest (fun t h => range t (List.mem_cons_of_mem _ h))
        (by simpa using enough), List.length_cons]
      congr 1
      omega

theorem countTags_eq (fs : Fsck) (encodes : EncodesTags jsb buf 12 tags)
    (range : ∀ tag ∈ tags, blockOutOfRange fs tag.block = false) :
    countTags fs jsb buf = .ok tags.length := by
  have bytes := journalTagBytes_ge jsb
  obtain ⟨room, pos⟩ := encodes.room
  have one : journalTagBytes jsb * 1 ≤ journalTagBytes jsb * tags.length := Nat.mul_le_mul_left _ pos
  have all : 1 * tags.length ≤ journalTagBytes jsb * tags.length := Nat.mul_le_mul_right _ (by omega)
  rw [countTags, if_neg (by omega), countTagsLoop_eq fs _ 0 encodes range (by omega), Nat.zero_add]

theorem words_eq {blocks : List Nat}
    (read : blocks = (List.range blocks.length).map (readRevoked jsb buf)) :
    ((List.range (revokeBytes jsb * blocks.length / 8)).map fun i => (be32 buf (16 + 4 * i)).toNat) =
      counted jsb blocks := by
  have entry (i : Nat) (inside : i < blocks.length) : blocks.getD i 0 = readRevoked jsb buf i := by
    conv_lhs => rw [read]
    simp [inside]
  rw [counted, revokeBytes]
  split
  next eight =>
    rw [Nat.mul_div_cancel_left _ (by omega)]
    refine List.map_congr_left fun i inside => ?_
    rw [List.mem_range] at inside
    rw [entry (i / 2) (by omega), readRevoked, if_pos eight]
    -- an even word is the upper half of its number, an odd one the lower half
    split
    next even =>
      rw [show 16 + 4 * i = 16 + 8 * (i / 2) by omega]
      omega
    next odd =>
      rw [show 16 + 4 * i = 16 + 8 * (i / 2) + 4 by omega]
      omega
  next four =>
    refine List.ext_getElem (by simp; omega) fun i hi hi' => ?_
    rw [List.length_map, List.length_range] at hi
    have value := entry i (by omega)
    have inside : i < blocks.length := by omega
    simp only [readRevoked, if_neg four, List.getD_eq_getElem?_getD, List.getElem?_eq_getElem inside,
      Option.getD_some] at value
    simp [value]

theorem addRevokeRecords_eq (ji : JournalInfo) {seq : BitVec 32} {blocks : List Nat}
    (encodes : Encodes ji.ji_jsb buf seq (.revoke blocks)) :
    addRevokeRecords ji buf ji.ji_jsb.s_blocksize seq =
      { ji with
        ji_revoke := (counted ji.ji_jsb blocks).foldl (fun root blkno => revokeInsert root blkno seq)
          ji.ji_revoke } := by
  obtain ⟨-, -, -, count, fits, read⟩ := encodes
  rw [addRevokeRecords]
  simp only [count]
  rw [if_neg (by omega), Nat.add_sub_cancel_left, words_eq read]

end Reading

end Ocfs2.Journal
