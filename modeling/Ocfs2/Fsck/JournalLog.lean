import Ocfs2.Fsck.JournalRevoke

set_option autoImplicit false

namespace Ocfs2.Journal

open ByteBuffer Rbtree

section Ring

variable (jsb : Superblock)

def ring (k : Nat) : Nat :=
  jsb.s_first + (jsb.s_start - jsb.s_first + k) % (jsb.s_maxlen - jsb.s_first)

structure Superblock.Valid : Prop where
  first_pos : 0 < jsb.s_first
  first_le : jsb.s_first ≤ jsb.s_start
  start_lt : jsb.s_start < jsb.s_maxlen

def Superblock.room : Nat := jsb.s_maxlen - jsb.s_first

def Superblock.turn : Nat := jsb.s_maxlen - jsb.s_start

variable {jsb}

theorem jwrapLoop_eq (first diff fuel block : Nat) (pos : 0 < diff) (enough : block ≤ fuel)
    (le : first ≤ block) :
    jwrapLoop (first + diff) diff fuel block = first + (block - first) % diff := by
  induction fuel generalizing block with
  | zero =>
    obtain rfl : block = 0 := by omega
    obtain rfl : first = 0 := by omega
    simp [jwrapLoop]
  | succ fuel ih =>
    rw [jwrapLoop]
    split
    next large =>
      rw [ih (block - diff) (by omega) (by omega), Nat.mod_eq_sub_mod (by omega : block - first ≥ diff)]
      congr 2
      omega
    next small =>
      rw [Nat.mod_eq_of_lt (by omega)]
      omega

theorem jwrap_room {b : Nat} (lt : jsb.s_first < jsb.s_maxlen) (le : jsb.s_first ≤ b) :
    jwrap jsb b = jsb.s_first + (b - jsb.s_first) % (jsb.s_maxlen - jsb.s_first) := by
  have whole : jsb.s_maxlen = jsb.s_first + (jsb.s_maxlen - jsb.s_first) := by omega
  rw [jwrap, if_neg (by omega)]
  conv_lhs => rw [whole]
  rw [Nat.add_sub_cancel_left, jwrapLoop_eq _ _ _ _ (by omega) le_rfl le]

theorem ring_zero (valid : jsb.Valid) : ring jsb 0 = jsb.s_start := by
  have first_le := valid.first_le
  have start_lt := valid.start_lt
  rw [ring, Nat.add_zero, Nat.mod_eq_of_lt (by omega)]
  omega

theorem jwrap_ring_add (valid : jsb.Valid) (k n : Nat) : jwrap jsb (ring jsb k + n) = ring jsb (k + n) := by
  rw [jwrap_room (valid.first_le.trans_lt valid.start_lt) (by rw [ring]; omega), ring, ring]
  rw [show jsb.s_first + (jsb.s_start - jsb.s_first + k) % (jsb.s_maxlen - jsb.s_first) + n - jsb.s_first =
    (jsb.s_start - jsb.s_first + k) % (jsb.s_maxlen - jsb.s_first) + n by omega, Nat.mod_add_mod,
    Nat.add_assoc]

theorem jwrap_ring (valid : jsb.Valid) (k : Nat) : jwrap jsb (ring jsb k) = ring jsb k :=
  jwrap_ring_add valid k 0

theorem ring_lt (valid : jsb.Valid) (k : Nat) : ring jsb k < jsb.s_maxlen := by
  have first_le := valid.first_le
  have start_lt := valid.start_lt
  have := Nat.mod_lt (jsb.s_start - jsb.s_first + k) (by omega : 0 < jsb.s_maxlen - jsb.s_first)
  rw [ring]
  omega

theorem ring_ge (jsb : Superblock) (k : Nat) : jsb.s_first ≤ ring jsb k := Nat.le_add_right _ _

-- the log wraps at most once, so the remainder is the sum or the sum less the room
theorem ring_cases (valid : jsb.Valid) (k : Nat) (inside : k ≤ jsb.room) :
    (k < jsb.turn ∧ ring jsb k = jsb.s_start + k) ∨
      (jsb.turn ≤ k ∧ ring jsb k + jsb.room = jsb.s_start + k) := by
  have first_le := valid.first_le
  have start_lt := valid.start_lt
  simp only [Superblock.room] at inside
  rw [ring, Superblock.turn, Superblock.room]
  by_cases early : k < jsb.s_maxlen - jsb.s_start
  · rw [Nat.mod_eq_of_lt (by omega)]
    omega
  · rw [Nat.mod_eq_sub_mod (by omega), Nat.mod_eq_of_lt (by omega)]
    omega

theorem ring_injective (valid : jsb.Valid) (j k : Nat) (less : j < k) (near : k < j + jsb.room)
    (inside : k ≤ jsb.room) : ring jsb j ≠ ring jsb k := by
  rcases ring_cases valid j (by omega) with hj | hj <;> rcases ring_cases valid k inside with hk | hk <;>
    omega

theorem ring_succ (valid : jsb.Valid) (k : Nat) (inside : k + 1 ≤ jsb.room) (straight : k + 1 ≠ jsb.turn) :
    ring jsb k + 1 = ring jsb (k + 1) := by
  rcases ring_cases valid k (by omega) with hj | hj <;>
    rcases ring_cases valid (k + 1) inside with hk | hk <;> omega

theorem ring_turn (valid : jsb.Valid) (k : Nat) (inside : k ≤ jsb.room) (turn : k + 1 = jsb.turn) :
    ring jsb k + 1 = jsb.s_maxlen := by
  rcases ring_cases valid k inside with hj | hj
  · simp only [Superblock.turn] at turn
    omega
  · omega

end Ring

section Records

inductive Record where
  | descriptor (tags : List Tag)
  | revoke (blocks : List Nat)
  | commit
  deriving DecidableEq

def Record.size : Record → Nat
  | .descriptor tags => 1 + tags.length
  | _ => 1

structure Placed where
  offset : Nat
  transaction : Nat
  record : Record
  deriving DecidableEq

def Record.following (record : Record) (i : Nat) : Nat :=
  match record with
  | .commit => i + 1
  | _ => i

def place : Nat → Nat → List Record → List Placed
  | _, _, [] => []
  | k, i, record :: records => ⟨k, i, record⟩ :: place (k + record.size) (record.following i) records

def logSize (records : List Record) : Nat := (records.map Record.size).sum

def commits (records : List Record) : Nat := records.count .commit

structure Logged where
  offset : Nat
  transaction : Nat
  tag : Tag
  deriving DecidableEq

def logTags (offset i : Nat) : List Tag → List Logged
  | [] => []
  | tag :: tags => ⟨offset, i, tag⟩ :: logTags (offset + 1) i tags

def Placed.tags (p : Placed) : List Logged :=
  match p.record with
  | .descriptor tags => logTags (p.offset + 1) p.transaction tags
  | _ => []

def Placed.revoked (p : Placed) : List (Nat × Nat) :=
  match p.record with
  | .revoke blocks => blocks.map (·, p.transaction)
  | _ => []

theorem Record.size_pos (record : Record) : 0 < record.size := by
  cases record <;> simp [Record.size]

theorem Record.following_eq (record : Record) (i : Nat) : record.following i = i + commits [record] := by
  cases record <;> simp [Record.following, commits]

theorem logSize_cons (record : Record) (records : List Record) :
    logSize (record :: records) = record.size + logSize records := by
  simp [logSize]

theorem logSize_append (as bs : List Record) : logSize (as ++ bs) = logSize as + logSize bs := by
  simp [logSize]

theorem commits_append (as bs : List Record) : commits (as ++ bs) = commits as + commits bs :=
  List.count_append

theorem commits_cons (record : Record) (records : List Record) (i : Nat) :
    i + commits (record :: records) = record.following i + commits records := by
  rw [Record.following_eq, ← List.singleton_append, commits_append, Nat.add_assoc]

theorem place_append (k i : Nat) (as bs : List Record) :
    place k i (as ++ bs) = place k i as ++ place (k + logSize as) (i + commits as) bs := by
  induction as generalizing k i with
  | nil => simp [place, logSize, commits]
  | cons a as ih =>
    rw [List.cons_append, place, ih, place, List.cons_append, logSize_cons, commits_cons, Nat.add_assoc]

theorem place_bounds (k i : Nat) (records : List Record) (p : Placed) (member : p ∈ place k i records) :
    k ≤ p.offset ∧ p.offset + p.record.size ≤ k + logSize records ∧
      i ≤ p.transaction ∧ p.transaction ≤ i + commits records := by
  induction records generalizing k i with
  | nil => cases member
  | cons record records ih =>
    rw [place, List.mem_cons] at member
    have step := commits_cons record records i
    have size := logSize_cons record records
    rcases member with rfl | later
    · have := Record.following_eq record i
      simp only
      omega
    · have := ih _ _ later
      have := Record.following_eq record i
      omega

theorem mem_place_split (k i : Nat) (records : List Record) (p : Placed) (member : p ∈ place k i records) :
    ∃ as bs, records = as ++ p.record :: bs ∧ p.offset = k + logSize as ∧
      p.transaction = i + commits as := by
  induction records generalizing k i with
  | nil => cases member
  | cons record records ih =>
    rw [place, List.mem_cons] at member
    rcases member with rfl | later
    · exact ⟨[], records, rfl, rfl, rfl⟩
    · obtain ⟨as, bs, split, offset, transaction⟩ := ih _ _ later
      refine ⟨record :: as, bs, by rw [split, List.cons_append], ?_, ?_⟩
      · rw [offset, logSize_cons, Nat.add_assoc]
      · rw [transaction, commits_cons]

theorem place_pairwise (k i : Nat) (records : List Record) :
    (place k i records).Pairwise fun p q => p.offset + p.record.size ≤ q.offset := by
  induction records generalizing k i with
  | nil => exact List.Pairwise.nil
  | cons record records ih =>
    rw [place, List.pairwise_cons]
    exact ⟨fun q later => (place_bounds _ _ records q later).1, ih _ _⟩

theorem mem_logTags (offset i : Nat) (tags : List Tag) (x : Logged) (member : x ∈ logTags offset i tags) :
    offset ≤ x.offset ∧ x.offset < offset + tags.length ∧ x.transaction = i ∧ x.tag ∈ tags := by
  induction tags generalizing offset with
  | nil => cases member
  | cons tag tags ih =>
    rw [logTags, List.mem_cons] at member
    rw [List.length_cons]
    rcases member with rfl | later
    · exact ⟨le_rfl, by simp only; omega, rfl, List.mem_cons_self⟩
    · obtain ⟨lower, upper, same, inside⟩ := ih _ later
      exact ⟨by omega, by omega, same, List.mem_cons_of_mem _ inside⟩

theorem logTags_pairwise (offset i : Nat) (tags : List Tag) :
    (logTags offset i tags).Pairwise fun x y => x.offset < y.offset := by
  induction tags generalizing offset with
  | nil => exact List.Pairwise.nil
  | cons tag tags ih =>
    rw [logTags, List.pairwise_cons]
    exact ⟨fun y later => (mem_logTags _ _ tags y later).1, ih _⟩

theorem Placed.tags_bounds (p : Placed) (x : Logged) (member : x ∈ p.tags) :
    p.offset < x.offset ∧ x.offset < p.offset + p.record.size ∧ x.transaction = p.transaction := by
  obtain ⟨offset, i, record⟩ := p
  cases record with
  | descriptor tags =>
    obtain ⟨lower, upper, same, -⟩ := mem_logTags (offset + 1) i tags x member
    simp only [Record.size]
    exact ⟨lower, by omega, same⟩
  | revoke blocks => cases member
  | commit => cases member

theorem placed_tags_pairwise (k i : Nat) (records : List Record) :
    ((place k i records).flatMap Placed.tags).Pairwise fun x y => x.offset < y.offset := by
  rw [List.pairwise_flatMap]
  constructor
  · intro p _
    obtain ⟨offset, i, record⟩ := p
    cases record with
    | descriptor tags => exact logTags_pairwise _ _ tags
    | revoke blocks => exact List.Pairwise.nil
    | commit => exact List.Pairwise.nil
  · refine (place_pairwise k i records).imp ?_
    intro p q behind x hx y hy
    have := p.tags_bounds x hx
    have := q.tags_bounds y hy
    omega

end Records

end Ocfs2.Journal
