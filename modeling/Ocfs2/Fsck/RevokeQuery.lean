import Ocfs2.Fsck.JournalRevoke

set_option autoImplicit false

namespace Ocfs2.Journal

open ByteBuffer Rbtree

section Loop

def revokeRounds (block : Nat) (seq : BitVec 32) : Nat → Node RevokeEntry → Option Bool
  | 0, _ => none
  | _ + 1, .nil => some false
  | rounds + 1, .node c l re r =>
    if block < re.r_block then revokeRounds block seq rounds l
    else if re.r_block < block then revokeRounds block seq rounds r
    else if !seqGt seq re.r_seq then some true
    -- nothing moves on from the node
    else revokeRounds block seq rounds (.node c l re r)

theorem descend_fst {α : Type} (order : α → Ordering) (t : Node α) (path path' : List (Frame α)) :
    (descend order t path).1 = (descend order t path').1 := by
  induction t generalizing path path' with
  | nil => rfl
  | node c l e r ihl ihr =>
    rw [descend, descend]
    cases order e with
    | lt => exact ihl _ _
    | gt => exact ihr _ _
    | eq => rfl

theorem revokeThisBlock_node (c : Color) (l r : Node RevokeEntry) (re : RevokeEntry) (block : Nat) (seq : BitVec 32) :
    revokeThisBlock (.node c l re r) block seq =
      if block < re.r_block then revokeThisBlock l block seq
      else if re.r_block < block then revokeThisBlock r block seq
      else if !seqGt seq re.r_seq then some true else none := by
  simp only [revokeThisBlock, descend]
  rcases Nat.lt_trichotomy block re.r_block with less | same | more
  · have order : revokeOrder block re = .lt := Nat.compare_eq_lt.mpr less
    simp only [order, if_pos less]
    rw [descend_fst _ l _ []]
  · have order : revokeOrder block re = .eq := Nat.compare_eq_eq.mpr same
    simp only [order, if_neg same.not_lt, if_neg same.not_gt]
  · have order : revokeOrder block re = .gt := Nat.compare_eq_gt.mpr more
    simp only [order, if_neg (Nat.lt_asymm more), if_pos more]
    rw [descend_fst _ r _ []]

theorem revokeRounds_iff (root : Node RevokeEntry) (block : Nat) (seq : BitVec 32) (answer : Bool) :
    (∃ rounds, revokeRounds block seq rounds root = some answer) ↔ revokeThisBlock root block seq = some answer := by
  induction root with
  | nil =>
    constructor
    · rintro ⟨_ | rounds, run⟩
      · cases run
      · exact run
    · intro run
      exact ⟨1, run⟩
  | node c l re r ihl ihr =>
    -- a first round is always made
    have first : (∃ rounds, revokeRounds block seq rounds (.node c l re r) = some answer) ↔
        ∃ rounds, revokeRounds block seq (rounds + 1) (.node c l re r) = some answer := by
      constructor
      · rintro ⟨_ | rounds, run⟩
        · cases run
        · exact ⟨rounds, run⟩
      · rintro ⟨rounds, run⟩
        exact ⟨rounds + 1, run⟩
    rw [first, revokeThisBlock_node]
    simp only [revokeRounds]
    split_ifs with left right revoked
    · exact ihl
    · exact ihr
    · simp
    · have stays (rounds : Nat) : revokeRounds block seq rounds (.node c l re r) = none := by
        induction rounds with
        | zero => rfl
        | succ rounds ih => simp only [revokeRounds, if_neg left, if_neg right, if_neg revoked, ih]
      simp [stays]

end Loop

section Answer

variable (records : List (Nat × BitVec 32))

def recorded (records : List (Nat × BitVec 32)) : Node RevokeEntry :=
  records.foldl (fun root e => revokeInsert root e.1 e.2) .nil

def keepLater (old : Option (BitVec 32)) (seq : BitVec 32) : Option (BitVec 32) :=
  some (old.elim seq fun old => if seqGt seq old then seq else old)

def kept (records : List (Nat × BitVec 32)) (block : Nat) : Option (BitVec 32) :=
  ((records.filter (·.1 == block)).map Prod.snd).foldl keepLater none

theorem foldl_revokeInsert (root : Node RevokeEntry) (sorted : Sorted root)
    (block : Nat) :
    lookup (records.foldl (fun root e => revokeInsert root e.1 e.2) root) block =
      ((records.filter (·.1 == block)).map Prod.snd).foldl keepLater (lookup root block) := by
  induction records generalizing root with
  | nil => rfl
  | cons e records ih =>
    rw [List.foldl_cons, ih _ (sorted.revokeInsert e.1 e.2), lookup_revokeInsert sorted]
    by_cases same : e.1 = block
    · subst same
      simp only [if_true, beq_self_eq_true, List.filter_cons_of_pos, List.map_cons, List.foldl_cons, keepLater]
      cases lookup root e.1 <;> rfl
    · simp [same, Ne.symm same]

theorem lookup_recorded (block : Nat) :
    lookup (recorded records) block = kept records block :=
  foldl_revokeInsert records .nil List.Pairwise.nil block

theorem foldl_keepLater_ne_none (seqs : List (BitVec 32)) (old : Option (BitVec 32)) :
    seqs.foldl keepLater old = none ↔ seqs = [] ∧ old = none := by
  induction seqs generalizing old with
  | nil => simp
  | cons seq seqs ih => simp [ih, keepLater]

theorem kept_eq_none (block : Nat) :
    kept records block = none ↔ ∀ seq, (block, seq) ∉ records := by
  rw [kept, foldl_keepLater_ne_none, List.map_eq_nil_iff, List.filter_eq_nil_iff]
  constructor
  · rintro ⟨absent, -⟩ seq mem
    exact absent _ mem (by simp)
  · intro absent
    refine ⟨fun e mem same => ?_, rfl⟩
    rw [beq_iff_eq] at same
    exact absent e.2 (same ▸ mem)

def revoked (records : List (Nat × BitVec 32)) (block : Nat) (seq : BitVec 32) : Bool :=
  records.any fun e => e.1 == block && seqGeq e.2 seq

def Answered (records : List (Nat × BitVec 32)) (block : Nat) (seq : BitVec 32) : Prop :=
  ∃ rounds, revokeRounds block seq rounds (recorded records) = some (revoked records block seq)

theorem revoke_answered_iff (block : Nat) (seq : BitVec 32) :
    Answered records block seq ↔
      (∀ r_seq, (block, r_seq) ∉ records) ∨
        revoked records block seq = true ∧ ∀ r_seq, kept records block = some r_seq → seqGt seq r_seq = false := by
  rw [Answered, revokeRounds_iff, revokeThisBlock_eq, lookup_recorded, ← kept_eq_none]
  cases hit : kept records block with
  | none =>
    have nothing : revoked records block seq = false := by
      rw [kept_eq_none] at hit
      rw [revoked, List.any_eq_false]
      intro e mem both
      rw [Bool.and_eq_true, beq_iff_eq] at both
      exact hit e.2 (both.1 ▸ mem)
    simp [nothing]
  | some r_seq =>
    simp only [reduceCtorEq, false_or, Option.some.injEq, forall_eq']
    cases later : seqGt seq r_seq with
    | true => simp
    | false =>
      rw [if_neg (by simp), Option.some.injEq]
      exact ⟨fun same => ⟨same.symm, rfl⟩, fun both => both.1.symm⟩

/-- Transaction 9 asks for a block that only transaction 8 revokes. -/
theorem revoke_query_hangs :
    revoked [(50, 8)] 50 9 = false ∧ ∀ rounds, revokeRounds 50 9 rounds (recorded [(50, 8)]) = none := by
  refine ⟨by decide, fun rounds => ?_⟩
  cases answer : revokeRounds 50 9 rounds (recorded [(50, 8)]) with
  | none => rfl
  | some answer' =>
    have found := (revokeRounds_iff _ _ _ _).mp ⟨rounds, answer⟩
    cases found

end Answer

section Records

def HasEntry (root : Node RevokeEntry) (block : Nat) : Prop := ∃ re ∈ root.toList, re.r_block = block

structure ValidRevoke (buf : Buffer) (max : Nat) : Prop where
  signed : (be32 buf 12).toNat ≤ intMax
  header : 16 ≤ (be32 buf 12).toNat
  fits : (be32 buf 12).toNat ≤ max
  length : max ≤ buf.length

def listed (buf : Buffer) : List Nat :=
  (List.range (((be32 buf 12).toNat - 16) / 4)).map fun i => (be32 buf (16 + 4 * i)).toNat

-- as many of them as there are groups of eight bytes
def entered (buf : Buffer) : List Nat := (listed buf).take (((be32 buf 12).toNat - 16) / 8)

def missed (buf : Buffer) : List Nat := (listed buf).drop (((be32 buf 12).toNat - 16) / 8)

theorem hasEntry_revokeInsert {root : Node RevokeEntry} (sorted : Sorted root) (block : Nat) (seq : BitVec 32) (b : Nat) :
    HasEntry (revokeInsert root block seq) b ↔ HasEntry root b ∨ b = block := by
  obtain ⟨latest, lo, hi, list, -, -, source⟩ := toList_revokeInsert root sorted block seq
  rw [HasEntry, HasEntry, list]
  rcases source with ⟨old, -⟩ | ⟨_, old, -⟩ <;> rw [old] <;> simp only [List.mem_append, List.mem_cons] <;> constructor
  · rintro ⟨re, (low | rfl | high), rfl⟩
    · exact .inl ⟨re, .inl low, rfl⟩
    · exact .inr rfl
    · exact .inl ⟨re, .inr high, rfl⟩
  · rintro (⟨re, (low | high), rfl⟩ | rfl)
    · exact ⟨re, .inl low, rfl⟩
    · exact ⟨re, .inr (.inr high), rfl⟩
    · exact ⟨_, .inr (.inl rfl), rfl⟩
  · rintro ⟨re, (low | rfl | high), rfl⟩
    · exact .inl ⟨re, .inl low, rfl⟩
    · exact .inr rfl
    · exact .inl ⟨re, .inr (.inr high), rfl⟩
  · rintro (⟨re, (low | rfl | high), rfl⟩ | rfl)
    · exact ⟨re, .inl low, rfl⟩
    · exact ⟨_, .inr (.inl rfl), rfl⟩
    · exact ⟨re, .inr (.inr high), rfl⟩
    · exact ⟨_, .inr (.inl rfl), rfl⟩

theorem hasEntry_revokeInserts {root : Node RevokeEntry} (sorted : Sorted root) (blocks : List Nat) (seq : BitVec 32)
    (b : Nat) :
    HasEntry (blocks.foldl (fun root blkno => revokeInsert root blkno seq) root) b ↔ HasEntry root b ∨ b ∈ blocks := by
  induction blocks generalizing root with
  | nil => simp
  | cons block blocks ih =>
    rw [List.foldl_cons, ih (sorted.revokeInsert block seq), hasEntry_revokeInsert sorted, List.mem_cons, or_assoc]

theorem addRevokeRecords_entered (ji : JournalInfo) {buf : Buffer} {max : Nat} (valid : ValidRevoke buf max)
    (seq : BitVec 32) :
    (addRevokeRecords ji buf max seq).ji_revoke =
      (entered buf).foldl (fun root blkno => revokeInsert root blkno seq) ji.ji_revoke := by
  have accepted : ¬ ((be32 buf 12).toNat < 16 ∨ (be32 buf 12).toNat > max) := by
    have := valid.header
    have := valid.fits
    omega
  have half : ((be32 buf 12).toNat - 16) / 8 ≤ ((be32 buf 12).toNat - 16) / 4 := by omega
  simp only [addRevokeRecords, if_neg accepted, entered, listed, ← List.map_take, List.take_range, Nat.min_eq_left half]

theorem addRevokeRecords_exact_iff (ji : JournalInfo) (sorted : Sorted ji.ji_revoke) {buf : Buffer} {max : Nat}
    (valid : ValidRevoke buf max) (seq : BitVec 32) :
    (∀ b, HasEntry (addRevokeRecords ji buf max seq).ji_revoke b ↔ HasEntry ji.ji_revoke b ∨ b ∈ listed buf) ↔
      ∀ b ∈ missed buf, b ∈ entered buf ∨ HasEntry ji.ji_revoke b := by
  have parts (b : Nat) : b ∈ listed buf ↔ b ∈ entered buf ∨ b ∈ missed buf := by
    rw [entered, missed, ← List.mem_append, List.take_append_drop]
  simp only [addRevokeRecords_entered ji valid, hasEntry_revokeInserts sorted, parts]
  constructor
  · intro exact b mem
    exact ((exact b).mpr (.inr (.inr mem))).symm
  · intro known b
    constructor
    · rintro (old | new)
      · exact .inl old
      · exact .inr (.inl new)
    · rintro (old | new | lost)
      · exact .inl old
      · exact .inr new
      · exact (known b lost).symm

def freshJournal : JournalInfo where
  ji_slot := 0
  ji_dirty := true
  ji_replay := true
  ji_revoke := .nil
  ji_jsb := ⟨superblockV2, 28, 100, 1, 7, 1, 0⟩
  ji_blocks := id
  ji_set_final_seq := false
  ji_final_seq := 0

def twoRevokes (first second : Byte) : Buffer :=
  [0xc0, 0x3b, 0x39, 0x98, 0, 0, 0, 5, 0, 0, 0, 7, 0, 0, 0, 24, 0, 0, 0, first, 0, 0, 0, second, 0, 0, 0, 0]

theorem twoRevokes_valid (first second : Byte) : ValidRevoke (twoRevokes first second) 28 := by
  have count : be32 (twoRevokes first second) 12 = 24 := by
    simp only [be32, twoRevokes, List.getD_cons_succ, List.getD_cons_zero]
    decide
  exact ⟨by rw [count]; decide, by rw [count]; decide, by rw [count]; decide, by simp [twoRevokes]⟩

theorem addRevokeRecords_exact_twice :
    ValidRevoke (twoRevokes 50 50) 28 ∧
      ∀ b, HasEntry (addRevokeRecords freshJournal (twoRevokes 50 50) 28 7).ji_revoke b ↔
        HasEntry freshJournal.ji_revoke b ∨ b ∈ listed (twoRevokes 50 50) := by
  have valid := twoRevokes_valid 50 50
  have twice : missed (twoRevokes 50 50) = entered (twoRevokes 50 50) := by decide
  exact ⟨valid, (addRevokeRecords_exact_iff freshJournal List.Pairwise.nil valid 7).mpr fun b mem => .inl (twice ▸ mem)⟩

theorem second_revoke_missing :
    ValidRevoke (twoRevokes 50 60) 28 ∧ listed (twoRevokes 50 60) = [50, 60] ∧
      (addRevokeRecords freshJournal (twoRevokes 50 60) 28 7).ji_revoke.toList = [⟨50, 7⟩] :=
  ⟨twoRevokes_valid 50 60, by decide, by decide⟩

end Records

end Ocfs2.Journal
