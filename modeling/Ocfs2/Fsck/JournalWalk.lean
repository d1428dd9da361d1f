import Ocfs2.Fsck.JournalImage

set_option autoImplicit false

namespace Ocfs2.Journal

open ByteBuffer Rbtree

section Tags

variable (ji : JournalInfo) (entries : List (Nat × Nat))

def dataBlock (x : Logged) : Nat := ji.ji_blocks (ring ji.ji_jsb x.offset)

def writeTag (fs : Fsck) (x : Logged) : Fsck :=
  { fs with
    used_blocks := insert (dataBlock ji x) fs.used_blocks
    disk := Function.update fs.disk x.tag.block (copyOf ji fs.disk x).data
    copies := fs.copies ++ [copyOf ji fs.disk x] }

def recoverTag (fs : Fsck) (x : Logged) : Option Fsck :=
  (decision entries x.tag.block x.transaction).map fun revoked => if revoked then fs else writeTag ji fs x

structure Ready (fs : Fsck) (xs : List Logged) : Prop where
  distinct : xs.Pairwise fun x y => dataBlock ji x ≠ dataBlock ji y
  fresh : ∀ x ∈ xs, dataBlock ji x ∉ fs.used_blocks
  inside : ∀ x ∈ xs, dataBlock ji x < fs.fs_blocks

structure Recovering (fs fs' : Fsck) (xs : List Logged) : Prop where
  fs_blocks : fs'.fs_blocks = fs.fs_blocks
  disk : ∀ b, (∀ x ∈ xs, x.tag.block ≠ b) → fs'.disk b = fs.disk b
  used : ∀ b ∈ fs'.used_blocks, b ∈ fs.used_blocks ∨ ∃ x ∈ xs, b = dataBlock ji x

variable {ji entries}

theorem recoverTag_recovering {fs fs' : Fsck} {x : Logged} (run : recoverTag ji entries fs x = some fs') :
    Recovering ji fs fs' [x] := by
  obtain ⟨revoked, -, rfl⟩ := Option.map_eq_some_iff.mp run
  cases revoked with
  | true => exact ⟨rfl, fun _ _ => rfl, fun _ member => Or.inl member⟩
  | false =>
    refine ⟨rfl, ?_, ?_⟩
    · intro b other
      exact Function.update_of_ne (other x List.mem_cons_self).symm _ _
    · intro b member
      rcases Finset.mem_insert.mp member with rfl | old
      · exact Or.inr ⟨x, List.mem_cons_self, rfl⟩
      · exact Or.inl old

theorem Ready.first {fs : Fsck} {xs ys : List Logged} (ready : Ready ji fs (xs ++ ys)) : Ready ji fs xs where
  distinct := (List.pairwise_append.mp ready.distinct).1
  fresh := fun x hx => ready.fresh x (List.mem_append_left _ hx)
  inside := fun x hx => ready.inside x (List.mem_append_left _ hx)

theorem Recovering.trans {fs fs' fs'' : Fsck} {xs ys : List Logged} (first : Recovering ji fs fs' xs)
    (second : Recovering ji fs' fs'' ys) : Recovering ji fs fs'' (xs ++ ys) where
  fs_blocks := second.fs_blocks.trans first.fs_blocks
  disk := by
    intro b other
    rw [second.disk b fun y hy => other y (List.mem_append_right _ hy),
      first.disk b fun x hx => other x (List.mem_append_left _ hx)]
  used := by
    intro b member
    rcases second.used b member with old | ⟨y, hy, rfl⟩
    · rcases first.used b old with older | ⟨x, hx, rfl⟩
      · exact Or.inl older
      · exact Or.inr ⟨x, List.mem_append_left _ hx, rfl⟩
    · exact Or.inr ⟨y, List.mem_append_right _ hy, rfl⟩

theorem recoverTags_recovering {fs fs' : Fsck} {xs : List Logged}
    (run : xs.foldlM (recoverTag ji entries) fs = some fs') : Recovering ji fs fs' xs := by
  induction xs generalizing fs with
  | nil =>
    obtain rfl : fs = fs' := by simpa using run
    exact ⟨rfl, fun _ _ => rfl, fun _ member => Or.inl member⟩
  | cons x xs ih =>
    obtain ⟨mid, step, rest⟩ := Option.bind_eq_some_iff.mp run
    exact (recoverTag_recovering step).trans (ih rest)

theorem Ready.rest {fs fs' : Fsck} {xs ys : List Logged} (ready : Ready ji fs (xs ++ ys))
    (changed : Recovering ji fs fs' xs) : Ready ji fs' ys := by
  obtain ⟨distinct, fresh, inside⟩ := ready
  rw [List.pairwise_append] at distinct
  refine ⟨distinct.2.1, ?_, ?_⟩
  · intro y hy member
    rcases changed.used _ member with old | ⟨x, hx, same⟩
    · exact fresh y (List.mem_append_right _ hy) old
    · exact distinct.2.2 x hx y hy same.symm
  · intro y hy
    rw [changed.fs_blocks]
    exact inside y (List.mem_append_right _ hy)

section Replay

variable {root : Node RevokeEntry} {i : Nat} {fs : Fsck} {tags : List Tag}
  (holds : Represents ji.ji_jsb.s_sequence root entries) (small : i < 2 ^ 31)

include holds small

theorem replayTag_eq {offset : Nat} {tag : Tag} (ready : Ready ji fs [⟨offset, i, tag⟩]) :
    replayTag { ji with ji_revoke := root } tag (sequence ji.ji_jsb.s_sequence i) (ring ji.ji_jsb offset) fs none =
      (recoverTag ji entries fs ⟨offset, i, tag⟩).map (·, none) := by
  have fresh := ready.fresh _ List.mem_cons_self
  have inside := ready.inside _ List.mem_cons_self
  rw [dataBlock] at fresh inside
  rw [replayTag, holds.revokeThisBlock _ _ small, recoverTag]
  rcases decision entries tag.block i with _ | _ | _
  · rfl
  · simp only [readJournalBlock, if_true, if_neg (Nat.not_le.mpr inside), if_neg fresh]
    rfl
  · rfl

theorem replayLoop_eq (valid : ji.ji_jsb.Valid) {buf : Buffer} {n tagp next offset : Nat}
    (encodes : EncodesTags ji.ji_jsb buf tagp tags) (enough : tags.length ≤ n)
    (here : jwrap ji.ji_jsb next = ring ji.ji_jsb offset) (ready : Ready ji fs (logTags offset i tags)) :
    replayLoop { ji with ji_revoke := root } buf (sequence ji.ji_jsb.s_sequence i) n tagp next fs none =
      ((logTags offset i tags).foldlM (recoverTag ji entries) fs).map fun fs =>
        (fs, ring ji.ji_jsb (offset + tags.length - 1) + 1, none) := by
  induction tags generalizing n tagp next offset fs with
  | nil => exact encodes.elim
  | cons tag tags ih =>
    obtain ⟨-, read, last, rest⟩ := encodes
    obtain ⟨n, rfl⟩ : ∃ m, n = m + 1 := ⟨n - 1, by simp only [List.length_cons] at enough; omega⟩
    rw [logTags] at ready ⊢
    have ready : Ready ji fs ([⟨offset, i, tag⟩] ++ logTags (offset + 1) i tags) := ready
    have step := replayTag_eq holds small ready.first
    simp only [replayLoop, read, here, step, List.foldlM_cons]
    rcases run : recoverTag ji entries fs ⟨offset, i, tag⟩ with _ | fs'
    · rfl
    simp only [Option.map_some, last, Option.bind_eq_bind, Option.bind_some]
    rcases rest with rfl | rest
    · rfl
    · have more : tags.isEmpty = false := by
        cases tags with
        | nil => exact rest.elim
        | cons => rfl
      have ready' : Ready ji fs' (logTags (offset + 1) i tags) :=
        ready.rest (recoverTag_recovering run)
      simp only [more, Bool.false_eq_true, if_false]
      rw [ih rest (by simpa using enough) (jwrap_ring_add valid offset 1) ready', List.length_cons,
        show offset + 1 + tags.length - 1 = offset + (tags.length + 1) - 1 by omega]

theorem replayBlocks_eq (valid : ji.ji_jsb.Valid) {buf : Buffer} {offset : Nat}
    (encodes : EncodesTags ji.ji_jsb buf 12 tags) (ready : Ready ji fs (logTags offset i tags)) :
    replayBlocks fs { ji with ji_revoke := root } buf (sequence ji.ji_jsb.s_sequence i) (ring ji.ji_jsb offset) =
      ((logTags offset i tags).foldlM (recoverTag ji entries) fs).map fun fs =>
        (fs, ring ji.ji_jsb (offset + tags.length - 1) + 1, none) := by
  have enough : tags.length ≤ (ji.ji_jsb.s_blocksize - 12) / journalTagBytes ji.ji_jsb := by
    have bytes := journalTagBytes_ge ji.ji_jsb
    have room := encodes.room.1
    rw [Nat.le_div_iff_mul_le (by omega), Nat.mul_comm]
    omega
  exact replayLoop_eq holds small valid encodes enough (jwrap_ring valid offset) ready

end Replay

end Tags

section Scan

def Record.tags : Record → List Tag
  | .descriptor tags => tags
  | _ => []

def headerBlock (ji : JournalInfo) (p : Placed) : Nat := ji.ji_blocks (ring ji.ji_jsb p.offset)

def Readable (ji : JournalInfo) (disk : Nat → Buffer) (ps : List Placed) : Prop :=
  ∀ p ∈ ps, Encodes ji.ji_jsb (disk (headerBlock ji p)) (sequence ji.ji_jsb.s_sequence p.transaction) p.record

variable {ji : JournalInfo} {entries : List (Nat × Nat)}

def Fsck.mark (fs : Fsck) (b : Nat) : Fsck := { fs with used_blocks := insert b fs.used_blocks }

theorem readJournalBlock_marks (fs : Fsck) (ji : JournalInfo) (k : Nat)
    (fresh : ji.ji_blocks k ∉ fs.used_blocks) (inside : ji.ji_blocks k < fs.fs_blocks) :
    readJournalBlock fs ji k true = some (fs.mark (ji.ji_blocks k), .ok (fs.disk (ji.ji_blocks k))) := by
  simp only [readJournalBlock, if_true, if_neg (Nat.not_le.mpr inside), if_neg fresh, Fsck.mark]

abbrev walkAt (ji : JournalInfo) (fs : Fsck) (root : Node RevokeEntry) (k i : Nat) : Walk :=
  ⟨fs, { ji with ji_revoke := root }, sequence ji.ji_jsb.s_sequence i, ring ji.ji_jsb k, none⟩

theorem walkLoop_record (valid : ji.ji_jsb.Valid) (recover : Bool) (fs fs' : Fsck) (root : Node RevokeEntry)
    (p : Placed) (buf : Buffer)
    (more : (recover && seqGeq (sequence ji.ji_jsb.s_sequence p.transaction) ji.ji_final_seq) = false)
    (read : readJournalBlock fs ji (ring ji.ji_jsb p.offset) (!recover) = some (fs', .ok buf))
    (encodes : Encodes ji.ji_jsb buf (sequence ji.ji_jsb.s_sequence p.transaction) p.record) (fuel : Nat) :
    walkLoop recover (fuel + 1) (walkAt ji fs root p.offset p.transaction) =
      (walkRecord recover (walkAt ji fs' root (p.offset + 1) p.transaction) buf).bind
        (walkLoop recover fuel) := by
  have read' : readJournalBlock fs { ji with ji_revoke := root } (ring ji.ji_jsb p.offset) (!recover) =
      some (fs', .ok buf) := read
  obtain ⟨magic, seq, -⟩ := encodes
  simp only [walkLoop, Option.isNone_none, Bool.or_true, Bool.not_true, Bool.false_eq_true, if_false,
    more, read', magic, seq, ne_eq, not_true, jwrap_ring_add valid p.offset 1]
  cases walkRecord recover (walkAt ji fs' root (p.offset + 1) p.transaction) buf <;> rfl

theorem walkRecord_revoke (recover : Bool) (fs : Fsck) (root : Node RevokeEntry) (k i : Nat) (buf : Buffer)
    (blocks : List Nat) (holds : Represents ji.ji_jsb.s_sequence root entries) (small : i < 2 ^ 31)
    (encodes : Encodes ji.ji_jsb buf (sequence ji.ji_jsb.s_sequence i) (.revoke blocks)) :
    ∃ root', Represents ji.ji_jsb.s_sequence root' (entries ++ (counted ji.ji_jsb blocks).map (·, i)) ∧
      walkRecord recover (walkAt ji fs root k i) buf = some (walkAt ji fs root' k i) := by
  have type := encodes.2.2.1
  have added := addRevokeRecords_eq { ji with ji_revoke := root } encodes
  refine ⟨_, holds.revokeInserts (counted ji.ji_jsb blocks) i small, ?_⟩
  simp only [walkRecord, type, added]
  rfl

theorem walkRecord_commit (ji : JournalInfo) (recover : Bool) (fs : Fsck) (root : Node RevokeEntry) (k i : Nat) (buf : Buffer)
    (type : be32 buf 4 = commitBlock) :
    walkRecord recover (walkAt ji fs root k i) buf = some (walkAt ji fs root k (i + 1)) := by
  simp only [walkRecord, type, sequence_succ]
  rfl

theorem scan_step (valid : ji.ji_jsb.Valid) (fs : Fsck) (root : Node RevokeEntry) (p : Placed)
    (encodes : Encodes ji.ji_jsb (fs.disk (headerBlock ji p))
      (sequence ji.ji_jsb.s_sequence p.transaction) p.record)
    (range : ∀ tag ∈ p.record.tags, blockOutOfRange fs tag.block = false)
    (fresh : headerBlock ji p ∉ fs.used_blocks) (inside : headerBlock ji p < fs.fs_blocks)
    (holds : Represents ji.ji_jsb.s_sequence root entries) (small : p.transaction < 2 ^ 31) :
    ∃ root', Represents ji.ji_jsb.s_sequence root' (entries ++ p.counted ji.ji_jsb) ∧
      ∀ fuel, walkLoop false (fuel + 1) (walkAt ji fs root p.offset p.transaction) =
        walkLoop false fuel (walkAt ji (fs.mark (headerBlock ji p)) root'
          (p.offset + p.record.size) (p.record.following p.transaction)) := by
  have enter := walkLoop_record valid false fs _ root p _ rfl
    (readJournalBlock_marks fs ji (ring ji.ji_jsb p.offset) fresh inside) encodes
  obtain ⟨offset, i, record⟩ := p
  cases record with
  | descriptor tags =>
    obtain ⟨-, -, type, listed⟩ := encodes
    refine ⟨root, by simpa [Placed.counted] using holds, fun fuel => ?_⟩
    rw [enter fuel]
    have count := countTags_eq (fs.mark (headerBlock ji ⟨offset, i, .descriptor tags⟩)) listed range
    simp only [headerBlock] at type count
    simp only [walkRecord, type, if_true, Bool.false_eq_true, if_false, count, jwrap_ring_add valid,
      Option.bind_some, Record.size, Record.following, headerBlock, Nat.add_assoc]
  | revoke blocks =>
    obtain ⟨root', holds', run⟩ := walkRecord_revoke false (fs.mark (headerBlock ji ⟨offset, i, .revoke blocks⟩))
      root (offset + 1) i _ blocks holds small encodes
    refine ⟨root', holds', fun fuel => ?_⟩
    rw [enter fuel]
    simp only [headerBlock] at run
    simp only [run, Option.bind_some, Record.size, Record.following, headerBlock]
  | commit =>
    refine ⟨root, by simpa [Placed.counted] using holds, fun fuel => ?_⟩
    have run := walkRecord_commit ji false (fs.mark (headerBlock ji ⟨offset, i, .commit⟩)) root
      (offset + 1) i _ encodes.2.2
    rw [enter fuel]
    simp only [headerBlock] at run
    simp only [run, Option.bind_some, Record.size, Record.following, headerBlock]

theorem scan_run (valid : ji.ji_jsb.Valid) (records : List Record) (k i : Nat) (fs : Fsck)
    (root : Node RevokeEntry) (readable : Readable ji fs.disk (place k i records))
    (range : ∀ record ∈ records, ∀ tag ∈ record.tags, blockOutOfRange fs tag.block = false)
    (distinct : (place k i records).Pairwise fun p q => headerBlock ji p ≠ headerBlock ji q)
    (fresh : ∀ p ∈ place k i records, headerBlock ji p ∉ fs.used_blocks ∧ headerBlock ji p < fs.fs_blocks)
    (holds : Represents ji.ji_jsb.s_sequence root entries) (small : i + commits records < 2 ^ 31) :
    ∃ root' used,
      Represents ji.ji_jsb.s_sequence root'
        (entries ++ (place k i records).flatMap (Placed.counted ji.ji_jsb)) ∧
      (∀ b ∈ used, b ∈ fs.used_blocks ∨ ∃ p ∈ place k i records, b = headerBlock ji p) ∧
      ∀ fuel, walkLoop false (records.length + fuel) (walkAt ji fs root k i) =
        walkLoop false fuel (walkAt ji { fs with used_blocks := used } root'
          (k + logSize records) (i + commits records)) := by
  induction records generalizing k i fs root entries with
  | nil =>
    refine ⟨root, fs.used_blocks, by simpa [place] using holds, fun b member => Or.inl member, ?_⟩
    simp [logSize, commits]
  | cons record records ih =>
    rw [place] at readable distinct fresh
    rw [List.pairwise_cons] at distinct
    have here : (⟨k, i, record⟩ : Placed) ∈
        ⟨k, i, record⟩ :: place (k + record.size) (record.following i) records := List.mem_cons_self
    have following := commits_cons record records i
    obtain ⟨mid, holds', step⟩ := scan_step valid fs root ⟨k, i, record⟩ (readable _ here)
      (range record List.mem_cons_self) (fresh _ here).1 (fresh _ here).2 holds (by simp only; omega)
    obtain ⟨root', used, holds'', marks, run⟩ := ih (k + record.size) (record.following i)
      (fs.mark (headerBlock ji ⟨k, i, record⟩)) mid
      (fun p hp => readable p (List.mem_cons_of_mem _ hp))
      (fun r hr => range r (List.mem_cons_of_mem _ hr)) distinct.2
      (by
        intro p hp
        refine ⟨?_, (fresh p (List.mem_cons_of_mem _ hp)).2⟩
        rw [Fsck.mark, Finset.mem_insert, not_or]
        exact ⟨(distinct.1 p hp).symm, (fresh p (List.mem_cons_of_mem _ hp)).1⟩)
      holds' (by omega)
    refine ⟨root', used, ?_, ?_, ?_⟩
    · simpa [place, List.append_assoc] using holds''
    · intro b member
      rcases marks b member with old | ⟨p, hp, same⟩
      · rcases Finset.mem_insert.mp old with rfl | older
        · exact Or.inr ⟨_, List.mem_cons_self, rfl⟩
        · exact Or.inl older
      · exact Or.inr ⟨p, List.mem_cons_of_mem _ hp, same⟩
    · intro fuel
      rw [List.length_cons, Nat.add_right_comm, step, run, logSize_cons, following, Nat.add_assoc]
      rfl

theorem scan_end (fs : Fsck) (root : Node RevokeEntry) (k i : Nat)
    (inside : ji.ji_blocks (ring ji.ji_jsb k) < fs.fs_blocks)
    (ended : ¬(be32 (fs.disk (ji.ji_blocks (ring ji.ji_jsb k))) 0 = magicNumber ∧
      be32 (fs.disk (ji.ji_blocks (ring ji.ji_jsb k))) 8 = sequence ji.ji_jsb.s_sequence i)) :
    ∃ used next ret, (∀ b ∈ used, b ∈ fs.used_blocks ∨ b = ji.ji_blocks (ring ji.ji_jsb k)) ∧
      ∀ fuel, walkLoop false (fuel + 1) (walkAt ji fs root k i) =
        some ⟨{ fs with used_blocks := used }, { ji with ji_revoke := root },
          sequence ji.ji_jsb.s_sequence i, next, ret⟩ := by
  simp only [walkLoop, Option.isNone_none, Bool.or_true, Bool.not_true, Bool.false_eq_true, if_false,
    Bool.false_and, Bool.not_false, readJournalBlock, if_true, if_neg (Nat.not_le.mpr inside)]
  by_cases again : ji.ji_blocks (ring ji.ji_jsb k) ∈ fs.used_blocks
  · simp only [if_pos again]
    exact ⟨fs.used_blocks, _, _, fun b member => Or.inl member, fun _ => rfl⟩
  · simp only [if_neg again]
    refine ⟨insert (ji.ji_blocks (ring ji.ji_jsb k)) fs.used_blocks, jwrap ji.ji_jsb (ring ji.ji_jsb k + 1),
      none, fun b member => (Finset.mem_insert.mp member).symm, fun _ => ?_⟩
    by_cases magic : be32 (fs.disk (ji.ji_blocks (ring ji.ji_jsb k))) 0 = magicNumber
    · have seq : ¬be32 (fs.disk (ji.ji_blocks (ring ji.ji_jsb k))) 8 = sequence ji.ji_jsb.s_sequence i :=
        fun same => ended ⟨magic, same⟩
      simp only [magic, ne_eq, not_true, if_false, seq, not_false_eq_true, if_true]
    · simp only [magic, ne_eq, not_false_eq_true, if_true]

end Scan

end Ocfs2.Journal
