import Ocfs2.Fsck.JournalReplay

set_option autoImplicit false

namespace Ocfs2.Journal

open ByteBuffer Rbtree

section Outcome

variable {ji : JournalInfo} {entries : List (Nat × Nat)}

def isCopied (entries : List (Nat × Nat)) (x : Logged) : Bool :=
  decision entries x.tag.block x.transaction == some false

theorem applyCopies_append (disk : Nat → Buffer) (as bs : List Copy) :
    applyCopies disk (as ++ bs) = applyCopies (applyCopies disk as) bs :=
  List.foldl_append

theorem recoverTags_stuck (xs : List Logged) (fs : Fsck) (x : Logged) (member : x ∈ xs)
    (stuck : decision entries x.tag.block x.transaction = none) :
    xs.foldlM (recoverTag ji entries) fs = none := by
  induction xs generalizing fs with
  | nil => cases member
  | cons y ys ih =>
    rw [List.foldlM_cons]
    rcases List.mem_cons.mp member with rfl | later
    · simp [recoverTag, stuck]
    · cases recoverTag ji entries fs y with
      | none => rfl
      | some fs' => exact ih fs' later

theorem recoverTags_copies (disk : Nat → Buffer) (xs : List Logged) (fs : Fsck)
    (answers : ∀ x ∈ xs, decision entries x.tag.block x.transaction ≠ none)
    (same : ∀ x ∈ xs, fs.disk (dataBlock ji x) = disk (dataBlock ji x))
    (apart : ∀ x ∈ xs, ∀ y ∈ xs, x.tag.block ≠ dataBlock ji y) :
    ∃ fs', xs.foldlM (recoverTag ji entries) fs = some fs' ∧
      fs'.copies = fs.copies ++ (xs.filter (isCopied entries)).map (copyOf ji disk) ∧
      fs'.disk = applyCopies fs.disk ((xs.filter (isCopied entries)).map (copyOf ji disk)) := by
  induction xs generalizing fs with
  | nil => exact ⟨fs, rfl, by simp, rfl⟩
  | cons x xs ih =>
    have first : x ∈ x :: xs := List.mem_cons_self
    have later : ∀ y ∈ xs, y ∈ x :: xs := fun y hy => List.mem_cons_of_mem _ hy
    obtain ⟨revoked, answer⟩ := Option.ne_none_iff_exists'.mp (answers x first)
    rw [List.foldlM_cons, recoverTag, answer]
    cases revoked with
    | true =>
      have skipped : isCopied entries x = false := by simp [isCopied, answer]
      rw [List.filter_cons_of_neg (by simp [skipped])]
      exact ih fs (fun y hy => answers y (later y hy)) (fun y hy => same y (later y hy))
        (fun y hy z hz => apart y (later y hy) z (later z hz))
    | false =>
      have copied : isCopied entries x = true := by simp [isCopied, answer]
      have copy : copyOf ji fs.disk x = copyOf ji disk x := by
        have data := same x first
        simp only [dataBlock] at data
        simp only [copyOf, data]
      obtain ⟨fs', run, copies, disk'⟩ := ih (writeTag ji fs x) (fun y hy => answers y (later y hy))
        (by
          intro y hy
          rw [writeTag]
          simp only [Function.update_of_ne (apart x first y (later y hy)).symm]
          exact same y (later y hy))
        (fun y hy z hz => apart y (later y hy) z (later z hz))
      rw [List.filter_cons_of_pos copied]
      refine ⟨fs', run, ?_, ?_⟩
      · rw [copies, writeTag, copy]
        simp
      · rw [disk', writeTag, copy]
        rfl

end Outcome

section Slots

structure Slot where
  ji : JournalInfo
  log : Log

namespace Slot

variable (slot : Slot)

def Owns (b : Nat) : Prop :=
  slot.ji.ji_dirty = true ∧ ∃ k < slot.ji.ji_jsb.s_maxlen, b = slot.ji.ji_blocks k

def Empty : Prop :=
  slot.log.records = [] ∧ (slot.ji.ji_dirty = true → slot.ji.ji_jsb.s_start = 0)

structure WellFormed (fs_blocks : Nat) (disk : Nat → Buffer) : Prop where
  ji_revoke : slot.ji.ji_revoke = .nil
  ji_replay : slot.ji.ji_replay = false
  superblock : slot.ji.ji_dirty = true →
    0 < slot.ji.ji_jsb.s_maxlen ∧ slot.ji.ji_blocks 0 < fs_blocks
  journal : slot.Empty ∨ (slot.ji.ji_dirty = true ∧ Journaled fs_blocks disk slot.ji slot.log)

def Marked (b : Nat) : Prop :=
  slot.ji.ji_dirty = true ∧
    (b = slot.ji.ji_blocks 0 ∨ (slot.ji.ji_jsb.s_start ≠ 0 ∧ Marks slot.ji slot.log b))

def entries : List (Nat × Nat) := slot.log.entries slot.ji.ji_jsb

def reachedTags : List Logged := slot.log.tags.filter (slot.log.reached slot.ji.ji_jsb)

abbrev after (replay : Bool) (root : Node RevokeEntry) (set : Bool) (seq : BitVec 32) : JournalInfo :=
  { slot.ji with ji_replay := replay, ji_revoke := root, ji_set_final_seq := set, ji_final_seq := seq }

structure Scanned (ji : JournalInfo) : Prop where
  unchanged : ∃ replay root set seq, ji = slot.after replay root set seq
  ji_replay : ji.ji_replay = slot.ji.ji_dirty
  found : slot.Empty ∨ (Represents slot.ji.ji_jsb.s_sequence ji.ji_revoke slot.entries ∧
    ji.ji_final_seq = sequence slot.ji.ji_jsb.s_sequence slot.log.transactions)

variable {slot} {fs_blocks : Nat} {disk : Nat → Buffer}

theorem Empty.tags (empty : slot.Empty) : slot.log.tags = [] := by
  have records := empty.1
  rw [Log.records, List.append_eq_nil_iff] at records
  rw [Log.tags, records.1]
  rfl

theorem WellFormed.marked_owned (wf : slot.WellFormed fs_blocks disk) {b : Nat} (marked : slot.Marked b) :
    slot.Owns b := by
  obtain ⟨dirty, superblock | ⟨started, marks⟩⟩ := marked
  · exact ⟨dirty, 0, (wf.superblock dirty).1, superblock⟩
  · rcases wf.journal with empty | ⟨-, journaled⟩
    · exact absurd (empty.2 dirty) started
    · exact ⟨dirty, journaled.marks_inside marks⟩

theorem WellFormed.tag_owned (wf : slot.WellFormed fs_blocks disk) {x : Logged} (hx : x ∈ slot.log.tags) :
    slot.Owns (dataBlock slot.ji x) := by
  rcases wf.journal with empty | ⟨dirty, journaled⟩
  · rw [empty.tags] at hx
    cases hx
  · exact ⟨dirty, _, ring_lt journaled.valid x.offset, rfl⟩

theorem WellFormed.tag_unmarked (wf : slot.WellFormed fs_blocks disk) {x : Logged}
    (hx : x ∈ slot.log.tags) : ¬slot.Marked (dataBlock slot.ji x) := by
  rcases wf.journal with empty | ⟨-, journaled⟩
  · rw [empty.tags] at hx
    cases hx
  · rintro ⟨-, superblock | ⟨-, marks⟩⟩
    · exact journaled.data_unmarked hx (Or.inl superblock)
    · exact journaled.data_unmarked hx marks

theorem scan_correct (fs : Fsck) (wf : slot.WellFormed fs.fs_blocks fs.disk)
    (fresh : ∀ b, slot.Owns b → b ∉ fs.used_blocks) :
    ∃ used ji', slot.Scanned ji' ∧ (∀ b ∈ used, b ∈ fs.used_blocks ∨ slot.Marked b) ∧
      ∀ fuel, slot.log.records.length < fuel → ∀ jis, scanSlots fuel fs (slot.ji :: jis) =
        (scanSlots fuel { fs with used_blocks := used } jis).map fun (fs, jis) => (fs, ji' :: jis) := by
  cases dirty : slot.ji.ji_dirty with
  | false =>
    have empty : slot.Empty := wf.journal.elim id fun h => absurd h.1 (by simp [dirty])
    refine ⟨fs.used_blocks, slot.ji, ⟨⟨_, _, _, _, rfl⟩, wf.ji_replay.trans dirty.symm, Or.inl empty⟩,
      fun b member => Or.inl member, ?_⟩
    intro fuel _ jis
    simp only [scanSlots, prepJournalInfo, dirty, Bool.not_false, if_true, wf.ji_replay,
      Option.isSome_none, Bool.false_or]
  | true =>
    obtain ⟨long, mapped⟩ := wf.superblock dirty
    have read := readJournalBlock_marks fs slot.ji 0 (fresh _ ⟨dirty, 0, long, rfl⟩) mapped
    have prep : prepJournalInfo fs slot.ji =
        some (fs.mark (slot.ji.ji_blocks 0), { slot.ji with ji_replay := true }, none) := by
      simp only [prepJournalInfo, dirty, read, Bool.not_true, Bool.false_eq_true, if_false]
    rcases wf.journal with empty | ⟨-, journaled⟩
    · refine ⟨insert (slot.ji.ji_blocks 0) fs.used_blocks, { slot.ji with ji_replay := true },
        ⟨⟨_, _, _, _, rfl⟩, dirty.symm, Or.inl empty⟩, ?_, ?_⟩
      · intro b member
        rcases Finset.mem_insert.mp member with rfl | old
        · exact Or.inr ⟨dirty, Or.inl rfl⟩
        · exact Or.inl old
      · intro fuel _ jis
        simp only [scanSlots, prep, Option.isSome_none, Bool.not_true, Bool.or_false, Bool.false_eq_true,
          if_false, walkJournal, empty.2 dirty, if_true]
        rfl
    · have first_pos := journaled.valid.first_pos
      have first_le := journaled.valid.first_le
      obtain ⟨root, used, ret, holds, marks, run⟩ := walkJournal_scan (fs.mark (slot.ji.ji_blocks 0))
        { slot.ji with ji_replay := true } slot.log
        ⟨journaled.valid, journaled.fits, journaled.few, journaled.mapped, journaled.injective,
          journaled.hole, journaled.readable, journaled.range, journaled.ended⟩ wf.ji_revoke
        (by
          intro k member
          rcases Finset.mem_insert.mp member with superblock | old
          · have lower := ring_ge slot.ji.ji_jsb k
            have := journaled.injective _ (ring_lt journaled.valid k) 0 long superblock
            omega
          · exact fresh _ ⟨dirty, _, ring_lt journaled.valid k, rfl⟩ old)
      refine ⟨used, slot.after true root true (sequence slot.ji.ji_jsb.s_sequence slot.log.transactions),
        ⟨⟨_, _, _, _, rfl⟩, dirty.symm, Or.inr ⟨holds, rfl⟩⟩, ?_, ?_⟩
      · intro b member
        rcases marks b member with old | mark
        · rcases Finset.mem_insert.mp old with rfl | older
          · exact Or.inr ⟨dirty, Or.inl rfl⟩
          · exact Or.inl older
        · exact Or.inr ⟨dirty, Or.inr ⟨by omega, mark⟩⟩
      · intro fuel enough jis
        simp only [scanSlots, prep, Option.isSome_none, Bool.not_true, Bool.or_false, Bool.false_eq_true,
          if_false, run fuel enough]
        rfl

theorem replaySlots_cons (fuel : Nat) (fs : Fsck) (ji ji' : JournalInfo) (jis : List JournalInfo)
    (result : Option Fsck) (replay : ji.ji_replay = true)
    (walk : walkJournal fuel fs ji true = result.map fun fs => (fs, ji', none)) :
    replaySlots fuel fs (ji :: jis) = result.bind fun fs =>
      (replaySlots fuel fs jis).map fun (fs, jis) => (fs, resetJournal ji' :: jis) := by
  simp only [replaySlots, replay, Bool.not_true, Bool.false_eq_true, if_false, walk]
  cases result <;> rfl

theorem Journaled.after (journaled : Journaled fs_blocks disk slot.ji slot.log) (disk' : Nat → Buffer)
    (same : ∀ k < slot.ji.ji_jsb.s_maxlen, disk' (slot.ji.ji_blocks k) = disk (slot.ji.ji_blocks k))
    (replay : Bool) (root : Node RevokeEntry) (set : Bool) (seq : BitVec 32) :
    Journaled fs_blocks disk' (slot.after replay root set seq) slot.log :=
  { journaled with
    readable := by
      intro p hp
      simp only [headerBlock, same _ (ring_lt journaled.valid p.offset)]
      exact journaled.readable p hp
    ended := by
      simp only [same _ (ring_lt journaled.valid (logSize slot.log.records))]
      exact journaled.ended }

theorem replay_correct (fs : Fsck) (ji : JournalInfo) (wf : slot.WellFormed fs.fs_blocks disk)
    (scanned : slot.Scanned ji) (same : ∀ b, slot.Owns b → fs.disk b = disk b)
    (fresh : ∀ x ∈ slot.log.tags, dataBlock slot.ji x ∉ fs.used_blocks)
    (targets : ∀ x ∈ slot.log.tags, ¬slot.Owns x.tag.block)
    (behind : be32 (fs.disk 0) 0 ≠ magicNumber) :
    ∃ ji', ∀ fuel, slot.log.records.length + 1 < fuel → ∀ jis, replaySlots fuel fs (ji :: jis) =
      (slot.reachedTags.foldlM (recoverTag slot.ji slot.entries) fs).bind fun fs =>
        (replaySlots fuel fs jis).map fun (fs, jis) => (fs, ji' :: jis) := by
  obtain ⟨⟨replay, root, set, seq, rfl⟩, replays, found⟩ := scanned
  rcases wf.journal with empty | ⟨dirty, journaled⟩
  · have nothing : slot.reachedTags = [] := by rw [reachedTags, empty.tags, List.filter_nil]
    cases dirty : slot.ji.ji_dirty with
    | false =>
      have clean : replay = false := replays.trans dirty
      refine ⟨slot.after replay root set seq, fun fuel _ jis => ?_⟩
      simp only [replaySlots, clean, Bool.not_false, if_true, nothing]
      rfl
    | true =>
      refine ⟨resetJournal (slot.after replay root set seq), fun fuel _ jis => ?_⟩
      rw [nothing]
      refine replaySlots_cons fuel fs _ (slot.after replay root set seq) jis (some fs)
        (replays.trans dirty) ?_
      rw [walkJournal, if_pos (empty.2 dirty)]
      rfl
  · have started : ¬slot.Empty := by
      intro empty
      have first_pos := journaled.valid.first_pos
      have first_le := journaled.valid.first_le
      have := empty.2 dirty
      omega
    obtain ⟨holds, final⟩ := found.resolve_left started
    have now := Journaled.after journaled fs.disk (fun k inside => same _ ⟨dirty, k, inside, rfl⟩)
      replay root set seq
    obtain ⟨root', run⟩ := now.walkJournal_recover holds final fresh
      (fun x hx k inside owned => targets x hx ⟨dirty, k, inside, owned⟩) behind
    have shorter : slot.log.committed.length ≤ slot.log.records.length := by
      rw [Log.records, List.length_append]
      exact Nat.le_add_right _ _
    exact ⟨_, fun fuel enough jis => replaySlots_cons fuel fs _ _ jis _ (replays.trans dirty)
      (run fuel (by omega))⟩

end Slot

end Slots

end Ocfs2.Journal
