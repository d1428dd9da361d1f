import Ocfs2.Fsck.JournalWalk

set_option autoImplicit false

namespace Ocfs2.Journal

open ByteBuffer Rbtree

variable {ji : JournalInfo} {entries : List (Nat × Nat)} {m i k : Nat} {fs : Fsck} {root : Node RevokeEntry}
  {tags : List Tag} (valid : ji.ji_jsb.Valid)
  (final : ji.ji_final_seq = sequence ji.ji_jsb.s_sequence m) (few : m < 2 ^ 31)
  (holds : Represents ji.ji_jsb.s_sequence root entries)

include final few in
theorem seqGeq_final (le : i ≤ m) :
    seqGeq (sequence ji.ji_jsb.s_sequence i) ji.ji_final_seq = decide (m ≤ i) := by
  rw [final, seqGeq_sequence _ _ _ (by omega) few]

include valid final few in
theorem recover_enter (p : Placed) (more : p.transaction < m)
    (encodes : Encodes ji.ji_jsb (fs.disk (headerBlock ji p))
      (sequence ji.ji_jsb.s_sequence p.transaction) p.record) (fuel : Nat) :
    walkLoop true (fuel + 1) (walkAt ji fs root p.offset p.transaction) =
      (walkRecord true (walkAt ji fs root (p.offset + 1) p.transaction) (fs.disk (headerBlock ji p))).bind
        (walkLoop true fuel) := by
  refine walkLoop_record valid true fs fs root p _ ?_ rfl encodes fuel
  rw [seqGeq_final final few more.le]
  exact decide_eq_false (Nat.not_le.mpr more)

include valid final few holds in
theorem recover_descriptor (more : i < m)
    (encodes : Encodes ji.ji_jsb (fs.disk (ji.ji_blocks (ring ji.ji_jsb k)))
      (sequence ji.ji_jsb.s_sequence i) (.descriptor tags))
    (ready : Ready ji fs (logTags (k + 1) i tags)) (fuel : Nat) :
    walkLoop true (fuel + 1) (walkAt ji fs root k i) =
      ((logTags (k + 1) i tags).foldlM (recoverTag ji entries) fs).bind fun fs =>
        walkLoop true fuel { walkAt ji fs root k i with next_block := ring ji.ji_jsb (k + tags.length) + 1 } := by
  rw [recover_enter valid final few ⟨k, i, .descriptor tags⟩ more encodes]
  obtain ⟨-, -, type, listed⟩ := encodes
  have replay := replayBlocks_eq holds (more.trans few) valid listed ready
  rw [show k + 1 + tags.length - 1 = k + tags.length by omega] at replay
  simp only [walkRecord, headerBlock, type, if_true, replay]
  cases (logTags (k + 1) i tags).foldlM (recoverTag ji entries) fs <;> rfl

include valid final few holds in
theorem recover_step (p : Placed) (more : p.transaction < m)
    (encodes : Encodes ji.ji_jsb (fs.disk (headerBlock ji p))
      (sequence ji.ji_jsb.s_sequence p.transaction) p.record)
    (ready : Ready ji fs p.tags) (known : ∀ e ∈ p.counted ji.ji_jsb, e ∈ entries)
    (inside : p.offset + p.record.size ≤ ji.ji_jsb.room)
    (straight : p.record.isDescriptor = true → p.offset + p.record.size ≠ ji.ji_jsb.turn) :
    ∃ root', Represents ji.ji_jsb.s_sequence root' entries ∧
      ∀ fuel, walkLoop true (fuel + 1) (walkAt ji fs root p.offset p.transaction) =
        (p.tags.foldlM (recoverTag ji entries) fs).bind fun fs =>
          walkLoop true fuel (walkAt ji fs root' (p.offset + p.record.size)
            (p.record.following p.transaction)) := by
  obtain ⟨offset, i, record⟩ := p
  cases record with
  | descriptor tags =>
    refine ⟨root, holds, fun fuel => ?_⟩
    simp only [Record.size, ← Nat.add_assoc, Nat.add_right_comm _ 1] at inside straight ⊢
    rw [recover_descriptor valid final few holds more encodes ready,
      ring_succ valid (offset + tags.length) (by omega) (straight rfl)]
    rfl
  | revoke blocks =>
    obtain ⟨root', holds', run⟩ := walkRecord_revoke true fs root (offset + 1) i _ blocks holds
      (more.trans few) encodes
    -- the first walk has entered all of it already
    refine ⟨root', holds'.congr ?_, fun fuel => (recover_enter valid final few _ more encodes fuel).trans ?_⟩
    · intro e
      rw [List.mem_append]
      exact ⟨fun h => h.elim id (known e), Or.inl⟩
    · rw [run]
      rfl
  | commit =>
    refine ⟨root, holds, fun fuel => (recover_enter valid final few _ more encodes fuel).trans ?_⟩
    rw [walkRecord_commit ji true fs root (offset + 1) i _ encodes.2.2]
    rfl

include valid final few holds in
theorem recover_run {records : List Record} (more : ∀ p ∈ place k i records, p.transaction < m)
    (readable : Readable ji fs.disk (place k i records))
    (ready : Ready ji fs ((place k i records).flatMap Placed.tags))
    (apart : ∀ x ∈ (place k i records).flatMap Placed.tags, ∀ p ∈ place k i records,
      x.tag.block ≠ headerBlock ji p)
    (known : ∀ p ∈ place k i records, ∀ e ∈ p.counted ji.ji_jsb, e ∈ entries)
    (inside : k + logSize records ≤ ji.ji_jsb.room)
    (straight : ∀ p ∈ place k i records,
      p.record.isDescriptor = true → p.offset + p.record.size ≠ ji.ji_jsb.turn) :
    ∃ root', Represents ji.ji_jsb.s_sequence root' entries ∧
      ∀ fuel, walkLoop true (records.length + fuel) (walkAt ji fs root k i) =
        (((place k i records).flatMap Placed.tags).foldlM (recoverTag ji entries) fs).bind fun fs =>
          walkLoop true fuel (walkAt ji fs root' (k + logSize records) (i + commits records)) := by
  induction records generalizing k i fs root with
  | nil =>
    refine ⟨root, holds, fun fuel => ?_⟩
    simp [place, logSize, commits]
  | cons record records ih =>
    simp only [place, List.forall_mem_cons, List.flatMap_cons] at more readable ready apart known straight ⊢
    rw [logSize_cons] at inside
    obtain ⟨mid, holds', step⟩ := recover_step valid final few holds ⟨k, i, record⟩ more.1
      (readable _ List.mem_cons_self) ready.first known.1 (by simp only; omega) straight.1
    rcases run : (Placed.tags ⟨k, i, record⟩).foldlM (recoverTag ji entries) fs with _ | fs'
    · refine ⟨mid, holds', fun fuel => ?_⟩
      rw [List.length_cons, Nat.add_right_comm, step, run, List.foldlM_append, run]
      rfl
    · have changed := recoverTags_recovering run
      obtain ⟨root', holds'', rest⟩ := ih holds' more.2
        (by
          intro p hp
          rw [changed.disk _ fun x hx => (apart x (List.mem_append_left _ hx)).2 p hp]
          exact readable p (List.mem_cons_of_mem _ hp))
        (ready.rest changed) (fun x hx => (apart x (List.mem_append_right _ hx)).2) known.2 (by omega) straight.2
      refine ⟨root', holds'', fun fuel => ?_⟩
      rw [List.length_cons, Nat.add_right_comm, step, run, List.foldlM_append, run]
      simp only [Option.bind_eq_bind, Option.bind_some]
      rw [rest, logSize_cons, commits_cons, Nat.add_assoc]

include valid final few holds in
theorem recover_stop (more : i < m)
    (encodes : Encodes ji.ji_jsb (fs.disk (ji.ji_blocks (ring ji.ji_jsb k)))
      (sequence ji.ji_jsb.s_sequence i) (.descriptor tags))
    (ready : Ready ji fs (logTags (k + 1) i tags))
    (inside : k + (1 + tags.length) ≤ ji.ji_jsb.room) (turn : k + (1 + tags.length) = ji.ji_jsb.turn)
    (behind : be32 (fs.disk (ji.ji_blocks ji.ji_jsb.s_maxlen)) 0 ≠ magicNumber)
    (apart : ∀ x ∈ logTags (k + 1) i tags, x.tag.block ≠ ji.ji_blocks ji.ji_jsb.s_maxlen) (fuel : Nat) :
    walkLoop true (fuel + 2) (walkAt ji fs root k i) =
      ((logTags (k + 1) i tags).foldlM (recoverTag ji entries) fs).map fun fs =>
        { walkAt ji fs root k i with next_block := jwrap ji.ji_jsb (ji.ji_jsb.s_maxlen + 1) } := by
  have goOn := seqGeq_final final few more.le
  rw [decide_eq_false (Nat.not_le.mpr more)] at goOn
  rw [recover_descriptor valid final few holds more encodes ready,
    ring_turn valid (k + tags.length) (by omega) (by omega)]
  rcases fold : (logTags (k + 1) i tags).foldlM (recoverTag ji entries) fs with _ | fs'
  · rfl
  · have hole : be32 (fs'.disk (ji.ji_blocks ji.ji_jsb.s_maxlen)) 0 ≠ magicNumber := by
      rw [(recoverTags_recovering fold).disk _ apart]
      exact behind
    simp only [Option.map_some, Option.bind_some, walkLoop, goOn, readJournalBlock, hole, Bool.true_or,
      Bool.not_true, Bool.false_eq_true, if_false, Bool.and_false, ne_eq, not_false_eq_true, if_true]

include final few in
theorem recover_end (fuel : Nat) :
    walkLoop true (fuel + 1) (walkAt ji fs root k m) = some (walkAt ji fs root k m) := by
  simp [walkLoop, seqGeq_final final few le_rfl]

end Ocfs2.Journal
