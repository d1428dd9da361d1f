import Ocfs2.Fsck.JournalSlots

set_option autoImplicit false

namespace Ocfs2.Journal

open ByteBuffer Rbtree

section Slots

def copiesOf (disk : Nat → Buffer) (slots : List Slot) : List Copy :=
  slots.flatMap fun slot => slot.log.copies slot.ji disk

def Slot.written (slot : Slot) (disk : Nat → Buffer) : List Copy :=
  (slot.reachedTags.filter (isCopied slot.entries)).map (copyOf slot.ji disk)

def Slot.Answers (slot : Slot) : Prop :=
  ∀ x ∈ slot.reachedTags, decision slot.entries x.tag.block x.transaction ≠ none

structure Apart (slots : List Slot) : Prop where
  journals : slots.Pairwise fun a b => ∀ block, a.Owns block → ¬b.Owns block
  targets : ∀ a ∈ slots, ∀ b ∈ slots, ∀ x ∈ a.log.tags, ¬b.Owns x.tag.block

theorem Apart.tail {slot : Slot} {slots : List Slot} (apart : Apart (slot :: slots)) : Apart slots where
  journals := (List.pairwise_cons.mp apart.journals).2
  targets := fun a ha b hb => apart.targets a (List.mem_cons_of_mem _ ha) b (List.mem_cons_of_mem _ hb)

theorem scanSlots_correct (slots : List Slot) (fs : Fsck) (apart : Apart slots)
    (wf : ∀ slot ∈ slots, slot.WellFormed fs.fs_blocks fs.disk)
    (fresh : ∀ slot ∈ slots, ∀ b, slot.Owns b → b ∉ fs.used_blocks) :
    ∃ used jis, List.Forall₂ Slot.Scanned slots jis ∧
      (∀ b ∈ used, b ∈ fs.used_blocks ∨ ∃ slot ∈ slots, slot.Marked b) ∧
      ∀ fuel, (∀ slot ∈ slots, slot.log.records.length + 1 < fuel) →
        scanSlots fuel fs (slots.map Slot.ji) = some ({ fs with used_blocks := used }, jis) := by
  induction slots generalizing fs with
  | nil => exact ⟨fs.used_blocks, [], .nil, fun b member => Or.inl member, fun _ _ => rfl⟩
  | cons slot slots ih =>
    have here : slot ∈ slot :: slots := List.mem_cons_self
    have later : ∀ s ∈ slots, s ∈ slot :: slots := fun s hs => List.mem_cons_of_mem _ hs
    have others := (List.pairwise_cons.mp apart.journals).1
    obtain ⟨used, ji, scanned, marks, step⟩ := slot.scan_correct fs (wf slot here) (fresh slot here)
    obtain ⟨used', jis, scanned', marks', rest⟩ := ih { fs with used_blocks := used } apart.tail
      (fun s hs => wf s (later s hs))
      (by
        intro s hs b owned member
        rcases marks b member with old | marked
        · exact fresh s (later s hs) b owned old
        · exact others s hs b ((wf slot here).marked_owned marked) owned)
    refine ⟨used', ji :: jis, .cons scanned scanned', ?_, ?_⟩
    · intro b member
      rcases marks' b member with old | ⟨s, hs, marked⟩
      · exact (marks b old).imp id fun marked => ⟨slot, here, marked⟩
      · exact Or.inr ⟨s, later s hs, marked⟩
    · intro fuel enough
      have := enough slot here
      rw [List.map_cons, step fuel (by omega), rest fuel fun s hs => enough s (later s hs)]
      rfl

structure Waiting (fs_blocks : Nat) (disk : Nat → Buffer) (slots : List Slot) (fs : Fsck) : Prop where
  fs_blocks : fs.fs_blocks = fs_blocks
  behind : be32 (fs.disk 0) 0 ≠ magicNumber
  disk : ∀ slot ∈ slots, ∀ b, slot.Owns b → fs.disk b = disk b
  fresh : ∀ slot ∈ slots, ∀ x ∈ slot.log.tags, dataBlock slot.ji x ∉ fs.used_blocks

variable {fs_blocks : Nat} {disk : Nat → Buffer}

theorem Slot.reached_subset (slot : Slot) {x : Logged} (hx : x ∈ slot.reachedTags) : x ∈ slot.log.tags :=
  (List.mem_filter.mp hx).1

theorem Slot.WellFormed.tag_ne_zero {slot : Slot} (wf : slot.WellFormed fs_blocks disk) {x : Logged}
    (hx : x ∈ slot.log.tags) : x.tag.block ≠ 0 := by
  rcases wf.journal with empty | ⟨-, journaled⟩
  · rw [empty.tags] at hx
    cases hx
  · obtain ⟨record, hr, ht⟩ := slot.log.tag_mem hx
    have := journaled.range record hr x.tag ht
    omega

theorem Waiting.rest {slot : Slot} {slots : List Slot} {fs fs' : Fsck}
    (waiting : Waiting fs_blocks disk (slot :: slots) fs) (apart : Apart (slot :: slots))
    (wf : ∀ s ∈ slot :: slots, s.WellFormed fs_blocks disk)
    (changed : Recovering slot.ji fs fs' slot.reachedTags) : Waiting fs_blocks disk slots fs' where
  fs_blocks := changed.fs_blocks.trans waiting.fs_blocks
  behind := by
    rw [changed.disk 0 fun x hx => (wf slot List.mem_cons_self).tag_ne_zero (slot.reached_subset hx)]
    exact waiting.behind
  disk := by
    intro s hs b owned
    rw [changed.disk b, waiting.disk s (List.mem_cons_of_mem _ hs) b owned]
    rintro x hx rfl
    exact apart.targets slot List.mem_cons_self s (List.mem_cons_of_mem _ hs) x
      (slot.reached_subset hx) owned
  fresh := by
    intro s hs x hx member
    rcases changed.used _ member with old | ⟨y, hy, same⟩
    · exact waiting.fresh s (List.mem_cons_of_mem _ hs) x hx old
    · have owned := (wf s (List.mem_cons_of_mem _ hs)).tag_owned hx
      rw [same] at owned
      exact (List.pairwise_cons.mp apart.journals).1 s hs _
        ((wf slot List.mem_cons_self).tag_owned (slot.reached_subset hy)) owned

theorem Waiting.written {slot : Slot} {slots : List Slot} {fs : Fsck}
    (waiting : Waiting fs_blocks disk (slot :: slots) fs) (apart : Apart (slot :: slots))
    (wf : slot.WellFormed fs_blocks disk) (answers : slot.Answers) :
    ∃ fs', slot.reachedTags.foldlM (recoverTag slot.ji slot.entries) fs = some fs' ∧
      fs'.copies = fs.copies ++ slot.written disk ∧ fs'.disk = applyCopies fs.disk (slot.written disk) := by
  refine recoverTags_copies disk slot.reachedTags fs answers ?_ ?_
  · intro x hx
    exact waiting.disk slot List.mem_cons_self _ (wf.tag_owned (slot.reached_subset hx))
  · intro x hx y hy same
    have owned := wf.tag_owned (slot.reached_subset hy)
    rw [← same] at owned
    exact apart.targets slot List.mem_cons_self slot List.mem_cons_self x (slot.reached_subset hx) owned

theorem replaySlots_cases (slots : List Slot) (jis : List JournalInfo) (fs : Fsck) (apart : Apart slots)
    (wf : ∀ slot ∈ slots, slot.WellFormed fs_blocks disk) (scanned : List.Forall₂ Slot.Scanned slots jis)
    (waiting : Waiting fs_blocks disk slots fs) :
    ((∀ slot ∈ slots, slot.Answers) ∧ ∃ fs' jis',
      fs'.copies = fs.copies ++ slots.flatMap (fun slot => slot.written disk) ∧
      fs'.disk = applyCopies fs.disk (slots.flatMap fun slot => slot.written disk) ∧
      ∀ fuel, (∀ slot ∈ slots, slot.log.records.length + 1 < fuel) →
        replaySlots fuel fs jis = some (fs', jis')) ∨
    (¬ ∀ slot ∈ slots, slot.Answers) ∧
      ∀ fuel, (∀ slot ∈ slots, slot.log.records.length + 1 < fuel) → replaySlots fuel fs jis = none := by
  induction scanned generalizing fs with
  | nil => exact .inl ⟨by simp, fs, [], by simp, rfl, fun _ _ => rfl⟩
  | @cons slot ji slots jis here _ ih =>
    have first : slot ∈ slot :: slots := List.mem_cons_self
    have later : ∀ s ∈ slots, s ∈ slot :: slots := fun s hs => List.mem_cons_of_mem _ hs
    have wfSlot : slot.WellFormed fs.fs_blocks disk := waiting.fs_blocks ▸ wf slot first
    obtain ⟨ji', step⟩ := slot.replay_correct fs ji wfSlot here (waiting.disk slot first)
      (waiting.fresh slot first) (apart.targets slot first slot first) waiting.behind
    by_cases answers : slot.Answers
    · obtain ⟨mid, fold, copies, written⟩ := waiting.written apart (wf slot first) answers
      rcases ih mid apart.tail (fun s hs => wf s (later s hs))
        (waiting.rest apart wf (recoverTags_recovering fold)) with
        ⟨all, fs', jis', copies', written', rest⟩ | ⟨stuck, rest⟩
      · refine .inl ⟨List.forall_mem_cons.mpr ⟨answers, all⟩, fs', ji' :: jis', ?_, ?_, ?_⟩
        · rw [copies', copies, List.flatMap_cons, List.append_assoc]
        · rw [written', written, List.flatMap_cons, applyCopies_append]
        · intro fuel enough
          rw [step fuel (enough slot first), fold, Option.bind_some, rest fuel fun s hs => enough s (later s hs)]
          rfl
      · refine .inr ⟨fun all => stuck fun s hs => all s (later s hs), fun fuel enough => ?_⟩
        rw [step fuel (enough slot first), fold, Option.bind_some, rest fuel fun s hs => enough s (later s hs)]
        rfl
    · refine .inr ⟨fun all => answers (all slot first), fun fuel enough => ?_⟩
      simp only [Slot.Answers, not_forall, not_not] at answers
      obtain ⟨x, hx, silent⟩ := answers
      rw [step fuel (enough slot first), recoverTags_stuck _ fs x hx silent]
      rfl

end Slots

section Recovery

structure WellFormed (fs : Fsck) (slots : List Slot) : Prop where
  journals : ∀ slot ∈ slots, slot.WellFormed fs.fs_blocks fs.disk
  numbered : (slots.map fun slot => slot.ji.ji_slot).Nodup
  apart : Apart slots
  used_blocks : fs.used_blocks = ∅
  copies : fs.copies = []
  first_block : be32 (fs.disk 0) 0 ≠ magicNumber

def Recovers (fs : Fsck) (slots : List Slot) : Prop :=
  ∃ n fs' jis, (∀ fuel ≥ n, replayJournals fuel fs (slots.map Slot.ji) = some (fs', jis)) ∧
    fs'.copies = copiesOf fs.disk slots ∧ fs'.disk = applyCopies fs.disk (copiesOf fs.disk slots)

def Faithful (slots : List Slot) : Prop :=
  ∀ slot ∈ slots, ∀ x ∈ slot.log.tags, slot.log.Faithful slot.ji.ji_jsb x

variable {fs : Fsck} {slots : List Slot}

theorem WellFormed.scanned (wf : WellFormed fs slots) :
    ∃ used jis, List.Forall₂ Slot.Scanned slots jis ∧
      Waiting fs.fs_blocks fs.disk slots { fs with used_blocks := used } ∧
      ∀ fuel, (∀ slot ∈ slots, slot.log.records.length + 1 < fuel) →
        replayJournals fuel fs (slots.map Slot.ji) = replaySlots fuel { fs with used_blocks := used } jis := by
  obtain ⟨used, jis, scanned, marks, run⟩ := scanSlots_correct slots fs wf.apart wf.journals
    (by simp [wf.used_blocks])
  refine ⟨used, jis, scanned, ⟨rfl, wf.first_block, fun _ _ _ _ => rfl, ?_⟩, ?_⟩
  · intro slot hs x hx member
    rcases marks _ member with old | ⟨other, ho, marked⟩
    · simp [wf.used_blocks] at old
    · by_cases same : other = slot
      · subst same
        exact (wf.journals other hs).tag_unmarked hx marked
      · -- another journal would have to share the block
        have : Std.Symm fun a b : Slot => ∀ block, a.Owns block → ¬b.Owns block :=
          ⟨fun _ _ apart block mine yours => apart block yours mine⟩
        exact wf.apart.journals.forall ho hs same _ ((wf.journals other ho).marked_owned marked)
          ((wf.journals slot hs).tag_owned hx)
  · intro fuel enough
    rw [replayJournals, run fuel enough]

def rounds (slots : List Slot) : Nat := (slots.map fun slot => slot.log.records.length).sum + 2

theorem rounds_enough (slot : Slot) (hs : slot ∈ slots) (fuel : Nat) (enough : rounds slots ≤ fuel) :
    slot.log.records.length + 1 < fuel := by
  have := List.single_le_sum (l := slots.map fun slot => slot.log.records.length) (by simp) _
    (List.mem_map_of_mem hs)
  rw [rounds] at enough
  omega

theorem WellFormed.copyOf_injective (wf : WellFormed fs slots) {a b : Slot} (ha : a ∈ slots) (hb : b ∈ slots)
    {x y : Logged} (hx : x ∈ a.log.tags) (hy : y ∈ b.log.tags)
    (same : copyOf a.ji fs.disk x = copyOf b.ji fs.disk y) : a = b ∧ x = y := by
  obtain ⟨number, place, -, -⟩ := Copy.mk.injEq .. ▸ same
  obtain rfl : a = b := List.inj_on_of_nodup_map wf.numbered ha hb number
  refine ⟨rfl, ?_⟩
  rcases (wf.journals a ha).journal with empty | ⟨-, journaled⟩
  · rw [empty.tags] at hx
    cases hx
  · have blocks : (a.log.tags.map (dataBlock a.ji)).Nodup := List.pairwise_map.mpr journaled.data_distinct
    exact List.inj_on_of_nodup_map blocks hx hy (congrArg a.ji.ji_blocks place)

theorem mem_written {slot : Slot} {disk : Nat → Buffer} {c : Copy} :
    c ∈ slot.written disk ↔ ∃ x ∈ slot.log.tags, slot.log.reached slot.ji.ji_jsb x = true ∧
      isCopied slot.entries x = true ∧ copyOf slot.ji disk x = c := by
  simp only [Slot.written, Slot.reachedTags, List.mem_map, List.mem_filter, and_assoc]

theorem mem_copies {slot : Slot} {disk : Nat → Buffer} {c : Copy} :
    c ∈ slot.log.copies slot.ji disk ↔
      ∃ x ∈ slot.log.tags, slot.log.isRevoked x = false ∧ copyOf slot.ji disk x = c := by
  simp only [Log.copies, List.mem_map, List.mem_filter, Bool.not_eq_true', and_assoc]

theorem Faithful.answers (faithful : Faithful slots) (slot : Slot) (hs : slot ∈ slots) : slot.Answers := by
  intro x hx silent
  obtain ⟨inLog, reached⟩ := List.mem_filter.mp hx
  have := faithful slot hs x inLog
  rw [Log.Faithful, if_pos reached] at this
  rw [Slot.entries, this] at silent
  cases silent

theorem Faithful.written (faithful : Faithful slots) (disk : Nat → Buffer) :
    (slots.flatMap fun slot => slot.written disk) = copiesOf disk slots := by
  refine List.flatMap_congr fun slot hs => ?_
  rw [Slot.written, Slot.reachedTags, List.filter_filter, Log.copies]
  congr 1
  refine List.filter_congr fun x hx => ?_
  have := faithful slot hs x hx
  rw [Log.Faithful] at this
  split at this
  next reached =>
    rw [reached, isCopied, Slot.entries, this]
    cases slot.log.isRevoked x <;> rfl
  next missed =>
    rw [Bool.not_eq_true] at missed
    rw [this, missed]
    simp

theorem recovers_of_faithful (wf : WellFormed fs slots) (faithful : Faithful slots) : Recovers fs slots := by
  obtain ⟨used, jis, scanned, waiting, run⟩ := wf.scanned
  obtain ⟨-, fs', jis', copies, disk, replay⟩ := (replaySlots_cases slots jis _ wf.apart wf.journals scanned
    waiting).resolve_right fun stuck => stuck.1 faithful.answers
  rw [faithful.written] at copies disk
  refine ⟨rounds slots, fs', jis', ?_, ?_, disk⟩
  · intro fuel enough
    have each := fun slot hs => rounds_enough slot hs fuel enough
    rw [run fuel each, replay fuel each]
  · rw [copies]
    simp [wf.copies]

theorem faithful_of_recovers (wf : WellFormed fs slots) (recovers : Recovers fs slots) : Faithful slots := by
  obtain ⟨n, fs', jis, ends, copies, -⟩ := recovers
  obtain ⟨used, jis', scanned, waiting, run⟩ := wf.scanned
  have each := fun slot hs => rounds_enough slot hs (max n (rounds slots)) (le_max_right _ _)
  have result := ends (max n (rounds slots)) (le_max_left _ _)
  rw [run _ each] at result
  obtain ⟨answers, fs'', jis'', copies', -, replay⟩ := (replaySlots_cases slots jis' _ wf.apart wf.journals
    scanned waiting).resolve_right fun stuck => by simp [stuck.2 _ each] at result
  rw [replay _ each] at result
  obtain ⟨rfl, -⟩ := Prod.mk.injEq .. ▸ Option.some.inj result
  have same (c : Copy) : c ∈ copiesOf fs.disk slots ↔ ∃ slot ∈ slots, c ∈ slot.written fs.disk := by
    rw [← copies, copies', wf.copies, List.nil_append, List.mem_flatMap]
  -- the copies of different tags differ, so that each tag is in both lists or in none
  have agree (slot : Slot) (hs : slot ∈ slots) (x : Logged) (hx : x ∈ slot.log.tags) :
      slot.log.isRevoked x = false ↔
        slot.log.reached slot.ji.ji_jsb x = true ∧ isCopied slot.entries x = true := by
    have both := same (copyOf slot.ji fs.disk x)
    rw [copiesOf, List.mem_flatMap] at both
    constructor
    · intro live
      obtain ⟨other, ho, member⟩ := both.mp ⟨slot, hs, mem_copies.mpr ⟨x, hx, live, rfl⟩⟩
      obtain ⟨y, hy, reached, copied, equal⟩ := mem_written.mp member
      obtain ⟨rfl, rfl⟩ := wf.copyOf_injective ho hs hy hx equal
      exact ⟨reached, copied⟩
    · rintro ⟨reached, copied⟩
      obtain ⟨other, ho, member⟩ := both.mpr ⟨slot, hs, mem_written.mpr ⟨x, hx, reached, copied, rfl⟩⟩
      obtain ⟨y, hy, live, equal⟩ := mem_copies.mp member
      obtain ⟨rfl, rfl⟩ := wf.copyOf_injective ho hs hy hx equal
      exact live
  intro slot hs x hx
  have decides := agree slot hs x hx
  rw [Log.Faithful]
  split
  next reached =>
    have answer := answers slot hs x (List.mem_filter.mpr ⟨hx, reached⟩)
    simp only [reached, true_and, isCopied, beq_iff_eq] at decides
    obtain ⟨revoked, said⟩ := Option.ne_none_iff_exists'.mp answer
    rw [said] at decides
    rw [Slot.entries] at said
    cases revoked <;> cases revokes : slot.log.isRevoked x <;> simp_all
  next missed =>
    cases revokes : slot.log.isRevoked x with
    | true => rfl
    | false => exact absurd (decides.mp revokes).1 missed

/-- Recovery does what the logs ask for exactly when every tag that is reached gets the answer of its log,
and every tag behind a descriptor that ends with its journal is revoked. -/
theorem replayJournals_recovers_iff (fs : Fsck) (slots : List Slot) (wf : WellFormed fs slots) :
    Recovers fs slots ↔ Faithful slots :=
  ⟨faithful_of_recovers wf, recovers_of_faithful wf⟩

end Recovery

section Samples

def word (n : Nat) : Buffer := [n / 2 ^ 24, n / 2 ^ 16, n / 2 ^ 8, n].map (BitVec.ofNat 8)

def blockOf (words : List Nat) : Buffer :=
  (magicNumber.toNat :: words).flatMap word ++ List.replicate (508 - 4 * words.length) 0

def sampleJournal (start : Nat) : JournalInfo where
  ji_slot := 0
  ji_dirty := true
  ji_replay := false
  ji_revoke := .nil
  ji_jsb := ⟨superblockV2, 512, 16, 1, 7, start, 0⟩
  ji_blocks := fun k => if k < 16 then 100 + k else 0
  ji_set_final_seq := false
  ji_final_seq := 0

def sampleFsck (blocks : List (Nat × Buffer)) : Fsck where
  fs_blocks := 200
  disk := fun b => (blocks.lookup b).getD (List.replicate 512 0)
  used_blocks := ∅
  copies := []

theorem sample_wellFormed (start : Nat) (blocks : List (Nat × Buffer)) (log : Log)
    (journaled : Journaled 200 (sampleFsck blocks).disk (sampleJournal start) log)
    (targets : ∀ x ∈ log.tags, x.tag.block < 100)
    (first : be32 ((sampleFsck blocks).disk 0) 0 ≠ magicNumber) :
    WellFormed (sampleFsck blocks) [⟨sampleJournal start, log⟩] where
  journals := by
    intro slot hs
    rw [List.mem_singleton.mp hs]
    exact ⟨rfl, rfl, fun _ => ⟨Nat.succ_pos 15, (by decide : 100 < 200)⟩, Or.inr ⟨rfl, journaled⟩⟩
  numbered := List.nodup_singleton _
  apart := by
    refine ⟨List.pairwise_singleton _ _, ?_⟩
    intro a ha b hb x hx owned
    rw [List.mem_singleton.mp ha] at hx
    rw [List.mem_singleton.mp hb] at owned
    obtain ⟨-, k, inside, same⟩ := owned
    have small := targets x hx
    have sixteen : k < 16 := inside
    simp only [sampleJournal, if_pos sixteen] at same
    omega
  used_blocks := rfl
  copies := rfl
  first_block := first

def revokedLog : Log where
  committed := [.descriptor [⟨50, 10⟩], .commit, .revoke [50], .commit]
  tail := []
  closed := Or.inr rfl
  unfinished := List.not_mem_nil

def revokedBlocks : List (Nat × Buffer) :=
  [(101, blockOf [1, 7, 50, 10]), (102, List.replicate 512 1), (103, blockOf [2, 7]),
    (104, blockOf [5, 8, 20, 50]), (105, blockOf [2, 8])]

/-- A revoke record with one block is read as an empty one, and the block is written. -/
theorem single_revoke_ignored :
    WellFormed (sampleFsck revokedBlocks) [⟨sampleJournal 1, revokedLog⟩] ∧
      ((replayJournals 10 (sampleFsck revokedBlocks) [sampleJournal 1]).map fun r => r.1.disk 50) =
        some (List.replicate 512 1) ∧
      applyCopies (sampleFsck revokedBlocks).disk
        (copiesOf (sampleFsck revokedBlocks).disk [⟨sampleJournal 1, revokedLog⟩]) 50 =
          List.replicate 512 0 ∧
      ¬Recovers (sampleFsck revokedBlocks) [⟨sampleJournal 1, revokedLog⟩] := by
  have wf : WellFormed (sampleFsck revokedBlocks) [⟨sampleJournal 1, revokedLog⟩] :=
    sample_wellFormed 1 revokedBlocks revokedLog
      ⟨⟨by decide, by decide, by decide⟩, by decide, by decide, by decide, by decide, by decide,
        by unfold Readable; decide +kernel, by decide, by decide +kernel⟩
      (by decide) (by decide +kernel)
  refine ⟨wf, by decide +kernel, by decide +kernel, ?_⟩
  intro recovers
  have faithful := faithful_of_recovers wf recovers _ List.mem_cons_self ⟨1, 0, ⟨50, 10⟩⟩ (by decide)
  exact absurd faithful (by decide)

def wrappedLog : Log where
  committed := [.descriptor [⟨50, 2⟩, ⟨51, 11⟩], .commit, .revoke [50, 50], .commit]
  tail := [.descriptor [⟨51, 10⟩]]
  closed := Or.inr rfl
  unfinished := by decide

def wrappedBlocks : List (Nat × Buffer) :=
  [(114, blockOf [1, 7, 50, 2, 51, 11]), (115, List.replicate 512 1), (101, List.replicate 512 0),
    (102, blockOf [2, 7]), (103, blockOf [5, 8, 24, 50, 50]), (104, blockOf [2, 8]),
    (105, blockOf [1, 9, 51, 10]), (106, List.replicate 512 1)]

theorem replayJournals_recovers_wrapped :
    Recovers (sampleFsck wrappedBlocks) [⟨sampleJournal 14, wrappedLog⟩] :=
  (replayJournals_recovers_iff _ _
    (sample_wellFormed 14 wrappedBlocks wrappedLog
      ⟨⟨by decide, by decide, by decide⟩, by decide, by decide, by decide, by decide, by decide,
        by unfold Readable; decide +kernel, by decide, by decide +kernel⟩
      (by decide) (by decide +kernel))).mpr (by unfold Faithful; decide)

end Samples

end Ocfs2.Journal
