import Ocfs2.Fsck.JournalRecover

set_option autoImplicit false

namespace Ocfs2.Journal

open ByteBuffer Rbtree

section Journaled

structure Journaled (fs_blocks : Nat) (disk : Nat → Buffer) (ji : JournalInfo) (log : Log) : Prop where
  valid : ji.ji_jsb.Valid
  fits : logSize log.records ≤ ji.ji_jsb.room
  few : log.transactions < 2 ^ 31
  mapped : ∀ k < ji.ji_jsb.s_maxlen, ji.ji_blocks k < fs_blocks
  injective : ∀ j < ji.ji_jsb.s_maxlen, ∀ k < ji.ji_jsb.s_maxlen, ji.ji_blocks j = ji.ji_blocks k → j = k
  hole : ji.ji_blocks ji.ji_jsb.s_maxlen = 0
  readable : Readable ji disk (place 0 0 log.records)
  range : ∀ record ∈ log.records, ∀ tag ∈ record.tags, 2 ≤ tag.block ∧ tag.block < fs_blocks
  ended : ¬(be32 (disk (ji.ji_blocks (ring ji.ji_jsb (logSize log.records)))) 0 = magicNumber ∧
    be32 (disk (ji.ji_blocks (ring ji.ji_jsb (logSize log.records)))) 8 =
      sequence ji.ji_jsb.s_sequence log.transactions)

variable {fs_blocks : Nat} {disk : Nat → Buffer} {ji : JournalInfo} {log : Log}

theorem Log.size_le (log : Log) : logSize log.committed ≤ logSize log.records := by
  rw [Log.records, logSize_append]
  exact Nat.le_add_right _ _

theorem Log.committed_subset (log : Log) {p : Placed} (member : p ∈ place 0 0 log.committed) :
    p ∈ place 0 0 log.records := by
  rw [Log.place_records]
  exact List.mem_append_left _ member

theorem place_apart (records : List Record) {p q : Placed} (hp : p ∈ place 0 0 records)
    (hq : q ∈ place 0 0 records) :
    p = q ∨ p.offset + p.record.size ≤ q.offset ∨ q.offset + q.record.size ≤ p.offset := by
  have order := List.pairwise_iff_getElem.mp (place_pairwise 0 0 records)
  obtain ⟨a, ha, rfl⟩ := List.getElem_of_mem hp
  obtain ⟨b, hb, rfl⟩ := List.getElem_of_mem hq
  rcases Nat.lt_trichotomy a b with less | rfl | greater
  · exact Or.inr (Or.inl (order a b ha hb less))
  · exact Or.inl rfl
  · exact Or.inr (Or.inr (order b a hb ha greater))

def Marks (ji : JournalInfo) (log : Log) (b : Nat) : Prop :=
  b = ji.ji_blocks 0 ∨ (∃ p ∈ place 0 0 log.records, b = headerBlock ji p) ∨
    b = ji.ji_blocks (ring ji.ji_jsb (logSize log.records))

theorem Log.tag_mem (log : Log) {x : Logged} (hx : x ∈ log.tags) :
    ∃ record ∈ log.records, x.tag ∈ record.tags := by
  obtain ⟨⟨offset, i, record⟩, hp, tagged⟩ := List.mem_flatMap.mp hx
  obtain ⟨as, bs, split, -, -⟩ := mem_place_split 0 0 log.committed _ hp
  refine ⟨record, ?_, ?_⟩
  · simp [Log.records, split]
  · cases record with
    | descriptor tags => exact (mem_logTags _ _ tags x tagged).2.2.2
    | revoke blocks => cases tagged
    | commit => cases tagged

section Blocks

variable (journaled : Journaled fs_blocks disk ji log)

include journaled

theorem Journaled.ring_ne {j k : Nat} (less : j < k)
    (near : k < j + ji.ji_jsb.room) (inside : k ≤ ji.ji_jsb.room) :
    ji.ji_blocks (ring ji.ji_jsb j) ≠ ji.ji_blocks (ring ji.ji_jsb k) := by
  intro same
  have := journaled.injective _ (ring_lt journaled.valid j) _ (ring_lt journaled.valid k) same
  exact ring_injective journaled.valid j k less near inside this

theorem Journaled.headers_distinct :
    (place 0 0 log.records).Pairwise fun p q => headerBlock ji p ≠ headerBlock ji q := by
  have fits := journaled.fits
  have behind := place_pairwise 0 0 log.records
  refine List.Pairwise.imp_of_mem ?_ behind
  intro p q _ hq order
  have size := p.record.size_pos
  have := q.record.size_pos
  have bounds := place_bounds 0 0 log.records q hq
  exact journaled.ring_ne (by omega) (by omega) (by omega)

theorem Journaled.data_distinct :
    log.tags.Pairwise fun x y => dataBlock ji x ≠ dataBlock ji y := by
  have fits := journaled.fits
  have size := log.size_le
  refine List.Pairwise.imp_of_mem ?_ (placed_tags_pairwise 0 0 log.committed)
  intro x y _ hy order
  have bounds := log.tags_bounds y hy
  exact journaled.ring_ne order (by omega) (by omega)

theorem Journaled.data_ne_header {x : Logged} {p : Placed}
    (hx : x ∈ log.tags) (hp : p ∈ place 0 0 log.records) : dataBlock ji x ≠ headerBlock ji p := by
  have fits := journaled.fits
  obtain ⟨q, hq, tagged⟩ := List.mem_flatMap.mp hx
  have hq' := log.committed_subset hq
  have inQ := q.tags_bounds x tagged
  have boundsQ := place_bounds 0 0 log.records q hq'
  have boundsP := place_bounds 0 0 log.records p hp
  have apart : p.offset < x.offset ∨ x.offset < p.offset := by
    rcases place_apart log.records hp hq' with rfl | before | behind <;> omega
  rcases apart with before | behind
  · exact (journaled.ring_ne before (by omega) (by omega)).symm
  · exact journaled.ring_ne behind (by omega) (by omega)

theorem Journaled.data_unmarked {x : Logged}
    (hx : x ∈ log.tags) : ¬Marks ji log (dataBlock ji x) := by
  have fits := journaled.fits
  have bounds := log.tags_bounds x hx
  have size := log.size_le
  rintro (superblock | ⟨p, hp, header⟩ | ending)
  · have first_pos := journaled.valid.first_pos
    have lower := ring_ge ji.ji_jsb x.offset
    have upper := ring_lt journaled.valid x.offset
    have := journaled.injective _ upper 0 (by omega) superblock
    omega
  · exact journaled.data_ne_header hx hp header
  · exact journaled.ring_ne (j := x.offset) (k := logSize log.records) (by omega) (by omega) fits ending

theorem Journaled.marks_inside {b : Nat}
    (marked : Marks ji log b) : ∃ k < ji.ji_jsb.s_maxlen, b = ji.ji_blocks k := by
  rcases marked with rfl | ⟨p, -, rfl⟩ | rfl
  · have start := journaled.valid.start_lt
    exact ⟨0, by omega, rfl⟩
  · exact ⟨_, ring_lt journaled.valid p.offset, rfl⟩
  · exact ⟨_, ring_lt journaled.valid _, rfl⟩

theorem Journaled.ready (fs : Fsck) {xs : List Logged}
    (same : fs.fs_blocks = fs_blocks) (sub : xs.Sublist log.tags)
    (fresh : ∀ x ∈ log.tags, dataBlock ji x ∉ fs.used_blocks) : Ready ji fs xs where
  distinct := journaled.data_distinct.sublist sub
  fresh := fun x hx => fresh x (sub.subset hx)
  inside := fun x _ => same ▸ journaled.mapped _ (ring_lt journaled.valid x.offset)

end Blocks

theorem walkJournal_scan (fs : Fsck) (ji : JournalInfo) (log : Log)
    (journaled : Journaled fs.fs_blocks fs.disk ji log) (empty : ji.ji_revoke = .nil)
    (fresh : ∀ k, ji.ji_blocks (ring ji.ji_jsb k) ∉ fs.used_blocks) :
    ∃ root used ret, Represents ji.ji_jsb.s_sequence root (log.entries ji.ji_jsb) ∧
      (∀ b ∈ used, b ∈ fs.used_blocks ∨ Marks ji log b) ∧
      ∀ fuel, log.records.length < fuel → walkJournal fuel fs ji false =
        some ({ fs with used_blocks := used },
          { ji with
            ji_revoke := root
            ji_set_final_seq := true
            ji_final_seq := sequence ji.ji_jsb.s_sequence log.transactions }, ret) := by
  have valid := journaled.valid
  have first_pos := valid.first_pos
  have first_le := valid.first_le
  have few := journaled.few
  rw [← log.commits_records] at few
  obtain ⟨root, used, holds, marks, run⟩ := scan_run valid log.records 0 0 fs .nil journaled.readable
    (by
      intro record hr tag ht
      have := journaled.range record hr tag ht
      simp [blockOutOfRange]
      omega)
    journaled.headers_distinct
    (fun p _ => ⟨fresh p.offset, journaled.mapped _ (ring_lt valid p.offset)⟩)
    (represents_nil ji.ji_jsb.s_sequence) (by omega)
  simp only [Nat.zero_add, log.commits_records] at run
  obtain ⟨used', next, ret, marks', ending⟩ := scan_end { fs with used_blocks := used } root
    (logSize log.records) log.transactions (journaled.mapped _ (ring_lt valid _)) journaled.ended
  refine ⟨root, used', ret, by simpa [Log.entries] using holds, ?_, ?_⟩
  · intro b member
    rcases marks' b member with old | last
    · rcases marks b old with older | header
      · exact Or.inl older
      · exact Or.inr (Or.inr (Or.inl header))
    · exact Or.inr (Or.inr (Or.inr last))
  · intro fuel enough
    obtain ⟨extra, rfl⟩ : ∃ n, fuel = log.records.length + (n + 1) := ⟨fuel - log.records.length - 1, by omega⟩
    have start : (⟨fs, ji, ji.ji_jsb.s_sequence, ji.ji_jsb.s_start, none⟩ : Walk) =
        walkAt ji fs .nil 0 0 := by
      rw [walkAt, sequence_zero, ring_zero valid, ← empty]
    rw [walkJournal, if_neg (by omega), start, run, ending]
    rfl

-- a log that stops at a descriptor has been reached up to the tags of this descriptor
theorem Log.filter_reached_stop (log : Log) (jsb : Superblock) (as bs : List Record) (tags : List Tag)
    (split : log.committed = as ++ .descriptor tags :: bs) (stops : log.stops jsb = true)
    (turn : logSize as + (1 + tags.length) = jsb.turn) :
    log.tags.filter (log.reached jsb) =
      (place 0 0 as).flatMap Placed.tags ++ logTags (logSize as + 1) (commits as) tags := by
  have parts : log.tags = (place 0 0 as).flatMap Placed.tags ++
      (logTags (logSize as + 1) (commits as) tags ++
        (place (logSize as + (1 + tags.length)) (commits as) bs).flatMap Placed.tags) := by
    rw [Log.tags, split, place_append, List.flatMap_append, place, List.flatMap_cons]
    simp [Placed.tags, Record.size, Record.following]
  have keep (x : Logged) : log.reached jsb x = decide (x.offset < jsb.turn) := by
    simp [Log.reached, stops]
  have early : ∀ x ∈ (place 0 0 as).flatMap Placed.tags, log.reached jsb x = true := by
    intro x hx
    obtain ⟨p, hp, tagged⟩ := List.mem_flatMap.mp hx
    have := place_bounds 0 0 as p hp
    have := p.tags_bounds x tagged
    rw [keep]
    exact decide_eq_true (by omega)
  have last : ∀ x ∈ logTags (logSize as + 1) (commits as) tags, log.reached jsb x = true := by
    intro x hx
    have := mem_logTags _ _ tags x hx
    rw [keep]
    exact decide_eq_true (by omega)
  have late : ∀ x ∈ (place (logSize as + (1 + tags.length)) (commits as) bs).flatMap Placed.tags,
      ¬log.reached jsb x = true := by
    intro x hx
    obtain ⟨p, hp, tagged⟩ := List.mem_flatMap.mp hx
    have := place_bounds _ _ bs p hp
    have := p.tags_bounds x tagged
    rw [keep, decide_eq_true_eq]
    omega
  rw [parts, List.filter_append, List.filter_append, List.filter_eq_self.mpr early,
    List.filter_eq_self.mpr last, List.filter_eq_nil_iff.mpr late, List.append_nil]

section Second

variable {fs : Fsck} (journaled : Journaled fs.fs_blocks fs.disk ji log)
  (holds : Represents ji.ji_jsb.s_sequence ji.ji_revoke (log.entries ji.ji_jsb))
  (final : ji.ji_final_seq = sequence ji.ji_jsb.s_sequence log.transactions)
  (fresh : ∀ x ∈ log.tags, dataBlock ji x ∉ fs.used_blocks)
  (apart : ∀ x ∈ log.tags, ∀ k < ji.ji_jsb.s_maxlen, x.tag.block ≠ ji.ji_blocks k)

include journaled holds final fresh apart

theorem Journaled.straight_run (as bs : List Record) (split : log.committed = as ++ bs)
    (straight : ∀ p ∈ place 0 0 as,
      p.record.isDescriptor = true → p.offset + p.record.size ≠ ji.ji_jsb.turn) :
    ∃ root, Represents ji.ji_jsb.s_sequence root (log.entries ji.ji_jsb) ∧
      ∀ fuel, walkLoop true (as.length + fuel) (walkAt ji fs ji.ji_revoke 0 0) =
        (((place 0 0 as).flatMap Placed.tags).foldlM (recoverTag ji (log.entries ji.ji_jsb)) fs).bind
          fun fs => walkLoop true fuel (walkAt ji fs root (logSize as) (commits as)) := by
  have part : place 0 0 log.committed = place 0 0 as ++ place (logSize as) (commits as) bs := by
    rw [split, place_append, Nat.zero_add, Nat.zero_add]
  have inLog : ∀ p ∈ place 0 0 as, p ∈ place 0 0 log.committed := by
    intro p hp
    rw [part]
    exact List.mem_append_left _ hp
  have sub : ((place 0 0 as).flatMap Placed.tags).Sublist log.tags := by
    rw [Log.tags, part, List.flatMap_append]
    exact List.sublist_append_left _ _
  have known : ∀ p ∈ place 0 0 as, ∀ e ∈ p.counted ji.ji_jsb, e ∈ log.entries ji.ji_jsb :=
    fun p hp e he => List.mem_flatMap.mpr ⟨p, log.committed_subset (inLog p hp), he⟩
  have fits := log.size_le.trans journaled.fits
  rw [split, logSize_append] at fits
  have run := recover_run journaled.valid final journaled.few holds (k := 0) (i := 0)
    (fun p hp => log.transaction_lt p (inLog p hp))
    (fun p hp => journaled.readable p (log.committed_subset (inLog p hp)))
    (journaled.ready fs rfl sub fresh)
    (fun x hx p _ => apart x (sub.subset hx) _ (ring_lt journaled.valid p.offset))
    known (by omega) straight
  simpa only [Nat.zero_add] using run

theorem Journaled.recover_log (behind : be32 (fs.disk 0) 0 ≠ magicNumber) :
    ∃ root seq next, ∀ fuel, log.committed.length + 1 < fuel →
      walkLoop true fuel (walkAt ji fs ji.ji_revoke 0 0) =
        ((log.tags.filter (log.reached ji.ji_jsb)).foldlM (recoverTag ji (log.entries ji.ji_jsb)) fs).map
          fun fs => ⟨fs, { ji with ji_revoke := root }, seq, next, none⟩ := by
  have run := journaled.straight_run holds final fresh apart
  cases stops : log.stops ji.ji_jsb with
  | false =>
    obtain ⟨root, -, run⟩ := run log.committed [] (List.append_nil _).symm (by
      intro p hp descriptor turn
      have := List.any_eq_false.mp stops p hp
      simp [descriptor, turn] at this)
    refine ⟨root, sequence ji.ji_jsb.s_sequence log.transactions, ring ji.ji_jsb (logSize log.committed),
      fun fuel enough => ?_⟩
    obtain ⟨extra, rfl⟩ : ∃ n, fuel = log.committed.length + (n + 1) :=
      ⟨fuel - log.committed.length - 1, by omega⟩
    have all : log.tags.filter (log.reached ji.ji_jsb) = log.tags :=
      List.filter_eq_self.mpr fun x _ => by simp [Log.reached, stops]
    have ending (fs : Fsck) := @recover_end _ _ (logSize log.committed) fs root final journaled.few extra
    rw [run, all, Log.tags]
    simp only [Log.transactions] at ending
    simp only [ending]
    cases ((place 0 0 log.committed).flatMap Placed.tags).foldlM
      (recoverTag ji (log.entries ji.ji_jsb)) fs <;> rfl
  | true =>
    obtain ⟨⟨k, i, record⟩, hp, last⟩ := List.any_eq_true.mp stops
    rw [Bool.and_eq_true, beq_iff_eq] at last
    obtain ⟨descriptor, turn⟩ := last
    obtain ⟨tags, rfl⟩ : ∃ tags, record = .descriptor tags := by
      cases record <;> simp_all [Record.isDescriptor]
    obtain ⟨as, bs, split, rfl, rfl⟩ := mem_place_split 0 0 log.committed _ hp
    simp only [Nat.zero_add, Record.size] at turn hp
    obtain ⟨root, holds', run⟩ := run as (.descriptor tags :: bs) split (by
      intro q hq _ same
      have := place_bounds 0 0 as q hq
      omega)
    have inLog := log.committed_subset hp
    have bounds := place_bounds 0 0 log.records _ inLog
    have fits := journaled.fits
    simp only [Record.size] at bounds
    have reached := log.filter_reached_stop ji.ji_jsb as bs tags split stops turn
    have sub : ((place 0 0 as).flatMap Placed.tags ++ logTags (logSize as + 1) (commits as) tags).Sublist
        log.tags := by
      rw [← reached]
      exact List.filter_sublist
    refine ⟨root, sequence ji.ji_jsb.s_sequence (commits as), jwrap ji.ji_jsb (ji.ji_jsb.s_maxlen + 1),
      fun fuel enough => ?_⟩
    obtain ⟨extra, rfl⟩ : ∃ n, fuel = as.length + (n + 2) := by
      refine ⟨fuel - as.length - 2, ?_⟩
      rw [split, List.length_append, List.length_cons] at enough
      omega
    rw [run, reached, List.foldlM_append]
    rcases fold : ((place 0 0 as).flatMap Placed.tags).foldlM (recoverTag ji (log.entries ji.ji_jsb)) fs
      with _ | fs'
    · rfl
    -- what the walk has written so far is in no block of the journal
    have changed := recoverTags_recovering fold
    have kept (k : Nat) (inside : k < ji.ji_jsb.s_maxlen) :
        fs'.disk (ji.ji_blocks k) = fs.disk (ji.ji_blocks k) :=
      changed.disk _ fun x hx => apart x (sub.subset (List.mem_append_left _ hx)) k inside
    have target (x : Logged) (hx : x ∈ log.tags) : x.tag.block ≠ 0 := by
      obtain ⟨record, hr, ht⟩ := log.tag_mem hx
      have := journaled.range record hr x.tag ht
      omega
    have encodes := journaled.readable _ inLog
    simp only [headerBlock, ← kept _ (ring_lt journaled.valid (logSize as))] at encodes
    have stop := recover_stop journaled.valid final journaled.few holds' (log.transaction_lt _ hp) encodes
      ((journaled.ready fs rfl sub fresh).rest changed) (by omega) turn
      (by
        rw [journaled.hole, changed.disk 0 fun x hx => target x (sub.subset (List.mem_append_left _ hx))]
        exact behind)
      (by
        intro x hx
        rw [journaled.hole]
        exact target x (sub.subset (List.mem_append_right _ hx)))
      extra
    exact stop

theorem Journaled.walkJournal_recover (behind : be32 (fs.disk 0) 0 ≠ magicNumber) :
    ∃ root, ∀ fuel, log.committed.length + 1 < fuel → walkJournal fuel fs ji true =
      ((log.tags.filter (log.reached ji.ji_jsb)).foldlM (recoverTag ji (log.entries ji.ji_jsb)) fs).map
        fun fs => (fs, { ji with ji_revoke := root }, none) := by
  have first_pos := journaled.valid.first_pos
  have first_le := journaled.valid.first_le
  obtain ⟨root, seq, next, run⟩ := journaled.recover_log holds final fresh apart behind
  refine ⟨root, fun fuel enough => ?_⟩
  have start : (⟨fs, ji, ji.ji_jsb.s_sequence, ji.ji_jsb.s_start, none⟩ : Walk) =
      walkAt ji fs ji.ji_revoke 0 0 := by
    rw [walkAt, sequence_zero, ring_zero journaled.valid]
  rw [walkJournal, if_neg (by omega), start, run fuel enough]
  cases (log.tags.filter (log.reached ji.ji_jsb)).foldlM (recoverTag ji (log.entries ji.ji_jsb)) fs <;> rfl

end Second

end Journaled

end Ocfs2.Journal
