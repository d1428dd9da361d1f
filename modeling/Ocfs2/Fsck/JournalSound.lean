import Ocfs2.Fsck.JournalAgree

set_option autoImplicit false

namespace Ocfs2.Journal

open ByteBuffer

section Bodies

def scanSlot (fuel : Nat) (fs : Fsck) (ji : JournalInfo) : Option (Fsck × JournalInfo × Option (Option Errcode)) :=
  match prepJournalInfo fs ji with
  | none => none
  | some (fs, ji, err) =>
    if err.isSome || !ji.ji_replay then some (fs, ji, none)
    else (walkJournal fuel fs ji false).map fun (fs, ji, err) => (fs, ji, some err)

def replaySlot (fuel : Nat) (fs : Fsck) (ji : JournalInfo) : Option (Fsck × JournalInfo × Option (Option Errcode)) :=
  if !ji.ji_replay then some (fs, ji, none)
  else
    (walkJournal fuel fs ji true).map fun (fs, ji, err) => (fs, if err.isSome then ji else resetJournal ji, some err)

end Bodies

section Replay

def TagsReplayed (r : Walk) (copies : List Copy) : Prop :=
  ∀ k tagp, (tagsRead r.ji.ji_jsb r.header ((r.ji.ji_jsb.s_blocksize - 12) / journalTagBytes r.ji.ji_jsb) 12)[k]? =
      some tagp →
    revokeThisBlock r.ji.ji_revoke (readTag r.ji.ji_jsb r.header tagp).block r.next_seq = some true ∨
      ∃ data, Copy.mk r.ji.ji_slot (jwrap r.ji.ji_jsb (r.next_block + 1 + k)) (readTag r.ji.ji_jsb r.header tagp).block
        data ∈ copies

structure Grows (fs fs' : Fsck) (ret ret' : Option Errcode) : Prop where
  copies : fs.copies <+: fs'.copies
  failed : ret' = none → ret = none

theorem Grows.trans {fs fs' fs'' : Fsck} {ret ret' ret'' : Option Errcode} (first : Grows fs fs' ret ret')
    (second : Grows fs' fs'' ret' ret'') : Grows fs fs'' ret ret'' :=
  ⟨first.copies.trans second.copies, fun clean => first.failed (second.failed clean)⟩

theorem replayTag_grows {ji : JournalInfo} {tag : Tag} {seq : BitVec 32} {b : Nat} {fs fs' : Fsck}
    {ret ret' : Option Errcode} (run : replayTag ji tag seq b fs ret = some (fs', ret')) :
    Grows fs fs' ret ret' ∧ (ret' = none →
      revokeThisBlock ji.ji_revoke tag.block seq = some true ∨ ∃ data, ⟨ji.ji_slot, b, tag.block, data⟩ ∈ fs'.copies) := by
  unfold replayTag at run
  split at run
  next => cases run
  next revoked =>
    cases run
    exact ⟨⟨List.prefix_rfl, id⟩, fun _ => .inl revoked⟩
  next =>
    simp only [readJournalBlock, if_true] at run
    split at run
    next => cases run
    next failed =>
      split_ifs at failed <;> cases failed
      cases run
      exact ⟨⟨List.prefix_rfl, fun clean => by cases clean⟩, fun clean => by cases clean⟩
    next read =>
      split_ifs at read <;> cases read
      cases run
      exact ⟨⟨List.prefix_append _ _, id⟩, fun _ => .inr ⟨_, List.mem_append_right _ List.mem_cons_self⟩⟩

theorem replayLoop_grows {ji : JournalInfo} {buf : Buffer} {seq : BitVec 32} {n tagp b b' : Nat} {fs fs' : Fsck}
    {ret ret' : Option Errcode} (run : replayLoop ji buf seq n tagp b fs ret = some (fs', b', ret')) :
    Grows fs fs' ret ret' ∧ (ret' = none → ∀ k tagp', (tagsRead ji.ji_jsb buf n tagp)[k]? = some tagp' →
      revokeThisBlock ji.ji_revoke (readTag ji.ji_jsb buf tagp').block seq = some true ∨
        ∃ data, ⟨ji.ji_slot, jwrap ji.ji_jsb (b + k), (readTag ji.ji_jsb buf tagp').block, data⟩ ∈ fs'.copies) := by
  induction n generalizing tagp b fs ret with
  | zero =>
    cases run
    exact ⟨⟨List.prefix_rfl, id⟩, fun _ k tagp' mem => by simp [tagsRead] at mem⟩
  | succ n ih =>
    simp only [replayLoop] at run
    simp only [tagsRead]
    split at run
    next => cases run
    next fs₁ ret₁ tagged =>
      obtain ⟨grows, here⟩ := replayTag_grows tagged
      split at run
      next last =>
        cases run
        refine ⟨grows, fun clean k tagp' mem => ?_⟩
        rw [if_pos last] at mem
        cases k with
        | zero =>
          cases mem
          exact here clean
        | succ k => simp at mem
      next more =>
        obtain ⟨later, rest⟩ := ih run
        refine ⟨grows.trans later, fun clean k tagp' mem => ?_⟩
        rw [if_neg more] at mem
        cases k with
        | zero =>
          cases mem
          exact (here (later.failed clean)).imp_right (Exists.imp fun _ copied => later.copies.subset copied)
        | succ k =>
          have inner := rest clean k tagp' (by simpa using mem)
          rwa [Nat.add_assoc, jwrap_add, Nat.add_comm 1 k] at inner

theorem walkLoop_nextRound {r r' : Walk} (goes : nextRound true r = some r') (fuel : Nat) :
    walkLoop true (fuel + 1) r = walkLoop true fuel r' := by
  unfold nextRound at goes
  rw [walkLoop]
  simp only [Bool.true_or, Bool.not_true, Bool.false_eq_true, if_false, Bool.true_and, readJournalBlock] at goes ⊢
  simp only [definedRecord, Option.ite_none_left_eq_some] at goes
  obtain ⟨early, magic, current, -, record⟩ := goes
  rw [if_neg early, if_neg magic, if_neg current, record]

theorem walkRecord_grows {r r' : Walk} {buf : Buffer} (run : walkRecord true r buf = some r') :
    Grows r.fs r'.fs r.ret r'.ret := by
  unfold walkRecord at run
  simp only [if_true] at run
  split at run
  · split at run
    next => cases run
    next fs b err replayed =>
      cases run
      obtain ⟨grows, -⟩ := replayLoop_grows replayed
      exact ⟨grows.copies, fun clean => (Option.or_eq_none_iff.mp clean).2⟩
  · split at run
    · cases run
      exact ⟨List.prefix_rfl, id⟩
    · split at run <;> cases run <;> exact ⟨List.prefix_rfl, id⟩

theorem walkLoop_grows {fuel : Nat} {r w : Walk} (run : walkLoop true fuel r = some w) :
    Grows r.fs w.fs r.ret w.ret := by
  induction fuel generalizing r with
  | zero => cases run
  | succ fuel ih =>
    rw [walkLoop] at run
    simp only [Bool.true_or, Bool.not_true, Bool.false_eq_true, if_false, Bool.true_and, readJournalBlock] at run
    split_ifs at run
    · cases run
      exact ⟨List.prefix_rfl, id⟩
    · cases run
      exact ⟨List.prefix_rfl, id⟩
    · cases run
      exact ⟨List.prefix_rfl, id⟩
    · split at run
      next => cases run
      next record =>
        have first := walkRecord_grows record
        exact Grows.trans ⟨first.copies, first.failed⟩ (ih run)

variable {jsb : Superblock} {final : BitVec 32} {w w' : Walk}

theorem paired_replayed {fuel fuel' : Nat} {s r : Walk} (lockstep : Lockstep jsb final s r)
    (run : walkLoop false fuel s = some w) (last : w.next_seq = final)
    (meets : ∀ n, ∀ p ∈ paired final n s r, Meets final p.1 p.2) (second : walkLoop true fuel' r = some w')
    (clean : w'.ret = none) :
    ∀ n, ∀ p ∈ paired final n s r, be32 p.2.header 4 = descriptorBlock → TagsReplayed p.2 w'.fs.copies := by
  induction fuel generalizing s r fuel' with
  | zero => cases run
  | succ fuel ih =>
    by_cases ends : s.next_seq = final
    · intro n
      simp [paired_ends ends]
    have more : s.next_seq ≠ w.next_seq := by rwa [last]
    obtain ⟨s', goes, run'⟩ := goes_of_walkLoop run more
    have scanned := scanned_of_nextRound goes
    have here : Meets final s r := paired_head ends meets
    obtain ⟨r', next, lockstep'⟩ := here.step lockstep scanned run' more
    cases fuel' with
    | zero => cases second
    | succ fuel' =>
      have second' := (walkLoop_nextRound next fuel').symm.trans second
      have grows := walkLoop_grows second'
      refine (paired_all_iff ends goes next).mpr
        ⟨fun descriptor => ?_, ih lockstep' run' ((paired_all_iff ends goes next).mp meets).2 second'⟩
      have bytes : s.header = r.header := by
        rw [← here.kept, Walk.header, lockstep.blocks, lockstep.block]
      simp only [nextRound_recover lockstep scanned here.early here.kept, bytes, definedRecord, walkRecord, descriptor,
        if_true, Option.ite_none_left_eq_some] at next
      replace next := next.2
      split at next
      next => cases next
      next fs b err replayed =>
        cases next
        have none : err = none := (Option.or_eq_none_iff.mp (grows.failed clean)).1
        intro k tagp mem
        obtain ⟨-, tags⟩ := replayLoop_grows replayed
        have tag := tags none k tagp mem
        rw [← lockstep.right, ← lockstep.block, jwrap_add] at tag
        exact tag.imp_right (Exists.imp fun _ copied => grows.copies.subset copied)

end Replay

def FullyReplayed (fs fs' : Fsck) (ji ji' : JournalInfo) (copies : List Copy) : Prop :=
  ji.ji_jsb.s_start ≠ 0 →
    (∀ n, headers true ji'.ji_final_seq n (startWalk fs' ji') = headers false ji'.ji_final_seq n (startWalk fs ji)) ∧
      ∀ n, ∀ p ∈ paired ji'.ji_final_seq n (startWalk fs ji) (startWalk fs' ji'),
        be32 p.2.header 4 = descriptorBlock → TagsReplayed p.2 copies

structure SlotSound (scan result : Option (Option Errcode)) (full : Prop) : Prop where
  failed : ∀ e, scan = some (some e) → result = none
  clean : result = some none → full

theorem walkJournal_replay {fuel : Nat} {fs fs' : Fsck} {ji ji' : JournalInfo} {err : Option Errcode}
    (run : walkJournal fuel fs ji false = some (fs', ji', err)) : ji'.ji_replay = ji.ji_replay := by
  by_cases idle : ji.ji_jsb.s_start = 0
  · rw [walkJournal, if_pos idle] at run
    cases run
    rfl
  · obtain ⟨w, root, -, rfl⟩ := walkJournal_scans run idle
    rfl

theorem fullyReplayed_iff {fuel fuel' : Nat} {fs fs₁ fs' fs₂ : Fsck} {ji ji' ji'' : JournalInfo} {err : Option Errcode}
    (first : walkJournal fuel fs ji false = some (fs₁, ji', err))
    (second : walkJournal fuel' fs' ji' true = some (fs₂, ji'', none)) :
    FullyReplayed fs fs' ji ji' fs₂.copies ↔ ji.ji_jsb.s_start = 0 ∨
      ∀ n, ∀ p ∈ paired ji'.ji_final_seq n (startWalk fs ji) (startWalk fs' ji'), Meets ji'.ji_final_seq p.1 p.2 := by
  by_cases idle : ji.ji_jsb.s_start = 0
  · exact iff_of_true (fun dirty => absurd idle dirty) (.inl idle)
  · obtain ⟨w, root, run, rfl⟩ := walkJournal_scans first idle
    unfold walkJournal at second
    rw [if_neg idle] at second
    split at second
    next => cases second
    next w' run' =>
      obtain ⟨rfl, rfl, clean⟩ : w'.fs = fs₂ ∧ w'.ji = ji'' ∧ w'.ret = none := by simpa using second
      have lockstep : Lockstep ji.ji_jsb w.next_seq (startWalk fs ji) (startWalk fs'
          { ji with ji_revoke := root, ji_set_final_seq := true, ji_final_seq := w.next_seq }) :=
        ⟨rfl, rfl, rfl, rfl, rfl, rfl⟩
      simp only [FullyReplayed, idle, false_or, ne_eq, not_false_eq_true, true_imp_iff]
      constructor
      · intro full
        exact (headers_agree_iff lockstep run rfl).mp full.1
      · intro meets
        exact ⟨(headers_agree_iff lockstep run rfl).mpr meets, paired_replayed lockstep run rfl meets run' clean⟩

section Volumes

def logRecord (kind seq block : Byte) : Buffer :=
  [0xc0, 0x3b, 0x39, 0x98, 0, 0, 0, kind, 0, 0, 0, seq, 0, 0, 0, block, 0, 0, 0, 10]

def logVolume (records : List (Nat × Buffer)) : Fsck where
  fs_blocks := 100
  disk b := (records.lookup b).getD (List.replicate 20 0)
  used_blocks := ∅
  copies := []

def logInfo (maxlen start : Nat) : JournalInfo where
  ji_slot := 0
  ji_dirty := true
  ji_replay := false
  ji_revoke := .nil
  ji_jsb := ⟨superblockV2, 20, maxlen, 1, 7, start, 0⟩
  ji_blocks := (· + 10)
  ji_set_final_seq := false
  ji_final_seq := 0

def badTagVolume : Fsck :=
  logVolume [(12, logRecord 1 7 50), (14, logRecord 2 7 0), (15, logRecord 1 8 1)]

def turnVolume : Fsck :=
  logVolume [(16, logRecord 1 7 50), (11, logRecord 2 7 0), (12, logRecord 1 8 51), (14, logRecord 2 8 0)]

def oneVolume : Fsck := logVolume [(12, logRecord 1 7 50), (14, logRecord 2 7 0)]

-- the journal when it is marked for its scan, and after it
def markedInfo : JournalInfo := { logInfo 9 2 with ji_replay := true }

def scannedInfo : JournalInfo := { markedInfo with ji_set_final_seq := true, ji_final_seq := 8 }

end Volumes

end Ocfs2.Journal
