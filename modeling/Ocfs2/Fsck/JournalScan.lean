import Ocfs2.Fsck.Journal
import Ocfs2.Shared.CountDown

set_option autoImplicit false

/-!
The first walk of a journal whose superblock the reader has accepted, with the numbers as the words they
are in the source: a wrap may never come to its end.
-/

namespace Ocfs2.Journal

open ByteBuffer CountDown

def featureIncompatRevoke : BitVec 32 := 1

def superBlockBlkno : Nat := 2

def decodeSuperblock (blk : Buffer) : Superblock where
  h_blocktype := be32 blk 4
  s_blocksize := (be32 blk 12).toNat
  s_maxlen := (be32 blk 16).toNat
  s_first := (be32 blk 20).toNat
  s_sequence := be32 blk 24
  s_start := (be32 blk 28).toNat
  s_feature_incompat := be32 blk 40

def readJournalSuperblock (fs : Fsck) (blkno : Nat) : Except Errcode Superblock :=
  if blkno < superBlockBlkno ∨ blkno > fs.fs_blocks then .error .badBlkno
  else
    let blk := fs.disk blkno
    if be32 blk 0 ≠ magicNumber then .error .badJournalSuperblockMagic
    else
      let jsb := decodeSuperblock blk
      if jsb.h_blocktype = superblockV2 ∧
          jsb.s_feature_incompat &&& ~~~(featureIncompatRevoke ||| featureIncompat64bit) ≠ 0 then
        .error .unsuppFeature
      else if jsb.h_blocktype = superblockV2 ∧ be32 blk 44 ≠ 0 then .error .roUnsuppFeature
      else .ok jsb

structure Superblock.Words (jsb : Superblock) : Prop where
  maxlen : jsb.s_maxlen < 2 ^ 32
  first : jsb.s_first < 2 ^ 32
  start : jsb.s_start < 2 ^ 32
  blocksize : jsb.s_blocksize < 2 ^ 32

theorem readJournalSuperblock_words {fs : Fsck} {blkno : Nat} {jsb : Superblock}
    (accepted : readJournalSuperblock fs blkno = .ok jsb) : jsb.Words := by
  simp only [readJournalSuperblock] at accepted
  split_ifs at accepted
  cases accepted
  exact ⟨BitVec.isLt _, BitVec.isLt _, BitVec.isLt _, BitVec.isLt _⟩

section Wrap

def Superblock.diff (jsb : Superblock) : Nat := (jsb.s_maxlen + 2 ^ 32 - jsb.s_first) % 2 ^ 32

/-- `jwrap` on words: the block has 64 bits. It has no result where the loop does not end, for which it
would come back to a number that it has had. -/
def jwrap64 (jsb : Superblock) (block : Nat) : Option Nat :=
  if jsb.diff = 0 then some 0 else countDown (2 ^ 64) jsb.diff jsb.s_maxlen (2 ^ 64) block

def WrapEnds (jsb : Superblock) (block : Nat) : Prop :=
  jsb.s_first = jsb.s_maxlen ∨ block % Nat.gcd jsb.diff (2 ^ 64) < jsb.s_maxlen

variable {jsb : Superblock}

theorem diff_lt (jsb : Superblock) : jsb.diff < 2 ^ 32 := Nat.mod_lt _ (by norm_num)

theorem diff_eq_zero (words : jsb.Words) : jsb.diff = 0 ↔ jsb.s_first = jsb.s_maxlen := by
  have := words.maxlen
  have := words.first
  rw [Superblock.diff]
  omega

theorem diff_eq_sub (words : jsb.Words) (le : jsb.s_first ≤ jsb.s_maxlen) :
    jsb.diff = jsb.s_maxlen - jsb.s_first := by
  have := words.maxlen
  rw [Superblock.diff]
  omega

theorem jwrap64_isSome_iff (words : jsb.Words) {block : Nat} (small : block < 2 ^ 64) :
    (jwrap64 jsb block).isSome = true ↔ WrapEnds jsb block := by
  have lt := diff_lt jsb
  rw [jwrap64, WrapEnds, ← diff_eq_zero words]
  split
  next zero => exact iff_of_true rfl (.inl zero)
  next some => rw [countDown_ends_iff small (by omega), or_iff_right some]

theorem jwrap64_lt {block r : Nat} (ends : jwrap64 jsb block = some r) (room : 0 < jsb.s_maxlen) :
    r < jsb.s_maxlen := by
  rw [jwrap64] at ends
  split at ends
  next =>
    cases ends
    exact room
  next => exact countDown_lt ends

theorem jwrap64_small (words : jsb.Words) {block r : Nat} (ends : jwrap64 jsb block = some r) :
    r < 2 ^ 32 := by
  have top := words.maxlen
  rw [jwrap64] at ends
  split at ends
  next =>
    cases ends
    norm_num
  next => exact (countDown_lt ends).trans top

theorem jwrap64_eq (words : jsb.Words) (le : jsb.s_first ≤ jsb.s_maxlen) {block : Nat} (small : block < 2 ^ 64) :
    jwrap64 jsb block = some (jwrap jsb block) := by
  rw [jwrap64, jwrap, diff_eq_sub words le]
  split
  next => rfl
  next some =>
    have loop (fuel n b : Nat) (small : b < 2 ^ 64) (enough : b < fuel) (room : b ≤ n) :
        countDown (2 ^ 64) (jsb.s_maxlen - jsb.s_first) jsb.s_maxlen fuel b =
          .some (jwrapLoop jsb.s_maxlen (jsb.s_maxlen - jsb.s_first) n b) := by
      induction fuel generalizing n b with
      | zero => omega
      | succ fuel ih =>
        rw [countDown]
        split
        next below => cases n <;> simp [jwrapLoop, below]
        next above =>
          obtain ⟨n, rfl⟩ : ∃ k, n = k + 1 := ⟨n - 1, by omega⟩
          have down : stepDown (2 ^ 64) (jsb.s_maxlen - jsb.s_first) b = b - (jsb.s_maxlen - jsb.s_first) := by
            rw [stepDown]
            omega
          rw [down, ih n _ (by omega) (by omega) (by omega), jwrapLoop, if_pos (by omega)]
    exact loop (2 ^ 64) block block small small le_rfl

theorem wrapEnds_of_le (words : jsb.Words) (le : jsb.s_first ≤ jsb.s_maxlen) (block : Nat) : WrapEnds jsb block := by
  rw [WrapEnds, ← diff_eq_zero words, or_iff_not_imp_left, diff_eq_sub words le]
  intro some
  have positive := Nat.pos_of_ne_zero some
  have remainder := Nat.mod_lt block (Nat.gcd_pos_of_pos_left (2 ^ 64) positive)
  have divisor := Nat.gcd_le_left (2 ^ 64) positive
  omega

end Wrap

section Scan

structure Report where
  reads : List Nat
  wraps : List Nat
  ended : Bool
  deriving DecidableEq

-- the wrap of the superblock, which stays the same for the whole walk
variable (wrap : Nat → Option Nat)

def scanRecord (w : Walk) (buf : Buffer) : List Nat × Option Walk :=
  if be32 buf 4 = descriptorBlock then
    match countTags w.fs w.ji.ji_jsb buf with
    | .error e => ([], some { w with ret := some e })
    | .ok nr => ([w.next_block + nr], (wrap (w.next_block + nr)).map fun next_block => { w with next_block })
  else if be32 buf 4 = commitBlock then ([], some { w with next_seq := w.next_seq + 1 })
  else if be32 buf 4 = revokeBlock then
    ([], some { w with ji := addRevokeRecords w.ji buf w.ji.ji_jsb.s_blocksize w.next_seq })
  else ([], some w)

inductive Outcome where
  | stops (wraps : List Nat)
  | hangs (wraps : List Nat)
  | goes (wraps : List Nat) (w : Walk)

def scanRound (w : Walk) : Outcome :=
  match readJournalBlock w.fs w.ji w.next_block true with
  | none => .stops []
  | some (_, .error _) => .stops []
  | some (fs, .ok buf) =>
    match wrap (w.next_block + 1) with
    | none => .hangs [w.next_block + 1]
    | some next_block =>
      if be32 buf 0 ≠ magicNumber then .stops [w.next_block + 1]
      else if be32 buf 8 ≠ w.next_seq then .stops [w.next_block + 1]
      else
        match scanRecord wrap { w with fs, next_block } buf with
        | (wraps, none) => .hangs ((w.next_block + 1) :: wraps)
        | (wraps, some w') => .goes ((w.next_block + 1) :: wraps) w'

def scanLoop : Nat → Walk → Report
  | 0, _ => ⟨[], [], false⟩
  | fuel + 1, w =>
    if w.ret.isSome then ⟨[], [], true⟩
    else
      match scanRound wrap w with
      | .stops wraps => ⟨[w.next_block], wraps, true⟩
      | .hangs wraps => ⟨[w.next_block], wraps, false⟩
      | .goes wraps w' =>
        let rest := scanLoop fuel w'
        ⟨w.next_block :: rest.reads, wraps ++ rest.wraps, rest.ended⟩

def scanJournal (fuel : Nat) (fs : Fsck) (ji : JournalInfo) : Report :=
  if ji.ji_jsb.s_start = 0 then ⟨[], [], true⟩
  else scanLoop (jwrap64 ji.ji_jsb) fuel ⟨fs, ji, ji.ji_jsb.s_sequence, ji.ji_jsb.s_start, none⟩

def ScanSafe (fs : Fsck) (ji : JournalInfo) : Prop :=
  (∃ fuel, (scanJournal fuel fs ji).ended = true) ∧
    ∀ fuel, ∀ b ∈ (scanJournal fuel fs ji).reads, b < ji.ji_jsb.s_maxlen

end Scan

section Rounds

def Fsck.unused (fs : Fsck) : Finset Nat := Finset.range fs.fs_blocks \ fs.used_blocks

variable {buf : Buffer} {fs : Fsck} {w : Walk}

theorem countTagsLoop_le {jsb : Superblock} {fuel tagp nr total : Nat}
    (counted : countTagsLoop fs jsb buf fuel tagp nr = .ok total) : total ≤ nr + fuel := by
  induction fuel generalizing tagp nr with
  | zero =>
    cases counted
    exact le_rfl
  | succ fuel ih =>
    simp only [countTagsLoop] at counted
    split_ifs at counted
    · cases counted
      omega
    · have := ih counted
      omega
    · cases counted
      omega

theorem countTags_le {jsb : Superblock} {nr : Nat}
    (counted : countTags fs jsb buf = .ok nr) : nr ≤ jsb.s_blocksize := by
  unfold countTags at counted
  split_ifs at counted
  simpa using countTagsLoop_le counted

theorem readJournalBlock_unused {fs' : Fsck} {ji : JournalInfo} {blkoff : Nat}
    (read : readJournalBlock fs ji blkoff true = some (fs', .ok buf)) :
    fs'.unused.card < fs.unused.card := by
  simp only [readJournalBlock, if_true] at read
  split_ifs at read with behind used <;> cases read
  have less : Finset.range fs.fs_blocks \ insert (ji.ji_blocks blkoff) fs.used_blocks ⊆ fs.unused :=
    Finset.sdiff_subset_sdiff le_rfl (Finset.subset_insert _ _)
  refine Finset.card_lt_card ((Finset.ssubset_iff_of_subset less).mpr ⟨ji.ji_blocks blkoff, ?_, by simp⟩)
  exact Finset.mem_sdiff.mpr ⟨Finset.mem_range.mpr (by omega), used⟩

variable {wrap : Nat → Option Nat} {jsb : Superblock}

theorem scanRecord_cases (w : Walk) (buf : Buffer) :
    (∃ w', scanRecord wrap w buf = ([], some w') ∧ w'.ji.ji_jsb = w.ji.ji_jsb ∧ w'.fs = w.fs ∧
        w'.next_block = w.next_block) ∨
      ∃ nr ≤ w.ji.ji_jsb.s_blocksize, scanRecord wrap w buf = ([w.next_block + nr],
        (wrap (w.next_block + nr)).map fun next_block => { w with next_block }) := by
  unfold scanRecord
  split
  · cases counted : countTags w.fs w.ji.ji_jsb buf with
    | error e => exact .inl ⟨_, rfl, rfl, rfl, rfl⟩
    | ok nr => exact .inr ⟨nr, countTags_le counted, rfl⟩
  · split
    · exact .inl ⟨_, rfl, rfl, rfl, rfl⟩
    · split
      · refine .inl ⟨_, rfl, ?_, rfl, rfl⟩
        unfold addRevokeRecords
        simp only
        split <;> rfl
      · exact .inl ⟨_, rfl, rfl, rfl, rfl⟩

structure Scanning (jsb : Superblock) (w : Walk) : Prop where
  same : w.ji.ji_jsb = jsb
  low : w.next_block < 2 ^ 32

inductive Round (wrap : Nat → Option Nat) (jsb : Superblock) (w : Walk) : Outcome → Prop where
  | stops (wraps : List Nat) (fine : ∀ b ∈ wraps, (wrap b).isSome = true) (small : ∀ b ∈ wraps, b < 2 ^ 64) :
      Round wrap jsb w (.stops wraps)
  | hangs (wraps : List Nat) (b : Nat) (mem : b ∈ wraps) (stuck : wrap b = none) (small : ∀ b ∈ wraps, b < 2 ^ 64) :
      Round wrap jsb w (.hangs wraps)
  | goes (wraps : List Nat) (w' : Walk) (fine : ∀ b ∈ wraps, (wrap b).isSome = true) (small : ∀ b ∈ wraps, b < 2 ^ 64)
      (b : Nat) (wrapped : wrap b = some w'.next_block) (scanning : Scanning jsb w')
      (marks : w'.fs.unused.card < w.fs.unused.card) : Round wrap jsb w (.goes wraps w')

theorem scanRound_correct (words : jsb.Words) (low : ∀ b r, wrap b = some r → r < 2 ^ 32)
    (scanning : Scanning jsb w) : Round wrap jsb w (scanRound wrap w) := by
  have size := words.blocksize
  have start := scanning.low
  unfold scanRound
  cases read : readJournalBlock w.fs w.ji w.next_block true with
  | none => exact .stops [] (by simp) (by simp)
  | some pair =>
    obtain ⟨fs, got⟩ := pair
    cases got with
    | error e => exact .stops [] (by simp) (by simp)
    | ok buf =>
      have marks := readJournalBlock_unused read
      have bound : ∀ b ∈ [w.next_block + 1], b < 2 ^ 64 := by
        rw [List.forall_mem_singleton]
        omega
      cases next : wrap (w.next_block + 1) with
      | none => exact .hangs _ _ (List.mem_singleton_self _) next bound
      | some next_block =>
        have near := low _ _ next
        have first : ∀ b ∈ [w.next_block + 1], (wrap b).isSome = true := by
          rw [List.forall_mem_singleton, next]
          rfl
        simp only
        split
        · exact .stops _ first bound
        split
        · exact .stops _ first bound
        rcases scanRecord_cases { w with fs, next_block } buf with ⟨w', record, same, kept, stays⟩ | ⟨nr, le, record⟩
        · rw [record]
          exact .goes _ w' first bound (w.next_block + 1) (by rw [next, stays])
            ⟨same.trans scanning.same, by rwa [stays]⟩ (by rwa [kept])
        · have short : nr ≤ jsb.s_blocksize := by rwa [← scanning.same]
          have both : ∀ b ∈ [w.next_block + 1, next_block + nr], b < 2 ^ 64 := by
            simp only [List.forall_mem_cons, List.not_mem_nil, false_imp_iff, implies_true, and_true]
            omega
          rw [record]
          cases again : wrap (next_block + nr) with
          | none => exact .hangs _ (next_block + nr) (by simp) again both
          | some block =>
            refine .goes _ { w with fs, next_block := block } ?_ both _ again ⟨scanning.same, low _ _ again⟩ marks
            rw [List.forall_mem_cons, List.forall_mem_singleton, next, again]
            exact ⟨rfl, rfl⟩

theorem scanLoop_failed {e : Errcode} (failed : w.ret = some e) (fuel : Nat) :
    scanLoop wrap (fuel + 1) w = ⟨[], [], true⟩ := by
  rw [scanLoop, if_pos (by rw [failed]; rfl)]

theorem scanLoop_succ (fresh : w.ret = none) (fuel : Nat) :
    scanLoop wrap (fuel + 1) w =
      match scanRound wrap w with
      | .stops wraps => ⟨[w.next_block], wraps, true⟩
      | .hangs wraps => ⟨[w.next_block], wraps, false⟩
      | .goes wraps w' => ⟨w.next_block :: (scanLoop wrap fuel w').reads, wraps ++ (scanLoop wrap fuel w').wraps,
          (scanLoop wrap fuel w').ended⟩ := by
  rw [scanLoop, if_neg (by rw [fresh]; exact Bool.false_ne_true)]

theorem scanLoop_reads (words : jsb.Words) (inside : ∀ b r, wrap b = some r → r < jsb.s_maxlen) (fuel : Nat)
    (same : w.ji.ji_jsb = jsb) (start : w.next_block < jsb.s_maxlen) :
    ∀ b ∈ (scanLoop wrap fuel w).reads, b < jsb.s_maxlen := by
  have top := words.maxlen
  induction fuel generalizing w with
  | zero => simp [scanLoop]
  | succ fuel ih =>
    cases failed : w.ret with
    | some e => simp [scanLoop_failed failed]
    | none =>
      have round := scanRound_correct words (fun b r wrapped => (inside b r wrapped).trans top) ⟨same, start.trans top⟩
      rw [scanLoop_succ failed]
      generalize scanRound wrap w = outcome at round ⊢
      cases round with
      | stops wraps fine small => simpa using start
      | hangs wraps b mem stuck small => simpa using start
      | goes wraps w' fine small b wrapped scanning marks =>
        rw [List.forall_mem_cons]
        exact ⟨start, ih scanning.same (inside _ _ wrapped)⟩

section Ends

variable {Ends : Nat → Prop} (words : jsb.Words) (low : ∀ b r, wrap b = some r → r < 2 ^ 32)
  (ends_iff : ∀ b < 2 ^ 64, (wrap b).isSome = true ↔ Ends b)

include words low ends_iff

theorem scanLoop_wraps (enough : Nat) (scanning : Scanning jsb w)
    (ended : (scanLoop wrap enough w).ended = true) (fuel : Nat) : ∀ b ∈ (scanLoop wrap fuel w).wraps, Ends b := by
  induction enough generalizing w fuel with
  | zero => cases ended
  | succ enough ih =>
    cases fuel with
    | zero => simp [scanLoop]
    | succ fuel =>
      cases failed : w.ret with
      | some e => simp [scanLoop_failed failed]
      | none =>
        have round := scanRound_correct words low scanning
        rw [scanLoop_succ failed] at ended ⊢
        generalize scanRound wrap w = outcome at round ended ⊢
        cases round with
        | stops wraps fine small =>
          intro b mem
          exact (ends_iff b (small b mem)).mp (fine b mem)
        | hangs wraps b mem stuck small => cases ended
        | goes wraps w' fine small _ wrapped scanning marks =>
          intro b mem
          rcases List.mem_append.mp mem with here | later
          · exact (ends_iff b (small b here)).mp (fine b here)
          · exact ih scanning ended fuel b later

theorem scanLoop_ends (fuel : Nat) (scanning : Scanning jsb w) (enough : w.fs.unused.card < fuel)
    (all : ∀ b ∈ (scanLoop wrap fuel w).wraps, Ends b) : (scanLoop wrap fuel w).ended = true := by
  induction fuel generalizing w with
  | zero => omega
  | succ fuel ih =>
    cases failed : w.ret with
    | some e => rw [scanLoop_failed failed]
    | none =>
      have round := scanRound_correct words low scanning
      rw [scanLoop_succ failed] at all ⊢
      generalize scanRound wrap w = outcome at round all ⊢
      cases round with
      | stops wraps fine small => rfl
      | hangs wraps b mem stuck small =>
        have ended := (ends_iff b (small b mem)).mpr (all b mem)
        rw [stuck] at ended
        cases ended
      | goes wraps w' fine small _ wrapped scanning marks =>
        exact ih scanning (by omega) fun b mem => all b (List.mem_append_right _ mem)

end Ends

theorem mem_reads_first (w : Walk) (fresh : w.ret = none) : w.next_block ∈ (scanLoop wrap 1 w).reads := by
  rw [scanLoop_succ fresh]
  cases scanRound wrap w <;> exact List.mem_cons_self

theorem mem_wraps_first (fresh : w.ret = none)
    (read : readJournalBlock w.fs w.ji w.next_block true = some (fs, .ok buf)) :
    w.next_block + 1 ∈ (scanLoop wrap 1 w).wraps := by
  rw [scanLoop_succ fresh, scanRound, read]
  cases wrap (w.next_block + 1) with
  | none => exact List.mem_cons_self
  | some next_block =>
    by_cases foreign : be32 buf 0 ≠ magicNumber
    · simp only [if_pos foreign, List.mem_cons_self]
    by_cases late : be32 buf 8 ≠ w.next_seq
    · simp only [if_neg foreign, if_pos late, List.mem_cons_self]
    simp only [if_neg foreign, if_neg late]
    rcases scanRecord wrap { w with fs, next_block } buf with ⟨wraps, _ | w'⟩ <;> exact List.mem_cons_self

end Rounds

theorem scan_safe_iff {fs : Fsck} {ji : JournalInfo} {blkno : Nat}
    (accepted : readJournalSuperblock fs blkno = .ok ji.ji_jsb) :
    ScanSafe fs ji ↔ ji.ji_jsb.s_start = 0 ∨ ji.ji_jsb.s_start < ji.ji_jsb.s_maxlen ∧
      ∀ fuel, ∀ b ∈ (scanJournal fuel fs ji).wraps, WrapEnds ji.ji_jsb b := by
  have words := readJournalSuperblock_words accepted
  have low (b r : Nat) (wrapped : jwrap64 ji.ji_jsb b = some r) := jwrap64_small words wrapped
  have ends (b : Nat) (small : b < 2 ^ 64) := jwrap64_isSome_iff words small
  by_cases clean : ji.ji_jsb.s_start = 0
  · refine iff_of_true ⟨⟨0, by rw [scanJournal, if_pos clean]⟩, fun fuel => ?_⟩ (.inl clean)
    rw [scanJournal, if_pos clean]
    simp
  · simp only [ScanSafe, scanJournal, clean, if_false, false_or]
    constructor
    · rintro ⟨⟨enough, ended⟩, reads⟩
      exact ⟨reads 1 _ (mem_reads_first _ rfl), scanLoop_wraps words low ends enough ⟨rfl, words.start⟩ ended⟩
    · rintro ⟨inside, all⟩
      exact ⟨⟨_, scanLoop_ends words low ends _ ⟨rfl, words.start⟩ (Nat.lt_succ_self _) (all _)⟩,
        fun fuel => scanLoop_reads words (fun b r wrapped => jwrap64_lt wrapped (by omega)) fuel rfl inside⟩

section Volumes

variable (maxlen first start : Buffer)

def superblockBytes : Buffer :=
  [0xc0, 0x3b, 0x39, 0x98, 0, 0, 0, 4, 0, 0, 0, 0, 0, 0, 2, 0] ++ maxlen ++ first ++ [0, 0, 0, 7] ++ start ++
    [0, 0, 0, 0, 0, 0, 0, 0, 0, 0, 0, 0, 0, 0, 0, 0]

def scanVolume : Fsck := ⟨4096, fun _ => superblockBytes maxlen first start, ∅, []⟩

def scanInfo : JournalInfo where
  ji_slot := 0
  ji_dirty := true
  ji_replay := true
  ji_revoke := .nil
  ji_jsb := decodeSuperblock (superblockBytes maxlen first start)
  ji_blocks := (· + 10)
  ji_set_final_seq := false
  ji_final_seq := 0

theorem scan_safe_hundred_blocks :
    ScanSafe (scanVolume [0, 0, 0, 100] [0, 0, 0, 1] [0, 0, 0, 1]) (scanInfo [0, 0, 0, 100] [0, 0, 0, 1] [0, 0, 0, 1]) := by
  have accepted : readJournalSuperblock (scanVolume [0, 0, 0, 100] [0, 0, 0, 1] [0, 0, 0, 1]) 10 =
      .ok (scanInfo [0, 0, 0, 100] [0, 0, 0, 1] [0, 0, 0, 1]).ji_jsb := by decide
  refine (scan_safe_iff accepted).mpr (.inr ⟨by decide, fun _ b _ => ?_⟩)
  exact wrapEnds_of_le (readJournalSuperblock_words accepted) (by decide) b

/-- The reader accepts a log that starts behind its end, and one whose first block is so far behind it that
the difference is a power of two: the wrap of the block behind the last one never ends. -/
theorem scan_unsafe :
    (readJournalSuperblock (scanVolume [0, 0, 0, 100] [0, 0, 0, 1] [0, 0, 0, 200]) 10 =
        .ok (scanInfo [0, 0, 0, 100] [0, 0, 0, 1] [0, 0, 0, 200]).ji_jsb ∧
      200 ∈ (scanJournal 1 (scanVolume [0, 0, 0, 100] [0, 0, 0, 1] [0, 0, 0, 200])
        (scanInfo [0, 0, 0, 100] [0, 0, 0, 1] [0, 0, 0, 200])).reads) ∧
      readJournalSuperblock (scanVolume [0, 0, 0, 100] [0x80, 0, 0, 100] [0, 0, 0, 99]) 10 =
        .ok (scanInfo [0, 0, 0, 100] [0x80, 0, 0, 100] [0, 0, 0, 99]).ji_jsb ∧
      ∀ fuel, (scanJournal fuel (scanVolume [0, 0, 0, 100] [0x80, 0, 0, 100] [0, 0, 0, 99])
        (scanInfo [0, 0, 0, 100] [0x80, 0, 0, 100] [0, 0, 0, 99])).ended = false := by
  refine ⟨⟨by decide, ?_⟩, by decide, fun fuel => ?_⟩
  · rw [scanJournal, if_neg (by decide)]
    exact mem_reads_first _ rfl
  · have words : (scanInfo [0, 0, 0, 100] [0x80, 0, 0, 100] [0, 0, 0, 99]).ji_jsb.Words :=
      ⟨by decide, by decide, by decide, by decide⟩
    rw [scanJournal, if_neg (by decide), ← Bool.not_eq_true]
    intro ended
    have all := scanLoop_wraps words (fun b r wrapped => jwrap64_small words wrapped)
      (fun b small => jwrap64_isSome_iff words small) fuel ⟨rfl, words.start⟩ ended 1
    have stuck : ¬ WrapEnds (scanInfo [0, 0, 0, 100] [0x80, 0, 0, 100] [0, 0, 0, 99]).ji_jsb 100 := by
      unfold WrapEnds
      decide +kernel
    exact stuck (all 100 (mem_wraps_first rfl rfl))

end Volumes

end Ocfs2.Journal
