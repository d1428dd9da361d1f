import Ocfs2.Fsck.JournalImage

set_option autoImplicit false

namespace Ocfs2.Journal

open ByteBuffer

variable {b : Nat} {ji : JournalInfo}

section Positions

variable {jsb : Superblock}

theorem jwrap_inside (lt : jsb.s_first < jsb.s_maxlen) (le : jsb.s_first ≤ b) :
    jsb.s_first ≤ jwrap jsb b ∧ jwrap jsb b < jsb.s_maxlen := by
  have := Nat.mod_lt (b - jsb.s_first) (show 0 < jsb.s_maxlen - jsb.s_first by omega)
  rw [jwrap_room lt le]
  omega

theorem jwrap_of_lt (lt : jsb.s_first < jsb.s_maxlen) (inside : b < jsb.s_maxlen) : jwrap jsb b = b := by
  rw [jwrap, if_neg (by omega)]
  cases b with
  | zero => rfl
  | succ b => rw [jwrapLoop, if_neg (by omega)]

theorem jwrap_add (jsb : Superblock) (b n : Nat) : jwrap jsb (jwrap jsb b + n) = jwrap jsb (b + n) := by
  by_cases lt : jsb.s_first < jsb.s_maxlen
  · by_cases inside : b < jsb.s_maxlen
    · rw [jwrap_of_lt lt inside]
    · have le : jsb.s_first ≤ b := by omega
      have low := (jwrap_inside lt le).1
      rw [jwrap_room lt (b := jwrap jsb b + n) (by omega), jwrap_room lt (b := b + n) (by omega), jwrap_room lt le,
        show jsb.s_first + (b - jsb.s_first) % (jsb.s_maxlen - jsb.s_first) + n - jsb.s_first =
          (b - jsb.s_first) % (jsb.s_maxlen - jsb.s_first) + n by omega,
        Nat.mod_add_mod, show b + n - jsb.s_first = b - jsb.s_first + n by omega]
  · have flat (b : Nat) : jwrap jsb b = 0 := by rw [jwrap, if_pos (by omega)]
    rw [flat, flat]

end Positions

section Tags

variable (jsb : Superblock) (buf : Buffer)

def tagsRead : Nat → Nat → List Nat
  | 0, _ => []
  | n + 1, tagp =>
    let tag := readTag jsb buf tagp
    tagp :: if tag.has flagLastTag then [] else tagsRead n (nextTag jsb tag tagp)

def tagsOwned : Bool :=
  (tagsRead jsb buf ((jsb.s_blocksize - 12) / journalTagBytes jsb) 12).all fun tagp =>
    decide (tagp + journalTagBytes jsb ≤ jsb.s_blocksize)

variable {jsb buf}

variable {nr : Nat} {fs : Fsck}

theorem countTagsLoop_full {fuel tagp total : Nat}
    (counted : countTagsLoop fs jsb buf fuel tagp nr = .ok total)
    (full : ¬ tagp + journalTagBytes jsb ≤ jsb.s_blocksize) : nr = total := by
  cases fuel with
  | zero =>
    cases counted
    rfl
  | succ fuel =>
    rw [countTagsLoop, if_neg full] at counted
    cases counted
    rfl

theorem tagsRead_owned_iff {fuel n tagp total : Nat}
    (counted : countTagsLoop fs jsb buf fuel tagp nr = .ok total) (enough : jsb.s_blocksize < tagp + fuel)
    (room : jsb.s_blocksize < tagp + (n + 1) * journalTagBytes jsb) :
    ((tagsRead jsb buf n tagp).all fun tagp => decide (tagp + journalTagBytes jsb ≤ jsb.s_blocksize)) = true ↔
      nr + (tagsRead jsb buf n tagp).length = total := by
  have bytes := journalTagBytes_ge jsb
  induction n generalizing fuel tagp nr with
  | zero =>
    simp [tagsRead, countTagsLoop_full counted (by omega)]
  | succ n ih =>
    by_cases fits : tagp + journalTagBytes jsb ≤ jsb.s_blocksize
    · obtain ⟨fuel, rfl⟩ : ∃ k, fuel = k + 1 := ⟨fuel - 1, by omega⟩
      rw [countTagsLoop, if_pos fits] at counted
      simp only at counted
      split at counted
      next => cases counted
      next =>
        rw [tagsRead]
        simp only [List.all_cons, fits, decide_true, Bool.true_and]
        split at counted
        next last =>
          cases counted
          simp [last]
        next more =>
          have later : tagp + journalTagBytes jsb ≤ nextTag jsb (readTag jsb buf tagp) tagp := by
            rw [nextTag]
            omega
          rw [Nat.succ_mul] at room
          have rest := ih counted (by omega) (by omega)
          rw [if_neg more, List.length_cons]
          exact rest.trans (by omega)
    · have stopped := countTagsLoop_full counted fits
      rw [tagsRead]
      simp only [List.all_cons, fits, decide_false, Bool.false_and, Bool.false_eq_true, false_iff, List.length_cons]
      omega

theorem tagsOwned_iff (counted : countTags fs jsb buf = .ok nr) :
    tagsOwned jsb buf = true ↔
      (tagsRead jsb buf ((jsb.s_blocksize - 12) / journalTagBytes jsb) 12).length = nr := by
  have bytes := journalTagBytes_ge jsb
  unfold countTags at counted
  split at counted
  · cases counted
  · rw [tagsOwned, tagsRead_owned_iff counted (by omega), Nat.zero_add]
    have := Nat.lt_mul_div_succ (jsb.s_blocksize - 12) (show 0 < journalTagBytes jsb by omega)
    rw [Nat.mul_comm] at this
    omega

theorem tagsOwned_pos (counted : countTags fs jsb buf = .ok nr) (owned : tagsOwned jsb buf = true) : 0 < nr := by
  have bytes := journalTagBytes_ge jsb
  rw [← (tagsOwned_iff counted).mp owned]
  unfold countTags at counted
  split at counted
  · cases counted
  · obtain ⟨n, some⟩ := Nat.exists_eq_add_of_lt (Nat.div_pos (show journalTagBytes jsb ≤ jsb.s_blocksize - 12 by omega)
      (by omega))
    rw [some, tagsRead, List.length_cons]
    omega

theorem replayLoop_position {seq : BitVec 32} {n tagp b' : Nat} {fs' : Fsck}
    {ret ret' : Option Errcode} (run : replayLoop ji buf seq n tagp b fs ret = some (fs', b', ret')) :
    (tagsRead ji.ji_jsb buf n tagp).length = 0 ∧ b' = b ∨ 0 < (tagsRead ji.ji_jsb buf n tagp).length ∧
      b' = jwrap ji.ji_jsb (b + (tagsRead ji.ji_jsb buf n tagp).length - 1) + 1 := by
  induction n generalizing tagp b fs ret with
  | zero =>
    cases run
    exact .inl ⟨rfl, rfl⟩
  | succ n ih =>
    right
    simp only [replayLoop] at run
    simp only [tagsRead]
    split at run
    next => cases run
    next fs₁ ret₁ _ =>
      split at run
      next last =>
        cases run
        simp [last]
      next more =>
        rw [if_neg more, List.length_cons]
        rcases ih run with ⟨none, rfl⟩ | ⟨some, rfl⟩
        · rw [none]
          exact ⟨by omega, rfl⟩
        · refine ⟨by omega, ?_⟩
          rw [Nat.add_sub_assoc (by omega), Nat.add_assoc, jwrap_add]
          congr 2
          omega

theorem countTags_congr {fs' : Fsck} (same : fs'.fs_blocks = fs.fs_blocks) :
    countTags fs' jsb buf = countTags fs jsb buf := by
  have range (block : Nat) : blockOutOfRange fs' block = blockOutOfRange fs block := by
    rw [blockOutOfRange, blockOutOfRange, same]
  have loop (fuel tagp nr : Nat) : countTagsLoop fs' jsb buf fuel tagp nr = countTagsLoop fs jsb buf fuel tagp nr := by
    induction fuel generalizing tagp nr with
    | zero => rfl
    | succ fuel ih => simp only [countTagsLoop, range, ih]
  simp only [countTags, loop]

theorem replayBlocks_position {fs₁ fs₂ : Fsck} {seq : BitVec 32} {b' : Nat}
    {err : Option Errcode} (counted : countTags fs ji.ji_jsb buf = .ok nr) (owned : tagsOwned ji.ji_jsb buf = true)
    (run : replayBlocks fs₁ ji buf seq b = some (fs₂, b', err)) : b' = jwrap ji.ji_jsb (b + nr - 1) + 1 := by
  have some := tagsOwned_pos counted owned
  have tags := (tagsOwned_iff counted).mp owned
  unfold replayBlocks at run
  rcases replayLoop_position run with ⟨none, -⟩ | ⟨-, here⟩
  · omega
  · rw [here, tags]

end Tags

section Rounds

def visit (recover : Bool) (w : Walk) : Option (Nat × Buffer) :=
  if !(recover || w.ret.isNone) then none
  else if recover && seqGeq w.next_seq w.ji.ji_final_seq then none
  else
    match readJournalBlock w.fs w.ji w.next_block (!recover) with
    | none => none
    | some (_, .error _) => none
    | some (_, .ok buf) => some (w.next_block, buf)

def definedRecord (recover : Bool) (w : Walk) (buf : Buffer) : Option Walk :=
  if recover && be32 buf 4 == descriptorBlock && !tagsOwned w.ji.ji_jsb buf then none
  else walkRecord recover w buf

def nextRound (recover : Bool) (w : Walk) : Option Walk :=
  if !(recover || w.ret.isNone) then none
  else if recover && seqGeq w.next_seq w.ji.ji_final_seq then none
  else
    match readJournalBlock w.fs w.ji w.next_block (!recover) with
    | none => none
    | some (_, .error _) => none
    | some (fs, .ok buf) =>
      if be32 buf 0 ≠ magicNumber then none
      else if be32 buf 8 ≠ w.next_seq then none
      else definedRecord recover { w with fs, next_block := jwrap w.ji.ji_jsb (w.next_block + 1) } buf

def headers (recover : Bool) (final : BitVec 32) : Nat → Walk → List (Nat × Buffer)
  | 0, _ => []
  | n + 1, w =>
    if w.next_seq = final then []
    else (visit recover w).elim [] fun header => header :: (nextRound recover w).elim [] (headers recover final n)

def paired (final : BitVec 32) : Nat → Walk → Walk → List (Walk × Walk)
  | 0, _, _ => []
  | n + 1, s, r =>
    if s.next_seq = final then []
    else (s, r) :: (nextRound false s).elim [] fun s' => (nextRound true r).elim [] fun r' => paired final n s' r'

def Walk.header (w : Walk) : Buffer := w.fs.disk (w.ji.ji_blocks w.next_block)

structure Meets (final : BitVec 32) (s r : Walk) : Prop where
  early : seqGeq s.next_seq final = false
  kept : r.fs.disk (s.ji.ji_blocks s.next_block) = s.header
  tags : be32 s.header 4 = descriptorBlock → ∀ nr, countTags s.fs s.ji.ji_jsb s.header = .ok nr →
    tagsOwned s.ji.ji_jsb s.header = true ∧
      (replayBlocks r.fs r.ji s.header s.next_seq (jwrap s.ji.ji_jsb (s.next_block + 1))).isSome = true ∧
      jwrap s.ji.ji_jsb (s.next_block + nr) + 1 = jwrap s.ji.ji_jsb (s.next_block + nr + 1)

structure Lockstep (jsb : Superblock) (final : BitVec 32) (s r : Walk) : Prop where
  seq : r.next_seq = s.next_seq
  block : r.next_block = s.next_block
  left : s.ji.ji_jsb = jsb
  right : r.ji.ji_jsb = jsb
  blocks : r.ji.ji_blocks = s.ji.ji_blocks
  last : r.ji.ji_final_seq = final

structure Scanned (s s' : Walk) : Prop where
  fresh : s.ret = none
  read : visit false s = some (s.next_block, s.header)
  magic : be32 s.header 0 = magicNumber
  current : be32 s.header 8 = s.next_seq
  record : ∃ fs, fs.fs_blocks = s.fs.fs_blocks ∧
    walkRecord false { s with fs, next_block := jwrap s.ji.ji_jsb (s.next_block + 1) } s.header = some s'

theorem readJournalBlock_ok {fs fs' : Fsck} {check : Bool} {buf : Buffer}
    (read : readJournalBlock fs ji b check = some (fs', .ok buf)) :
    buf = fs.disk (ji.ji_blocks b) ∧ fs'.fs_blocks = fs.fs_blocks := by
  unfold readJournalBlock at read
  simp only at read
  split_ifs at read <;> cases read <;> exact ⟨rfl, rfl⟩

theorem addRevokeRecords_root (ji : JournalInfo) (buf : Buffer) (size : Nat) (seq : BitVec 32) :
    ∃ root, addRevokeRecords ji buf size seq = { ji with ji_revoke := root } := by
  unfold addRevokeRecords
  simp only
  split <;> exact ⟨_, rfl⟩

theorem scanned_of_nextRound {s s' : Walk} (goes : nextRound false s = some s') : Scanned s s' := by
  simp only [nextRound, Bool.false_or, Bool.false_and, Bool.false_eq_true, if_false, Bool.not_false,
    Option.ite_none_left_eq_some] at goes
  obtain ⟨running, goes⟩ := goes
  have fresh : s.ret = none := by simpa using running
  split at goes
  next => cases goes
  next => cases goes
  next fs buf read =>
    obtain ⟨rfl, size⟩ := readJournalBlock_ok read
    simp only [Option.ite_none_left_eq_some, ne_eq, not_not] at goes
    obtain ⟨magic, current, record⟩ := goes
    refine ⟨fresh, by simp [visit, fresh, read, Walk.header], magic, current, fs, size, ?_⟩
    simpa [definedRecord, Walk.header] using record

theorem walkLoop_rounds {fuel : Nat} {s w : Walk} (run : walkLoop false (fuel + 1) s = some w) :
    (∃ s', nextRound false s = some s' ∧ walkLoop false fuel s' = some w) ∨ w.next_seq = s.next_seq ∧ w.ji = s.ji := by
  rw [walkLoop] at run
  unfold nextRound
  simp only [Bool.false_or, Bool.false_and, Bool.false_eq_true, if_false, Bool.not_false] at run ⊢
  split at run
  next =>
    cases run
    exact .inr ⟨rfl, rfl⟩
  next running =>
    rcases read : readJournalBlock s.fs s.ji s.next_block true with _ | ⟨fs, e | buf⟩ <;> simp only [read] at run ⊢
    · cases run
    · cases run
      exact .inr ⟨rfl, rfl⟩
    · split_ifs at run ⊢
      · cases run
        exact .inr ⟨rfl, rfl⟩
      · cases run
        exact .inr ⟨rfl, rfl⟩
      · split at run
        next => cases run
        next s' record => exact .inl ⟨s', by simpa [definedRecord] using record, run⟩

variable {jsb : Superblock} {final : BitVec 32} {s r s' : Walk} (lockstep : Lockstep jsb final s r)
  (scanned : Scanned s s')

include lockstep scanned

theorem visit_recover_iff : visit true r = visit false s ↔
      seqGeq s.next_seq final = false ∧ r.fs.disk (s.ji.ji_blocks s.next_block) = s.header := by
  rw [scanned.read, visit, lockstep.seq, lockstep.last]
  cases late : seqGeq s.next_seq final
  · simp [readJournalBlock, lockstep.block, lockstep.blocks]
  · simp

variable (early : seqGeq s.next_seq final = false) (kept : r.fs.disk (s.ji.ji_blocks s.next_block) = s.header)

include early kept

theorem nextRound_recover :
    nextRound true r = definedRecord true { r with next_block := jwrap jsb (s.next_block + 1) } s.header := by
  have magic := scanned.magic
  have current := scanned.current
  have bytes : r.fs.disk (r.ji.ji_blocks s.next_block) = s.header := by
    rw [lockstep.blocks, kept]
  unfold nextRound
  rw [if_neg (by simp), if_neg (by simp [lockstep.seq, lockstep.last, early])]
  simp only [readJournalBlock, Bool.not_true, Bool.false_eq_true, if_false, bytes, magic, current, lockstep.seq,
    lockstep.block, lockstep.right, ne_eq, not_true]

theorem nextRound_other (other : be32 s.header 4 ≠ descriptorBlock) :
    ∃ r', nextRound true r = some r' ∧ Lockstep jsb final s' r' := by
  obtain ⟨fs, -, record⟩ := scanned.record
  rw [nextRound_recover lockstep scanned early kept, definedRecord, if_neg (by simp [other])]
  unfold walkRecord at record ⊢
  rw [if_neg other] at record ⊢
  obtain ⟨seq, -, left, right, blocks, last⟩ := lockstep
  split at record
  next commit =>
    rw [if_pos commit]
    cases record
    exact ⟨_, rfl, ⟨by simp only [seq], by simp only [left], left, right, blocks, last⟩⟩
  next open_ =>
    rw [if_neg open_]
    split at record
    next revokes =>
      rw [if_pos revokes]
      obtain ⟨root, scan⟩ := addRevokeRecords_root s.ji s.header s.ji.ji_jsb.s_blocksize s.next_seq
      obtain ⟨root', recovery⟩ := addRevokeRecords_root r.ji s.header r.ji.ji_jsb.s_blocksize r.next_seq
      simp only [scan] at record
      simp only [recovery]
      cases record
      exact ⟨_, rfl, ⟨seq, by simp only [left], left, right, blocks, last⟩⟩
    next unknown =>
      rw [if_neg unknown]
      cases record
      exact ⟨_, rfl, ⟨seq, by simp only [left], left, right, blocks, last⟩⟩

theorem nextRound_descriptor {nr : Nat} (descriptor : be32 s.header 4 = descriptorBlock) (counted : countTags s.fs jsb s.header = .ok nr) :
    ((∃ r', nextRound true r = some r' ∧ r'.next_block = s'.next_block) ↔
      tagsOwned jsb s.header = true ∧
        (replayBlocks r.fs r.ji s.header s.next_seq (jwrap jsb (s.next_block + 1))).isSome = true ∧
        jwrap jsb (s.next_block + nr) + 1 = jwrap jsb (s.next_block + nr + 1)) ∧
      ∀ r', nextRound true r = some r' → r'.next_block = s'.next_block → Lockstep jsb final s' r' := by
  obtain ⟨fs, size, record⟩ := scanned.record
  obtain rfl : { s with fs, next_block := jwrap jsb (jwrap jsb (s.next_block + 1) + nr) } = s' := by
    rw [walkRecord, if_pos descriptor] at record
    simp only [lockstep.left, countTags_congr size, counted, Bool.false_eq_true, if_false] at record
    exact Option.some.inj record
  have there : jwrap jsb (jwrap jsb (s.next_block + 1) + nr) = jwrap jsb (s.next_block + nr + 1) := by
    rw [jwrap_add, Nat.add_right_comm]
  rw [nextRound_recover lockstep scanned early kept, definedRecord]
  simp only [descriptor, Bool.true_and, beq_self_eq_true, Bool.not_eq_true', lockstep.right]
  cases owned : tagsOwned jsb s.header
  · simp
  · rw [if_neg (by simp), walkRecord, if_pos descriptor]
    simp only [if_true, lockstep.seq]
    cases run : replayBlocks r.fs r.ji s.header s.next_seq (jwrap jsb (s.next_block + 1)) with
    | none => simp
    | some result =>
      obtain ⟨fs', b', err⟩ := result
      have here : b' = jwrap jsb (s.next_block + nr) + 1 := by
        have position := replayBlocks_position (by rw [lockstep.right]; exact counted)
          (by rw [lockstep.right]; exact owned) run
        have some := tagsOwned_pos counted owned
        rw [position, lockstep.right, Nat.add_sub_assoc some, jwrap_add]
        congr 2
        omega
      constructor
      · simp only [Option.some.injEq, exists_eq_left', Option.isSome_some, true_and, there, here]
      · rintro r' same block
        cases same
        exact ⟨rfl, block, lockstep.left, lockstep.right, lockstep.blocks, lockstep.last⟩

end Rounds

section Runs

variable {jsb : Superblock} {final : BitVec 32} {w : Walk}

variable {fuel : Nat} {header : Nat × Buffer} {recover : Bool}

theorem goes_of_walkLoop {s : Walk} (run : walkLoop false (fuel + 1) s = some w)
    (more : s.next_seq ≠ w.next_seq) : ∃ s', nextRound false s = some s' ∧ walkLoop false fuel s' = some w := by
  rcases walkLoop_rounds run with goes | ⟨same, -⟩
  · exact goes
  · exact absurd same.symm more

theorem descriptor_counted {s s' : Walk} (scanned : Scanned s s') (run : walkLoop false fuel s' = some w)
    (more : s.next_seq ≠ w.next_seq) (descriptor : be32 s.header 4 = descriptorBlock) :
    (∃ nr, countTags s.fs s.ji.ji_jsb s.header = .ok nr) ∧ s'.next_seq = s.next_seq := by
  obtain ⟨fs, size, record⟩ := scanned.record
  rw [walkRecord, if_pos descriptor] at record
  simp only [Bool.false_eq_true, if_false, countTags_congr size] at record
  cases counted : countTags s.fs s.ji.ji_jsb s.header with
  | ok nr =>
    rw [counted] at record
    cases record
    exact ⟨⟨nr, rfl⟩, rfl⟩
  | error e =>
    -- the scan ends with this number then
    rw [counted] at record
    cases record
    cases fuel with
    | zero => cases run
    | succ fuel =>
      cases run
      exact absurd rfl more

theorem meets_iff {s r s' : Walk} (lockstep : Lockstep jsb final s r) (scanned : Scanned s s')
    (run : walkLoop false fuel s' = some w) (more : s.next_seq ≠ w.next_seq) :
    Meets final s r ↔ visit true r = visit false s ∧
      (be32 s.header 4 = descriptorBlock → ∃ r', nextRound true r = some r' ∧ r'.next_block = s'.next_block) := by
  rw [visit_recover_iff lockstep scanned]
  have left := lockstep.left
  constructor
  · rintro ⟨early, kept, tags⟩
    refine ⟨⟨early, kept⟩, fun descriptor => ?_⟩
    obtain ⟨⟨nr, counted⟩, -⟩ := descriptor_counted scanned run more descriptor
    have ok := tags descriptor nr counted
    rw [left] at counted ok
    exact (nextRound_descriptor lockstep scanned early kept descriptor counted).1.mpr ok
  · rintro ⟨⟨early, kept⟩, next⟩
    refine ⟨early, kept, fun descriptor nr counted => ?_⟩
    rw [left] at counted ⊢
    exact (nextRound_descriptor lockstep scanned early kept descriptor counted).1.mp (next descriptor)

theorem Meets.step {fuel : Nat} {s r s' : Walk} (meets : Meets final s r) (lockstep : Lockstep jsb final s r)
    (scanned : Scanned s s') (run : walkLoop false fuel s' = some w) (more : s.next_seq ≠ w.next_seq) :
    ∃ r', nextRound true r = some r' ∧ Lockstep jsb final s' r' := by
  have early := meets.early
  have kept := meets.kept
  by_cases descriptor : be32 s.header 4 = descriptorBlock
  · obtain ⟨r', next, block⟩ := ((meets_iff lockstep scanned run more).mp meets).2 descriptor
    obtain ⟨⟨nr, counted⟩, -⟩ := descriptor_counted scanned run more descriptor
    rw [lockstep.left] at counted
    exact ⟨r', next, (nextRound_descriptor lockstep scanned early kept descriptor counted).2 r' next block⟩
  · exact nextRound_other lockstep scanned early kept descriptor

theorem headers_of_goes {s s' : Walk} (more : s.next_seq ≠ final)
    (read : visit recover s = some header) (goes : nextRound recover s = some s') (n : Nat) :
    headers recover final (n + 1) s = header :: headers recover final n s' := by
  rw [headers, if_neg more, read, goes]
  rfl

theorem headers_cons {r : Walk} {n : Nat} {rest : List (Nat × Buffer)}
    (list : headers recover final (n + 1) r = header :: rest) :
    visit recover r = some header ∧ (nextRound recover r).elim [] (headers recover final n) = rest := by
  rw [headers] at list
  split at list
  · cases list
  · cases read : visit recover r with
    | none => simp [read] at list
    | some header' =>
      rw [read] at list
      cases list
      exact ⟨rfl, rfl⟩

theorem visit_fst {r : Walk} (read : visit recover r = some header) :
    header.1 = r.next_block := by
  simp only [visit, Option.ite_none_left_eq_some] at read
  obtain ⟨-, -, read⟩ := read
  split at read <;> cases read
  rfl

theorem paired_of_goes {s r s' r' : Walk} (more : s.next_seq ≠ final) (left : nextRound false s = some s')
    (right : nextRound true r = some r') (n : Nat) :
    paired final (n + 1) s r = (s, r) :: paired final n s' r' := by
  rw [paired, if_neg more, left, right]
  rfl

theorem paired_ends {s r : Walk} (ends : s.next_seq = final) (n : Nat) : paired final n s r = [] := by
  cases n with
  | zero => rfl
  | succ n => rw [paired, if_pos ends]

section

variable {P : Walk × Walk → Prop} {s r s' r' : Walk} (more : s.next_seq ≠ final)

include more

theorem paired_head (all : ∀ n, ∀ p ∈ paired final n s r, P p) : P (s, r) := by
  refine all 1 (s, r) ?_
  rw [paired, if_neg more]
  exact List.mem_cons_self

theorem paired_all_iff (left : nextRound false s = some s') (right : nextRound true r = some r') :
    (∀ n, ∀ p ∈ paired final n s r, P p) ↔ P (s, r) ∧ ∀ n, ∀ p ∈ paired final n s' r', P p := by
  constructor
  · intro all
    refine ⟨paired_head more all, fun n p mem => all (n + 1) p ?_⟩
    rw [paired_of_goes more left right]
    exact List.mem_cons_of_mem _ mem
  · rintro ⟨here, later⟩ n
    cases n with
    | zero => simp [paired]
    | succ n =>
      rw [paired_of_goes more left right, List.forall_mem_cons]
      exact ⟨here, later n⟩

end

theorem headers_agree_iff {s r : Walk} (lockstep : Lockstep jsb final s r)
    (run : walkLoop false fuel s = some w) (last : w.next_seq = final) :
    (∀ n, headers true final n r = headers false final n s) ↔
      ∀ n, ∀ p ∈ paired final n s r, Meets final p.1 p.2 := by
  induction fuel generalizing s r with
  | zero => cases run
  | succ fuel ih =>
    by_cases ends : s.next_seq = final
    · have recovered : r.next_seq = final := lockstep.seq.trans ends
      refine iff_of_true (fun n => ?_) (fun n => by simp [paired_ends ends])
      cases n with
      | zero => rfl
      | succ n => rw [headers, headers, if_pos recovered, if_pos ends]
    · have more : s.next_seq ≠ w.next_seq := by rwa [last]
      have behind : r.next_seq ≠ final := by rwa [lockstep.seq]
      obtain ⟨s', goes, run'⟩ := goes_of_walkLoop run more
      have scanned := scanned_of_nextRound goes
      have scans := headers_of_goes ends scanned.read goes
      have first (all : ∀ n, headers true final n r = headers false final n s) : Meets final s r := by
        refine (meets_iff lockstep scanned run' more).mpr ⟨?_, fun descriptor => ?_⟩
        · have first := all 1
          rw [scans] at first
          rw [scanned.read, (headers_cons first).1]
        · obtain ⟨-, same⟩ := descriptor_counted scanned run' more descriptor
          have ends' : s'.next_seq ≠ final := by rwa [same]
          cases fuel with
          | zero => cases run'
          | succ fuel =>
            obtain ⟨s'', goes', -⟩ := goes_of_walkLoop run' (by rwa [last])
            have second := all 2
            rw [scans, headers_of_goes ends' (scanned_of_nextRound goes').read goes'] at second
            have next := (headers_cons second).2
            cases round : nextRound true r with
            | none => simp [round] at next
            | some r' =>
              rw [round] at next
              exact ⟨r', rfl, (visit_fst (headers_cons next).1).symm⟩
      by_cases meets : Meets final s r
      · obtain ⟨r', next, lockstep'⟩ := meets.step lockstep scanned run' more
        have visited := ((visit_recover_iff lockstep scanned).mpr ⟨meets.early, meets.kept⟩).trans scanned.read
        have rounds := headers_of_goes behind visited next
        rw [paired_all_iff ends goes next, and_iff_right meets, ← ih lockstep' run']
        refine ⟨fun all n => ?_, fun all n => ?_⟩
        · have later := all (n + 1)
          rw [scans, rounds] at later
          exact (List.cons.inj later).2
        · cases n with
          | zero => rfl
          | succ n => rw [scans, rounds, all n]
      · exact iff_of_false (fun all => meets (first all)) (fun all => meets (paired_head ends all))

theorem Scanned.stays {s s' : Walk} (scanned : Scanned s s') :
    (∃ root, s'.ji = { s.ji with ji_revoke := root }) ∧
      (s.ji.ji_jsb.s_first ≤ s.next_block → s.next_block < s.ji.ji_jsb.s_maxlen →
        s.ji.ji_jsb.s_first ≤ s'.next_block ∧ s'.next_block < s.ji.ji_jsb.s_maxlen) := by
  obtain ⟨fs, -, record⟩ := scanned.record
  have inside (n : Nat) (low : s.ji.ji_jsb.s_first ≤ n) (high : s.next_block < s.ji.ji_jsb.s_maxlen)
      (behind : s.ji.ji_jsb.s_first ≤ s.next_block) := jwrap_inside (behind.trans_lt high) low
  have next (low : s.ji.ji_jsb.s_first ≤ s.next_block) (high : s.next_block < s.ji.ji_jsb.s_maxlen) :=
    inside (s.next_block + 1) (low.trans (Nat.le_succ _)) high low
  unfold walkRecord at record
  simp only [Bool.false_eq_true, if_false] at record
  split at record
  · split at record <;> cases record
    · exact ⟨⟨_, rfl⟩, next⟩
    · exact ⟨⟨_, rfl⟩, fun low high => inside _ ((next low high).1.trans (Nat.le_add_right _ _)) high low⟩
  · split at record
    · cases record
      exact ⟨⟨_, rfl⟩, next⟩
    · split at record <;> cases record
      · exact ⟨addRevokeRecords_root .., next⟩
      · exact ⟨⟨_, rfl⟩, next⟩

theorem headers_inside {n : Nat} {s : Walk} (same : s.ji.ji_jsb = jsb) (low : jsb.s_first ≤ s.next_block)
    (high : s.next_block < jsb.s_maxlen) :
    ∀ header ∈ headers false final n s, jsb.s_first ≤ header.1 ∧ header.1 < jsb.s_maxlen := by
  induction n generalizing s with
  | zero => simp [headers]
  | succ n ih =>
    rw [headers]
    split
    · simp
    · cases read : visit false s with
      | none => simp
      | some header =>
        rw [Option.elim_some, List.forall_mem_cons, visit_fst read]
        refine ⟨⟨low, high⟩, ?_⟩
        cases goes : nextRound false s with
        | none => simp
        | some s' =>
          obtain ⟨⟨root, kept⟩, inside⟩ := (scanned_of_nextRound goes).stays
          rw [same] at inside
          exact ih (by rw [kept, same]) (inside low high).1 (inside low high).2

theorem walkLoop_keeps {s : Walk} (run : walkLoop false fuel s = some w) :
    ∃ root, w.ji = { s.ji with ji_revoke := root } := by
  induction fuel generalizing s with
  | zero => cases run
  | succ fuel ih =>
    rcases walkLoop_rounds run with ⟨s', goes, run'⟩ | ⟨-, same⟩
    · obtain ⟨root, first⟩ := (scanned_of_nextRound goes).stays.1
      obtain ⟨root', rest⟩ := ih run'
      exact ⟨root', by rw [rest, first]⟩
    · exact ⟨_, same⟩

end Runs

def startWalk (fs : Fsck) (ji : JournalInfo) : Walk := ⟨fs, ji, ji.ji_jsb.s_sequence, ji.ji_jsb.s_start, none⟩

theorem walkJournal_scans {fuel : Nat} {fs fs₁ : Fsck} {ji' : JournalInfo} {err : Option Errcode}
    (scanned : walkJournal fuel fs ji false = some (fs₁, ji', err)) (dirty : ji.ji_jsb.s_start ≠ 0) :
    ∃ w root, walkLoop false fuel (startWalk fs ji) = some w ∧
      ji' = { ji with ji_revoke := root, ji_set_final_seq := true, ji_final_seq := w.next_seq } := by
  unfold walkJournal at scanned
  rw [if_neg dirty] at scanned
  split at scanned
  next => cases scanned
  next w run =>
    simp only [Bool.false_eq_true, if_false] at scanned
    cases scanned
    obtain ⟨root, same⟩ := walkLoop_keeps run
    exact ⟨w, root, run, by rw [same]⟩

def SameHeaders (fs fs' : Fsck) (ji ji' : JournalInfo) : Prop :=
  ji.ji_jsb.s_start ≠ 0 → ∀ n,
    headers true ji'.ji_final_seq n (startWalk fs' ji') = headers false ji'.ji_final_seq n (startWalk fs ji) ∧
      ∀ header ∈ headers false ji'.ji_final_seq n (startWalk fs ji),
        ji.ji_jsb.s_first ≤ header.1 ∧ header.1 < ji.ji_jsb.s_maxlen

section Volumes

-- a descriptor block with one tag for block 50, and a commit block
def oneTag : Buffer := [0xc0, 0x3b, 0x39, 0x98, 0, 0, 0, 1, 0, 0, 0, 7, 0, 0, 0, 50, 0, 0, 0, 10]

def oneCommit : Buffer := [0xc0, 0x3b, 0x39, 0x98, 0, 0, 0, 2, 0, 0, 0, 7, 0, 0, 0, 0, 0, 0, 0, 0]

def tagInfo (maxlen : Nat) : JournalInfo where
  ji_slot := 0
  ji_dirty := true
  ji_replay := true
  ji_revoke := .nil
  ji_jsb := ⟨superblockV2, 20, maxlen, 1, 7, 2, 0⟩
  ji_blocks := (· + 10)
  ji_set_final_seq := false
  ji_final_seq := 0

def tagVolume (commit : Nat) : Fsck where
  fs_blocks := 100
  disk b := if b = 12 then oneTag else if b = commit + 10 then oneCommit else List.replicate 20 0
  used_blocks := ∅
  copies := []

end Volumes

end Ocfs2.Journal
