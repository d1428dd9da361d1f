import Ocfs2.Libocfs2.DirIterate

set_option autoImplicit false

namespace Ocfs2.Dir

open ByteBuffer

section Blocks

variable {fs : Filesys} {di : Dinode}

structure Filesys.Valid (fs : Filesys) : Prop where
  large : 512 ≤ fs.fs_blocksize
  small : fs.fs_blocksize ≤ 4096
  aligned : fs.fs_blocksize % 4 = 0
  fs_blocks : fs.fs_blocks < 2 ^ 64

structure Shaped (fs : Filesys) (di : Dinode) (buf : Buffer) (es : List Dirent) : Prop where
  length : buf.length = fs.fs_blocksize
  chain : Chain buf (blockEnd fs di) 0 es
  tail : Tail fs di buf (blockEnd fs di) none
  signature : dirHasTrailer fs di = true → slice buf (dirTrailerBlkOff fs + 16) 7 = trailerSignature

structure Stored (fs : Filesys) (di : Dinode) (buf : Buffer) (es : List Dirent) : Prop where
  shaped : Shaped fs di buf es
  checked : dirHasTrailer fs di = true →
    Crc32.crc32Le .little 0 0xFFFFFFFF (BlockCheck.clearCheck buf (dbCheck fs)) =
      (BlockCheck.loadCheck buf (dbCheck fs)).bc_crc32e

variable {buf : Buffer} {es : List Dirent}

theorem Stored.of_inode {di' : Dinode} (stored : Stored fs di buf es)
    (same : dirHasTrailer fs di' = dirHasTrailer fs di) : Stored fs di' buf es := by
  have ends : blockEnd fs di' = blockEnd fs di := by rw [blockEnd, blockEnd, same]
  obtain ⟨⟨length, chain, tail, signature⟩, checked⟩ := stored
  exact ⟨⟨length, ends ▸ chain, ends ▸ tail.of_inode same, same ▸ signature⟩, same ▸ checked⟩

theorem blockEnd_trailer (has : dirHasTrailer fs di = true) : blockEnd fs di = dirTrailerBlkOff fs := if_pos has

theorem blockEnd_whole (has : dirHasTrailer fs di = false) : blockEnd fs di = fs.fs_blocksize := by
  rw [blockEnd, has]
  rfl

theorem blockEnd_le (fs : Filesys) (di : Dinode) : blockEnd fs di ≤ fs.fs_blocksize := by
  rw [blockEnd, dirTrailerBlkOff]
  split <;> omega

theorem Shaped.of_within {a b : Buffer} {es' : List Dirent} (valid : fs.Valid) (shaped : Shaped fs di b es)
    (within : Within a b 0 (blockEnd fs di)) (chain : Chain a (blockEnd fs di) 0 es') : Shaped fs di a es' where
  length := within.length.trans shaped.length
  chain := chain
  tail := shaped.tail.congr (shaped.length ▸ within.above.symm)
  signature := by
    intro has
    have length := shaped.length
    have off := blockEnd_trailer has
    rw [within.above.slice _ _ (by omega), shaped.signature has]
    have large := valid.large
    rw [dirTrailerBlkOff, sizeofTrailer]
    omega

theorem swapDirEntriesLoop_ok {hi p fuel : Nat} (chain : Chain buf hi p es)
    (enough : hi ≤ fuel + p) : swapDirEntriesLoop buf hi fuel p false = .ok () := by
  induction fuel generalizing p es with
  | zero => rfl
  | succ fuel ih =>
    rw [swapDirEntriesLoop]
    split
    next more =>
      cases es with
      | nil =>
        have : p = hi := chain
        omega
      | cons e es =>
        have ge := chain.2.1.ge
        have aligned := chain.2.1.2
        have whole : (decide (e.rec_len < 12) || e.rec_len % 4 != 0) = false := by
          simp only [Bool.or_eq_false_iff, decide_eq_false_iff_not, bne_eq_false_iff_eq]
          omega
        have named : decide (e.name_len + 12 > e.rec_len) = false := decide_eq_false (by omega)
        simp only [chain.recLen_eq, chain.nameLen_eq, whole, Bool.false_eq_true, if_false, named, Bool.or_false]
        exact ih chain.2.2 (by omega)
    next => rfl

theorem swapDirEntries_ok {hi : Nat} (chain : Chain buf hi 0 es) :
    swapDirEntries buf hi = .ok () :=
  swapDirEntriesLoop_ok chain (by omega)

theorem dbCheck_room (valid : fs.Valid) (length : buf.length = fs.fs_blocksize) :
    dirTrailerBlkOff fs + 48 = dbCheck fs ∧ dbCheck fs + BlockCheck.sizeofBlockCheck ≤ buf.length := by
  have := valid.large
  rw [dbCheck, dirTrailerBlkOff, sizeofTrailer, BlockCheck.sizeofBlockCheck, length]
  omega

theorem within_storeCheck {bc : Nat} (room : bc + BlockCheck.sizeofBlockCheck ≤ buf.length)
    (check : BlockCheck.Check) :
    Within (BlockCheck.storeCheck (BlockCheck.clearCheck buf bc) bc check) buf bc (bc + 8) := by
  rw [BlockCheck.sizeofBlockCheck] at room
  have cleared : Within (BlockCheck.clearCheck buf bc) buf bc (bc + 8) :=
    within_splice _ _ _ _ le_rfl (by simp [BlockCheck.sizeofBlockCheck]) room
  have l1 := cleared.length
  have first : Within (splice (BlockCheck.clearCheck buf bc) bc (BlockCheck.le32 check.bc_crc32e))
      (BlockCheck.clearCheck buf bc) bc (bc + 8) :=
    within_splice _ _ _ _ le_rfl (by simp [BlockCheck.le32]) (by omega)
  have l2 := first.length
  have second : Within (BlockCheck.storeCheck (BlockCheck.clearCheck buf bc) bc check)
      (splice (BlockCheck.clearCheck buf bc) bc (BlockCheck.le32 check.bc_crc32e)) bc (bc + 8) :=
    within_splice _ _ _ _ (by omega) (by simp [BlockCheck.le16]) (by omega)
  exact (second.trans first).trans cleared

theorem Shaped.of_check {a b : Buffer} (valid : fs.Valid) (has : dirHasTrailer fs di = true)
    (shaped : Shaped fs di b es) (within : Within a b (dbCheck fs) (dbCheck fs + 8)) : Shaped fs di a es := by
  have length := shaped.length
  have large := valid.large
  have off := blockEnd_trailer has
  have trailer : dirTrailerBlkOff fs + 64 = fs.fs_blocksize := by
    rw [dirTrailerBlkOff, sizeofTrailer]
    omega
  have below := within.below.symm
  rw [dbCheck] at below
  refine ⟨within.length.trans length, shaped.chain.congr (below.mono (by omega) (by omega)), ?_, ?_⟩
  · cases shaped.tail with
    | none last => omega
    | trailer has' off' rec_len name_len size =>
      rw [recLen, below.slice _ _ (by omega) (by omega), ← recLen] at rec_len
      rw [nameLen, below.slice _ _ (by omega) (by omega), ← nameLen] at name_len
      exact .trailer has' off' rec_len name_len size
  · intro _
    rw [← below.slice _ _ (by omega) (by omega), shaped.signature has]

theorem readDirBlock_correct (valid : fs.Valid) {disk : Nat → Buffer} {block : Nat}
    (stored : Stored fs di (disk block) es) :
    ∃ buf, readDirBlock fs di disk block = .ok buf ∧ Shaped fs di buf es := by
  have shaped := stored.shaped
  rw [readDirBlock]
  cases has : dirHasTrailer fs di with
  | false =>
    have swap := swapDirEntries_ok (blockEnd_whole has ▸ shaped.chain)
    refine ⟨disk block, ?_, shaped⟩
    simp only [Bool.false_eq_true, if_false, swap]
    rfl
  | true =>
    have ecc : fs.meta_ecc = true := by
      rw [dirHasTrailer] at has
      split at has
      · cases has
      · exact has
    obtain ⟨-, room⟩ := dbCheck_room valid shaped.length
    have fast := BlockCheck.blockCheckValidate_fast .little 0 (disk block) (dbCheck fs) (stored.checked has)
    have within := within_storeCheck room (BlockCheck.loadCheck (disk block) (dbCheck fs))
    have shaped' := shaped.of_check valid has within
    have swap := swapDirEntries_ok (blockEnd_trailer has ▸ shaped'.chain)
    refine ⟨_, ?_, shaped'⟩
    simp only [if_true, validateMetaEcc, ecc, fast, Except.bind, bind, shaped'.signature has, swap, ne_eq,
      not_true, if_false, pure, Except.pure]

theorem writeDirBlock_correct (valid : fs.Valid) (blocks : isInline fs di = false) (disk : Nat → Buffer)
    (block : Nat) {buf : Buffer} {es : List Dirent} (shaped : Shaped fs di buf es) :
    ∃ buf', writeDirBlock fs di disk block buf = .ok (Function.update disk block buf') ∧
      Stored fs di buf' es := by
  have swap := swapDirEntries_ok shaped.chain
  rw [blockEnd] at swap
  rw [writeDirBlock]
  simp only [swap, bind, Except.bind]
  cases ecc : fs.meta_ecc with
  | false =>
    have has : dirHasTrailer fs di = false := by rw [dirHasTrailer, blocks]; exact ecc
    refine ⟨buf, ?_, shaped, fun h => absurd h (by simp [has])⟩
    simp only [computeMetaEcc, ecc, Bool.false_eq_true, if_false, pure, Except.pure]
  | true =>
    have has : dirHasTrailer fs di = true := by rw [dirHasTrailer, blocks]; exact ecc
    obtain ⟨-, room⟩ := dbCheck_room valid shaped.length
    have compute := BlockCheck.blockCheckCompute_eq .little 0 buf (dbCheck fs)
      (by rw [shaped.length]; exact valid.small) room
    have cleared := BlockCheck.length_clearCheck buf (dbCheck fs) room
    generalize HammingCode.codeSum _ _ _ = ecc' at compute
    have shaped' := shaped.of_check valid has (within_storeCheck room
      ⟨Crc32.crc32Le .little 0 0xffffffff (BlockCheck.clearCheck buf (dbCheck fs)), BitVec.ofNat 16 ecc'⟩)
    refine ⟨_, ?_, shaped', fun _ => ?_⟩
    · simp only [computeMetaEcc, ecc, if_true, compute, pure, Except.pure]
    · rw [BlockCheck.clearCheck_storeCheck _ _ (by omega), BlockCheck.clearCheck_clearCheck _ _ room,
        BlockCheck.loadCheck_storeCheck _ _ (by omega)]

end Blocks

section Run

variable {σ : Type} {fs : Filesys} {di : Dinode} {flags : Flags} {func : Buffer → Nat → σ → Visited σ}
  {priv priv' : σ} {effect : Multiset Entry → Multiset Entry → Prop}

structure Callable (fs : Filesys) (di : Dinode) (flags : Flags) (func : Buffer → Nat → σ → Visited σ)
    (priv priv' : σ) (effect : Multiset Entry → Multiset Entry → Prop) (hit : List Dirent → Prop) : Prop where
  plain : flags.include_removed = false
  body : flags.include_trailer = false
  frame : ∀ M old new, effect old new → effect (M + old) (M + new)
  call : ∀ buf hi offset e es, Chain buf hi offset (e :: es) → hi ≤ buf.length →
    buf.length = fs.fs_blocksize → Closed buf hi (blockEnd fs di) → skipped fs di flags buf offset = false →
    Proc (func buf offset priv) priv priv' effect buf hi offset (e :: es)
  finds : ∀ buf hi offset es, Chain buf hi offset es → hi ≤ buf.length → buf.length = fs.fs_blocksize →
    Closed buf hi (blockEnd fs di) → hit es →
    (processDirEntry fs di flags func fs.fs_blocksize offset buf priv false).abort = true

theorem Callable.scan {hit : List Dirent → Prop} (callable : Callable fs di flags func priv priv' effect hit)
    (valid : fs.Valid) {buf : Buffer} {hi offset : Nat} {es : List Dirent} {err : Option Errcode}
    (length : buf.length = fs.fs_blocksize) (chain : Chain buf hi offset es) (tail : Tail fs di buf hi err)
    (closed : Closed buf hi (blockEnd fs di)) :
    Outcome (processDirEntry fs di flags func fs.fs_blocksize offset buf priv false) priv priv' effect err false
      buf hi offset es := by
  have large := valid.large
  have small := tail.le
  apply processDirEntry_correct priv priv' effect callable.frame hi small buf err callable.plain
  · intro b offset e es chain length' above visit
    refine callable.call b hi offset e es chain (by omega) (length'.trans length) ?_ visit
    rcases closed with same | ⟨behind, zero⟩
    · exact Or.inl same
    · rcases tail with last | ⟨has, off, -, -, size⟩ | ⟨room, -⟩
      · exact Or.inl (le_antisymm (last ▸ blockEnd_le fs di) behind)
      · exact Or.inl (by rw [blockEnd, if_pos has, off])
      · refine Or.inr ⟨behind, ?_⟩
        rw [recLen, above.slice _ _ (by omega) (by omega)]
        exact zero
  · intro fuel b changed _ above
    exact (tail.congr (length ▸ above.symm)).ending callable.plain callable.body priv fuel changed
  · exact chain
  · rfl
  · exact .refl _ _ _
  · omega

structure Walked (fs : Filesys) (di : Dinode) (w : Walk σ) (priv priv' : σ)
    (effect : Multiset Entry → Multiset Entry → Prop) (disk : Nat → Buffer) (blocks : List Nat)
    (ess : List (List Dirent)) : Prop where
  errcode : w.errcode = none
  data : w.priv = if w.stop then priv' else priv
  frame : ∀ b, b ∉ blocks → w.disk b = disk b
  stored : ∃ ess', List.Forall₂ (fun b es => Stored fs di (w.disk b) es) blocks ess' ∧
    Effect effect w.stop (entries ess) (entries ess')

variable {hit : List Dirent → Prop} (callable : Callable fs di flags func priv priv' effect hit) (valid : fs.Valid)
  (blocks : isInline fs di = false)

include callable valid blocks

theorem processDirBlock_correct (disk : Nat → Buffer) (blkno : Nat) {es : List Dirent}
    (stored : Stored fs di (disk blkno) es) :
    Walked fs di (processDirBlock fs di flags func disk blkno priv) priv priv' effect disk [blkno] [es] ∧
      (hit es → (processDirBlock fs di flags func disk blkno priv).stop = true) := by
  obtain ⟨buf, read, shaped⟩ := readDirBlock_correct valid stored
  have outcome := callable.scan valid shaped.length shaped.chain shaped.tail (Or.inl rfl)
  have stops := callable.finds buf _ 0 es shaped.chain (shaped.length ▸ blockEnd_le fs di) shaped.length
    (Or.inl rfl)
  rw [processDirBlock, read]
  dsimp only
  generalize processDirEntry fs di flags func fs.fs_blocksize 0 buf priv false = scan at outcome stops ⊢
  obtain ⟨within, unchanged, data, errcode, es', chain, lives⟩ := outcome
  have fine : scan.errcode = none := by
    rw [errcode]
    split <;> rfl
  have lives' : Effect effect scan.abort (entries [es]) (entries [es']) := by simpa using lives
  rw [fine, Option.isSome_none, if_neg (by simp)]
  cases changed : scan.changed with
  | true =>
    obtain ⟨buf', write, stored'⟩ := writeDirBlock_correct valid blocks disk blkno
      (shaped.of_within valid within chain)
    rw [if_pos rfl, write]
    refine ⟨⟨rfl, data, ?_, [es'], .cons ?_ .nil, lives'⟩, stops⟩
    · intro b other
      exact Function.update_of_ne (by simpa using other) _ _
    · simpa using stored'
  | false =>
    obtain ⟨-, same⟩ := unchanged changed
    obtain rfl : es' = es := (same ▸ chain).unique shaped.chain
    exact ⟨⟨rfl, data, fun _ _ => rfl, [es'], .cons stored .nil, lives'⟩, stops⟩

theorem blockIterate_correct (used spare : List Nat) (bcount : Nat) (disk : Nat → Buffer) (ess : List (List Dirent))
    (distinct : used.Nodup) (size : di.i_size = (bcount + used.length) * fs.fs_blocksize)
    (stored : List.Forall₂ (fun b es => Stored fs di (disk b) es) used ess) :
    Walked fs di (blockIterate fs di flags func (used ++ spare) bcount disk priv) priv priv' effect
        disk used ess ∧
      ((∃ es ∈ ess, hit es) →
        (blockIterate fs di flags func (used ++ spare) bcount disk priv).stop = true) := by
  have large := valid.large
  induction used generalizing bcount disk ess with
  | nil =>
    cases stored
    have done : blockIterate fs di flags func ([] ++ spare) bcount disk priv = ⟨disk, priv, none, false⟩ := by
      cases spare with
      | nil => rfl
      | cons b spare => rw [List.nil_append, blockIterate, if_pos (by simpa using size.le)]
    rw [done]
    exact ⟨⟨rfl, rfl, fun _ _ => rfl, [], .nil, rfl⟩, by simp⟩
  | cons b used ih =>
    obtain ⟨fresh, distinct⟩ := List.nodup_cons.mp distinct
    cases stored with
    | @cons _ es _ ess first rest =>
      have more : ¬bcount * fs.fs_blocksize ≥ di.i_size := by
        rw [size, List.length_cons, Nat.not_le]
        exact Nat.mul_lt_mul_of_pos_right (by omega) (by omega)
      obtain ⟨⟨errcode, data, frame, _, walked, lives⟩, stops⟩ :=
        processDirBlock_correct callable valid blocks disk b first
      rw [List.cons_append, blockIterate, if_neg more]
      generalize processDirBlock fs di flags func disk b priv = w at errcode data frame walked lives stops ⊢
      dsimp only
      cases walked with
      | @cons _ es' _ _ first' nothing =>
        cases nothing
        simp only [entries_cons, entries_nil, add_zero] at lives
        have rest' : List.Forall₂ (fun b es => Stored fs di (w.disk b) es) used ess := by
          refine List.forall₂_iff_zip.mpr ⟨rest.length_eq, fun {x es} mem => ?_⟩
          rw [frame x (by simpa using ne_of_mem_of_not_mem (List.of_mem_zip mem).1 fresh)]
          exact (List.forall₂_iff_zip.mp rest).2 mem
        cases stop : w.stop with
        | true =>
          refine ⟨⟨errcode, data, ?_, es' :: ess, .cons first' rest', ?_⟩, fun _ => stop⟩
          · intro x other
            exact frame x (by simpa using fun same : x = b => other (by simp [same]))
          · rw [entries_cons, entries_cons, add_comm (live es), add_comm (live es')]
            exact lives.add callable.frame _
        | false =>
          rw [if_neg (by simp)]
          rw [stop] at data lives
          simp only [Effect, Bool.false_eq_true, if_false] at data lives
          obtain ⟨⟨errcode', data', frame', ess'', stored'', lives''⟩, stops''⟩ :=
            ih (bcount + 1) w.disk ess distinct (by rw [size, List.length_cons]; ring) rest'
          rw [data]
          refine ⟨⟨errcode', data', ?_, es' :: ess'', .cons ?_ stored'', ?_⟩, ?_⟩
          · intro x other
            rw [List.mem_cons, not_or] at other
            rw [frame' x other.2, frame x (by simpa using other.1)]
          · rw [frame' b fresh]
            exact first'
          · rw [entries_cons, entries_cons, lives]
            exact lives''.add callable.frame _
          · rintro ⟨x, mem, found⟩
            rcases List.mem_cons.mp mem with rfl | mem
            · rw [stops found] at stop
              cases stop
            · exact stops'' ⟨x, mem, found⟩

end Run

end Ocfs2.Dir
