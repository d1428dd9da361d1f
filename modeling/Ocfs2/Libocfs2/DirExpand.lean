import Ocfs2.Libocfs2.DirStored

set_option autoImplicit false

namespace Ocfs2.Dir

open ByteBuffer

section Holds

variable {σ : Type} {fs : Filesys} {flags : Flags} {func : Buffer → Nat → σ → Visited σ}
  {priv priv' : σ} {effect : Multiset Entry → Multiset Entry → Prop} {hit : List Dirent → Prop}

inductive Holds (fs : Filesys) (dir : Directory) : List (List Dirent) → Prop where
  | blocks (outside : isInline fs dir.di = false) (used spare : List Nat) (ess : List (List Dirent))
      (i_blocks : dir.di.i_blocks = used ++ spare) (distinct : dir.di.i_blocks.Nodup)
      (size : dir.di.i_size = used.length * fs.fs_blocksize)
      (stored : List.Forall₂ (fun b es => Stored fs dir.di (dir.disk b) es) used ess) : Holds fs dir ess
  | inode (inside : isInline fs dir.di = true) (es : List Dirent) (err : Option Errcode)
      (length : dir.di.i_block.length = fs.fs_blocksize) (nonempty : es ≠ [])
      (chain : Chain dir.di.i_block (idData + dir.di.i_size) idData es)
      (tail : Tail fs dir.di dir.di.i_block (idData + dir.di.i_size) err) : Holds fs dir [es]

structure Iterated (fs : Filesys) (out : Directory × σ × Option Errcode) (priv priv' : σ)
    (effect : Multiset Entry → Multiset Entry → Prop) (hit : List Dirent → Prop) (dir : Directory)
    (ess : List (List Dirent)) (stop : Bool) : Prop where
  data : out.2.1 = if stop then priv' else priv
  errcode : stop = true ∨ isInline fs dir.di = false → out.2.2 = none
  di : ∃ i_block, out.1.di = { dir.di with i_block }
  finds : (∃ es ∈ ess, hit es) → stop = true
  holds : ∃ ess', Holds fs out.1 ess' ∧ Effect effect stop (entries ess) (entries ess')

theorem inlineDirIterate_correct {dir : Directory}
    (callable : Callable fs dir.di flags func priv priv' effect hit) (valid : fs.Valid)
    (inside : isInline fs dir.di = true) {es : List Dirent} {err : Option Errcode}
    (length : dir.di.i_block.length = fs.fs_blocksize) (nonempty : es ≠ [])
    (chain : Chain dir.di.i_block (idData + dir.di.i_size) idData es)
    (tail : Tail fs dir.di dir.di.i_block (idData + dir.di.i_size) err) :
    ∃ stop, Iterated fs (inlineDirIterate fs flags func dir priv) priv priv' effect hit dir [es] stop := by
  have upper := tail.le
  have whole : blockEnd fs dir.di = fs.fs_blocksize := blockEnd_whole (by rw [dirHasTrailer, inside]; rfl)
  have closed : Closed dir.di.i_block (idData + dir.di.i_size) (blockEnd fs dir.di) := by
    rw [whole]
    cases tail with
    | none last => exact Or.inl last.symm
    | trailer has => simp [dirHasTrailer, inside] at has
    | other room zero => exact Or.inr ⟨upper, zero⟩
  obtain ⟨within, unchanged, data, errcode, es', chain', lives⟩ :=
    callable.scan valid length chain tail closed
  have stops := callable.finds dir.di.i_block _ _ es chain (length ▸ upper) length closed
  rw [inlineDirIterate]
  generalize processDirEntry fs dir.di flags func fs.fs_blocksize idData dir.di.i_block priv false = scan
    at within unchanged data errcode chain' lives stops ⊢
  have finds : (∃ x ∈ [es], hit x) → scan.abort = true := by
    rintro ⟨x, mem, found⟩
    obtain rfl := List.mem_singleton.mp mem
    exact stops found
  have lives' : Effect effect scan.abort (entries [es]) (entries [es']) := by simpa using lives
  have filled : es' ≠ [] := by
    rintro rfl
    obtain ⟨e, rest, rfl⟩ := List.exists_cons_of_ne_nil nonempty
    have ends : idData = idData + dir.di.i_size := chain'
    have := chain.next_le
    have := chain.2.1.ge
    omega
  have holds : Holds fs { dir with di := { dir.di with i_block := scan.buf } } [es'] :=
    @Holds.inode fs { dir with di := { dir.di with i_block := scan.buf } } inside es' err
      (within.length.trans length) filled chain' ((tail.congr (length ▸ within.above.symm)).of_inode rfl)
  by_cases failed : scan.errcode.isSome = true
  · -- the changes are lost with the error, and the function has not stopped the walk
    have goes : scan.abort = false := by
      rw [errcode] at failed
      cases stop : scan.abort with
      | false => rfl
      | true => simp [stop] at failed
    rw [goes, if_neg (by simp)] at data
    rw [if_pos failed]
    refine ⟨false, data, ?_, ⟨_, rfl⟩, fun found => goes.symm.trans (finds found), [es], ?_, rfl⟩
    · rintro (stop | outside)
      · cases stop
      · rw [inside] at outside
        cases outside
    · exact .inode inside es err length nonempty chain tail
  · rw [if_neg failed]
    cases changed : scan.changed with
    | true => exact ⟨scan.abort, data, fun _ => rfl, ⟨_, rfl⟩, finds, [es'], holds, lives'⟩
    | false =>
      rw [(unchanged changed).2] at holds
      exact ⟨scan.abort, data, fun _ => rfl, ⟨_, rfl⟩, finds, [es'], holds, lives'⟩

theorem dirIterate_correct {dir : Directory} (callable : Callable fs dir.di flags func priv priv' effect hit)
    (valid : fs.Valid) {ess : List (List Dirent)} (holds : Holds fs dir ess) :
    ∃ stop, Iterated fs (dirIterate fs flags func dir priv) priv priv' effect hit dir ess stop := by
  cases holds with
  | blocks outside used spare ess i_blocks distinct size stored =>
    have distinct' : used.Nodup := (List.nodup_append.mp (i_blocks ▸ distinct)).1
    obtain ⟨⟨errcode, data, -, ess', stored', lives⟩, stops⟩ :=
      blockIterate_correct callable valid outside used spare 0 dir.disk ess distinct' (by simpa using size) stored
    rw [dirIterate, outside, if_neg (by simp), i_blocks]
    generalize blockIterate fs dir.di flags func (used ++ spare) 0 dir.disk priv = w
      at errcode data stored' lives stops ⊢
    have holds : Holds fs { dir with disk := w.disk } ess' :=
      @Holds.blocks fs { dir with disk := w.disk } outside used spare ess' i_blocks distinct size stored'
    exact ⟨w.stop, data, fun _ => errcode, ⟨_, rfl⟩, stops, ess', holds, lives⟩
  | inode inside es err length nonempty chain tail =>
    rw [dirIterate, inside, if_pos rfl]
    exact inlineDirIterate_correct callable valid inside length nonempty chain tail

end Holds

section NewBlock

variable {fs : Filesys} {di : Dinode}

theorem initDirTrailer_correct (valid : fs.Valid) (di : Dinode) (blkno : Nat) {buf : Buffer}
    (length : buf.length = fs.fs_blocksize) :
    Within (initDirTrailer fs di blkno buf) buf (dirTrailerBlkOff fs) fs.fs_blocksize ∧
      recLen (initDirTrailer fs di blkno buf) (dirTrailerBlkOff fs) = 64 ∧
      nameLen (initDirTrailer fs di blkno buf) (dirTrailerBlkOff fs) = 0 ∧
      slice (initDirTrailer fs di blkno buf) (dirTrailerBlkOff fs + 16) 7 = trailerSignature := by
  have large := valid.large
  have off : dirTrailerBlkOff fs + 64 = fs.fs_blocksize := by
    rw [dirTrailerBlkOff, sizeofTrailer]
    omega
  rw [initDirTrailer]
  generalize dirTrailerBlkOff fs = t at off ⊢
  set zeros := splice buf t (List.replicate sizeofTrailer 0)
  set signed := splice zeros (t + 16) trailerSignature
  set sized := splice signed (t + 8) (leBytes 2 sizeofTrailer)
  set numbered := splice sized (t + 32) (leBytes 8 blkno)
  have zl : zeros.length = buf.length := length_splice _ _ _ (by simp [sizeofTrailer]; omega)
  have sl : signed.length = zeros.length := length_splice _ _ _ (by simp [trailerSignature]; omega)
  have rl : sized.length = signed.length := length_splice _ _ _ (by simp; omega)
  have nl : numbered.length = sized.length := length_splice _ _ _ (by simp; omega)
  have zeroed : slice zeros t 64 = List.replicate 64 0 := by
    have := slice_splice buf t (List.replicate sizeofTrailer 0) (by simp [sizeofTrailer]; omega)
    rwa [List.length_replicate] at this
  -- the fields that are written last are behind those that the walk reads
  have late (o k : Nat) (before : o + k ≤ t + 32) :
      slice (splice numbered (t + 40) (leBytes 8 di.i_blkno)) o k = slice sized o k := by
    rw [slice_splice_of_ne _ _ _ (by simp; omega) _ _ (by omega),
      slice_splice_of_ne _ _ _ (by simp; omega) _ _ (by omega)]
  refine ⟨?_, ?_, ?_, ?_⟩
  · refine Within.trans (b := numbered) (within_splice _ _ _ _ (by omega) (by simp; omega) (by omega)) ?_
    refine Within.trans (b := sized) (within_splice _ _ _ _ (by omega) (by simp; omega) (by omega)) ?_
    refine Within.trans (b := signed) (within_splice _ _ _ _ (by omega) (by simp; omega) (by omega)) ?_
    refine Within.trans (b := zeros)
      (within_splice _ _ _ _ (by omega) (by simp [trailerSignature]; omega) (by omega)) ?_
    exact within_splice _ _ _ _ le_rfl (by simp [sizeofTrailer]; omega) (by omega)
  · rw [recLen, late _ _ (by omega)]
    have := slice_splice signed (t + 8) (leBytes 2 sizeofTrailer) (by simp; omega)
    rw [length_leBytes] at this
    rw [this]
    rfl
  · rw [nameLen, late _ _ (by omega), slice_splice_of_ne _ _ _ (by simp; omega) _ _ (by simp),
      slice_splice_of_ne _ _ _ (by simp [trailerSignature]; omega) _ _ (by omega)]
    rw [← slice_slice zeros t 64 10 1 (by omega), zeroed]
    rfl
  · rw [late _ _ (by omega), slice_splice_of_ne _ _ _ (by simp; omega) _ _ (by simp)]
    exact slice_splice zeros (t + 16) trailerSignature (by simp [trailerSignature]; omega)

theorem shaped_initDirTrailer (valid : fs.Valid) (has : dirHasTrailer fs di = true) (blkno : Nat) {buf : Buffer}
    {es : List Dirent} (length : buf.length = fs.fs_blocksize) (chain : Chain buf (dirTrailerBlkOff fs) 0 es) :
    Shaped fs di (initDirTrailer fs di blkno buf) es := by
  obtain ⟨within, rec_len, name_len, signature⟩ := initDirTrailer_correct valid di blkno length
  have ends := blockEnd_trailer has
  exact ⟨within.length.trans length, ends ▸ chain.congr within.below.symm,
    ends ▸ .trailer has rfl rec_len name_len (by have := valid.large; omega), fun _ => signature⟩

theorem shaped_of_no_trailer (has : dirHasTrailer fs di = false) {buf : Buffer} {es : List Dirent}
    (length : buf.length = fs.fs_blocksize) (chain : Chain buf fs.fs_blocksize 0 es) : Shaped fs di buf es := by
  have ends := blockEnd_whole has
  exact ⟨length, ends ▸ chain, ends ▸ .none rfl, by simp [has]⟩

theorem blockEnd_bounds (valid : fs.Valid) (di : Dinode) :
    448 ≤ blockEnd fs di ∧ blockEnd fs di ≤ 4096 ∧ blockEnd fs di % 4 = 0 := by
  have large := valid.large
  have small := valid.small
  have aligned := valid.aligned
  rw [blockEnd, dirTrailerBlkOff, sizeofTrailer]
  split <;> omega

theorem chain_newBlock {n hi : Nat} (room : 12 ≤ hi) (fits : hi ≤ n) (small : hi < 65536)
    (aligned : hi % 4 = 0) :
    Chain (setRecLen (List.replicate n 0) 0 hi) hi 0 [⟨0, hi, 0, 0, []⟩] := by
  have zeros (off k : Nat) (inside : off + k ≤ n) :
      slice (List.replicate n (0 : Byte)) off k = List.replicate k 0 := by
    simp only [slice, List.drop_replicate, List.take_replicate]
    congr 1
    omega
  have none_used : readDirent (List.replicate n 0) 0 = ⟨0, 0, 0, 0, []⟩ := by
    rw [readDirent, inode, recLen, nameLen, fileType, zeros _ _ (by omega), zeros _ _ (by omega),
      zeros _ _ (by omega), zeros _ _ (by omega)]
    rfl
  refine ⟨?_, ⟨by simpa [dirRecLen] using room, aligned⟩, Nat.zero_add _⟩
  rw [readDirent_setRecLen _ _ _ small (by simp; omega), none_used]

end NewBlock

section LastRecord

variable {es : List Dirent} {buf : Buffer}

theorem Chain.shift {a b : Buffer} {hi offset d : Nat} (chain : Chain a (hi + d) (offset + d) es)
    (same : ∀ k n, offset ≤ k → k + n ≤ hi → slice b k n = slice a (k + d) n) : Chain b hi offset es := by
  induction es generalizing offset with
  | nil => exact Nat.add_right_cancel chain
  | cons e es ih =>
    have upper := chain.next_le
    have ge := chain.2.1.ge
    have field (o n : Nat) (inside : o + n ≤ e.rec_len) :
        slice b (offset + o) n = slice a (offset + d + o) n := by
      rw [same _ _ (by omega) (by omega), Nat.add_right_comm]
    have read : readDirent b offset = readDirent a (offset + d) := by
      have len : nameLen b offset = nameLen a (offset + d) := congrArg leValue (field 10 1 (by omega))
      rw [readDirent, readDirent, len, name, name, chain.nameLen_eq, field 12 e.name_len (by omega), inode,
        same offset 8 le_rfl (by omega), recLen, field 8 2 (by omega), fileType, field 11 1 (by omega)]
      rfl
    refine ⟨read.trans chain.read, chain.2.1, ih ?_ fun k n lower upper => same k n (by omega) upper⟩
    have rest := chain.2.2
    rwa [Nat.add_right_comm] at rest

theorem Chain.aligned {hi offset : Nat} (chain : Chain buf hi offset es) :
    (hi - offset) % 4 = 0 := by
  induction es generalizing offset with
  | nil =>
    have : offset = hi := chain
    omega
  | cons e es ih =>
    have := ih chain.2.2
    have := chain.2.1.2
    have := chain.next_le
    omega

theorem expandLastDirentLoop_correct {old new : Nat} (fits : new ≤ buf.length)
    (small : new < 65536) (le : old ≤ new) (aligned : (new - old) % 4 = 0) (fuel de : Nat) (e : Dirent)
    (es : List Dirent) (chain : Chain buf old de (e :: es)) (enough : old ≤ fuel + de) :
    let prev_de := expandLastDirentLoop buf old fuel de
    de ≤ prev_de ∧ prev_de + 12 ≤ old ∧
      ∃ es', Chain (setRecLen buf prev_de (recLen buf prev_de + (new - old))) new de es' ∧
        live es' = live (e :: es) := by
  induction es generalizing fuel de e with
  | nil =>
    have ends : de + e.rec_len = old := chain.2.2
    have ge := chain.2.1.ge
    obtain ⟨fuel, rfl⟩ : ∃ n, fuel = n + 1 := ⟨fuel - 1, by omega⟩
    rw [expandLastDirentLoop, chain.recLen_eq, if_neg (by omega)]
    refine ⟨le_rfl, by omega, [{ e with rec_len := e.rec_len + (new - old) }], ⟨?_, ⟨?_, ?_⟩, ?_⟩, ?_⟩
    · rw [chain.recLen_eq, readDirent_setRecLen _ _ _ (by omega) (by omega), chain.read]
    · exact chain.2.1.1.trans (Nat.le_add_right _ _)
    · have := chain.2.1.2
      dsimp only
      omega
    · show de + (e.rec_len + (new - old)) = new
      omega
    · rw [live_cons, live_cons, Dirent.live_setRecLen]
  | cons e' es ih =>
    have ge := chain.2.1.ge
    have upper := chain.2.2.room
    obtain ⟨fuel, rfl⟩ : ∃ n, fuel = n + 1 := ⟨fuel - 1, by omega⟩
    rw [expandLastDirentLoop, chain.recLen_eq, if_pos (by omega)]
    obtain ⟨lower, room, es', chain', lives⟩ := ih fuel (de + e.rec_len) e' chain.2.2 (by omega)
    refine ⟨by omega, room, e :: es', ⟨?_, chain.2.1, chain'⟩, by rw [live_cons, lives, ← live_cons]⟩
    refine Eq.trans (readDirent_congr (chain.read.symm ▸ chain.2.1) ?_).symm chain.read
    rw [chain.recLen_eq]
    exact (agree_splice _ _ _ (by simp; omega) _ _ (by omega)).symm

theorem expandLastDirent_correct {old new : Nat} (fits : new ≤ buf.length) (small : new < 65536)
    (le : old ≤ new) (aligned : new % 4 = 0) (nonempty : es ≠ []) (chain : Chain buf old 0 es) :
    (expandLastDirent buf old new).length = buf.length ∧
      ∃ es', Chain (expandLastDirent buf old new) new 0 es' ∧ live es' = live es := by
  obtain ⟨e, rest, rfl⟩ := List.exists_cons_of_ne_nil nonempty
  have := chain.aligned
  obtain ⟨-, room, es', chain', lives⟩ :=
    expandLastDirentLoop_correct fits small le (by omega) old 0 e rest chain le_rfl
  exact ⟨length_splice _ _ _ (by simp; omega), es', chain', lives⟩

end LastRecord

section Expand

variable {fs : Filesys} {dir : Directory} {ess : List (List Dirent)}

structure Allocator.Valid (alloc : Allocator) (fs : Filesys) (dir : Directory) : Prop where
  memory : alloc.memory.length = fs.fs_blocksize
  nonempty : ∀ new, alloc.new_cluster = .ok new → new ≠ []
  distinct : ∀ new, alloc.new_cluster = .ok new → (dir.di.i_blocks ++ new).Nodup

structure Expanded (fs : Filesys) (out : Directory × Option Errcode) (dir : Directory)
    (ess : List (List Dirent)) : Prop where
  outside : out.2 = none → isInline fs out.1.di = false
  holds : ∃ ess', Holds fs out.1 ess' ∧ entries ess' = entries ess ∧
    (isInline fs dir.di = false → out.2 = none → ∃ es ∈ ess', ∃ e, es = [e] ∧ e.inode = 0 ∧ 268 ≤ e.rec_len)

def movedEntries (fs : Filesys) (i_size : Nat) (di : Dinode) (p_start : Nat) (inline_data : Buffer) : Buffer :=
  let new_size := if fs.meta_ecc then dirTrailerBlkOff fs else fs.fs_blocksize
  let inline_data := expandLastDirent inline_data i_size new_size
  if fs.meta_ecc then initDirTrailer fs di p_start inline_data else inline_data

theorem shaped_movedEntries (valid : fs.Valid) {di di' : Dinode} {es : List Dirent} {memory : Buffer}
    (outside : isInline fs di' = false) (room : memory.length = fs.fs_blocksize)
    (length : di.i_block.length = fs.fs_blocksize) (upper : idData + di.i_size ≤ fs.fs_blocksize)
    (nonempty : es ≠ []) (chain : Chain di.i_block (idData + di.i_size) idData es) (p_start : Nat) :
    ∃ es', Shaped fs di' (movedEntries fs di.i_size di' p_start
      (splice memory 0 (slice di.i_block idData di.i_size))) es' ∧ live es' = live es := by
  have large := valid.large
  have bytes : (slice di.i_block idData di.i_size).length = di.i_size := length_slice _ _ _ (length ▸ upper)
  have fits : 0 + (slice di.i_block idData di.i_size).length ≤ memory.length := by
    omega
  have moved : Chain (splice memory 0 (slice di.i_block idData di.i_size)) di.i_size 0 es := by
    refine Chain.shift (d := idData) (by rwa [Nat.zero_add, Nat.add_comm]) fun k n _ inside => ?_
    have copied := slice_splice memory 0 _ fits
    rw [bytes] at copied
    rw [← Nat.zero_add k, ← slice_slice _ 0 di.i_size k n inside, copied,
      slice_slice _ _ _ _ _ inside, Nat.zero_add, Nat.add_comm]
  have copied : (splice memory 0 (slice di.i_block idData di.i_size)).length = fs.fs_blocksize :=
    (length_splice _ _ _ fits).trans room
  have has : dirHasTrailer fs di' = fs.meta_ecc := by rw [dirHasTrailer, outside]; rfl
  obtain ⟨lower, upper', aligned⟩ := blockEnd_bounds valid di'
  have le := blockEnd_le fs di'
  have ends : blockEnd fs di' = if fs.meta_ecc then dirTrailerBlkOff fs else fs.fs_blocksize := by
    rw [blockEnd, has]
  have size : di.i_size ≤ blockEnd fs di' := by
    rw [blockEnd, dirTrailerBlkOff, sizeofTrailer]
    have : idData = 200 := rfl
    split <;> omega
  simp only [movedEntries]
  rw [← ends]
  obtain ⟨same, es', chain', lives⟩ := expandLastDirent_correct (by omega) (by omega) size aligned nonempty moved
  refine ⟨es', ?_, lives⟩
  cases ecc : fs.meta_ecc with
  | true =>
    rw [ecc] at ends has
    exact shaped_initDirTrailer valid has p_start (same.trans copied) (ends ▸ chain')
  | false =>
    rw [if_neg (by simp)]
    rw [ecc] at ends has
    exact shaped_of_no_trailer has (same.trans copied) (ends ▸ chain')

theorem convertInlineDataToExtents_correct (alloc : Allocator) (allocator : alloc.Valid fs dir) (valid : fs.Valid)
    (inside : isInline fs dir.di = true) (holds : Holds fs dir ess) :
    Expanded fs (convertInlineDataToExtents fs alloc dir) dir ess := by
  obtain ⟨outside, -⟩ | ⟨-, es, err, length, nonempty, chain, tail⟩ := holds
  · rw [inside] at outside
    cases outside
  have upper := tail.le
  have size : 0 < dir.di.i_size := by
    obtain ⟨e, rest, rfl⟩ := List.exists_cons_of_ne_nil nonempty
    have := chain.next_le
    have := chain.2.1.ge
    omega
  rw [convertInlineDataToExtents, Nat.min_eq_left (by omega)]
  have never : isInline fs dir.di ≠ false := by simp [inside]
  rcases new : alloc.new_cluster with e | blocks
  · exact ⟨nofun, [es], .inode inside es err length nonempty chain tail, rfl,
      fun outside => absurd outside never⟩
  obtain ⟨p_start, rest, rfl⟩ := List.exists_cons_of_ne_nil (allocator.nonempty blocks new)
  dsimp only
  set di : Dinode := { dir.di with i_inline := false, i_blocks := p_start :: rest }
  set disk := emptyBlocks fs (p_start :: rest) dir.disk
  have outside : isInline fs di = false := by simp [isInline, di]
  obtain ⟨es', shaped, lives⟩ :=
    shaped_movedEntries valid outside allocator.memory length upper nonempty chain p_start
  obtain ⟨buf', write, stored⟩ := writeDirBlock_correct valid outside disk p_start shaped
  simp only [movedEntries] at write
  rw [if_neg size.ne', write]
  refine ⟨fun _ => outside, [es'], ?_, by simpa using lives, fun outside => absurd outside never⟩
  have distinct := (List.nodup_append.mp (allocator.distinct _ new)).2.1
  refine @Holds.blocks fs _ outside [p_start] rest [es'] rfl distinct (by simp) (.cons ?_ .nil)
  dsimp only
  rw [Function.update_self]
  exact stored.of_inode rfl

def newBlock (fs : Filesys) (di : Dinode) (new_blk : Nat) : Buffer :=
  if dirHasTrailer fs di then
    initDirTrailer fs di new_blk (setRecLen (List.replicate fs.fs_blocksize 0) 0 (dirTrailerBlkOff fs))
  else setRecLen (List.replicate fs.fs_blocksize 0) 0 fs.fs_blocksize

theorem newBlock_correct (valid : fs.Valid) (disk : Nat → Buffer) {di : Dinode} (outside : isInline fs di = false)
    {used spare : List Nat} {new_blk : Nat} (i_blocks : di.i_blocks = used ++ new_blk :: spare)
    (distinct : di.i_blocks.Nodup) (size : di.i_size = used.length * fs.fs_blocksize)
    (stored : List.Forall₂ (fun b es => Stored fs di (disk b) es) used ess) :
    ∃ disk' e, writeDirBlock fs di disk new_blk (newBlock fs di new_blk) = .ok disk' ∧
      Holds fs ⟨disk', { di with i_size := di.i_size + fs.fs_blocksize }⟩ (ess ++ [[e]]) ∧
      e.inode = 0 ∧ 268 ≤ e.rec_len := by
  obtain ⟨lower, upper, aligned⟩ := blockEnd_bounds valid di
  have chain := chain_newBlock (by omega) (blockEnd_le fs di) (by omega) aligned
  have length : (setRecLen (List.replicate fs.fs_blocksize 0) 0 (blockEnd fs di)).length = fs.fs_blocksize := by
    have := valid.large
    rw [setRecLen, length_splice _ _ _ (by simp; omega), List.length_replicate]
  have shaped : Shaped fs di (newBlock fs di new_blk) [⟨0, blockEnd fs di, 0, 0, []⟩] := by
    rw [newBlock]
    cases has : dirHasTrailer fs di with
    | true =>
      rw [blockEnd_trailer has] at chain length ⊢
      exact shaped_initDirTrailer valid has new_blk length chain
    | false =>
      rw [blockEnd_whole has] at chain length ⊢
      exact shaped_of_no_trailer has length chain
  obtain ⟨buf', write, stored'⟩ := writeDirBlock_correct valid outside disk new_blk shaped
  refine ⟨_, ⟨0, blockEnd fs di, 0, 0, []⟩, write, ?_, rfl, le_trans (by omega) lower⟩
  refine @Holds.blocks fs _ outside (used ++ [new_blk]) spare _ (by simp [i_blocks]) distinct ?_ ?_
  · rw [List.length_append, List.length_singleton, Nat.add_mul, Nat.one_mul, ← size]
  · have fresh : new_blk ∉ used := by
      rw [i_blocks] at distinct
      exact fun mem => (List.nodup_append.mp distinct).2.2 _ mem _ (List.mem_cons_self ..) rfl
    refine List.rel_append ?_ (.cons ?_ .nil)
    · refine List.forall₂_iff_zip.mpr ⟨stored.length_eq, fun {b es} mem => ?_⟩
      dsimp only
      rw [Function.update_of_ne (ne_of_mem_of_not_mem (List.of_mem_zip mem).1 fresh)]
      exact ((List.forall₂_iff_zip.mp stored).2 mem).of_inode rfl
    · dsimp only
      rw [Function.update_self]
      exact stored'.of_inode rfl

theorem expandDir_correct (alloc : Allocator) (allocator : alloc.Valid fs dir) (valid : fs.Valid)
    (rw : fs.fs_rw = true) (holds : Holds fs dir ess) :
    Expanded fs (expandDir fs alloc dir) dir ess ∧
      (isInline fs dir.di = false → (∃ new, alloc.new_cluster = .ok new) → (expandDir fs alloc dir).2 = none) := by
  rw [expandDir, rw, if_neg (by simp)]
  cases inline : isInline fs dir.di with
  | true =>
    rw [if_pos rfl]
    exact ⟨convertInlineDataToExtents_correct alloc allocator valid inline holds, by simp⟩
  | false =>
    rw [if_neg (by simp)]
    obtain ⟨-, used, spare, ess, i_blocks, distinct, size, stored⟩ | ⟨inside, -⟩ := id holds
    · have large := valid.large
      have used_blks : dir.di.i_size / fs.fs_blocksize = used.length := by
        rw [size]
        exact Nat.mul_div_cancel _ (by omega)
      have grows (di : Dinode) (outside : isInline fs di = false) (new_blk : Nat) (spare : List Nat)
          (list : di.i_blocks = used ++ new_blk :: spare) (distinct : di.i_blocks.Nodup)
          (same : di.i_size = dir.di.i_size) :
          ∃ disk', writeDirBlock fs di dir.disk (di.i_blocks.getD used.length 0)
              (newBlock fs di (di.i_blocks.getD used.length 0)) = .ok disk' ∧
            Expanded fs (⟨disk', { di with i_size := di.i_size + fs.fs_blocksize }⟩, none) dir ess := by
        have kind : dirHasTrailer fs di = dirHasTrailer fs dir.di := by
          rw [dirHasTrailer, dirHasTrailer, outside, inline]
        have at_end : di.i_blocks.getD used.length 0 = new_blk := by simp [list]
        obtain ⟨disk', e, write, holds', free, room⟩ := newBlock_correct valid dir.disk outside list distinct
          (same.trans size) (stored.imp fun _ _ h => h.of_inode kind)
        refine ⟨disk', at_end ▸ write, fun _ => outside, ess ++ [[e]], holds', ?_,
          fun _ _ => ⟨[e], by simp, e, rfl, free, room⟩⟩
        simp [entries, Dirent.live_of_free free]
      rw [used_blks]
      dsimp only
      cases spare with
      | cons new_blk spare =>
        -- the cluster that was allocated last has a block that is not used yet
        rw [if_neg (by simp [i_blocks])]
        obtain ⟨disk', write, expanded⟩ := grows dir.di inline new_blk spare i_blocks distinct rfl
        rw [newBlock] at write
        simp only [write]
        exact ⟨expanded, fun _ _ => trivial⟩
      | nil =>
        rw [List.append_nil] at i_blocks
        rw [if_pos (by simp [i_blocks])]
        rcases new : alloc.new_cluster with err | blocks
        · exact ⟨⟨fun _ => inline, ess, holds, rfl, fun _ => (by cases ·)⟩, by simp⟩
        · obtain ⟨new_blk, rest, rfl⟩ := List.exists_cons_of_ne_nil (allocator.nonempty blocks new)
          have distinct' := allocator.distinct _ new
          rw [i_blocks] at distinct'
          obtain ⟨disk', write, expanded⟩ := grows { dir.di with i_blocks := used ++ new_blk :: rest } inline
            new_blk rest rfl distinct' rfl
          rw [newBlock] at write
          simp only [Except.map, i_blocks, write]
          exact ⟨expanded, fun _ _ => trivial⟩
    · rw [inside] at inline
      cases inline

end Expand

end Ocfs2.Dir
