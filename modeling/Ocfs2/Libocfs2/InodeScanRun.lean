import Ocfs2.Libocfs2.InodeScanPosition

set_option autoImplicit false

namespace Ocfs2.InodeScan

open ByteBuffer

section Run

variable {env : Env} {content : Nat → Buffer} {scan : Scan}

structure Ahead (env : Env) (content : Nat → Buffer) (scan : Scan) (ahead : List Nat) : Prop where
  state : ∃ allocs, List.Forall₂ (AllocOk env) (env.inode_alloc.drop scan.next_inode_file) allocs ∧
    (scan.blocks_left = 0 ∧ scan.blocks_in_buffer = 0 ∧ ahead = allocBlocks allocs ∨
      ∃ di rec desc left gs chains, Inside env content scan di rec desc left gs chains ∧
        ahead = blocksAhead scan.cur_blkno left gs chains ++ allocBlocks allocs)

theorem getNextInodeAllocLoop_correct (dis : List Dinode) :
    ∀ allocs scan, List.Forall₂ (AllocOk env) dis allocs → env.inode_alloc.drop scan.next_inode_file = dis →
      scan.blocks_left = 0 → scan.blocks_in_buffer = 0 →
      (∃ scan', getNextInodeAllocLoop scan dis = (none, scan') ∧ allocBlocks allocs = [] ∧ scan'.blocks_left = 0 ∧
        scan'.blocks_in_buffer = 0 ∧ env.inode_alloc.drop scan'.next_inode_file = []) ∨
      ∃ scan' di chains rest, getNextInodeAllocLoop scan dis = (some scan', scan') ∧ AllocOk env di chains ∧
        scan'.cur_inode_alloc = some di ∧ scan'.cur_rec = none ∧ scan'.next_rec = 0 ∧ scan'.blocks_in_buffer = 0 ∧
        scan'.blocks_left = di.i_total ∧ di.i_total ≠ 0 ∧
        List.Forall₂ (AllocOk env) (env.inode_alloc.drop scan'.next_inode_file) rest ∧
        allocBlocks allocs = chainBlocks chains ++ allocBlocks rest := by
  induction dis with
  | nil =>
    intro allocs scan oks files left buffer
    cases oks
    exact Or.inl ⟨scan, rfl, rfl, left, buffer, files⟩
  | cons di dis ih =>
    intro allocs scan oks files left buffer
    cases oks with
    | cons ok oks =>
      rename_i chains allocs
      have later : env.inode_alloc.drop (scan.next_inode_file + 1) = dis := by
        rw [← List.drop_drop, files]
        rfl
      have blocks : allocBlocks (chains :: allocs) = chainBlocks chains ++ allocBlocks allocs := by simp [allocBlocks]
      rw [getNextInodeAllocLoop]
      by_cases zero : di.i_total = 0
      · have none : chainBlocks chains = [] := by
          rw [chains_eq_nil ok.recs (ok.total.symm.trans zero)]
          rfl
        rw [if_pos zero, blocks, none, List.nil_append]
        exact ih allocs { scan with cur_inode_alloc := some di, next_inode_file := scan.next_inode_file + 1 } oks later
          left buffer
      · rw [if_neg zero]
        exact Or.inr ⟨_, di, chains, allocs, rfl, ok, rfl, rfl, rfl, buffer, rfl, zero, later ▸ oks, blocks⟩

theorem getNextInode_of_allocs (allocs : List (List (List GroupDesc))) (inode : Buffer)
    (oks : List.Forall₂ (AllocOk env) (env.inode_alloc.drop scan.next_inode_file) allocs) (left : scan.blocks_left = 0)
    (buffer : scan.blocks_in_buffer = 0) (room : 0 < env.buffer_blocks)
    (readable : ∀ b ∈ allocBlocks allocs, env.read_block b = .ok (content b)) :
    (allocBlocks allocs = [] ∧ ∃ scan', getNextInode env scan inode = .ok (0, inode, scan') ∧ Ahead env content scan' []) ∨
      ∃ b rest scan', allocBlocks allocs = b :: rest ∧ getNextInode env scan inode = .ok (b, content b, scan') ∧
        Ahead env content scan' rest := by
  have alloc : getNextInodeAlloc env scan =
      .ok (getNextInodeAllocLoop scan (env.inode_alloc.drop scan.next_inode_file)) := by
    rw [getNextInodeAlloc, if_neg]
    simp [left]
  rw [getNextInode, if_pos left, if_neg (by simpa using buffer), alloc]
  simp only [bind, Except.bind]
  rcases getNextInodeAllocLoop_correct _ allocs scan oks rfl left buffer with
    ⟨scan', loop, none, left', buffer', files⟩ |
      ⟨scan', di, chains, rest, loop, ok, alloc', chain, first, buffer', left', nonzero, oks', blocks⟩
  · refine Or.inl ⟨none, scan', by rw [loop]; rfl, [], ?_, Or.inl ⟨left', buffer', rfl⟩⟩
    rw [files]
    exact List.Forall₂.nil
  · rw [loop]
    cases chains with
    | nil => exact absurd ok.total nonzero
    | cons gs chains =>
      obtain ⟨scan1, scan2, next, group, placed⟩ := @nextChain_placed env content _ _ _ _ alloc' buffer'
        (by rw [first]; exact ok.recs) (left'.trans ok.total) (left' ▸ ok.small)
      have next' : nextChainIfDone scan' = .ok scan1 := by rw [nextChainIfDone, chain, next]
      obtain ⟨b, ahead, after, rec, desc, n, gs', chains', split, run, file, inside, eq⟩ :=
        fill_of_placed buffer' next' group placed room fun b mem => readable b (by rw [blocks]; simp [mem])
      refine Or.inr ⟨b, ahead ++ allocBlocks rest, after, by rw [blocks, split]; rfl, run, rest, ?_, Or.inr
        ⟨di, rec, desc, n, gs', chains', inside, by rw [eq]⟩⟩
      rw [file]
      exact oks'

theorem getNextInode_correct {ahead : List Nat} (inv : Ahead env content scan ahead) (inode : Buffer)
    (room : 0 < env.buffer_blocks) (readable : ∀ b ∈ ahead, env.read_block b = .ok (content b)) :
    (ahead = [] ∧ ∃ scan', getNextInode env scan inode = .ok (0, inode, scan') ∧ Ahead env content scan' []) ∨
      ∃ b rest scan', ahead = b :: rest ∧ getNextInode env scan inode = .ok (b, content b, scan') ∧
        Ahead env content scan' rest := by
  obtain ⟨allocs, oks, ⟨left, buffer, rfl⟩ | ⟨di, rec, desc, left, gs, chains, inside, rfl⟩⟩ := inv
  · exact getNextInode_of_allocs allocs inode oks left buffer room readable
  · by_cases done : scan.blocks_left = 0
    · have remaining := inside.remaining
      have buffered := inside.buffered
      obtain rfl : left = 0 := by omega
      obtain rfl : gs = [] := inside.linked.eq_nil (by omega)
      obtain rfl : chains = [] := chains_eq_nil inside.recs (by omega)
      exact getNextInode_of_allocs allocs inode oks done (by omega) room readable
    · obtain ⟨b, rest, scan', rec, desc, n, gs', chains', split, run, file, inside', rfl⟩ :=
        fillIfEmpty_of_inside inside done room fun b mem => readable b (by simp [mem])
      refine Or.inr ⟨b, _ ++ allocBlocks allocs, scan', by rw [split]; rfl, ?_, allocs, file ▸ oks, Or.inr
        ⟨di, rec, desc, n, gs', chains', inside', rfl⟩⟩
      rw [getNextInode, if_neg done, run]

theorem getInodes_at_end (room : 0 < env.buffer_blocks) (inode : Buffer) (k : Nat) :
    ∀ scan, Ahead env content scan [] → ∃ scan', getInodes env k scan inode = .ok (List.replicate k (0, inode), scan') := by
  induction k with
  | zero => exact fun scan _ => ⟨scan, rfl⟩
  | succ k ih =>
    intro scan inv
    rcases getNextInode_correct inv inode room (by simp) with ⟨-, after, step, inv'⟩ | ⟨b, rest, _, eq, -⟩
    · obtain ⟨scan', run⟩ := ih after inv'
      refine ⟨scan', ?_⟩
      rw [getInodes, step]
      simp only [bind, Except.bind, run]
      rfl
    · exact absurd eq (List.cons_ne_nil b rest).symm

theorem getInodes_correct (room : 0 < env.buffer_blocks) (ahead : List Nat) :
    ∀ scan inode k, Ahead env content scan ahead → (∀ b ∈ ahead, env.read_block b = .ok (content b)) →
      ∃ last scan', getInodes env (ahead.length + k) scan inode =
        .ok (ahead.map (fun b => (b, content b)) ++ List.replicate k (0, last), scan') := by
  induction ahead with
  | nil =>
    intro scan inode k inv _
    obtain ⟨scan', run⟩ := getInodes_at_end room inode k scan inv
    exact ⟨inode, scan', by simpa using run⟩
  | cons b ahead ih =>
    intro scan inode k inv readable
    rcases getNextInode_correct inv inode room readable with ⟨eq, -⟩ | ⟨_, _, after, eq, step, inv'⟩
    · exact absurd eq (List.cons_ne_nil b ahead)
    · obtain ⟨rfl, rfl⟩ := List.cons.inj eq
      obtain ⟨last, scan', run⟩ := ih after (content b) k inv' fun c mem => readable c (List.mem_cons_of_mem b mem)
      refine ⟨last, scan', ?_⟩
      rw [List.length_cons, Nat.add_right_comm, getInodes, step]
      simp only [bind, Except.bind, run]
      rfl

theorem getInodes_returns (room : 0 < env.buffer_blocks) (calls : Nat) : ∀ scan ahead inode,
    Ahead env content scan ahead → (∀ b ∈ ahead, env.read_block b = .ok (content b)) →
      ∃ out, getInodes env calls scan inode = .ok out := by
  induction calls with
  | zero => exact fun scan _ _ _ _ => ⟨([], scan), rfl⟩
  | succ calls ih =>
    intro scan ahead inode inv readable
    rcases getNextInode_correct inv inode room readable with ⟨rfl, after, step, inv'⟩ | ⟨b, rest, after, rfl, step, inv'⟩
    · obtain ⟨out, run⟩ := ih after [] inode inv' readable
      exact ⟨((0, inode) :: out.1, out.2), by rw [getInodes, step]; simp only [bind, Except.bind, run]; rfl⟩
    · obtain ⟨out, run⟩ := ih after rest (content b) inv' fun c mem => readable c (List.mem_cons_of_mem b mem)
      exact ⟨((b, content b) :: out.1, out.2), by rw [getInodes, step]; simp only [bind, Except.bind, run]; rfl⟩

end Run

section Failures

def Truncates {α : Type} (first second : Except Errcode α) : Prop :=
  first = second ∨ ∃ e, e ≠ .undefined ∧ first = .error e

theorem Truncates.bind {α β : Type} {first second : Except Errcode α} {f g : α → Except Errcode β}
    (same : Truncates first second) (next : ∀ a, Truncates (f a) (g a)) : Truncates (first >>= f) (second >>= g) := by
  rcases same with rfl | ⟨e, other, rfl⟩
  · cases first with
    | error e => exact Or.inl rfl
    | ok a => exact next a
  · exact Or.inr ⟨e, other, rfl⟩

structure Failing (env ideal : Env) : Prop where
  files : env.inode_alloc = ideal.inode_alloc
  buffer : env.buffer_blocks = ideal.buffer_blocks
  descs : ∀ blkno, Truncates (env.read_group_desc blkno) (ideal.read_group_desc blkno)
  blocks : ∀ blkno, Truncates (env.read_block blkno) (ideal.read_block blkno)

variable {env ideal : Env}

theorem mapM_truncates {α β : Type} {f g : α → Except Errcode β} (each : ∀ x, Truncates (f x) (g x)) (xs : List α) :
    Truncates (xs.mapM f) (xs.mapM g) := by
  induction xs with
  | nil => exact Or.inl rfl
  | cons x xs ih =>
    rw [List.mapM_cons, List.mapM_cons]
    exact (each x).bind fun y => ih.bind fun ys => Or.inl rfl

theorem getNextGroup_truncates (failing : Failing env ideal) (scan : Scan) :
    Truncates (getNextGroup env scan) (getNextGroup ideal scan) := by
  have nextGroup (blkno : Nat) (zero : Except Errcode Scan) (next : GroupDesc → Except Errcode Scan) :
      Truncates (if blkno = 0 then zero else env.read_group_desc blkno >>= next)
        (if blkno = 0 then zero else ideal.read_group_desc blkno >>= next) := by
    split
    · exact Or.inl rfl
    · exact (failing.descs blkno).bind fun desc => Or.inl rfl
  rw [getNextGroup, getNextGroup]
  split
  · split
    · exact Or.inl rfl
    · exact nextGroup _ _ _
  · exact nextGroup _ _ _

theorem fillGroupBuffer_truncates (failing : Failing env ideal) (scan : Scan) :
    Truncates (fillGroupBuffer env scan) (fillGroupBuffer ideal scan) := by
  refine Truncates.bind (Or.inl rfl) fun scan1 => Truncates.bind ?_ fun scan2 => ?_
  · have group := getNextGroup_truncates failing scan1
    rw [nextGroupIfDone, nextGroupIfDone]
    split
    · exact group
    · cases scan1.cur_desc with
      | none => exact Or.inl rfl
      | some desc =>
        dsimp only
        split
        · exact group
        · exact Or.inl rfl
  · rw [readBuffer, readBuffer]
    cases scan2.cur_desc with
    | none => exact Or.inl rfl
    | some desc =>
      rw [failing.buffer]
      exact (mapM_truncates failing.blocks _).bind fun blocks => Or.inl rfl

theorem fillIfEmpty_truncates (failing : Failing env ideal) (scan : Scan) :
    Truncates (fillIfEmpty env scan) (fillIfEmpty ideal scan) := by
  rw [fillIfEmpty, fillIfEmpty]
  split
  · exact (fillGroupBuffer_truncates failing scan).bind fun filled => Or.inl rfl
  · exact Or.inl rfl

theorem getNextInode_truncates (failing : Failing env ideal) (scan : Scan) (inode : Buffer) :
    Truncates (getNextInode env scan inode) (getNextInode ideal scan inode) := by
  rw [getNextInode, getNextInode, getNextInodeAlloc, getNextInodeAlloc, failing.files]
  split
  · split
    · exact Or.inl rfl
    · refine Truncates.bind (Or.inl rfl) fun next => ?_
      obtain ⟨next | scan1, scan2⟩ := next
      · exact Or.inl rfl
      · exact fillIfEmpty_truncates failing scan1
  · exact fillIfEmpty_truncates failing scan

theorem getInodes_truncates (failing : Failing env ideal) (calls : Nat) (scan : Scan) (inode : Buffer) :
    Truncates (getInodes env calls scan inode) (getInodes ideal calls scan inode) := by
  induction calls generalizing scan inode with
  | zero => exact Or.inl rfl
  | succ calls ih =>
    exact (getNextInode_truncates failing scan inode).bind fun next => (ih _ _).bind fun rest => Or.inl rfl

end Failures

section Volume

def groupsOf (allocs : List (List (List GroupDesc))) : List GroupDesc := allocs.flatten.flatten

theorem allocBlocks_eq (allocs : List (List (List GroupDesc))) :
    allocBlocks allocs = (groupsOf allocs).flatMap groupBlocks := by
  simp only [allocBlocks, groupsOf, ← List.flatMap_id, List.flatMap_assoc]
  rfl

theorem mem_groupBlocks {g : GroupDesc} {b : Nat} : b ∈ groupBlocks g ↔ g.bg_blkno < b ∧ b < g.next := by
  rw [groupBlocks, List.mem_range'_1, GroupDesc.next]
  omega

theorem allocBlocks_nodup {allocs : List (List (List GroupDesc))}
    (apart : (groupsOf allocs).Pairwise fun g h => g.next ≤ h.bg_blkno ∨ h.next ≤ g.bg_blkno) : (allocBlocks allocs).Nodup := by
  rw [allocBlocks_eq, List.nodup_flatMap]
  refine ⟨fun g _ => List.nodup_range', apart.imp fun {g h} apart b in_g in_h => ?_⟩
  rw [mem_groupBlocks] at in_g in_h
  omega

theorem bufferBlocks_pos {fs_blocksize fs_clustersize : Nat} (block : 0 < fs_blocksize)
    (cluster : fs_blocksize ≤ fs_clustersize) : 0 < bufferBlocks fs_blocksize fs_clustersize := by
  have blocks : 0 < fs_clustersize / fs_blocksize := Nat.div_pos cluster block
  rw [bufferBlocks]
  split
  · refine Nat.mul_pos (Nat.div_pos ?_ (by omega)) blocks
    omega
  · exact blocks

theorem getInodes_returns_each_block_once (env : Env) (content : Nat → Buffer) (allocs : List (List (List GroupDesc)))
    (oks : List.Forall₂ (AllocOk env) env.inode_alloc allocs)
    (apart : (groupsOf allocs).Pairwise fun g h => g.next ≤ h.bg_blkno ∨ h.next ≤ g.bg_blkno)
    (readable : ∀ b ∈ allocBlocks allocs, env.read_block b = .ok (content b)) (fs_blocksize fs_clustersize : Nat)
    (geometry : 0 < fs_blocksize ∧ fs_blocksize ≤ fs_clustersize)
    (buffer : env.buffer_blocks = bufferBlocks fs_blocksize fs_clustersize) (inode : Buffer) :
    ∃ found : List (Nat × Buffer),
      (∀ k, ∃ last scan, getInodes env (found.length + k) openInodeScan inode =
        .ok (found ++ List.replicate k (0, last), scan)) ∧
      (found.map Prod.fst).Nodup ∧
      (∀ b, b ∈ found.map Prod.fst ↔ ∃ g ∈ groupsOf allocs, g.bg_blkno < b ∧ b < g.next) ∧
      ∀ entry ∈ found, env.read_block entry.1 = .ok entry.2 := by
  have room : 0 < env.buffer_blocks := buffer ▸ bufferBlocks_pos geometry.1 geometry.2
  have start : Ahead env content openInodeScan (allocBlocks allocs) := ⟨allocs, oks, Or.inl ⟨rfl, rfl, rfl⟩⟩
  have numbers : ((allocBlocks allocs).map fun b => (b, content b)).map Prod.fst = allocBlocks allocs := by
    simp [Function.comp_def]
  refine ⟨(allocBlocks allocs).map fun b => (b, content b), fun k => ?_, ?_, fun b => ?_, fun entry mem => ?_⟩
  · rw [List.length_map]
    exact getInodes_correct room _ openInodeScan inode k start readable
  · rw [numbers]
    exact allocBlocks_nodup apart
  · rw [numbers, allocBlocks_eq, List.mem_flatMap]
    simp only [mem_groupBlocks]
  · obtain ⟨b, in_alloc, rfl⟩ := List.mem_map.mp mem
    exact readable b in_alloc

-- an empty allocator, and one with a chain of two groups and a chain of one group
def smallVolume : Env where
  read_group_desc blkno :=
    if blkno = 16 then .ok ⟨16, 12, 64⟩ else if blkno = 64 then .ok ⟨64, 2, 0⟩ else .ok ⟨32, 3, 0⟩
  read_block blkno := .ok [BitVec.ofNat 8 blkno]
  buffer_blocks := bufferBlocks 512 4096
  inode_alloc := [⟨0, []⟩, ⟨17, [⟨14, 16⟩, ⟨3, 32⟩]⟩]

theorem smallVolume_ok : List.Forall₂ (AllocOk smallVolume) smallVolume.inode_alloc
    [[], [[⟨16, 12, 64⟩, ⟨64, 2, 0⟩], [⟨32, 3, 0⟩]]] := by
  refine .cons ⟨.nil, rfl, by decide⟩ (.cons ⟨.cons ⟨by simp, ?_, rfl⟩ (.cons ⟨by simp, ?_, rfl⟩ .nil), rfl,
    by decide⟩ .nil)
  · exact ⟨by decide, rfl, rfl, by decide, by decide, rfl, rfl, by decide, trivial⟩
  · exact ⟨by decide, rfl, rfl, by decide, trivial⟩

theorem smallVolume_returned : ∃ found : List (Nat × Buffer),
    (∀ k, ∃ last scan, getInodes smallVolume (found.length + k) openInodeScan [] =
      .ok (found ++ List.replicate k (0, last), scan)) ∧
    (found.map Prod.fst).Nodup ∧
    (∀ b, b ∈ found.map Prod.fst ↔
      ∃ g ∈ groupsOf [[], [[⟨16, 12, 64⟩, ⟨64, 2, 0⟩], [⟨32, 3, 0⟩]]], g.bg_blkno < b ∧ b < g.next) ∧
    ∀ entry ∈ found, smallVolume.read_block entry.1 = .ok entry.2 := by
  refine getInodes_returns_each_block_once smallVolume (fun blkno => [BitVec.ofNat 8 blkno]) _ smallVolume_ok ?_
    (fun _ _ => rfl) 512 4096 (by decide) rfl []
  simp [groupsOf, GroupDesc.next]

def unreadableVolume : Env :=
  { smallVolume with read_group_desc := fun blkno => if blkno = 64 then .error .io else smallVolume.read_group_desc blkno }

-- one inode more than the chain has
def shortChain : Env where
  read_group_desc _ := .ok ⟨16, 3, 0⟩
  read_block blkno := .ok [BitVec.ofNat 8 blkno]
  buffer_blocks := bufferBlocks 512 4096
  inode_alloc := [⟨4, [⟨3, 16⟩]⟩]

end Volume

end Ocfs2.InodeScan
