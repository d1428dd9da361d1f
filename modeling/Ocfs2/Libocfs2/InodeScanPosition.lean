import Ocfs2.Libocfs2.InodeScan

set_option autoImplicit false

namespace Ocfs2.InodeScan

open ByteBuffer

section Shape

def Linked (env : Env) : Nat → List GroupDesc → Prop
  | _, [] => True
  | blkno, g :: gs =>
    blkno ≠ 0 ∧ env.read_group_desc blkno = .ok g ∧ g.bg_blkno = blkno ∧ 2 ≤ g.bg_bits ∧ Linked env g.bg_next_group gs

def groupBits (gs : List GroupDesc) : Nat := (gs.map GroupDesc.bg_bits).sum

structure ChainOk (env : Env) (rec : ChainRec) (gs : List GroupDesc) : Prop where
  nonempty : gs ≠ []
  linked : Linked env rec.c_blkno gs
  total : rec.c_total = groupBits gs

def chainBits (chains : List (List GroupDesc)) : Nat := (chains.map groupBits).sum

structure AllocOk (env : Env) (di : Dinode) (chains : List (List GroupDesc)) : Prop where
  recs : List.Forall₂ (ChainOk env) di.cl_recs chains
  total : di.i_total = chainBits chains
  small : di.i_total < 2 ^ 32

def groupBlocks (g : GroupDesc) : List Nat := List.range' (g.bg_blkno + 1) (g.bg_bits - 1)

def chainBlocks (chains : List (List GroupDesc)) : List Nat := chains.flatMap fun gs => gs.flatMap groupBlocks

def allocBlocks (allocs : List (List (List GroupDesc))) : List Nat := allocs.flatMap chainBlocks

@[simp] theorem groupBits_cons (g : GroupDesc) (gs : List GroupDesc) :
    groupBits (g :: gs) = g.bg_bits + groupBits gs := by simp [groupBits]

@[simp] theorem chainBits_cons (gs : List GroupDesc) (chains : List (List GroupDesc)) :
    chainBits (gs :: chains) = groupBits gs + chainBits chains := by simp [chainBits]

end Shape

section Position

variable {env : Env} {content : Nat → Buffer} {scan : Scan} {di : Dinode} {rec : ChainRec} {desc : GroupDesc}
  {left : Nat} {gs : List GroupDesc} {chains : List (List GroupDesc)}

structure Inside (env : Env) (content : Nat → Buffer) (scan : Scan) (di : Dinode) (rec : ChainRec) (desc : GroupDesc)
    (left : Nat) (gs : List GroupDesc) (chains : List (List GroupDesc)) : Prop where
  alloc : scan.cur_inode_alloc = some di
  chain : scan.cur_rec = some rec
  group : scan.cur_desc = some desc
  positive : 0 < scan.cur_blkno
  place : scan.cur_blkno + left = desc.next
  buffered : scan.blocks_in_buffer ≤ left
  bpos : scan.bpos = scan.cur_blkno + scan.blocks_in_buffer
  buffer : ∀ i < scan.blocks_in_buffer, scan.group_buffer[scan.cur_block + i]? = some (content (scan.cur_blkno + i))
  linked : Linked env desc.bg_next_group gs
  count : scan.count + left + groupBits gs = rec.c_total
  recs : List.Forall₂ (ChainOk env) (di.cl_recs.drop scan.next_rec) chains
  remaining : scan.blocks_left = left + groupBits gs + chainBits chains
  small : rec.c_total < 2 ^ 32 ∧ scan.blocks_left < 2 ^ 32

theorem uint_of_lt {n : Nat} (lt : n < 2 ^ 32) : uint n = n := Nat.mod_eq_of_lt lt

theorem pred32_of_pos {n : Nat} (pos : 0 < n) (lt : n < 2 ^ 32) : pred32 n = n - 1 := by
  rw [pred32, show n + 2 ^ 32 - 1 = n - 1 + 2 ^ 32 by omega, Nat.add_mod_right, Nat.mod_eq_of_lt (by omega)]

theorem takeBlock_correct (inside : Inside env content scan di rec desc left gs chains)
    (ready : 0 < scan.blocks_in_buffer) :
    takeBlock scan = .ok (scan.cur_blkno, content scan.cur_blkno, scan.advance) ∧
      Inside env content scan.advance di rec desc (left - 1) gs chains := by
  have first := inside.buffer 0 ready
  rw [Nat.add_zero, Nat.add_zero] at first
  have buffered := inside.buffered
  have place := inside.place
  have bpos := inside.bpos
  have small := inside.small
  have count := inside.count
  have remaining := inside.remaining
  have next_count : scan.advance.count = scan.count + 1 := uint_of_lt (by omega)
  have next_left : scan.advance.blocks_left = scan.blocks_left - 1 := pred32_of_pos (by omega) small.2
  refine ⟨by rw [takeBlock, first], inside.alloc, inside.chain, inside.group, Nat.succ_pos _, ?_, ?_, ?_, ?_,
    inside.linked, ?_, inside.recs, ?_, small.1, ?_⟩
  · simp only [Scan.advance]
    omega
  · simp only [Scan.advance]
    omega
  · simp only [Scan.advance]
    omega
  · intro i lt
    simp only [Scan.advance] at lt ⊢
    have next := inside.buffer (i + 1) (by omega)
    rwa [Nat.add_assoc, Nat.add_assoc, Nat.add_comm 1 i]
  · omega
  · omega
  · omega

theorem mapM_ok {α β : Type} (f : α → Except Errcode β) (g : α → β) (xs : List α) (each : ∀ x ∈ xs, f x = .ok (g x)) :
    xs.mapM f = .ok (xs.map g) := by
  induction xs with
  | nil => rfl
  | cons x xs ih =>
    rw [List.mapM_cons, each x List.mem_cons_self, ih fun y mem => each y (List.mem_cons_of_mem _ mem)]
    rfl

theorem readBuffer_correct (inside : Inside env content scan di rec desc left gs chains)
    (empty : scan.blocks_in_buffer = 0) (some_left : 0 < left) (room : 0 < env.buffer_blocks)
    (readable : ∀ b ∈ List.range' scan.cur_blkno left, env.read_block b = .ok (content b)) :
    ∃ n blocks, readBuffer env scan = .ok (scan.fill n blocks) ∧ 0 < n ∧
      Inside env content (scan.fill n blocks) di rec desc left gs chains := by
  have place := inside.place
  have bpos := inside.bpos
  have blocks : (List.range' scan.cur_blkno (min left env.buffer_blocks)).mapM env.read_block =
      .ok ((List.range' scan.cur_blkno (min left env.buffer_blocks)).map content) := by
    refine mapM_ok _ _ _ fun b mem => readable b ?_
    rw [List.mem_range'_1] at mem ⊢
    omega
  refine ⟨min left env.buffer_blocks, (List.range' scan.cur_blkno (min left env.buffer_blocks)).map content, ?_, by omega,
    inside.alloc, inside.chain, inside.group, inside.positive, place, Nat.min_le_left .., ?_, ?_, inside.linked,
    inside.count, inside.recs, inside.remaining, inside.small⟩
  · rw [readBuffer, inside.group]
    simp only [show desc.next - scan.bpos = left by omega, blocks]
    rfl
  · simp only [Scan.fill]
    omega
  · intro i lt
    simp only [Scan.fill] at lt ⊢
    rw [Nat.zero_add, List.getElem?_map, List.getElem?_range' (by omega)]
    simp

theorem getNextGroup_correct {g : GroupDesc} {blkno : Nat} (linked : Linked env blkno (g :: gs))
    (from_here : scan.bpos = 0 ∧ scan.cur_blkno = blkno ∨
      scan.bpos ≠ 0 ∧ ∃ desc, scan.cur_desc = some desc ∧ desc.bg_next_group = blkno)
    (alloc : scan.cur_inode_alloc = some di) (chain : scan.cur_rec = some rec) (empty : scan.blocks_in_buffer = 0)
    (count : scan.count + groupBits (g :: gs) = rec.c_total)
    (recs : List.Forall₂ (ChainOk env) (di.cl_recs.drop scan.next_rec) chains)
    (remaining : scan.blocks_left = groupBits (g :: gs) + chainBits chains)
    (small : rec.c_total < 2 ^ 32 ∧ scan.blocks_left < 2 ^ 32) :
    getNextGroup env scan = .ok (scan.enterGroup g) ∧
      Inside env content (scan.enterGroup g) di rec g (g.bg_bits - 1) gs chains := by
  obtain ⟨nonzero, read, rfl, bits, rest⟩ := linked
  rw [groupBits_cons] at count remaining
  have next_count : (scan.enterGroup g).count = scan.count + 1 := uint_of_lt (by omega)
  have next_left : (scan.enterGroup g).blocks_left = scan.blocks_left - 1 := pred32_of_pos (by omega) small.2
  refine ⟨?_, alloc, chain, rfl, Nat.succ_pos _, ?_, ?_, ?_, ?_, rest, ?_, recs, ?_, small.1, ?_⟩
  · rw [getNextGroup]
    rcases from_here with ⟨zero, here⟩ | ⟨later, desc, group, here⟩
    · cases scan.cur_desc <;> simp [zero, here, nonzero, read, bind, Except.bind, pure, Except.pure]
    · simp [group, later, here, nonzero, read, bind, Except.bind, pure, Except.pure]
  · simp only [Scan.enterGroup, GroupDesc.next]
    omega
  · simp only [Scan.enterGroup]
    omega
  · simp only [Scan.enterGroup]
    omega
  · intro i lt
    simp only [Scan.enterGroup] at lt
    omega
  · omega
  · omega
  · omega

theorem getNextChain_correct (alloc : scan.cur_inode_alloc = some di)
    (recs : List.Forall₂ (ChainOk env) (di.cl_recs.drop scan.next_rec) (gs :: chains)) :
    ∃ rec, getNextChain scan = .ok (scan.enterChain rec) ∧ ChainOk env rec gs ∧
      List.Forall₂ (ChainOk env) (di.cl_recs.drop (scan.next_rec + 1)) chains := by
  generalize eq : di.cl_recs.drop scan.next_rec = left at recs
  cases recs with
  | cons ok rest =>
    rename_i rec recs
    have found : di.cl_recs[scan.next_rec]? = some rec := by
      rw [← Nat.add_zero scan.next_rec, ← List.getElem?_drop, eq]
      rfl
    have later : di.cl_recs.drop (scan.next_rec + 1) = recs := by
      rw [← List.drop_drop, eq]
      rfl
    refine ⟨rec, ?_, ok, later ▸ rest⟩
    rw [getNextChain, alloc]
    simp only [found]

theorem Linked.eq_nil {next : Nat} (linked : Linked env next gs) (zero : groupBits gs = 0) : gs = [] := by
  cases gs with
  | nil => rfl
  | cons g gs =>
    have bits := linked.2.2.2.1
    rw [groupBits_cons] at zero
    omega

theorem chains_eq_nil {recs : List ChainRec} (oks : List.Forall₂ (ChainOk env) recs chains)
    (zero : chainBits chains = 0) : chains = [] := by
  cases oks with
  | nil => rfl
  | cons chain _ =>
    rw [chainBits_cons, Nat.add_eq_zero_iff] at zero
    exact absurd (chain.linked.eq_nil zero.1) chain.nonempty

def blocksAhead (cur_blkno left : Nat) (gs : List GroupDesc) (chains : List (List GroupDesc)) : List Nat :=
  List.range' cur_blkno left ++ gs.flatMap groupBlocks ++ chainBlocks chains

theorem blocksAhead_enterGroup (g : GroupDesc) (scan : Scan) :
    blocksAhead (scan.enterGroup g).cur_blkno (g.bg_bits - 1) gs chains = (g :: gs).flatMap groupBlocks ++
      chainBlocks chains := by
  simp [blocksAhead, Scan.enterGroup, groupBlocks]

structure Placed (env : Env) (content : Nat → Buffer) (before scan : Scan) (di : Dinode) (ahead : List Nat) : Prop where
  file : scan.next_inode_file = before.next_inode_file
  empty : scan.blocks_in_buffer = 0
  inside : ∃ rec desc left gs chains, 0 < left ∧ Inside env content scan di rec desc left gs chains ∧
    ahead = blocksAhead scan.cur_blkno left gs chains

theorem nextChain_placed (alloc : scan.cur_inode_alloc = some di) (empty : scan.blocks_in_buffer = 0)
    (recs : List.Forall₂ (ChainOk env) (di.cl_recs.drop scan.next_rec) (gs :: chains))
    (remaining : scan.blocks_left = chainBits (gs :: chains)) (small : scan.blocks_left < 2 ^ 32) :
    ∃ scan1 scan2, getNextChain scan = .ok scan1 ∧ nextGroupIfDone env scan1 = .ok scan2 ∧
      Placed env content scan scan2 di (chainBlocks (gs :: chains)) := by
  obtain ⟨rec, chain, ⟨nonempty, linked, total⟩, rest⟩ := getNextChain_correct alloc recs
  rw [chainBits_cons] at remaining
  cases gs with
  | nil => exact absurd rfl nonempty
  | cons g gs =>
    have bits := linked.2.2.2.1
    obtain ⟨group, inside⟩ := @getNextGroup_correct env content (scan.enterChain rec) _ _ _ _ _ _ linked
      (Or.inl ⟨rfl, rfl⟩) alloc rfl empty (by simp [Scan.enterChain, total]) rest remaining ⟨by omega, small⟩
    refine ⟨scan.enterChain rec, (scan.enterChain rec).enterGroup g, chain, ?_, rfl, empty, rec, g, g.bg_bits - 1, gs,
      chains, by omega, inside, ?_⟩
    · rw [nextGroupIfDone, if_pos (by rfl), group]
    · rw [blocksAhead_enterGroup]
      simp [chainBlocks]

theorem place_of_inside (inside : Inside env content scan di rec desc left gs chains)
    (empty : scan.blocks_in_buffer = 0) (more : scan.blocks_left ≠ 0) :
    ∃ scan1 scan2, nextChainIfDone scan = .ok scan1 ∧ nextGroupIfDone env scan1 = .ok scan2 ∧
      Placed env content scan scan2 di (blocksAhead scan.cur_blkno left gs chains) := by
  have place := inside.place
  have bpos := inside.bpos
  have count := inside.count
  have remaining := inside.remaining
  have positive := inside.positive
  have bounds : ¬scan.count > rec.c_total ∧ ¬scan.bpos > desc.next ∧ ¬scan.bpos = 0 := by omega
  rw [nextChainIfDone, inside.chain, inside.group]
  simp only [if_neg bounds.1, if_neg bounds.2.1]
  -- the end of a chain, the end of a group, or neither
  by_cases chain_end : scan.count = rec.c_total
  · rw [if_pos chain_end]
    obtain rfl : left = 0 := by omega
    obtain rfl : gs = [] := inside.linked.eq_nil (by omega)
    cases chains with
    | nil => exact absurd remaining (by simpa [groupBits, chainBits] using more)
    | cons next chains =>
      have placed := @nextChain_placed env content _ _ _ _ inside.alloc empty inside.recs
        (by simpa [groupBits] using remaining) inside.small.2
      simpa [blocksAhead] using placed
  · rw [if_neg chain_end]
    refine ⟨scan, ?_⟩
    rw [nextGroupIfDone, if_neg bounds.2.2, inside.group]
    by_cases group_end : scan.bpos = desc.next
    · simp only [if_pos group_end]
      obtain rfl : left = 0 := by omega
      cases gs with
      | nil =>
        simp only [groupBits, List.map_nil, List.sum_nil] at count
        omega
      | cons g gs =>
        have bits := inside.linked.2.2.2.1
        obtain ⟨group, entered⟩ := @getNextGroup_correct env content _ _ _ _ _ _ _ inside.linked
          (Or.inr ⟨bounds.2.2, desc, inside.group, rfl⟩) inside.alloc inside.chain empty (by omega) inside.recs
          (by omega) inside.small
        refine ⟨scan.enterGroup g, trivial, group, rfl, empty, rec, g, g.bg_bits - 1, gs, chains, by omega, entered, ?_⟩
        rw [blocksAhead_enterGroup]
        simp [blocksAhead]
    · simp only [if_neg group_end]
      exact ⟨scan, trivial, rfl, rfl, empty, rec, desc, left, gs, chains, by omega, inside, rfl⟩

theorem fill_of_placed {scan1 scan2 : Scan} {ahead : List Nat} (empty : scan.blocks_in_buffer = 0)
    (chain : nextChainIfDone scan = .ok scan1) (group : nextGroupIfDone env scan1 = .ok scan2)
    (placed : Placed env content scan scan2 di ahead) (room : 0 < env.buffer_blocks)
    (readable : ∀ b ∈ ahead, env.read_block b = .ok (content b)) :
    ∃ b rest scan' rec desc left gs chains, ahead = b :: rest ∧
      fillIfEmpty env scan = .ok (b, content b, scan') ∧ scan'.next_inode_file = scan.next_inode_file ∧
      Inside env content scan' di rec desc left gs chains ∧ rest = blocksAhead scan'.cur_blkno left gs chains := by
  obtain ⟨file, empty2, rec, desc, left, gs, chains, some_left, inside, rfl⟩ := placed
  obtain ⟨n, blocks, read, filled, buffered⟩ := readBuffer_correct inside empty2 some_left room fun b mem =>
    readable b (by simp [blocksAhead, mem])
  obtain ⟨take, after⟩ := takeBlock_correct buffered filled
  refine ⟨scan2.cur_blkno, blocksAhead (scan2.cur_blkno + 1) (left - 1) gs chains, (scan2.fill n blocks).advance, rec,
    desc, left - 1, gs, chains, ?_, ?_, file, after, rfl⟩
  · rw [blocksAhead, blocksAhead, ← Nat.sub_add_cancel some_left, List.range'_succ, Nat.add_sub_cancel]
    rfl
  · rw [fillIfEmpty, if_pos empty, fillGroupBuffer]
    simp only [bind, Except.bind, chain, group, read]
    exact take

theorem fillIfEmpty_of_inside (inside : Inside env content scan di rec desc left gs chains)
    (more : scan.blocks_left ≠ 0) (room : 0 < env.buffer_blocks)
    (readable : ∀ b ∈ blocksAhead scan.cur_blkno left gs chains, env.read_block b = .ok (content b)) :
    ∃ b rest scan' rec desc left' gs' chains', blocksAhead scan.cur_blkno left gs chains = b :: rest ∧
      fillIfEmpty env scan = .ok (b, content b, scan') ∧ scan'.next_inode_file = scan.next_inode_file ∧
      Inside env content scan' di rec desc left' gs' chains' ∧ rest = blocksAhead scan'.cur_blkno left' gs' chains' := by
  by_cases empty : scan.blocks_in_buffer = 0
  · obtain ⟨scan1, scan2, chain, group, placed⟩ := place_of_inside inside empty more
    exact fill_of_placed empty chain group placed room readable
  · have some_left : 0 < left := lt_of_lt_of_le (Nat.pos_of_ne_zero empty) inside.buffered
    obtain ⟨take, after⟩ := takeBlock_correct inside (Nat.pos_of_ne_zero empty)
    refine ⟨scan.cur_blkno, blocksAhead (scan.cur_blkno + 1) (left - 1) gs chains, scan.advance, rec, desc, left - 1, gs,
      chains, ?_, ?_, rfl, after, rfl⟩
    · rw [blocksAhead, blocksAhead, ← Nat.sub_add_cancel some_left, List.range'_succ, Nat.add_sub_cancel]
      rfl
    · rw [fillIfEmpty, if_neg empty]
      exact take

end Position

end Ocfs2.InodeScan
