import Ocfs2.Libocfs2.ChainRestore

set_option autoImplicit false

/-!
The clusters of a volume are the bits of its global bitmap, a chain allocator. A call that cannot write the
allocator back frees in memory what it took. The allocator is loaded already.
-/

namespace Ocfs2.ChainAlloc

open ByteBuffer Rbtree Bitmap

section Model

variable (fs : Filesys)

def Filesys.blocksPerCluster : Nat := fs.fs_clustersize / fs.fs_blocksize

def clustersToBlocks (clusters : Nat) : Nat := clusters % 2 ^ 32 * fs.blocksPerCluster

def blocksToClusters (blocks : Nat) : Nat := min (blocks / fs.blocksPerCluster) (2 ^ 32 - 1)

def freeClusters (dev : Device) (bitmap : ChainBitmap) (len startBlkno : Nat) :
    Device × ChainBitmap × Except Errcode Unit :=
  match chainFreeRange bitmap len (blocksToClusters fs startBlkno) with
  | (bitmap, .error e) => (dev, bitmap, .error e)
  | (bitmap, .ok ()) => chainallocWriteBitmap fs dev bitmap

def undoClusters (α : Type) (dev : Device) (bitmap : ChainBitmap) (len startBlkno : Nat) (e : Errcode) :
    Device × ChainBitmap × Except Errcode α :=
  match freeClusters fs dev bitmap len startBlkno with
  | (dev, bitmap, .error .undefined) => (dev, bitmap, .error .undefined)
  | (dev, bitmap, _) => (dev, bitmap, .error e)

def newClusters (dev : Device) (bitmap : ChainBitmap) (min requested : Nat) :
    Device × ChainBitmap × Except Errcode (Nat × Nat) :=
  match chainAllocRange bitmap min requested with
  | (bitmap, .error e) => (dev, bitmap, .error e)
  | (bitmap, .ok (startBit, found)) =>
    let startBlkno := clustersToBlocks fs startBit
    match chainallocWriteBitmap fs dev bitmap with
    | (dev, bitmap, .ok ()) => (dev, bitmap, .ok (startBlkno, found % 2 ^ 32))
    -- not what was found is freed, but what was requested
    | (dev, bitmap, .error e) => undoClusters fs _ dev bitmap requested startBlkno e

def testClusterAllocated (bitmap : ChainBitmap) (cpos : Nat) : Except Errcode Bool :=
  bitmap.test cpos testGeneric

def newSpecificCluster (dev : Device) (bitmap : ChainBitmap) (cpos : Nat) :
    Device × ChainBitmap × Except Errcode Unit :=
  match testClusterAllocated bitmap cpos with
  | .error e => (dev, bitmap, .error e)
  | .ok true => (dev, bitmap, .error .bitNotFound)
  | .ok false =>
    let bitmap := (chainForceVal bitmap cpos true).1
    match chainallocWriteBitmap fs dev bitmap with
    | (dev, bitmap, .ok ()) => (dev, bitmap, .ok ())
    -- `cpos` counts clusters, and is taken for a block here and in the call
    | (dev, bitmap, .error e) => undoClusters fs _ dev bitmap 1 (blocksToClusters fs cpos) e

end Model

section Shape

theorem reset_setBits (n b : Nat) (priv : BitmapPrivate) (br : ChainRegion) :
    reset (setBits chainallocBitmapOps n b priv br).2 = reset br := by
  induction n generalizing b priv br with
  | zero => rfl
  | succ n ih =>
    rcases setGenericShared_cases chainallocBitmapOps priv br b with ⟨-, run⟩ | ⟨-, run⟩
    · simp only [setBits, run]
      exact ih _ _ _
    · simp only [setBits, run]
      exact (ih _ _ _).trans (reset_notify priv br b true)

theorem reset_allocRangeFunc (min len : Nat) (data : BitmapPrivate × Option (Nat × Nat)) (br : ChainRegion) :
    reset (allocRangeFunc chainallocBitmapOps min len data br).2.1 = reset br := by
  simp only [allocRangeFunc]
  split_ifs
  · rfl
  · split
    · rfl
    · exact reset_setBits _ _ _ _

theorem allocRangeGeneric_shape {bitmap bitmap' : ChainBitmap} {min len first found : Nat}
    (run : allocRangeGeneric chainallocBitmapOps bitmap min len = .ok (bitmap', first, found)) :
    bitmap'.b_regions.map reset = bitmap.b_regions.map reset := by
  have shape := foreachRegion_map (allocRangeFunc chainallocBitmapOps min len) reset (reset_allocRangeFunc min len)
    (bitmap.b_private, none) bitmap.b_regions
  rw [allocRangeGeneric] at run
  revert shape run
  rcases foreachRegion (allocRangeFunc chainallocBitmapOps min len) (bitmap.b_private, none) bitmap.b_regions with
    ⟨⟨priv, _ | found⟩, regions, _ | _ | e⟩ <;> intro run shape <;> simp only [Visit.result, reduceCtorEq] at run
  · simp only [Except.ok.injEq, Prod.mk.injEq] at run
    rw [← run.1]
    exact shape
  · simp only [Except.ok.injEq, Prod.mk.injEq] at run
    rw [← run.1]
    exact shape

theorem search_shape {before after : Node ChainRegion} (shape : after.map reset = before.map reset) (lo hi : Nat) :
    (search (order lo hi) after).map reset = (search (order lo hi) before).map reset := by
  have blind (br : ChainRegion) : order lo hi (reset br) = order lo hi br := rfl
  rw [← search_map _ _ blind, ← search_map _ _ blind, shape]

end Shape

variable {e : Errcode} {cpos : Nat}

section Undo

def Undone {α : Type} (before : ChainBitmap) (outcome : Device × ChainBitmap × Except Errcode α) : Prop :=
  outcome.2.2 ≠ .error .undefined ∧ Restored before outcome.2.1

def FreesOnly (bitmap : ChainBitmap) (start found len : Nat) : Prop :=
  start + len ≤ bitmap.b_total_bits ∧
    ∀ br, search (order start (start + len)) bitmap.b_regions = some br →
      InMemory br start len ∧ ∀ x, start + found ≤ x → x < start + len → ¬ br.Holds x

structure Tracked (total : Nat) (before after : ChainBitmap) : Prop where
  layout : Layout total after.b_regions.toList
  size : after.b_total_bits = before.b_total_bits
  same : settled (after.b_private, after.b_regions.toList) = settled (before.b_private, before.b_regions.toList)

variable {fs : Filesys} {total : Nat} {before mid after : ChainBitmap}

theorem Tracked.trans (first : Tracked total before mid) (second : Tracked total mid after) :
    Tracked total before after :=
  ⟨second.layout, second.size.trans first.size, second.same.trans first.same⟩

theorem Tracked.of_moves (layout : Layout total after.b_regions.toList) (moves : Moves chainallocBitmapOps before after) :
    Tracked total before after := ⟨layout, moves.total, evolves_settled moves.evolves⟩

theorem Tracked.write (fs : Filesys) (layout : Layout total before.b_regions.toList) (dev : Device) :
    Tracked total before (chainallocWriteBitmap fs dev before).2.1 := by
  have rewrote := writeBitmap_rewrote fs dev before
  exact ⟨rewrote.layout layout, rewrote.total, rewrote.settled⟩

theorem member_write (fs : Filesys) (dev : Device) (bitmap : ChainBitmap) (x : Nat) :
    Member (chainallocWriteBitmap fs dev bitmap).2.1.b_regions.toList x ↔ Member bitmap.b_regions.toList x :=
  (writeBitmap_rewrote fs dev bitmap).restored.member x

variable {br : ChainRegion} {start : Nat}

theorem search_eq_some {order : ChainRegion → Ordering} {t : Node ChainRegion} {c : Color} {l r : Node ChainRegion} {path : List (Frame ChainRegion)} (found : descend order t [] = (.node c l br r, path)) :
    search order t = some br := by
  rw [search, found]

theorem undoClusters_cases (α : Type) (layout : Layout total mid.b_regions.toList)
    (dev : Device) {len startBlkno : Nat} (pos : 0 < len) (word : len < 2 ^ 32)
    (first : blocksToClusters fs startBlkno = start) (e : Errcode) :
    (mid.b_total_bits < start + len ∨ search (order start (start + len)) mid.b_regions = none) ∧
        undoClusters fs α dev mid len startBlkno e = (dev, mid, .error e) ∨
    start + len ≤ mid.b_total_bits ∧ ∃ br, search (order start (start + len)) mid.b_regions = some br ∧
      (¬ InMemory br start len ∧ (undoClusters fs α dev mid len startBlkno e).2.2 = .error .undefined ∨
        InMemory br start len ∧ ∃ dev' after, undoClusters fs α dev mid len startBlkno e = (dev', after, .error e) ∧
          after.b_set_bits = mid.b_set_bits ∧ Tracked total mid after ∧ ∀ x, Member after.b_regions.toList x ↔
            Member mid.b_regions.toList x ∧ ¬ (br.Covers x ∧ start ≤ x ∧ x < start + len)) := by
  have low : start ≤ 2 ^ 32 - 1 := first ▸ Nat.min_le_right _ _
  have sum : (start + len) % 2 ^ 64 = start + len := Nat.mod_eq_of_lt (by omega)
  have cleared : mid.clearRange (clearRangeGeneric chainallocBitmapOps) len start =
      if mid.b_total_bits < start + len then .error .invalidArgument
      else clearRangeGeneric chainallocBitmapOps mid len start := by
    rw [clearRange, Nat.add_comm len, sum]
    simp only [pos.ne', false_or, gt_iff_lt]
  have failed (reason : Errcode) (known : reason ≠ .undefined)
      (run : mid.clearRange (clearRangeGeneric chainallocBitmapOps) len start = .error reason) :
      undoClusters fs α dev mid len startBlkno e = (dev, mid, .error e) := by
    simp only [undoClusters, freeClusters, chainFreeRange, first, run]
    cases reason <;> first | rfl | exact absurd rfl known
  by_cases inside : mid.b_total_bits < start + len
  · exact .inl ⟨.inl inside, failed .invalidArgument (by decide) (by rw [cleared, if_pos inside])⟩
  rw [if_neg inside] at cleared
  rcases clearRangeGeneric_cases layout polite len start sum with
    ⟨⟨path, missed⟩, run⟩ | ⟨c, l, br, r, path, found, -, ⟨outside, run⟩ | ⟨held, bitmap', run, framed, moves, member⟩⟩
  · exact .inl ⟨.inr (by rw [search, missed]), failed .invalidBit (by decide) (cleared.trans run)⟩
  · rw [Nat.add_sub_cancel_left] at outside
    refine .inr ⟨by omega, br, search_eq_some found, .inl ⟨outside, ?_⟩⟩
    simp only [undoClusters, freeClusters, chainFreeRange, first, cleared, run]
  · rw [Nat.add_sub_cancel_left] at held
    rw [run] at cleared
    have written := writeBitmap_defined fs dev bitmap'
    have rewrote := writeBitmap_rewrote fs dev bitmap'
    have undo : undoClusters fs α dev mid len startBlkno e =
        ((chainallocWriteBitmap fs dev bitmap').1, (chainallocWriteBitmap fs dev bitmap').2.1, .error e) := by
      simp only [undoClusters, freeClusters, chainFreeRange, first, cleared]
    exact .inr ⟨by omega, br, search_eq_some found, .inr ⟨held, _, _, undo, rewrote.count.trans framed.count,
      (Tracked.of_moves framed.layout moves).trans (.write fs framed.layout dev),
      fun x => (member_write fs dev bitmap' x).trans (member x)⟩⟩

theorem not_restored {x : Nat} (clear : ¬ Member before.b_regions.toList x) (set : Member after.b_regions.toList x) :
    ¬ Restored before after := fun restored => clear ((restored.member x).mp set)

theorem blocksToClusters_clustersToBlocks (fs : Filesys) {clusters : Nat} (some : 0 < fs.blocksPerCluster) (word : clusters < 2 ^ 32) :
    blocksToClusters fs (clustersToBlocks fs clusters) = clusters := by
  rw [blocksToClusters, clustersToBlocks, Nat.mod_eq_of_lt word, Nat.mul_div_cancel _ some]
  omega

theorem inMemory_congr {br' : ChainRegion} (wf : br.Wf) (wf' : br'.Wf) (same : reset br' = reset br) (start len : Nat) :
    (InMemory br' start len ↔ InMemory br start len) ∧ ∀ x, br'.Covers x ↔ br.Covers x := by
  have begins := congrArg Region.br_start_bit same
  have total := congrArg Region.br_total_bits same
  simp only [reset] at begins total
  rw [InMemory, InMemory, wf.bytes, wf'.bytes, begins, total]
  exact ⟨Iff.rfl, fun x => by rw [Region.Covers, Region.Covers, begins, total]⟩

theorem search_ne_none {xs : Node ChainRegion} (layout : Layout total xs.toList) (mem : br ∈ xs.toList)
    {len : Nat} (covers : br.Covers start) (pos : 0 < len) : search (order start (start + len)) xs ≠ none := by
  intro missed
  refine search_none (cut_order total _ layout start (start + len) (by omega)) missed br mem ?_
  have low := covers.1
  have high := covers.2
  rw [order, if_neg (by omega), if_neg (by omega)]

theorem search_first {xs : Node ChainRegion} (layout : Layout total xs.toList) {found : ChainRegion}
    (mem : br ∈ xs.toList) {stop : Nat} (covers : br.Covers start)
    (hit : search (order start stop) xs = some found) (low : found.br_start_bit ≤ start) : found = br := by
  obtain ⟨mem', meets⟩ := search_some hit
  by_contra different
  have apart := layout.apart mem' mem different
  have begins := covers.1
  have ends := covers.2
  simp only [order] at meets
  split_ifs at meets
  omega

theorem holds_iff {xs : List ChainRegion} (layout : Layout total xs) (mem : br ∈ xs) (x : Nat) :
    br.Holds x ↔ br.Covers x ∧ Member xs x := by
  refine ⟨fun holds => ⟨holds.1, br, mem, holds⟩, ?_⟩
  rintro ⟨⟨low, high⟩, inside⟩
  refine ⟨⟨low, high⟩, ?_⟩
  have value := member_at layout mem (show x - br.br_start_bit < br.br_total_bits by omega)
  rw [Nat.add_sub_cancel' low] at value
  exact value.mp inside

theorem undoClusters_run (α : Type) (layout : Layout mid.b_total_bits mid.b_regions.toList) (dev : Device)
    {len startBlkno : Nat} (pos : 0 < len) (word : len < 2 ^ 32)
    (region : ∃ br ∈ mid.b_regions.toList, ∀ x, start ≤ x → x < start + len → br.Covers x)
    (first : blocksToClusters fs startBlkno = start) (e : Errcode) :
    ∃ dev' after, undoClusters fs α dev mid len startBlkno e = (dev', after, .error e) ∧
      Tracked mid.b_total_bits mid after ∧ ∀ x, Member after.b_regions.toList x ↔
        Member mid.b_regions.toList x ∧ ¬ (start ≤ x ∧ x < start + len) := by
  obtain ⟨home, mem, covers⟩ := region
  have below := layout.bound home mem
  have begins := (covers start le_rfl (by omega)).1
  have ends := (covers (start + len - 1) (by omega) (by omega)).2
  have room := (layout.wf home mem).room
  rcases undoClusters_cases α layout dev pos word first e with ⟨missed, -⟩ | ⟨inside, br, hit, cases⟩
  · exact (missed.elim (by omega) (search_ne_none layout mem (covers start le_rfl (by omega)) pos)).elim
  · have same : br = home := by
      obtain ⟨mem', meets⟩ := search_some hit
      by_contra different
      have apart := layout.apart mem' mem different
      simp only [order] at meets
      split_ifs at meets
      omega
    subst same
    rcases cases with ⟨outside, -⟩ | ⟨-, _, _, run, -, tracked, member⟩
    · exact absurd (.inr ⟨begins, by omega⟩) outside
    · refine ⟨_, _, run, tracked, fun x => (member x).trans (and_congr_right fun _ => not_congr ?_)⟩
      exact ⟨And.right, fun range => ⟨covers x range.1 range.2, range⟩⟩

theorem undoClusters_iff (α : Type) (layout : Layout total before.b_regions.toList) (tracked : Tracked total before mid)
    (shape : mid.b_regions.map reset = before.b_regions.map reset) {found len startBlkno : Nat}
    (some : 0 < found) (most : found ≤ len) (word : len < 2 ^ 32)
    (region : ∃ br ∈ before.b_regions.toList, ∀ x, start ≤ x → x < start + found → br.Covers x)
    (clear : ∀ x, start ≤ x → x < start + found → ¬ Member before.b_regions.toList x)
    (member : ∀ x, Member mid.b_regions.toList x ↔ Member before.b_regions.toList x ∨ start ≤ x ∧ x < start + found)
    (dev : Device) (first : blocksToClusters fs startBlkno = start) (defined : e ≠ .undefined) :
    Undone before (undoClusters fs α dev mid len startBlkno e) ↔ FreesOnly before start found len := by
  have set : Member mid.b_regions.toList start := (member start).mpr (.inr ⟨le_rfl, by omega⟩)
  have stays := not_restored (clear start le_rfl (by omega)) set
  have found_before := search_shape shape start (start + len)
  rw [Undone, FreesOnly]
  rcases undoClusters_cases α tracked.layout dev (by omega) word first e with
    ⟨missed, run⟩ | ⟨inside, br, hit, cases⟩
  · rw [run]
    refine iff_of_false (fun undone => stays undone.2) fun only => ?_
    rcases missed with outside | none
    · have size := tracked.size
      omega
    · rw [none, Option.map_none, eq_comm, Option.map_eq_none_iff] at found_before
      obtain ⟨br, mem, covers⟩ := region
      exact search_ne_none layout mem (covers start le_rfl (by omega)) (by omega) found_before
  · rw [hit, Option.map_some, eq_comm, Option.map_eq_some_iff] at found_before
    obtain ⟨old, hit_before, same⟩ := found_before
    have mem := (search_some hit_before).1
    have wf := layout.wf old mem
    have wf' := tracked.layout.wf br (search_some hit).1
    obtain ⟨memory, covers⟩ := inMemory_congr wf wf' same.symm start len
    rcases cases with ⟨outside, run⟩ | ⟨held, _, _, run, -, tracked', member'⟩
    · exact iff_of_false (fun undone => undone.1 run) fun only => outside (memory.mpr (only.2 old hit_before).1)
    · have all := tracked.trans tracked'
      rw [run, restored_iff_member layout all.layout all.size all.same]
      obtain ⟨home, homeMem, homeCovers⟩ := region
      have begins : old.br_start_bit ≤ start := by
        rcases memory.mp held with none | ⟨begins, -⟩
        · omega
        · exact begins
      have here : old = home := search_first layout homeMem (homeCovers start le_rfl (by omega)) hit_before begins
      constructor
      · rintro ⟨-, restored⟩
        refine ⟨tracked.size ▸ inside, fun br' hit' => ?_⟩
        rw [hit_before, Option.some.injEq] at hit'
        subst hit'
        refine ⟨memory.mp held, fun x low high holds => ?_⟩
        have kept := (restored x).mpr ⟨old, mem, holds⟩
        exact ((member' x).mp kept).2 ⟨(covers x).mpr holds.1, by omega, high⟩
      · rintro ⟨-, only⟩
        obtain ⟨-, alone⟩ := only old hit_before
        refine ⟨by simpa using defined, fun x => ?_⟩
        rw [member' x, member x, covers x]
        by_cases granted : start ≤ x ∧ x < start + found
        · have covered : old.Covers x := here ▸ homeCovers x granted.1 granted.2
          have free := clear x granted.1 granted.2
          refine iff_of_false (fun kept => kept.2 ⟨covered, granted.1, by omega⟩) free
        · rw [or_iff_left granted, and_iff_left_iff_imp]
          rintro set ⟨covered, low, high⟩
          exact alone x (by omega) high ((holds_iff layout mem x).mpr ⟨covered, set⟩)

theorem blocksToClusters_twice_iff (some : 0 < fs.blocksPerCluster) (word : cpos < 2 ^ 32) :
    blocksToClusters fs (blocksToClusters fs cpos) = cpos ↔ fs.blocksPerCluster = 1 ∨ cpos = 0 := by
  have small : cpos / fs.blocksPerCluster ≤ cpos := Nat.div_le_self _ _
  have smaller : cpos / fs.blocksPerCluster / fs.blocksPerCluster ≤ cpos / fs.blocksPerCluster := Nat.div_le_self _ _
  rw [blocksToClusters, blocksToClusters, Nat.min_eq_left (by omega : cpos / fs.blocksPerCluster ≤ 2 ^ 32 - 1),
    Nat.min_eq_left (by omega)]
  constructor
  · intro back
    by_contra both
    have less : cpos / fs.blocksPerCluster < cpos := Nat.div_lt_self (by omega) (by omega)
    omega
  · rintro (one | rfl)
    · simp [one]
    · simp

theorem search_one {t : Node ChainRegion} (layout : Layout total t.toList)
    (hit : search (order start (start + 1)) t = some br) : br.Covers start ∧ InMemory br start 1 := by
  obtain ⟨mem, meets⟩ := search_some hit
  have room := (layout.wf br mem).room
  have covers : br.Covers start := by
    simp only [order] at meets
    split_ifs at meets
    exact ⟨by omega, by omega⟩
  obtain ⟨low, high⟩ := covers
  exact ⟨⟨low, high⟩, .inr ⟨low, by omega⟩⟩

end Undo

section Calls

variable {fs : Filesys} {bitmap : ChainBitmap} (layout : Layout bitmap.b_total_bits bitmap.b_regions.toList)
  (word : bitmap.b_total_bits < 2 ^ 32)

include layout word

theorem allocRange_tracked {min requested start found : Nat} {taken : ChainBitmap}
    (run : bitmap.allocRange (allocRangeGeneric chainallocBitmapOps) min requested = .ok (taken, start, found)) :
    0 < min ∧ requested < 2 ^ 32 ∧ start < 2 ^ 32 ∧ Allocated bitmap min requested taken start found ∧
      Tracked bitmap.b_total_bits bitmap taken ∧ taken.b_regions.map reset = bitmap.b_regions.map reset := by
  obtain ⟨pos, got, framed, moves⟩ := allocRange_ok layout polite run
  have atLeast := got.atLeast
  have order := atLeast.trans got.atMost
  rw [allocRange_eq layout polite pos order] at run
  split_ifs at run with whole
  obtain ⟨br, mem, covers⟩ := got.region
  have below := layout.bound br mem
  have high := (covers start le_rfl (by omega)).2
  exact ⟨pos, by omega, by omega, got, .of_moves framed.layout moves, allocRangeGeneric_shape run⟩

theorem newClusters_undone_iff (some : 0 < fs.blocksPerCluster) {min requested start found : Nat}
    {taken dirty : ChainBitmap} {dev dev' : Device}
    (alloc : chainAllocRange bitmap min requested = (taken, .ok (start, found)))
    (write : chainallocWriteBitmap fs dev taken = (dev', dirty, .error e)) :
    Undone bitmap (newClusters fs dev bitmap min requested) ↔ FreesOnly bitmap start found requested := by
  have run : bitmap.allocRange (allocRangeGeneric chainallocBitmapOps) min requested = .ok (taken, start, found) := by
    rw [chainAllocRange] at alloc
    split at alloc <;> simp_all
  obtain ⟨pos, small, low, got, took, shape⟩ := allocRange_tracked layout word run
  have rewrote := writeBitmap_rewrote fs dev taken
  have tracked := took.trans (.write fs took.layout dev)
  have members := member_write fs dev taken
  have defined := writeBitmap_defined fs dev taken
  rw [write] at rewrote tracked members defined
  rw [newClusters, alloc]
  simp only [write]
  refine undoClusters_iff _ layout tracked (rewrote.shape.trans shape) (pos.trans_le got.atLeast) got.atMost small got.region
    got.clear (fun x => ?_) dev' (blocksToClusters_clustersToBlocks fs some low) (by simpa using defined)
  rw [members x, got.member x]

omit word

theorem forceVal_clear (clear : testClusterAllocated bitmap cpos = .ok false) :
    ¬ Member bitmap.b_regions.toList cpos ∧ Covered bitmap.b_regions.toList cpos ∧
      (chainForceVal bitmap cpos true).1.b_set_bits = bitmap.b_set_bits + 1 ∧
      Tracked bitmap.b_total_bits bitmap (chainForceVal bitmap cpos true).1 ∧
      ∀ x, Member (chainForceVal bitmap cpos true).1.b_regions.toList x ↔ x = cpos ∨ Member bitmap.b_regions.toList x := by
  rw [testClusterAllocated, test] at clear
  split_ifs at clear with outside
  obtain ⟨covered, value, tested, right⟩ := (testGeneric_cases bitmap cpos layout).resolve_left fun missing => by
    rw [missing.2] at clear
    cases clear
  rw [clear, Except.ok.injEq] at tested
  have free : ¬ Member bitmap.b_regions.toList cpos := by
    rw [← right, ← tested]
    exact Bool.false_ne_true
  obtain ⟨-, taken, old, run, old_right, written⟩ :=
    (setGeneric_writes polite bitmap cpos layout).resolve_left fun missing => missing.1 covered
  have new : old = false := by
    rw [← Bool.not_eq_true, old_right]
    exact free
  subst new
  have force : (chainForceVal bitmap cpos true).1 = { taken with b_set_bits := taken.b_set_bits + 1 } := by
    simp [chainForceVal, chainSet, Bitmap.set, outside, run, Except.map]
  rw [force]
  exact ⟨free, covered, by simp only [written.count], ⟨written.layout, written.total, evolves_settled written.evolves⟩,
    fun x => (written.member x).trans (by split <;> simp_all)⟩

include word

theorem newSpecificCluster_undone_iff (some : 0 < fs.blocksPerCluster) {dirty : ChainBitmap}
    {dev dev' : Device} (clear : testClusterAllocated bitmap cpos = .ok false)
    (write : chainallocWriteBitmap fs dev (chainForceVal bitmap cpos true).1 = (dev', dirty, .error e)) :
    (Undone bitmap (newSpecificCluster fs dev bitmap cpos) ↔ fs.blocksPerCluster = 1 ∨ cpos = 0) ∧
      (newSpecificCluster fs dev bitmap cpos).2.1.b_set_bits = bitmap.b_set_bits + 1 := by
  obtain ⟨free, ⟨home, mem, covers⟩, count, taken, member⟩ := forceVal_clear layout clear
  have below := layout.bound home mem
  have high := covers.2
  have rewrote := writeBitmap_rewrote fs dev (chainForceVal bitmap cpos true).1
  have tracked := taken.trans (.write fs taken.layout dev)
  have members := member_write fs dev (chainForceVal bitmap cpos true).1
  have defined := writeBitmap_defined fs dev (chainForceVal bitmap cpos true).1
  rw [write] at rewrote tracked members defined
  have known : e ≠ .undefined := by simpa using defined
  have size := tracked.size
  have held : Member dirty.b_regions.toList cpos := (members cpos).mpr ((member cpos).mpr (.inl rfl))
  have here : Covered dirty.b_regions.toList cpos := by
    obtain ⟨br, mem, holds⟩ := held
    exact ⟨br, mem, holds.1⟩
  have counted : dirty.b_set_bits = bitmap.b_set_bits + 1 := rewrote.count.trans count
  rw [newSpecificCluster, clear]
  simp only [write]
  rw [← blocksToClusters_twice_iff some (show cpos < 2 ^ 32 by omega)]
  rcases undoClusters_cases Unit tracked.layout dev' Nat.one_pos (by omega)
    (rfl : blocksToClusters fs (blocksToClusters fs cpos) = _) e with
    ⟨missed, run⟩ | ⟨inside, br, hit, ⟨outside, -⟩ | ⟨-, _, _, run, kept, tracked', member'⟩⟩
  · rw [run]
    refine ⟨iff_of_false (fun undone => not_restored free held undone.2) fun back => ?_, counted⟩
    rw [back] at missed
    obtain ⟨br, mem, covers⟩ := here
    exact missed.elim (by omega) (search_ne_none tracked.layout mem covers Nat.one_pos)
  · exact absurd (search_one tracked.layout hit).2 outside
  · rw [run]
    refine ⟨⟨fun undone => ?_, fun back => ⟨by simpa using known, ?_⟩⟩, kept.trans counted⟩
    · by_contra other
      refine not_restored free ((member' cpos).mpr ⟨held, ?_⟩) undone.2
      rintro ⟨-, low, high⟩
      omega
    · rw [back] at member' hit
      have all := tracked.trans tracked'
      refine (restored_iff_member layout all.layout all.size all.same).mpr fun x => ?_
      rw [member' x, members x, member x]
      by_cases same : x = cpos
      · subst same
        exact iff_of_false (fun kept => kept.2 ⟨(search_one tracked.layout hit).1, le_rfl, Nat.lt_succ_self x⟩) free
      · rw [or_iff_right same, and_iff_left_iff_imp]
        rintro - ⟨-, low, high⟩
        omega

/-- When the allocator cannot be written back, the one call restores it unless its free of the requested
clusters reaches farther than those it took, and the other one if its two divisions change nothing. The count
that the bitmap itself has is one too high after the latter. -/
theorem failed_write_undone_iff (some : 0 < fs.blocksPerCluster) (dev : Device) :
    (∀ min requested start found taken dev' dirty e,
      chainAllocRange bitmap min requested = (taken, .ok (start, found)) →
      chainallocWriteBitmap fs dev taken = (dev', dirty, .error e) →
        (Undone bitmap (newClusters fs dev bitmap min requested) ↔ FreesOnly bitmap start found requested)) ∧
    ∀ cpos dev' dirty e, testClusterAllocated bitmap cpos = .ok false →
      chainallocWriteBitmap fs dev (chainForceVal bitmap cpos true).1 = (dev', dirty, .error e) →
        (Undone bitmap (newSpecificCluster fs dev bitmap cpos) ↔ fs.blocksPerCluster = 1 ∨ cpos = 0) ∧
        (newSpecificCluster fs dev bitmap cpos).2.1.b_set_bits = bitmap.b_set_bits + 1 :=
  ⟨fun _ _ _ _ _ _ _ _ alloc write => newClusters_undone_iff layout word some alloc write,
    fun _ _ _ _ clear write => newSpecificCluster_undone_iff layout word some clear write⟩

end Calls

def smallFs : Filesys where
  fs_blocksize := 1024
  fs_clustersize := 4096
  fs_blocks := 64
  fs_clusters := 16
  s_first_cluster_group := 4
  rw := true

def quarterFree : ChainBitmap where
  b_total_bits := 16
  b_set_bits := 0
  b_regions := .node .black .nil ⟨0, 16, 12, [0xf0#8, 0xff#8], ⟨⟨960, 16, 4#16, 0, 0, 4, [0xf0#8, 0xff#8]⟩, false⟩⟩ .nil
  b_private := ⟨8, ⟨true, true, 12#32, 16#32, 1, 1, [⟨4#32, 16#32, 4⟩]⟩, false⟩

theorem quarterFree_layout : Layout 16 quarterFree.b_regions.toList := by
  refine ⟨?_, by simp [quarterFree, Node.toList], by simp [quarterFree, Node.toList]⟩
  simp only [quarterFree, Node.toList, List.nil_append, List.forall_mem_singleton]
  refine ⟨by decide, by decide, fun i above => bit_of_ge _ _ (by simpa using above), by decide⟩

def failsOnce : Device := ⟨fun _ => .other, [true]⟩

theorem failed_write_undone_quarterFree :
    Undone quarterFree (newClusters smallFs failsOnce quarterFree 1 3) := by
  refine ((failed_write_undone_iff quarterFree_layout (by decide) (by decide) failsOnce).1 1 3 0 3 _ _ _ .io rfl rfl).mpr ?_
  refine ⟨by decide, fun br hit => ?_⟩
  have home : br ∈ quarterFree.b_regions.toList := (search_some hit).1
  simp only [quarterFree, Node.toList, List.nil_append, List.mem_singleton] at home
  subst home
  exact ⟨.inr ⟨by decide, by decide⟩, fun x low high _ => by omega⟩

/-- Of eight requested clusters four are found and eight are freed, four of them not by their owner. A cluster
that was asked for by its number stays set. -/
theorem failed_write_not_undone :
    Layout 16 quarterFree.b_regions.toList ∧
    quarterFree.test 4 testGeneric = .ok true ∧
    (newClusters smallFs failsOnce quarterFree 1 8).2.2 = .error .io ∧
    (newClusters smallFs failsOnce quarterFree 1 8).2.1.test 4 testGeneric = .ok false ∧
    quarterFree.test 2 testGeneric = .ok false ∧
    (newSpecificCluster smallFs failsOnce quarterFree 2).2.2 = .error .io ∧
    (newSpecificCluster smallFs failsOnce quarterFree 2).2.1.test 2 testGeneric = .ok true :=
  ⟨quarterFree_layout, by rfl, by rfl, by rfl, by rfl, by rfl, by rfl⟩

end Ocfs2.ChainAlloc
