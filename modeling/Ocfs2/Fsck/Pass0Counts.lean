import Ocfs2.Fsck.Pass0Alloc

set_option autoImplicit false

namespace Ocfs2.Pass0

open ByteBuffer Bitops Function

variable {fs : Filesys} {generation : Nat} {prompt : Problem → Nat → Bool} {disk disk' : Disk} {di : Dinode}

section Groups

def InChain (disk : Disk) (di : Dinode) (g : Nat) : Prop :=
  ∃ r ∈ di.cl_recs.take di.cl_next_free_rec, ∃ gs, Seg disk r.c_blkno gs 0 ∧ 0 ∉ gs ∧ g ∈ gs

def CountsRight (disk : Disk) (di : Dinode) : Prop :=
  ∃ groups : Finset Nat, (∀ g, g ∈ groups ↔ InChain disk di g) ∧
    di.i_total = ∑ g ∈ groups, bits disk g ∧
    di.i_used = ∑ g ∈ groups, ((bits disk g : Int) - freeBits disk g) ∧
    di.i_clusters = (∑ g ∈ groups, bits disk g) / di.cl_bpc

theorem inChain_iff {owner : Nat} {chains : List (List Nat)}
    (wholes : Wholes fs generation owner disk (di.cl_recs.take di.cl_next_free_rec) chains) (g : Nat) :
    g ∈ chains.flatten.toFinset ↔ InChain disk di g := by
  rw [List.mem_toFinset, List.mem_flatten, InChain]
  generalize di.cl_recs.take di.cl_next_free_rec = recs at wholes
  induction wholes with
  | nil => simp
  | @cons r gs recs chains whole _ ih =>
    have here : g ∈ gs ↔ ∃ gs, Seg disk r.c_blkno gs 0 ∧ 0 ∉ gs ∧ g ∈ gs := by
      refine ⟨fun mem => ⟨gs, whole.seg, whole.zero_notMem, mem⟩, ?_⟩
      rintro ⟨gs', seg, nonzero, mem⟩
      rwa [whole.seg.unique seg whole.zero_notMem nonzero]
    simp only [List.exists_mem_cons_iff, ih, here]

theorem bits_of_not_group {g : Nat} (other : ∀ gd, disk g ≠ .groupDesc gd) : bits disk g = 0 := by
  cases block : disk g with
  | groupDesc gd => exact absurd block (other gd)
  | _ => simp only [bits, block]

theorem Checks.all_bits {owner : Nat} (checks : Checks fs generation owner disk disk') (g : Nat) :
    Pass0.bits disk' g = Pass0.bits disk g := by
  by_cases group : ∃ gd, disk g = .groupDesc gd
  · obtain ⟨gd, read⟩ := group
    obtain ⟨gd', checked⟩ := checks.groups g gd read
    simp only [Pass0.bits, read, checked.read, checked.bits]
  · have other := not_exists.mp group
    rw [bits_of_not_group other, bits_of_not_group (checks.others g other)]

theorem Good.freeBits_eq_zero {owner g : Nat} {gd : GroupDesc} (good : Good fs generation owner disk g gd)
    (empty : bits disk g = 0) : freeBits disk g = 0 := by
  simp only [bits, freeBits, good.read] at empty ⊢
  have le := good.free
  simp only [findMaxFreeBits, empty, findMaxFreeBitsLoop, Nat.not_lt_zero, if_false] at le
  omega

end Groups

section Fixes

theorem clearHeads_fields (di : Dinode) : (clearHeads fs prompt di).1 =
    { di with cl_recs := (clearHeads fs prompt di).1.cl_recs } := rfl

theorem clearHeads_recs (di : Dinode) : List.Forall₂ (fun r r' => r'.c_blkno = r.c_blkno ∨
      r'.c_blkno = 0 ∧ blockOutOfRange fs r.c_blkno = true) di.cl_recs (clearHeads fs prompt di).1.cl_recs := by
  rw [List.forall₂_iff_get]
  refine ⟨by simp [clearHeads], fun i lt lt' => ?_⟩
  simp only [clearHeads, List.get_eq_getElem, List.getElem_mapIdx]
  split
  next bad =>
    simp only [Bool.and_eq_true] at bad
    exact Or.inr ⟨rfl, bad.1.2⟩
  next => exact Or.inl rfl

theorem clampRecords_correct (accept : ∀ p n, prompt p n = true) (di : Dinode) :
    ∃ di' clamped, clampRecords prompt di = (di', di'.cl_next_free_rec, true, clamped) ∧
      di' = { di with cl_count := di'.cl_count, cl_next_free_rec := di'.cl_next_free_rec } ∧
      di'.cl_next_free_rec ≤ di.cl_recs.length := by
  simp only [clampRecords, accept, Bool.and_true, if_true, decide_eq_true_eq]
  by_cases big : di.cl_count > di.cl_recs.length
  · simp only [big, if_true, min_self]
    split
    next => exact ⟨_, _, rfl, rfl, le_rfl⟩
    next small => exact ⟨_, _, rfl, rfl, by simpa using small⟩
  · simp only [big, if_false]
    rw [Nat.min_eq_right (Nat.not_lt.mp big)]
    split
    next => exact ⟨_, _, rfl, rfl, by simpa using big⟩
    next small => exact ⟨_, _, rfl, rfl, (Nat.not_lt.mp small).trans (Nat.not_lt.mp big)⟩

theorem clearUnused_take (di : Dinode) :
    (clearUnused di).cl_recs.take (clearUnused di).cl_next_free_rec = di.cl_recs.take di.cl_next_free_rec := by
  refine List.ext_getElem (by simp [clearUnused]) fun i lt lt' => ?_
  have used : ¬di.cl_next_free_rec ≤ i := by
    rw [List.length_take] at lt'
    omega
  simp [clearUnused, used]

theorem fixCounts_correct (accept : ∀ p n, prompt p n = true) (di : Dinode) (sums : Sums) :
    ∃ size fixed, fixCounts fs prompt di sums =
      ({ di with
        i_total := sums.total
        i_used := (sums.total : Int) - sums.free
        i_clusters := sums.total / di.cl_bpc
        i_size := size }, fixed) := by
  have total (di : Dinode) :
      (if decide (di.i_total ≠ sums.total) || decide (di.i_used ≠ (sums.total : Int) - sums.free) then
        { di with i_used := (sums.total : Int) - sums.free, i_total := sums.total } else di) =
      { di with i_used := (sums.total : Int) - sums.free, i_total := sums.total } := by
    split
    next => rfl
    next right =>
      simp only [Bool.or_eq_true, decide_eq_true_eq, not_or, not_not] at right
      rw [← right.2, ← right.1]
  have clusters (di : Dinode) (n : Nat) :
      (if decide (di.i_clusters ≠ n) then { di with i_clusters := n } else di) = { di with i_clusters := n } := by
    split
    next => rfl
    next right =>
      rw [decide_eq_true_eq, not_not] at right
      rw [← right]
  simp only [fixCounts, accept, Bool.and_true]
  rw [total, clusters]
  split
  next => exact ⟨_, _, rfl⟩
  next => exact ⟨_, _, rfl⟩

end Fixes

section Counts

theorem linked_cleared {owner n : Nat} {recs recs' : List ChainRec} {found : List (List Nat)}
    (cleared : List.Forall₂ (fun r r' : ChainRec => r'.c_blkno = r.c_blkno ∨
      r'.c_blkno = 0 ∧ blockOutOfRange fs r.c_blkno = true) recs recs')
    (linked : List.Forall₂ (fun r gs => Linked fs generation owner disk r.c_blkno gs) (recs'.take n) found) :
    List.Forall₂ (fun r gs => Linked fs generation owner disk r.c_blkno gs) (recs.take n) found := by
  induction cleared generalizing n found with
  | nil => simpa using linked
  | @cons r r' recs recs' head _ ih =>
    cases n with
    | zero => simpa using linked
    | succ n =>
      obtain ⟨gs, found, here, rest, rfl⟩ := List.forall₂_cons_left_iff.mp linked
      refine .cons ?_ (ih rest)
      rcases head with same | ⟨zero, range⟩
      · rwa [← same]
      · rw [zero] at here
        obtain ⟨nonzero, b, seg, -⟩ := here
        cases gs with
        | nil => exact ⟨nonzero, r.c_blkno, rfl, Or.inr (Or.inl range)⟩
        | cons g gs => simp [← seg.1] at nonzero

theorem countsRight_iff {owner : Nat} {found : List (List Nat)}
    {free : Nat} (wholes : Wholes fs generation owner disk (di.cl_recs.take di.cl_next_free_rec) (arrange found).1)
    (counts : Tally disk (countedGroups found) di.i_total free) (used : di.i_used = (di.i_total : Int) - free)
    (clusters : di.i_clusters = di.i_total / di.cl_bpc) :
    CountsRight disk di ↔ ∀ g, 1 < (countedGroups found).count g → bits disk g = 0 := by
  have same_set : (countedGroups found).toFinset = (arrange found).1.flatten.toFinset := by
    ext g
    rw [List.mem_toFinset, List.mem_toFinset, mem_countedGroups]
  rw [← sum_eq_iff, same_set, ← counts.1]
  constructor
  · rintro ⟨groups, mem, right, -⟩
    obtain rfl : groups = (arrange found).1.flatten.toFinset := by
      ext g
      rw [mem, inChain_iff wholes]
    exact right
  · intro right
    refine ⟨_, inChain_iff wholes, right, ?_, by rw [clusters, right]⟩
    have once := (sum_eq_iff (bits disk) (countedGroups found)).mp (by rw [same_set, ← counts.1, right])
    have free_eq : free = ∑ g ∈ (arrange found).1.flatten.toFinset, freeBits disk g := by
      rw [counts.2, ← same_set, sum_eq_iff]
      intro g twice
      have mem : g ∈ (arrange found).1.flatten :=
        (mem_countedGroups found g).mp (List.count_pos_iff.mp (by omega))
      obtain ⟨gd, good⟩ := good_of_wholes wholes mem
      exact good.freeBits_eq_zero (once g twice)
    rw [used, right, free_eq, Finset.sum_sub_distrib]
    push_cast
    rfl

theorem verifyChainAlloc_cases (accept : ∀ p n, prompt p n = true) {ost ost' : O2fsckState} {di' : Dinode}
    (done : verifyChainAlloc fs generation prompt ost di = some (.ok (ost', di'))) :
    ∃ (di₀ di₁ : Dinode) (ost₁ : O2fsckState) (changed : Bool) (sums : Sums) (fuel size : Nat),
      di₀.i_blkno = di.i_blkno ∧ di₀.cl_next_free_rec ≤ di₀.cl_recs.length ∧
      List.Forall₂ (fun r r' : ChainRec => r'.c_blkno = r.c_blkno ∨
        r'.c_blkno = 0 ∧ blockOutOfRange fs r.c_blkno = true) di.cl_recs di₀.cl_recs ∧
      verifyChains fs generation prompt true fuel di₀.cl_next_free_rec ost di₀ ⟨0, 0, changed⟩ =
        some (ost₁, di₁, sums) ∧
      di' = { clearUnused di₁ with
        i_total := sums.total
        i_used := (sums.total : Int) - sums.free
        i_clusters := sums.total / di₁.cl_bpc
        i_size := size } ∧
      (ost'.disk = ost₁.disk ∨ ost'.disk = update ost₁.disk di'.i_blkno (.dinode di')) := by
  rw [verifyChainAlloc] at done
  split at done
  · cases done
  split at done
  · cases done
  split at done
  · cases done
  have cleared := @clearHeads_recs fs prompt di
  have fields := @clearHeads_fields fs prompt di
  generalize clearHeads fs prompt di = heads at done cleared fields
  obtain ⟨di₁, changed⟩ := heads
  dsimp only at done cleared fields
  obtain ⟨di₀, clamped, clamp, fields₀, le⟩ := clampRecords_correct accept di₁
  have recs : di₀.cl_recs = di₁.cl_recs := by rw [fields₀]
  rw [clamp] at done
  dsimp only at done
  split at done
  · cases done
  next ost₁ di₁ sums loop =>
    split at done
    · cases done
    obtain ⟨size, fixed, fix⟩ := @fixCounts_correct fs prompt accept (clearUnused di₁) sums
    rw [fix] at done
    dsimp only at done
    refine ⟨di₀, di₁, ost₁, _, sums, _, size, ?_, recs ▸ le, recs ▸ cleared, loop, ?_⟩
    · rw [fields₀, fields]
    · split at done <;> obtain ⟨rfl, rfl⟩ := Prod.mk.inj (Except.ok.inj (Option.some.inj done))
      · exact ⟨rfl, Or.inr rfl⟩
      · exact ⟨rfl, Or.inl rfl⟩

end Counts

section Example

def exampleFs : Filesys := ⟨30, 4096, 1⟩

def exampleGroup : GroupDesc := ⟨1, 10, 20, 1, 8, 7, 0, [1#8]⟩

def exampleInode (recs : List ChainRec) : Dinode where
  i_signature := true
  i_valid := true
  i_bitmap := true
  i_chain := true
  i_blkno := 10
  i_total := 8
  i_used := 1
  i_clusters := 8
  i_size := 32768
  cl_cpg := 8
  cl_bpc := 1
  cl_count := 2
  cl_next_free_rec := recs.length
  cl_recs := recs

def exampleState (recs : List ChainRec) : O2fsckState where
  disk b := if b = 10 then .dinode (exampleInode recs) else if b = 20 then .groupDesc exampleGroup else .other
  allocated_clusters _ := false
  duplicate_clusters _ := false
  allowed := none
  forbidden := none

end Example

end Ocfs2.Pass0
