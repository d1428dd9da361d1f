import Ocfs2.Libocfs2.ChainLedger

set_option autoImplicit false

namespace Ocfs2.ChainAlloc

open ByteBuffer Rbtree Bitmap

def link (br : ChainRegion) : Nat × Nat × Nat :=
  (br.br_private.cr_ag.bg_blkno, br.br_private.cr_ag.bg_chain, br.br_private.cr_ag.bg_next_group)

def Chain (chainNum : Nat) : Nat → List (Nat × Nat × Nat) → Prop
  | blkno, [] => blkno = 0
  | blkno, (b, c, next) :: rest => b = blkno ∧ b ≠ 0 ∧ c = chainNum ∧ Chain chainNum next rest

def Chains : Nat → List Nat → List (List (Nat × Nat × Nat)) → Prop
  | _, [], [] => True
  | i, blkno :: blknos, links :: rest => Chain i blkno links ∧ Chains (i + 1) blknos rest
  | _, _, _ => False

structure Chained (di : Dinode) (xs : List ChainRegion) : Prop where
  records : di.cl_next_free_rec ≤ di.cl_recs.length
  chains : ∃ links, Chains 0 ((di.cl_recs.take di.cl_next_free_rec).map (·.c_blkno)) links ∧
    links.flatten.Perm (xs.map link)

structure Stored (fs : Filesys) (disk : Disk) (bpc : Nat) (br : ChainRegion) : Prop where
  readable : badBlkno fs br.br_private.cr_ag.bg_blkno = false
  block : disk br.br_private.cr_ag.bg_blkno = .groupDesc br.br_private.cr_ag
  region : groupRegion fs bpc br.br_private.cr_ag.bg_blkno br.br_private.cr_ag = .ok br

section Load

variable {fs : Filesys} {disk : Disk} {cb : BitmapPrivate} {xs : List ChainRegion} {total : Nat}

theorem Stored.unique {p q : ChainRegion} {bpc : Nat} (hp : Stored fs disk bpc p)
    (hq : Stored fs disk bpc q)
    (same : p.br_private.cr_ag.bg_blkno = q.br_private.cr_ag.bg_blkno) : p = q := by
  have blocks := hp.block
  rw [same, hq.block] at blocks
  have groups : q.br_private.cr_ag = p.br_private.cr_ag := Block.groupDesc.inj blocks
  have regions := hq.region
  rw [groups, hp.region] at regions
  exact Except.ok.inj regions

structure Loading (cb : BitmapPrivate) (xs : List ChainRegion) (total : Nat)
    (done : List (Nat × Nat × Nat)) (bitmap : ChainBitmap) : Prop where
  bits : bitmap.b_total_bits = total
  priv : bitmap.b_private = cb
  layout : Layout total bitmap.b_regions.toList
  subset : ∀ y ∈ bitmap.b_regions.toList, y ∈ xs
  links : (bitmap.b_regions.toList.map link).Perm done

section Walk

variable (layout : Layout total xs) (stored : ∀ br ∈ xs, Stored fs disk cb.ci_inode.cl_bpc br)

include layout stored

theorem link_nodup : (xs.map link).Nodup := by
  refine layout.nodup.map_on fun p hp q hq same => ?_
  exact (stored p hp).unique (stored q hq) (congrArg Prod.fst same)

variable {bitmap : ChainBitmap} {done : List (Nat × Nat × Nat)}

theorem processGroup_spec (rest : List (Nat × Nat × Nat)) (loading : Loading cb xs total done bitmap) (br : ChainRegion) (member : br ∈ xs)
    (fresh : (done ++ link br :: rest).Perm (xs.map link)) :
    ∃ bitmap', chainallocProcessGroup fs disk br.br_private.cr_ag.bg_blkno bitmap = .ok bitmap' ∧
      Loading cb xs total (done ++ [link br]) bitmap' := by
  have home := stored br member
  have absent : br ∉ bitmap.b_regions.toList := by
    intro inside
    have again := loading.links.mem_iff.mp (List.mem_map_of_mem inside)
    have nodup := fresh.nodup_iff.mpr (link_nodup layout stored)
    exact (List.nodup_append.mp nodup).2.2 _ again _ List.mem_cons_self rfl
  have layoutBitmap : Layout bitmap.b_total_bits bitmap.b_regions.toList :=
    loading.bits.symm ▸ loading.layout
  obtain ⟨regions, as, bs, run, list, list', layout'⟩ := insertRegion_apart chainallocBitmapOps rfl bitmap
    br layoutBitmap (layout.wf br member) (loading.bits ▸ layout.bound br member)
    (fun r inside => layout.apart member (loading.subset r inside) (fun same => absent (same ▸ inside)))
  refine ⟨{ bitmap with b_regions := regions }, ?_, ?_⟩
  · rw [chainallocProcessGroup, readGroupDesc, home.readable, home.block]
    simp only [Bool.false_eq_true, if_false, loading.priv, home.region, run]
  · refine ⟨loading.bits, loading.priv, ?_, ?_, ?_⟩
    · rw [list', ← loading.bits]
      exact layout'
    · intro y inside
      rw [list'] at inside
      rcases List.mem_append.mp inside with before | inside
      · exact loading.subset y (by simp [list, before])
      · rcases List.mem_cons.mp inside with rfl | behind
        · exact member
        · exact loading.subset y (by simp [list, behind])
    · have old := loading.links
      rw [list, List.map_append] at old
      rw [list', List.map_append, List.map_cons]
      exact List.perm_middle.trans ((List.Perm.cons _ old).trans (List.perm_append_singleton _ _).symm)

theorem chainIterateGd_spec (chainNum : Nat) (links : List (Nat × Nat × Nat)) (blkno fuel : Nat)
    (enough : links.length < fuel) (chain : Chain chainNum blkno links) (rest : List (Nat × Nat × Nat))
    (loading : Loading cb xs total done bitmap)
    (fresh : (done ++ (links ++ rest)).Perm (xs.map link)) :
    ∃ bitmap', chainIterateGd fs disk chainNum fuel blkno bitmap = (bitmap', .done) ∧
      Loading cb xs total (done ++ links) bitmap' := by
  induction links generalizing blkno fuel done bitmap with
  | nil =>
    obtain ⟨fuel, rfl⟩ := Nat.exists_eq_succ_of_ne_zero (Nat.ne_of_gt enough)
    have ended : blkno = 0 := chain
    exact ⟨bitmap, by rw [chainIterateGd, if_pos ended], by simpa using loading⟩
  | cons l links ih =>
    obtain ⟨b, c, next⟩ := l
    obtain ⟨fuel, rfl⟩ := Nat.exists_eq_succ_of_ne_zero (Nat.ne_of_gt (Nat.zero_lt_of_lt enough))
    obtain ⟨rfl, nonzero, rfl, chain⟩ := chain
    obtain ⟨br, member, same⟩ := List.mem_map.mp (fresh.mem_iff.mp (by simp) : (b, c, next) ∈ xs.map link)
    have home := stored br member
    obtain ⟨rfl, rfl, rfl⟩ : br.br_private.cr_ag.bg_blkno = b ∧ br.br_private.cr_ag.bg_chain = c ∧
        br.br_private.cr_ag.bg_next_group = next := by simpa [link] using same
    obtain ⟨bitmap', run, loading'⟩ := processGroup_spec layout stored (links ++ rest) loading
      br member (by simpa [link] using fresh)
    obtain ⟨bitmap'', walk, loading''⟩ := ih _ fuel (by simpa using enough) chain loading'
      (by simpa [link] using fresh)
    refine ⟨bitmap'', ?_, by simpa [link] using loading''⟩
    rw [chainIterateGd, if_neg nonzero, run]
    simp only [readGroupDesc, home.readable, home.block, Bool.false_eq_true, if_false, ne_eq,
      not_true_eq_false, or_self, walk]

theorem chain_length_le : xs.length ≤ fs.fs_blocks := by
  have nodup : (xs.map fun br => br.br_private.cr_ag.bg_blkno).Nodup :=
    layout.nodup.map_on fun p hp q hq same => (stored p hp).unique (stored q hq) same
  have inside : (xs.map fun br => br.br_private.cr_ag.bg_blkno).toFinset ⊆
      Finset.Icc 1 fs.fs_blocks := by
    intro b member
    obtain ⟨br, inside, rfl⟩ := List.mem_map.mp (List.mem_toFinset.mp member)
    have readable := (stored br inside).readable
    have bounds : 1 < br.br_private.cr_ag.bg_blkno ∧ br.br_private.cr_ag.bg_blkno ≤ fs.fs_blocks := by
      simpa [badBlkno, superBlockBlkno] using readable
    exact Finset.mem_Icc.mpr ⟨by omega, bounds.2⟩
  have card := Finset.card_le_card inside
  rw [List.toFinset_card_of_nodup nodup, List.length_map, Nat.card_Icc] at card
  omega

theorem chainIterateCl_spec (recs : List ChainRec) (i : Nat) (links : List (List (Nat × Nat × Nat)))
    (chains : Chains i (recs.map (·.c_blkno)) links) (loading : Loading cb xs total done bitmap)
    (fresh : (done ++ links.flatten).Perm (xs.map link)) :
    ∃ bitmap', chainIterateCl fs disk i recs bitmap = (bitmap', .done) ∧
      Loading cb xs total (done ++ links.flatten) bitmap' := by
  induction recs generalizing i links done bitmap with
  | nil =>
    cases links with
    | nil => exact ⟨bitmap, rfl, by simpa using loading⟩
    | cons => exact absurd chains (by simp [Chains])
  | cons rec recs ih =>
    cases links with
    | nil => exact absurd chains (by simp [Chains])
    | cons first links =>
      obtain ⟨chain, chains⟩ := chains
      have length := fresh.length_eq
      have few := chain_length_le layout stored
      simp only [List.flatten_cons, List.length_append, List.length_map] at length
      obtain ⟨bitmap', walk, loading'⟩ := chainIterateGd_spec layout stored i first rec.c_blkno
        (fs.fs_blocks + 1) (by omega) chain links.flatten loading (by simpa using fresh)
      obtain ⟨bitmap'', walks, loading''⟩ := ih (i + 1) links chains loading' (by simpa using fresh)
      refine ⟨bitmap'', ?_, by simpa using loading''⟩
      rw [chainIterateCl, walk]
      exact walks

omit stored in
theorem Loading.complete
    (loading : Loading cb xs total done bitmap) (all : done.Perm (xs.map link)) :
    bitmap.b_regions.toList = xs := by
  have length := (loading.links.trans all).length_eq
  simp only [List.length_map] at length
  have perm : bitmap.b_regions.toList.Perm xs :=
    (List.subperm_of_subset loading.layout.nodup loading.subset).perm_of_length_le (by omega)
  refine perm.eq_of_pairwise ?_ loading.layout.sorted layout.sorted
  intro p q hp hq first second
  have := (loading.layout.wf p hp).nonempty
  omega

end Walk

theorem loadChainAllocator_spec (fs : Filesys) (disk : Disk) (cb : BitmapPrivate)
    (xs : List ChainRegion) (readable : badBlkno fs cb.ci_blkno = false)
    (inode : disk cb.ci_blkno = .dinode cb.ci_inode) (valid : cb.ci_inode.i_valid = true)
    (chain : cb.ci_inode.i_chain = true) (chained : Chained cb.ci_inode xs)
    (layout : Layout (fs.fs_clusters * cb.ci_inode.cl_bpc) xs)
    (stored : ∀ br ∈ xs, Stored fs disk cb.ci_inode.cl_bpc br) :
    ∃ bitmap, loadChainAllocator fs disk cb.ci_blkno = .ok bitmap ∧
      bitmap.b_total_bits = fs.fs_clusters * cb.ci_inode.cl_bpc ∧
      bitmap.b_private = { cb with cb_dirty := false } ∧ bitmap.b_regions.toList = xs := by
  obtain ⟨links, chains, perm⟩ := chained.chains
  set new : ChainBitmap :=
    { b_total_bits := fs.fs_clusters * cb.ci_inode.cl_bpc
      b_set_bits := 0
      b_regions := .nil
      b_private := ⟨cb.ci_blkno, cb.ci_inode, false⟩ } with def_new
  have stored' : ∀ br ∈ xs,
      Stored fs disk ({ cb with cb_dirty := false } : BitmapPrivate).ci_inode.cl_bpc br := stored
  have loading : Loading { cb with cb_dirty := false } xs (fs.fs_clusters * cb.ci_inode.cl_bpc) [] new :=
    ⟨rfl, rfl, ⟨by simp [def_new, Node.toList], by simp [def_new, Node.toList],
      by simp [def_new, Node.toList]⟩, by simp [def_new, Node.toList], by simp [def_new, Node.toList]⟩
  obtain ⟨bitmap, walk, loading'⟩ := chainIterateCl_spec layout stored' _ 0 links chains loading
    (by simpa using perm)
  refine ⟨bitmap, ?_, loading'.bits, loading'.priv, loading'.complete layout (by simpa using perm)⟩
  rw [loadChainAllocator, readInode, readable, inode]
  simp only [Bool.false_eq_true, if_false]
  rw [chainIterate, readInode, readable, inode]
  simp only [Bool.false_eq_true, if_false, valid, chain, Bool.not_true]
  rw [walk]

end Load

section Reached

variable (fs : Filesys) (disk : Disk)

inductive Linked (head : Nat) : Nat → Prop where
  | head (some : head ≠ 0) : Linked head head
  | next {blkno : Nat} {gd : GroupDesc} (linked : Linked head blkno)
      (read : readGroupDesc fs disk blkno = .ok gd) (some : gd.bg_next_group ≠ 0) : Linked head gd.bg_next_group

def Inserted (bpc : Nat) (bitmap : ChainBitmap) (blkno : Nat) : Prop :=
  ∃ gd br, readGroupDesc fs disk blkno = .ok gd ∧ groupRegion fs bpc blkno gd = .ok br ∧
    br ∈ bitmap.b_regions.toList

def AllInserted (inode : Dinode) (bitmap : ChainBitmap) : Prop :=
  ∀ rec ∈ inode.cl_recs.take inode.cl_next_free_rec, ∀ blkno, Linked fs disk rec.c_blkno blkno →
    Inserted fs disk inode.cl_bpc bitmap blkno

def loadWalk (blkno : Nat) (inode : Dinode) : ChainBitmap × Iret :=
  chainIterateCl fs disk 0 (inode.cl_recs.take inode.cl_next_free_rec)
    { b_total_bits := fs.fs_clusters * inode.cl_bpc
      b_set_bits := 0
      b_regions := .nil
      b_private := ⟨blkno, inode, false⟩ }

structure Grown (bitmap bitmap' : ChainBitmap) : Prop where
  priv : bitmap'.b_private = bitmap.b_private
  regions : ∀ br ∈ bitmap.b_regions.toList, br ∈ bitmap'.b_regions.toList

variable {fs disk}

theorem Grown.trans {a b c : ChainBitmap} (first : Grown a b) (second : Grown b c) : Grown a c :=
  ⟨second.priv.trans first.priv, fun br member => second.regions br (first.regions br member)⟩

theorem Inserted.mono {bpc blkno : Nat} {bitmap bitmap' : ChainBitmap} (inserted : Inserted fs disk bpc bitmap blkno)
    (grown : Grown bitmap bitmap') : Inserted fs disk bpc bitmap' blkno := by
  obtain ⟨gd, br, read, region, member⟩ := inserted
  exact ⟨gd, br, read, region, grown.regions br member⟩

theorem Linked.head_ne {head blkno : Nat} (linked : Linked fs disk head blkno) : head ≠ 0 := by
  induction linked with
  | head some => exact some
  | next _ _ _ ih => exact ih

theorem Linked.cases_next {head blkno : Nat} {gd : GroupDesc} (read : readGroupDesc fs disk head = .ok gd)
    (linked : Linked fs disk head blkno) : blkno = head ∨ Linked fs disk gd.bg_next_group blkno := by
  induction linked with
  | head => exact .inl rfl
  | next _ read' some ih =>
    rcases ih with rfl | behind
    · rw [read] at read'
      cases read'
      exact .inr (.head some)
    · exact .inr (.next behind read' some)

theorem insertRegion_grows {bitmap bitmap' : ChainBitmap} {br : ChainRegion}
    (run : insertRegion chainallocBitmapOps bitmap br = .ok bitmap') :
    Grown bitmap bitmap' ∧ br ∈ bitmap'.b_regions.toList := by
  unfold insertRegion at run
  split_ifs at run
  split at run
  · cases run
  rename_i path missed
  simp only [mergeNeighbours_refused chainallocBitmapOps rfl] at run
  cases run
  have list := descend_order (order br.br_start_bit (br.br_start_bit + br.br_total_bits)) bitmap.b_regions []
  rw [show descend _ bitmap.b_regions [] = (.nil, path) from missed] at list
  simp only [before, after, Node.toList, List.append_nil, List.nil_append] at list
  refine ⟨⟨rfl, fun r member => ?_⟩, by simp [toList_rbInsertColor, Node.toList]⟩
  rw [← list] at member
  rcases List.mem_append.mp member with low | high
  · simp [toList_rbInsertColor, low]
  · simp [toList_rbInsertColor, high]

theorem processGroup_inserts {blkno : Nat} {bitmap bitmap' : ChainBitmap}
    (run : chainallocProcessGroup fs disk blkno bitmap = .ok bitmap') :
    Grown bitmap bitmap' ∧ Inserted fs disk bitmap.b_private.ci_inode.cl_bpc bitmap' blkno := by
  unfold chainallocProcessGroup at run
  split at run
  · cases run
  rename_i gd read
  split at run
  · cases run
  rename_i br region
  obtain ⟨grown, member⟩ := insertRegion_grows run
  exact ⟨grown, gd, br, read, region, member⟩

theorem chainIterateGd_done (chainNum fuel head : Nat) {bitmap bitmap' : ChainBitmap}
    (run : chainIterateGd fs disk chainNum fuel head bitmap = (bitmap', .done)) :
    Grown bitmap bitmap' ∧
      ∀ blkno, Linked fs disk head blkno → Inserted fs disk bitmap.b_private.ci_inode.cl_bpc bitmap' blkno := by
  induction fuel generalizing head bitmap with
  | zero => simp [chainIterateGd] at run
  | succ fuel ih =>
    rw [chainIterateGd] at run
    split_ifs at run with ended
    · cases run
      exact ⟨⟨rfl, fun _ member => member⟩, fun blkno linked => absurd ended linked.head_ne⟩
    split at run
    · cases run
    · cases run
    rename_i bitmap₁ step
    obtain ⟨grown, inserted⟩ := processGroup_inserts step
    split at run
    · cases run
    rename_i gd read
    split_ifs at run
    · cases run
    obtain ⟨grown', behind⟩ := ih _ run
    rw [grown.priv] at behind
    refine ⟨grown.trans grown', fun blkno linked => ?_⟩
    rcases linked.cases_next read with rfl | linked
    · exact inserted.mono grown'
    · exact behind blkno linked

theorem chainIterateCl_done (recs : List ChainRec) (i : Nat) {bitmap bitmap' : ChainBitmap}
    (run : chainIterateCl fs disk i recs bitmap = (bitmap', .done)) :
    Grown bitmap bitmap' ∧ ∀ rec ∈ recs, ∀ blkno, Linked fs disk rec.c_blkno blkno →
      Inserted fs disk bitmap.b_private.ci_inode.cl_bpc bitmap' blkno := by
  induction recs generalizing i bitmap with
  | nil =>
    cases run
    exact ⟨⟨rfl, fun _ member => member⟩, by simp⟩
  | cons rec recs ih =>
    rw [chainIterateCl] at run
    split at run
    · rename_i bitmap₁ walk
      obtain ⟨grown, first⟩ := chainIterateGd_done i _ _ walk
      obtain ⟨grown', others⟩ := ih _ run
      rw [grown.priv] at others
      refine ⟨grown.trans grown', fun rec' member blkno linked => ?_⟩
      rcases List.mem_cons.mp member with rfl | member
      · exact (first blkno linked).mono grown'
      · exact others rec' member blkno linked
    · rename_i other _
      cases run
      exact (other rfl).elim

end Reached

end Ocfs2.ChainAlloc
