import Ocfs2.Fsck.Pass1Marks

set_option autoImplicit false

namespace Ocfs2.Pass1

open ByteBuffer Bitops Extents Program

section Visits

variable {env : Setup} {bytes : Block → Buffer} {xattrs : O2fsckState → Dinode → List (ExtentList × Nat)}

def Visit.Clears (visit : Visit) (c : Nat) : Prop := visit.seen.cleared = true ∧ c ∈ visit.seen.clusters

def Visit.Leaves (visit : Visit) (c : Nat) : Prop :=
  c ∈ visit.xattr ∨ c ∈ visit.seen.claimed ∧ ¬visit.Clears c

def KeptBy (start : Prop) (visits : List Visit) (c : Nat) : Prop :=
  (start ∧ ∀ v ∈ visits, ¬v.Clears c) ∨
    ∃ before v after, visits = before ++ v :: after ∧ v.Leaves c ∧ ∀ w ∈ after, ¬w.Clears c

theorem keptBy_cons (start : Prop) (v : Visit) (visits : List Visit) (c : Nat) :
    KeptBy start (v :: visits) c ↔ KeptBy (start ∧ ¬v.Clears c ∨ v.Leaves c) visits c := by
  constructor
  · rintro (⟨set, never⟩ | ⟨before, w, after, eq, leaves, never⟩)
    · exact Or.inl ⟨Or.inl ⟨set, never v (by simp)⟩, fun w mem => never w (by simp [mem])⟩
    · cases before with
      | nil =>
        obtain ⟨rfl, rfl⟩ := List.cons.inj eq
        exact Or.inl ⟨Or.inr leaves, never⟩
      | cons u before =>
        obtain ⟨rfl, rfl⟩ := List.cons.inj eq
        exact Or.inr ⟨before, w, after, rfl, leaves, never⟩
  · rintro (⟨⟨set, kept⟩ | leaves, never⟩ | ⟨before, w, after, rfl, leaves, never⟩)
    · exact Or.inl ⟨set, by simpa using ⟨kept, never⟩⟩
    · exact Or.inr ⟨[], v, visits, rfl, leaves, never⟩
    · exact Or.inr ⟨v :: before, w, after, rfl, leaves, never⟩

theorem unmarks_clusters (cs : List Nat) (s : O2fsckState) :
    Post (cs.forM (o2fsckMarkClusterUnallocated env)) s fun _ s' =>
      ∀ c, s'.allocated_clusters c = true ↔ s.allocated_clusters c = true ∧ c ∉ cs := by
  refine Post.forM (I := fun before (s' : O2fsckState) =>
    ∀ c, s'.allocated_clusters c = true ↔ s.allocated_clusters c = true ∧ c ∉ before) ?_ (by simp)
  intro before x s' kept
  refine Post.ite (fun _ => Post.failure) fun _ => Post.modify fun c => ?_
  by_cases here : c = x
  · simp [here]
  · simp [kept c, here]

theorem checkBlocks_marks (blkno : Nat) (di : Dinode) (s : O2fsckState) :
    Post (o2fsckCheckBlocks env bytes blkno di) s fun seen s' => ∀ c, s'.allocated_clusters c = true ↔
      (s.allocated_clusters c = true ∨ c ∈ seen.claimed) ∧ ¬(seen.cleared = true ∧ c ∈ seen.clusters) := by
  refine Post.ite (fun _ => Post.pure (by simp)) fun _ => Post.ite (fun _ => Post.pure (by simp)) fun _ => ?_
  refine Post.ite (fun _ => ?_) fun _ => ?_
  · exact Post.bind (((quiet_sizeClusterCheck ..).post s).mono fun _ _ same => Post.pure (by simp [same]))
  refine Post.bind ((checkExtents_marks di s).mono fun r s₁ marks => ?_)
  obtain ⟨di, claimed⟩ := r
  refine Post.bind (((quiet_blockIterateInode ..).post s₁).mono fun blocks s₂ same₂ => ?_)
  refine Post.bind (Post.get ?_)
  refine Post.bind (((quiet_checkIfLink ..).post s₂).mono fun r s₃ same₃ => ?_)
  obtain ⟨di, link⟩ := r
  refine Post.bind (((quiet_promptIf ..).post s₃).mono fun zero s₄ same₄ => Post.ite (fun _ => ?_) fun _ => ?_)
  · refine Post.bind (((quiet_blockIterateInode ..).post s₄).mono fun blocks s₅ same₅ => ?_)
    refine Post.bind ((unmarks_clusters _ s₅).mono fun _ s₆ unmarks => ?_)
    refine Post.bind (((quiet_writeInode ..).post s₆).mono fun _ s₇ same₇ => Post.pure fun c => ?_)
    rw [same₇, unmarks c, same₅, same₄, same₃, same₂, marks c]
    simp
  · refine Post.bind (((quiet_sizeClusterCheck ..).post s₄).mono fun _ s₅ same₅ => Post.pure fun c => ?_)
    rw [same₅, same₄, same₃, same₂, marks c]
    simp

theorem checkXattr_marks (di : Dinode) (s : O2fsckState) :
    Post (o2fsckCheckXattr env xattrs di) s fun claimed s' => Marks s s' claimed := by
  refine Post.bind (Post.get ?_)
  generalize xattrs s di = lists
  refine Post.bind (Post.mono (?_ : Post _ s fun claimed s' => Marks s s' claimed.flatten) fun claimed s' marks =>
    Post.pure marks)
  induction lists generalizing s with
  | nil => exact Post.pure (Marks.of_eq rfl)
  | cons list lists ih =>
    rw [List.mapM_cons]
    refine Post.bind (Post.bind ((checkEl_claims ..).mono fun c s₁ claims => Post.pure ?_))
    obtain ⟨new, claimed, marks⟩ := claims
    subst claimed
    exact Post.bind ((ih s₁).mono fun more s₂ marks' => Post.pure (by simpa using marks.trans marks'))

theorem visitInode_marks (blkno : Nat) (s : O2fsckState) :
    Post (visitInode env bytes xattrs blkno) s fun visit s' => ∀ c, s'.allocated_clusters c = true ↔
      KeptBy (s.allocated_clusters c = true) visit.toList c := by
  have unseen (s : O2fsckState) (c : Nat) : s.allocated_clusters c = true ↔
      KeptBy (s.allocated_clusters c = true) (none : Option Visit).toList c := by
    simp [KeptBy]
  refine Post.bind (Post.get ?_)
  split
  · refine Post.ite (fun _ => ?_) fun _ => Post.pure (unseen s)
    refine Post.bind (((quiet_verifyIfValid ..).post s).mono fun di s₁ same => Post.ite (fun _ => ?_) fun _ => ?_)
    · refine Post.bind ((checkBlocks_marks ..).mono fun seen s₂ marks => ?_)
      refine Post.bind ((checkXattr_marks ..).mono fun xattr s₃ marks' => Post.pure fun c => ?_)
      rw [marks' c, marks c, same, Option.toList_some, keptBy_cons]
      simp only [KeptBy, Visit.Leaves, Visit.Clears]
      simp
      tauto
    · exact Post.pure (same ▸ unseen s)
  · exact Post.pure (unseen s)

theorem keptBy_append (start : Prop) (visits visits' : List Visit) (c : Nat) :
    KeptBy start (visits ++ visits') c ↔ KeptBy (KeptBy start visits c) visits' c := by
  induction visits generalizing start with
  | nil => simp [KeptBy]
  | cons v visits ih => rw [List.cons_append, keptBy_cons, ih, keptBy_cons]

theorem scanInodes_marks (inodes : List Nat) (s : O2fsckState) :
    Post (scanInodes env bytes xattrs inodes) s fun visits s' => ∀ c, s'.allocated_clusters c = true ↔
      KeptBy (s.allocated_clusters c = true) visits c := by
  induction inodes generalizing s with
  | nil => exact Post.pure (by simp [KeptBy])
  | cons blkno rest ih =>
    refine Post.bind ((visitInode_marks blkno s).mono fun visit s₁ marks => ?_)
    refine Post.bind ((ih s₁).mono fun visits s₂ marks' => Post.pure fun c => ?_)
    rw [marks' c, keptBy_append]
    simp only [marks c]

theorem o2fsckPass1_marks (inodes local_allocs truncate_logs : List Nat) (s : O2fsckState) :
    Post (o2fsckPass1 env bytes xattrs inodes local_allocs truncate_logs) s fun r s' => ∀ c,
      s'.allocated_clusters c = true ↔ c ∈ r.2 ∨ KeptBy (s.allocated_clusters c = true) r.1 c := by
  refine Post.bind ((scanInodes_marks inodes s).mono fun visits s₁ kept => Post.bind (Post.get ?_))
  refine Post.bind ((marks_clusters _ s₁).mono fun _ s₂ marks => Post.pure fun c => ?_)
  rw [marks c, kept c, or_comm]

end Visits

section Example

def exampleSetup : Setup where
  fs :=
    { fs_blocks := 100
      fs_clusters := 100
      fs_blocksize := 512
      blocks_per_cluster := 1
      fs_root_blkno := 5
      sparse_alloc := true
      unwritten_extents := true
      inline_data := true
      extent_recs_per_inode := 1
      extent_recs_per_eb := 1
      local_alloc_size := 1
      truncate_recs_per_inode := 1
      max_inline_data := 256
      symlink_max := 256 }
  fs_generation := 1
  fix_fs_gen := false
  now := 1
  stack_depth := 4
  answer _ := true

def exampleInode (blkno : Nat) (mode : FileType) : Dinode where
  i_blkno := blkno
  i_fs_generation := 1
  i_flags := ⟨true, false, false, false, false, false⟩
  i_mode := mode
  i_inline_data := false
  i_inline_xattr := false
  i_xattr_inline_size := 0
  i_size := 512
  i_clusters := 1
  i_dtime := 0
  i_links_count := 1
  i_total := 0
  i_used := 0
  i_list := ⟨0, 1, 1, [⟨0, 1, 50⟩]⟩
  i_lab := ⟨0, 0, []⟩
  i_dealloc := ⟨0, 0, []⟩
  id_count := 0
  i_symlink := []

def exampleBytes : Block → Buffer
  | .data bytes => bytes
  | _ => []

def exampleState : O2fsckState where
  disk b :=
    if b = 10 then .dinode (exampleInode 10 .reg)
    else if b = 11 then .dinode (exampleInode 11 .lnk)
    else .data (List.replicate 512 1#8)
  allocated_clusters _ := false
  duplicate_clusters _ := false
  asked := 0

end Example

end Ocfs2.Pass1
