import Ocfs2.Fsck.Pass1bOwners

set_option autoImplicit false

namespace Ocfs2.Pass1b

open Extents Program

structure Env.Sound (env : Env) : Prop where
  blocks : 0 < env.fs.blocks_per_cluster
  clusters : env.fs.fs_clusters < 2 ^ 32
  new_inode : ∀ s ino bitmap, env.new_inode s = some (ino, bitmap) →
    (∀ di, s.inodes ino = some di → di.i_valid = false) ∧ ∀ c, s.bitmap c = true → bitmap c = true
  new_clusters : ∀ bitmap wanted start found, env.new_clusters bitmap wanted = some (start, found) →
    start < env.fs.fs_clusters ∧ ∀ c, start ≤ c → c < start + found → bitmap c = false
  insert_extent : ∀ bitmap e c, bitmap c = true → (env.insert_extent bitmap e).2 c = true
  copy_clone : ∀ s ino clone c, s.bitmap c = true → (env.copy_clone s ino clone).2 c = true

variable {env : Env}

def extentClusters (env : Env) (list : List Extent) : List Nat := list.flatMap (Extent.clusters env)

section Free

def Freeable (s : DupState) (c : Nat) : Prop :=
  s.duplicate_clusters c = true →
    ∃ dc, s.dup_clusters.find? (·.dc_cluster = c) = some dc ∧ countUnhandled s dc.dc_owners = some 1

structure Freed (start : DupState) (clusters : List Nat) (s : DupState) : Prop where
  same : s = { start with bitmap := s.bitmap }
  bits : ∀ c, start.bitmap c = true → s.bitmap c = true ∨ c ∈ clusters ∧ Freeable start c

variable {start s : DupState}

theorem countUnhandled_congr {s' : DupState} (same : s'.dup_inodes = s.dup_inodes) (owners : List Nat) :
    countUnhandled s' owners = countUnhandled s owners := by
  induction owners with
  | nil => rfl
  | cons ino rest ih => rw [countUnhandled, countUnhandled, same, ih]

variable {clusters : List Nat}

theorem Freed.mono {clusters' : List Nat} (freed : Freed start clusters s)
    (subset : ∀ c ∈ clusters, c ∈ clusters') : Freed start clusters' s :=
  ⟨freed.same, fun c set => (freed.bits c set).imp_right fun h => ⟨subset c h.1, h.2⟩⟩

theorem freeCluster_freed {cluster : Nat} (freed : Freed start clusters s)
    (free : Freeable start cluster) :
    Post (freeCluster cluster) s fun _ s' => Freed start (clusters ++ [cluster]) s' := by
  refine Post.modify ⟨?_, fun c set => ?_⟩
  · conv_lhs => rw [freed.same]
  · by_cases here : c = cluster
    · exact Or.inr ⟨by simp [here], here ▸ free⟩
    · rcases freed.bits c set with kept | ⟨mem, h⟩
      · exact Or.inl (by simpa [Function.update_of_ne here] using kept)
      · exact Or.inr ⟨List.mem_append_left _ mem, h⟩

theorem pass1dFreeCluster_freed (freed : Freed start clusters s) (cluster : Nat) :
    Post (pass1dFreeCluster env cluster) s fun _ s' => Freed start (clusters ++ [cluster]) s' := by
  have keep : Freed start (clusters ++ [cluster]) s := freed.mono fun c mem => List.mem_append_left _ mem
  have duplicates : s.duplicate_clusters = start.duplicate_clusters := by rw [freed.same]
  refine Post.bind (Post.get (Post.ite (fun _ => Post.failure) fun _ => Post.ite (fun _ => Post.bind ?_) fun dup => ?_))
  · refine Post.bind (Post.get ?_)
    split
    next => exact Post.failure
    next dc found =>
      split
      next => exact Post.failure
      next => exact Post.failure
      next unhandled _ count =>
        refine Post.pure (Post.ite (fun one => ?_) fun _ => Post.pure keep)
        have states : s.dup_inodes = start.dup_inodes := by rw [freed.same]
        rw [countUnhandled_congr states, of_decide_eq_true one] at count
        rw [freed.same] at found
        exact freeCluster_freed freed fun _ => ⟨dc, found, count⟩
  · rw [duplicates] at dup
    exact freeCluster_freed freed fun set => absurd set dup

theorem pass1dFreeClusters_freed (freed : Freed start clusters s) (e : Extent) :
    Post (pass1dFreeClusters env e) s fun _ s' => Freed start (clusters ++ e.clusters env) s' := by
  refine Post.ite (fun _ => Post.pure (freed.mono fun c mem => List.mem_append_left _ mem)) fun _ => ?_
  refine Post.forM (I := fun before s => Freed start (clusters ++ before) s) ?_ (by simpa using freed)
  intro before c s' freed'
  simpa using pass1dFreeCluster_freed freed' c

theorem freeExtents_freed (list : List Extent) :
    Post (list.forM (pass1dFreeClusters env)) start fun _ s' => Freed start (extentClusters env list) s' := by
  refine Post.forM (I := fun before s => Freed start (extentClusters env before) s) ?_
    ⟨rfl, fun _ set => Or.inl set⟩
  intro before e s' freed
  simpa [extentClusters] using pass1dFreeClusters_freed freed e

structure Deleted (ino : Nat) (list : List Extent) (env : Env) (start s : DupState) : Prop where
  same : ∃ di, di.i_valid = false ∧
    s = { start with inodes := Function.update start.inodes ino (some di), bitmap := s.bitmap }
  bits : ∀ c, start.bitmap c = true → s.bitmap c = true ∨ c ∈ extentClusters env list ∧ Freeable start c

theorem deleteOneInode_deleted {ino : Nat} {di : Inode} (inode : start.inodes ino = some di) :
    Post (deleteOneInode env ino) start fun _ s => Deleted ino di.i_list env start s := by
  refine Post.bind (Post.get ?_)
  simp only [inode]
  refine Post.ite (fun _ => Post.modify ⟨⟨_, rfl, rfl⟩, fun _ set => Or.inl set⟩) fun _ => Post.bind ?_
  refine (freeExtents_freed di.i_list).mono fun _ s freed => Post.modify ⟨?_, freed.bits⟩
  refine ⟨{ di with i_list := [], i_size := 0, i_clusters := 0, i_valid := false }, rfl, ?_⟩
  conv_lhs => rw [freed.same]

end Free

section Extend

structure Extended (env : Env) (start : DupState) (list : List Extent) (s : DupState) : Prop where
  same : s = { start with bitmap := s.bitmap }
  bits : ∀ c, start.bitmap c = true → s.bitmap c = true
  fresh : ∀ c ∈ extentClusters env list, start.bitmap c = false ∧ s.bitmap c = true
  nodup : (extentClusters env list).Nodup

theorem clusters_allocated (sound : env.Sound) {start found : Nat} (range : start < env.fs.fs_clusters) :
    Extent.clusters env ⟨env.fs.clustersToBlocks start, found⟩ = List.range' start found := by
  have := sound.clusters
  have h : min start (2 ^ 32 - 1) = start := by omega
  rw [Extent.clusters, Geometry.blocksToClusters, Geometry.clustersToBlocks, Nat.mul_div_cancel _ sound.blocks, h]

theorem extendAllocation_extended (sound : env.Sound) {start : DupState} (fuel : Nat) :
    ∀ wanted list s, Extended env start list s →
      Post (extendAllocation env fuel wanted list) s fun result s' => Extended env start result.1 s' := by
  induction fuel with
  | zero => exact fun wanted list s extended => Post.pure extended
  | succ fuel ih =>
    intro wanted list s extended
    refine Post.ite (fun _ => Post.pure extended) fun _ => Post.bind (Post.get ?_)
    split
    next => exact Post.pure extended
    next first found allocated =>
      obtain ⟨range, free⟩ := sound.new_clusters _ _ _ _ allocated
      refine Post.bind (Post.modify (Post.bind (Post.get ?_)))
      dsimp only
      generalize fresh : (fun c => s.bitmap c || (decide (first ≤ c) && decide (c < first + found))) = taken
      have grows := sound.insert_extent taken ⟨env.fs.clustersToBlocks first, found⟩
      have kept : ∀ c, s.bitmap c = true → taken c = true := fun c set => by simp [← fresh, set]
      generalize (env.insert_extent taken ⟨env.fs.clustersToBlocks first, found⟩).2 = bitmap at grows
      refine Post.ite (fun _ => Post.bind (Post.modify (ih _ _ _ ?_))) fun _ => Post.bind (Post.modify (Post.pure ?_))
      · have clusters : Extent.clusters env ⟨env.fs.clustersToBlocks first, found⟩ = List.range' first found :=
          clusters_allocated sound range
        have all : extentClusters env (list ++ [⟨env.fs.clustersToBlocks first, found⟩]) =
            extentClusters env list ++ List.range' first found := by simp [extentClusters, clusters]
        refine ⟨?_, fun c set => grows c (kept c (extended.bits c set)), ?_, ?_⟩
        · conv_lhs => rw [extended.same]
        · intro c mem
          rw [all] at mem
          rcases List.mem_append.mp mem with mem | mem
          · exact ⟨(extended.fresh c mem).1, grows c (kept c (extended.fresh c mem).2)⟩
          · rw [List.mem_range'_1] at mem
            refine ⟨?_, grows c (by simp [← fresh, mem])⟩
            have clear := free c mem.1 mem.2
            by_contra set
            rw [extended.bits c (by simpa using set)] at clear
            cases clear
        · rw [all]
          refine extended.nodup.append List.nodup_range' fun c old new => ?_
          rw [List.mem_range'_1] at new
          have clear := free c new.1 new.2
          rw [(extended.fresh c old).2] at clear
          cases clear
      · -- the clusters that are given back are none of those that were taken before
        have back : ∀ c, s.bitmap c = true → (bitmap c && !(decide (first ≤ c) && decide (c < first + found))) = true := by
          intro c set
          have out : ¬(first ≤ c ∧ c < first + found) := by
            rintro ⟨ge, lt⟩
            rw [free c ge lt] at set
            cases set
          have set' : bitmap c = true := grows c (kept c set)
          simp only [set', Bool.true_and, Bool.not_eq_true', Bool.and_eq_false_iff, decide_eq_false_iff_not]
          tauto
        refine ⟨?_, fun c set => back c (extended.bits c set), ?_, extended.nodup⟩
        · conv_lhs => rw [extended.same]
        · exact fun c mem => ⟨(extended.fresh c mem).1, back c (extended.fresh c mem).2⟩

theorem cloneExtents_extended (sound : env.Sound) (orig : Inode) (s : DupState) :
    Post (cloneExtents env orig) s fun result s' => Extended env s result.1 s' := by
  have start : Extended env s [] s :=
    ⟨rfl, fun _ set => set, by simp [extentClusters], by simp [extentClusters]⟩
  refine Post.ite (fun _ => Post.ite (fun _ => Post.pure start) fun _ => Post.bind ?_) fun _ => Post.bind ?_
  all_goals exact (extendAllocation_extended sound _ _ _ _ start).mono fun _ _ extended => Post.pure extended

end Extend

section Clone

def SameValid (inodes inodes' : Nat → Option Inode) : Prop :=
  ∀ ino di, di.i_valid = true → (inodes' ino = some di ↔ inodes ino = some di)

theorem SameValid.update {inodes : Nat → Option Inode} {ino : Nat} {di : Inode}
    (free : ∀ old, inodes ino = some old → old.i_valid = false) (invalid : di.i_valid = false) :
    SameValid inodes (Function.update inodes ino (some di)) := by
  intro i old valid
  by_cases here : i = ino
  · subst here
    rw [Function.update_self]
    constructor
    · intro eq
      rw [← Option.some.inj eq, invalid] at valid
      cases valid
    · intro eq
      rw [free old eq] at valid
      cases valid
  · rw [Function.update_of_ne here]

structure NewClone (env : Env) (start : DupState) (clone : Nat) (list : List Extent) (s : DupState) : Prop where
  free : ∀ di, start.inodes clone = some di → di.i_valid = false
  same : ∃ di, di.i_list = list ∧
    s = { start with inodes := Function.update start.inodes clone (some di), bitmap := s.bitmap }
  bits : ∀ c, start.bitmap c = true → s.bitmap c = true
  fresh : ∀ c ∈ extentClusters env list, start.bitmap c = false ∧ s.bitmap c = true
  nodup : (extentClusters env list).Nodup

structure Idle (start s : DupState) : Prop where
  duplicates : s.duplicate_clusters = start.duplicate_clusters
  nodes : s.dup_clusters = start.dup_clusters
  states : s.dup_inodes = start.dup_inodes
  inodes : SameValid start.inodes s.inodes
  bits : ∀ c, start.bitmap c = true → s.bitmap c = true

theorem newClone_correct (sound : env.Sound) (orig : Inode) (start : DupState) :
    Post (newClone env orig) start fun result s =>
      (result = none → Idle start s) ∧ ∀ clone, result = some clone → ∃ list, NewClone env start clone list s := by
  refine Post.bind (Post.get ?_)
  split
  next => exact Post.pure ⟨fun _ => ⟨rfl, rfl, rfl, fun _ _ _ => Iff.rfl, fun _ set => set⟩, nofun⟩
  next clone bitmap allocated =>
    obtain ⟨free, grows⟩ := sound.new_inode _ _ _ allocated
    refine Post.bind (Post.modify (Post.bind (Post.modify (Post.bind ?_))))
    refine (cloneExtents_extended sound _ _).mono fun result s extended => ?_
    rcases result with ⟨list, ok⟩
    have twice (di : Inode) : Function.update s.inodes clone (some di) =
        Function.update start.inodes clone (some di) := by
      rw [extended.same]
      exact Function.update_idem ..
    refine Post.ite (fun _ => Post.bind (Post.modify (Post.pure ?_))) fun _ => Post.bind (Post.modify (Post.pure ?_))
    · refine ⟨nofun, fun clone' eq => ⟨list, ?_⟩⟩
      obtain rfl := Option.some.inj eq
      refine ⟨free, ⟨{ emptyInode orig env.fs_generation with
        i_list := list, i_clusters := (list.map Extent.e_clusters).sum, i_size := orig.i_size }, rfl, ?_⟩,
        fun c set => extended.bits c (grows c set), fun c mem => ?_, extended.nodup⟩
      · simp only [twice]
        conv_lhs => rw [extended.same]
      · refine ⟨?_, (extended.fresh c mem).2⟩
        by_contra set
        have clear : bitmap c = false := (extended.fresh c mem).1
        rw [grows c (by simpa using set)] at clear
        cases clear
    · refine ⟨fun _ => ⟨?_, ?_, ?_, ?_, fun c set => extended.bits c (grows c set)⟩, nofun⟩
      · rw [extended.same]
      · rw [extended.same]
      · rw [extended.same]
      · simp only [twice]
        exact SameValid.update free rfl

structure Cloned (env : Env) (start : DupState) (ino : Nat) (di : Inode) (list : List Extent) (s : DupState) : Prop where
  duplicates : s.duplicate_clusters = start.duplicate_clusters
  nodes : s.dup_clusters = start.dup_clusters
  states : s.dup_inodes = start.dup_inodes
  inodes : SameValid (Function.update start.inodes ino (some { di with i_list := list })) s.inodes
  bits : ∀ c, start.bitmap c = true → s.bitmap c = true ∨ c ∈ extentClusters env di.i_list ∧ Freeable start c
  fresh : ∀ c ∈ extentClusters env list, start.bitmap c = false ∧ s.bitmap c = true
  nodup : (extentClusters env list).Nodup

theorem Freeable.congr {s s' : DupState} {c : Nat} (free : Freeable s c)
    (duplicates : s'.duplicate_clusters = s.duplicate_clusters) (nodes : s'.dup_clusters = s.dup_clusters)
    (states : s'.dup_inodes = s.dup_inodes) : Freeable s' c := by
  intro set
  rw [duplicates] at set
  rw [nodes]
  obtain ⟨dc, found, one⟩ := free set
  exact ⟨dc, found, by rw [countUnhandled_congr states, one]⟩

theorem cloneOneInode_correct (sound : env.Sound) {start : DupState} {ino : Nat} {di : Inode}
    (inode : start.inodes ino = some di) (valid : di.i_valid = true)
    (allocated : ∀ c ∈ extentClusters env di.i_list, start.bitmap c = true) :
    Post (cloneOneInode env ino) start fun ok s =>
      (ok = false → Idle start s) ∧ (ok = true → ∃ list, Cloned env start ino di list s) := by
  refine Post.bind (Post.get ?_)
  simp only [inode]
  refine Post.bind ((newClone_correct sound di start).mono fun result s new => ?_)
  split
  next => exact Post.pure ⟨fun _ => new.1 rfl, nofun⟩
  next clone =>
    obtain ⟨list, free, ⟨cl, rfl, same⟩, bits, fresh, nodup⟩ := new.2 clone rfl
    have distinct : ino ≠ clone := by
      rintro rfl
      rw [free di inode] at valid
      cases valid
    generalize s.bitmap = before at same bits fresh
    subst same
    refine Post.bind (Post.get ?_)
    have grows := sound.copy_clone { start with
      inodes := Function.update start.inodes clone (some cl), bitmap := before } ino clone
    refine Post.bind (Post.modify (Post.ite (fun _ => Post.bind (Post.modify (Post.bind ?_))) fun _ => Post.bind ?_))
    · simp only [Function.update_of_ne distinct, inode, Function.update_self]
      refine (@deleteOneInode_deleted _ _ _ { cl with i_list := di.i_list } ?_).mono fun _ s deleted => Post.pure ?_
      · simp [Function.update_of_ne distinct.symm]
      refine ⟨nofun, fun _ => ⟨cl.i_list, ?_⟩⟩
      obtain ⟨⟨gone, invalid, same⟩, freed⟩ := deleted
      refine ⟨?_, ?_, ?_, ?_, ?_, ?_, nodup⟩
      · rw [same]
      · rw [same]
      · rw [same]
      · have order : s.inodes = Function.update (Function.update start.inodes ino
            (some { di with i_list := cl.i_list })) clone (some gone) := by
          rw [same]
          funext i
          by_cases here : i = clone <;> by_cases there : i = ino <;>
            simp [here, there, distinct]
        rw [order]
        refine SameValid.update (fun old eq => free old ?_) invalid
        rwa [Function.update_of_ne distinct.symm] at eq
      · intro c set
        rcases freed c (grows c (bits c set)) with kept | ⟨mem, may⟩
        · exact Or.inl kept
        · exact Or.inr ⟨mem, may.congr rfl rfl rfl⟩
      · intro c mem
        refine ⟨(fresh c mem).1, ?_⟩
        rcases freed c (grows c (fresh c mem).2) with kept | ⟨old, -⟩
        · exact kept
        · have clear := (fresh c mem).1
          rw [allocated c old] at clear
          cases clear
    · refine (@deleteOneInode_deleted _ _ _ cl (Function.update_self ..)).mono fun _ s deleted => Post.pure ?_
      obtain ⟨⟨gone, invalid, same⟩, freed⟩ := deleted
      refine ⟨fun _ => ⟨?_, ?_, ?_, ?_, fun c set => ?_⟩, nofun⟩
      · rw [same]
      · rw [same]
      · rw [same]
      · rw [same]
        simpa using SameValid.update free invalid
      · rcases freed c (grows c (bits c set)) with kept | ⟨new, -⟩
        · exact kept
        · rw [(fresh c new).1] at set
          cases set

end Clone

end Ocfs2.Pass1b
