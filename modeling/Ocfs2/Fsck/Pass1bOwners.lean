import Ocfs2.Fsck.Pass1b

set_option autoImplicit false

namespace Ocfs2.Pass1b

open Extents Program

def Owns (nodes : List DupCluster) (c ino : Nat) : Prop := ∃ dc ∈ nodes, dc.dc_cluster = c ∧ ino ∈ dc.dc_owners

section Insert

variable {nodes : List DupCluster} {c c' ino ino' : Nat}

theorem owns_insertOwner : Owns (insertOwner c ino nodes) c' ino' ↔ Owns nodes c' ino' ∨ c' = c ∧ ino' = ino := by
  induction nodes with
  | nil => simp [Owns, insertOwner, eq_comm]
  | cons dc rest ih =>
    simp only [Owns] at ih ⊢
    rw [insertOwner]
    split
    next => simp [eq_comm, or_comm]
    next ge =>
      split
      next => simp only [List.exists_mem_cons_iff, ih, or_assoc]
      next le =>
        obtain rfl : c = dc.dc_cluster := by omega
        simp only [List.exists_mem_cons_iff]
        by_cases known : ino ∈ dc.dc_owners
        · simp only [known, if_true]
          constructor
          · exact Or.inl
          · rintro (h | ⟨rfl, rfl⟩)
            · exact h
            · exact Or.inl ⟨rfl, known⟩
        · simp only [known, if_false, List.mem_append, List.mem_singleton]
          constructor
          · rintro (⟨rfl, h | rfl⟩ | h)
            · exact Or.inl (Or.inl ⟨rfl, h⟩)
            · exact Or.inr ⟨rfl, rfl⟩
            · exact Or.inl (Or.inr h)
          · rintro ((⟨rfl, h⟩ | h) | ⟨rfl, rfl⟩)
            · exact Or.inl ⟨rfl, Or.inl h⟩
            · exact Or.inr h
            · exact Or.inl ⟨rfl, Or.inr rfl⟩

def Sorted (nodes : List DupCluster) : Prop := (nodes.map DupCluster.dc_cluster).Pairwise (· < ·)

theorem clusters_insertOwner {x : Nat} (mem : x ∈ (insertOwner c ino nodes).map DupCluster.dc_cluster) :
    x = c ∨ x ∈ nodes.map DupCluster.dc_cluster := by
  induction nodes with
  | nil => simpa [insertOwner] using mem
  | cons dc rest ih =>
    rw [insertOwner] at mem
    split at mem
    next => simpa using mem
    next =>
      split at mem
      next =>
        rcases List.mem_cons.mp mem with rfl | mem
        · simp
        · rcases ih mem with rfl | mem
          · exact Or.inl rfl
          · exact Or.inr (List.mem_cons_of_mem _ mem)
      next => exact Or.inr (by simpa using mem)

theorem sorted_insertOwner (sorted : Sorted nodes) : Sorted (insertOwner c ino nodes) := by
  induction nodes with
  | nil => simp [Sorted, insertOwner]
  | cons dc rest ih =>
    obtain ⟨first, later⟩ := List.pairwise_cons.mp sorted
    rw [insertOwner]
    split
    next lt =>
      refine List.pairwise_cons.mpr ⟨fun x mem => ?_, sorted⟩
      rcases List.mem_cons.mp mem with rfl | mem
      · exact lt
      · exact lt.trans (first x mem)
    next =>
      split
      next gt =>
        refine List.pairwise_cons.mpr ⟨fun x mem => ?_, ih later⟩
        rcases clusters_insertOwner mem with rfl | mem
        · exact gt
        · exact first x mem
      next => exact List.pairwise_cons.mpr ⟨first, later⟩

theorem find?_owns (sorted : Sorted nodes) {dc : DupCluster} (found : nodes.find? (·.dc_cluster = c) = some dc) :
    ino ∈ dc.dc_owners ↔ Owns nodes c ino := by
  have mem := List.mem_of_find?_eq_some found
  have cluster : dc.dc_cluster = c := by simpa using List.find?_some found
  refine ⟨fun owner => ⟨dc, mem, cluster, owner⟩, ?_⟩
  rintro ⟨dc', mem', cluster', owner⟩
  have inj := List.inj_on_of_nodup_map (sorted.imp fun lt => ne_of_lt lt : (nodes.map DupCluster.dc_cluster).Nodup)
  rwa [inj mem mem' (cluster.trans cluster'.symm)]

end Insert

section Scan

variable {env : Env} {start s : DupState}

structure Entered (start : DupState) (claim : Nat → Nat → Prop) (s : DupState) : Prop where
  inodes : s.inodes = start.inodes
  bitmap : s.bitmap = start.bitmap
  duplicates : s.duplicate_clusters = start.duplicate_clusters
  owns : ∀ c ino, Owns s.dup_clusters c ino ↔ claim ino c ∧ start.duplicate_clusters c = true
  sorted : Sorted s.dup_clusters
  entry : ∀ ino e, s.dup_inodes ino = some e → ∃ di, start.inodes ino = some di ∧
    e = ⟨di.i_chain, di.i_system, false, false⟩ ∧ ∃ c, claim ino c
  known : ∀ ino c, claim ino c → start.duplicate_clusters c = true → (s.dup_inodes ino).isSome = true

theorem processDupCluster_entered {claim : Nat → Nat → Prop} {ino : Nat} {di : Inode}
    (inode : start.inodes ino = some di) (entered : Entered start claim s) (cluster : Nat) :
    Post (processDupCluster env ino di cluster) s fun _ s' =>
      Entered start (fun i c => claim i c ∨ i = ino ∧ c = cluster) s' := by
  refine Post.ite (fun _ => Post.failure) fun _ => Post.modify ?_
  by_cases dup : s.duplicate_clusters cluster = true
  · have dup' : start.duplicate_clusters cluster = true := entered.duplicates ▸ dup
    rw [if_pos dup]
    refine ⟨entered.inodes, entered.bitmap, entered.duplicates, ?_, sorted_insertOwner entered.sorted, ?_, ?_⟩
    · intro c i
      rw [dupInsert, owns_insertOwner, entered.owns]
      constructor
      · rintro (⟨h, d⟩ | ⟨rfl, rfl⟩)
        · exact ⟨Or.inl h, d⟩
        · exact ⟨Or.inr ⟨rfl, rfl⟩, dup'⟩
      · rintro ⟨h | ⟨rfl, rfl⟩, d⟩
        · exact Or.inl ⟨h, d⟩
        · exact Or.inr ⟨rfl, rfl⟩
    · intro i e found
      rw [dupInsert] at found
      dsimp only at found
      split at found
      next =>
        obtain ⟨di', inode', eq, c, h⟩ := entered.entry i e found
        exact ⟨di', inode', eq, c, Or.inl h⟩
      next =>
        by_cases here : i = ino
        · subst here
          rw [Function.update_self] at found
          exact ⟨di, inode, (Option.some.inj found).symm, cluster, Or.inr ⟨rfl, rfl⟩⟩
        · rw [Function.update_of_ne here] at found
          obtain ⟨di', inode', eq, c, h⟩ := entered.entry i e found
          exact ⟨di', inode', eq, c, Or.inl h⟩
    · intro i c h d
      rw [dupInsert]
      dsimp only
      split
      next some_here =>
        rcases h with h | ⟨rfl, -⟩
        · exact entered.known i c h d
        · exact some_here
      next =>
        by_cases here : i = ino
        · subst here
          rw [Function.update_self]
          rfl
        · rw [Function.update_of_ne here]
          rcases h with h | ⟨rfl, -⟩
          · exact entered.known i c h d
          · exact absurd rfl here
  · have dup' : start.duplicate_clusters cluster ≠ true := entered.duplicates ▸ dup
    rw [if_neg dup]
    refine ⟨entered.inodes, entered.bitmap, entered.duplicates, ?_, entered.sorted, ?_, ?_⟩
    · intro c i
      rw [entered.owns]
      constructor
      · exact fun h => ⟨Or.inl h.1, h.2⟩
      · rintro ⟨h | ⟨-, rfl⟩, d⟩
        · exact ⟨h, d⟩
        · exact absurd d dup'
    · intro i e found
      obtain ⟨di', inode', eq, c, h⟩ := entered.entry i e found
      exact ⟨di', inode', eq, c, Or.inl h⟩
    · rintro i c (h | ⟨-, rfl⟩) d
      · exact entered.known i c h d
      · exact absurd d dup'

def Scanned (env : Env) (start : DupState) (inodes : List Nat) (ino c : Nat) : Prop :=
  ino ∈ inodes ∧ ∃ di, start.inodes ino = some di ∧ considered env di = true ∧ c ∈ claimedClusters env ino di

theorem Entered.congr {claim claim' : Nat → Nat → Prop} (entered : Entered start claim s)
    (same : ∀ ino c, claim ino c ↔ claim' ino c) : Entered start claim' s := by
  have : claim = claim' := by
    funext ino c
    exact propext (same ino c)
  exact this ▸ entered

theorem o2fsckPass1b_entered (inodes : List Nat) (empty : start.dup_clusters = [] ∧ ∀ ino, start.dup_inodes ino = none) :
    Post (o2fsckPass1b env inodes) start fun _ s => Entered start (Scanned env start inodes) s := by
  refine Post.forM (I := fun before s => Entered start (Scanned env start before) s) ?_ ?_
  · intro before ino s entered
    refine Post.bind (Post.get ?_)
    -- the claims of an inode that is passed over are none
    have skip (none : ∀ di, start.inodes ino = some di → considered env di = false) :
        Entered start (Scanned env start (before ++ [ino])) s := by
      refine entered.congr fun i c => ?_
      simp only [Scanned, List.mem_append, List.mem_singleton]
      constructor
      · exact fun h => ⟨Or.inl h.1, h.2⟩
      · rintro ⟨h | rfl, di, inode, is_considered, mem⟩
        · exact ⟨h, di, inode, is_considered, mem⟩
        · rw [none di inode] at is_considered
          cases is_considered
    split
    next di inode =>
      rw [entered.inodes] at inode
      refine Post.ite (fun yes => ?_) fun no => Post.pure (skip fun di' inode' => ?_)
      · refine Post.mono (Post.forM (I := fun part s => Entered start
          (fun i c => Scanned env start before i c ∨ i = ino ∧ c ∈ part) s) ?_ ?_) fun _ s' entered' => ?_
        · intro part c s' entered'
          refine (processDupCluster_entered inode entered' c).mono fun _ s'' entered'' => entered''.congr fun i x => ?_
          simp only [List.mem_append, List.mem_singleton]
          tauto
        · exact entered.congr (by simp)
        · refine entered'.congr fun i c => ?_
          simp only [Scanned, List.mem_append, List.mem_singleton]
          constructor
          · rintro (h | ⟨rfl, mem⟩)
            · exact ⟨Or.inl h.1, h.2⟩
            · exact ⟨Or.inr rfl, di, inode, yes, mem⟩
          · rintro ⟨h | rfl, di', inode', is_considered, mem⟩
            · exact Or.inl ⟨h, di', inode', is_considered, mem⟩
            · rw [inode] at inode'
              obtain rfl := Option.some.inj inode'
              exact Or.inr ⟨rfl, mem⟩
      · rw [inode] at inode'
        obtain rfl := Option.some.inj inode'
        simpa using no
    next inode =>
      rw [entered.inodes] at inode
      exact Post.pure (skip fun di inode' => by simp [inode] at inode')
  · refine ⟨rfl, rfl, rfl, ?_, ?_, ?_, ?_⟩
    · simp [Owns, empty.1, Scanned]
    · simp [Sorted, empty.1]
    · simp [empty.2]
    · simp [Scanned]

end Scan

end Ocfs2.Pass1b
