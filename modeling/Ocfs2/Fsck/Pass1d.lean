import Ocfs2.Fsck.Pass1dClone

set_option autoImplicit false

namespace Ocfs2.Pass1b

open Extents Program

section Claims

variable (env : Env)

def HasList (di : Inode) : Prop :=
  considered env di = true ∧ di.i_no_list = false ∧ ¬(di.i_mode = .lnk ∧ di.i_clusters = 0) ∧ di.i_chain = false

instance (di : Inode) : Decidable (HasList env di) := by
  unfold HasList
  infer_instance

def dataClaims (s : DupState) (ino : Nat) : List Nat :=
  match s.inodes ino with
  | some di => if HasList env di then extentClusters env di.i_list else []
  | none => []

def ClaimedOnce (s : DupState) : Prop :=
  (∀ ino, (dataClaims env s ino).Nodup) ∧
    ∀ ino ino', ino ≠ ino' → (dataClaims env s ino).Disjoint (dataClaims env s ino')

def ClaimsAllocated (s : DupState) : Prop := ∀ ino, ∀ c ∈ dataClaims env s ino, s.bitmap c = true

end Claims

variable {env : Env} {start s : DupState}

theorem dataClaims_of_hasList {ino : Nat} {di : Inode} (inode : s.inodes ino = some di) (list : HasList env di) :
    dataClaims env s ino = extentClusters env di.i_list := by
  rw [dataClaims, inode]
  exact if_pos list

variable {di : Inode} {ino : Nat} {s' : DupState} {inodes : List Nat}

theorem claimedClusters_of_hasList (list : HasList env di) (ino : Nat) :
    claimedClusters env ino di = extentClusters env di.i_list := by
  obtain ⟨-, extents, slow, chain⟩ := list
  simp only [claimedClusters, extents, chain, Bool.false_or, decide_eq_true_eq, slow, if_false]
  rfl

theorem exists_of_mem_dataClaims {c : Nat} (mem : c ∈ dataClaims env s ino) :
    ∃ di, s.inodes ino = some di ∧ HasList env di ∧ c ∈ extentClusters env di.i_list := by
  rw [dataClaims] at mem
  split at mem
  next di inode =>
    split at mem
    next list => exact ⟨di, inode, list, mem⟩
    next => cases mem
  next => cases mem

theorem HasList.valid (list : HasList env di) : di.i_valid = true := by
  have := list.1
  simp only [considered, decide_eq_true_eq] at this
  exact this.2

theorem dataClaims_congr {s' : DupState} (same : SameValid s.inodes s'.inodes) (ino : Nat) :
    dataClaims env s' ino = dataClaims env s ino := by
  by_cases here : ∃ di, s.inodes ino = some di ∧ HasList env di
  · obtain ⟨di, inode, list⟩ := here
    rw [dataClaims_of_hasList inode list, dataClaims_of_hasList ((same ino di list.valid).mpr inode) list]
  · have none : dataClaims env s ino = [] := List.eq_nil_iff_forall_not_mem.mpr fun c mem => by
      obtain ⟨di, inode, list, -⟩ := exists_of_mem_dataClaims mem
      exact here ⟨di, inode, list⟩
    rw [none]
    refine List.eq_nil_iff_forall_not_mem.mpr fun c mem => ?_
    obtain ⟨di, inode, list, -⟩ := exists_of_mem_dataClaims mem
    exact here ⟨di, (same ino di list.valid).mp inode, list⟩

section Count

def Handled (s : DupState) (ino : Nat) : Prop :=
  ∃ e, s.dup_inodes ino = some e ∧ (e.di_cloned || e.di_removed) = true

theorem countUnhandled_pos {owners : List Nat} {n : Nat} (mem : ino ∈ owners) (unhandled : ¬Handled s ino)
    (count : countUnhandled s owners = some n) : 0 < n := by
  induction owners generalizing n with
  | nil => cases mem
  | cons first rest ih =>
    rw [countUnhandled] at count
    split at count
    next e rest_count entry counted =>
      obtain rfl := Option.some.inj count
      rcases List.mem_cons.mp mem with rfl | mem
      · rw [if_neg fun h => unhandled ⟨e, entry, h⟩]
        exact Nat.succ_pos _
      · have := ih mem counted
        split <;> omega
    next => cases count

theorem countUnhandled_two {owners : List Nat} {ino' n : Nat} (mem : ino ∈ owners) (mem' : ino' ∈ owners)
    (ne : ino ≠ ino') (unhandled : ¬Handled s ino) (unhandled' : ¬Handled s ino')
    (count : countUnhandled s owners = some n) : 2 ≤ n := by
  induction owners generalizing n with
  | nil => cases mem
  | cons first rest ih =>
    rw [countUnhandled] at count
    split at count
    next e rest_count entry counted =>
      obtain rfl := Option.some.inj count
      rcases List.mem_cons.mp mem with rfl | mem_rest
      · have := countUnhandled_pos ((List.mem_cons.mp mem').resolve_left ne.symm) unhandled' counted
        rw [if_neg fun h => unhandled ⟨e, entry, h⟩]
        omega
      · rcases List.mem_cons.mp mem' with rfl | mem_rest'
        · have := countUnhandled_pos mem_rest unhandled counted
          rw [if_neg fun h => unhandled' ⟨e, entry, h⟩]
          omega
        · have := ih mem_rest mem_rest' counted
          split <;> omega
    next => cases count

end Count

section Repair

structure OwnersFound (env : Env) (s : DupState) : Prop where
  sorted : Sorted s.dup_clusters
  shared : ∀ ino ino' c, ino ≠ ino' → c ∈ dataClaims env s ino → c ∈ dataClaims env s ino' →
    s.duplicate_clusters c = true ∧ Owns s.dup_clusters c ino ∧ Owns s.dup_clusters c ino'

structure Repaired (env : Env) (start s : DupState) : Prop where
  duplicates : s.duplicate_clusters = start.duplicate_clusters
  nodes : s.dup_clusters = start.dup_clusters
  unhandled : ∀ ino, ¬Handled s ino → dataClaims env s ino = dataClaims env start ino
  once : ∀ ino, Handled s ino → (dataClaims env s ino).Nodup
  apart : ∀ ino ino', Handled s ino → ino ≠ ino' → (dataClaims env s ino).Disjoint (dataClaims env s ino')
  allocated : ClaimsAllocated env s
  lists : ∀ ino e, s.dup_inodes ino = some e → e.di_chain = false → ∃ di, s.inodes ino = some di ∧ HasList env di

theorem Repaired.freeable (repaired : Repaired env start s) (owners : OwnersFound env start) {c : Nat}
    (claim : c ∈ dataClaims env s ino) (free : Freeable s c) (ino' : Nat) (ne : ino ≠ ino') :
    c ∉ dataClaims env s ino' := by
  intro claim'
  by_cases handled : Handled s ino
  · exact repaired.apart ino ino' handled ne claim claim'
  by_cases handled' : Handled s ino'
  · exact repaired.apart ino' ino handled' ne.symm claim' claim
  rw [repaired.unhandled ino handled] at claim
  rw [repaired.unhandled ino' handled'] at claim'
  obtain ⟨dup, own, own'⟩ := owners.shared ino ino' c ne claim claim'
  obtain ⟨dc, found, count⟩ := free (by rwa [repaired.duplicates])
  rw [repaired.nodes] at found
  have mem := (find?_owns owners.sorted found).mpr own
  have mem' := (find?_owns owners.sorted found).mpr own'
  have := countUnhandled_two mem mem' ne handled handled' count
  omega

theorem handled_congr (same : s'.dup_inodes = s.dup_inodes) (ino : Nat) :
    Handled s' ino ↔ Handled s ino := by rw [Handled, Handled, same]

theorem Repaired.idle (repaired : Repaired env start s) (idle : Idle s s') :
    Repaired env start s' := by
  have claims : ∀ ino, dataClaims env s' ino = dataClaims env s ino := dataClaims_congr idle.inodes
  refine ⟨?_, ?_, ?_, ?_, ?_, ?_, ?_⟩
  · rw [idle.duplicates, repaired.duplicates]
  · rw [idle.nodes, repaired.nodes]
  · intro ino unhandled
    rw [handled_congr idle.states] at unhandled
    rw [claims, repaired.unhandled ino unhandled]
  · intro ino handled
    rw [handled_congr idle.states] at handled
    rw [claims]
    exact repaired.once ino handled
  · intro ino ino' handled ne
    rw [handled_congr idle.states] at handled
    rw [claims, claims]
    exact repaired.apart ino ino' handled ne
  · intro ino c mem
    rw [claims] at mem
    exact idle.bits c (repaired.allocated ino c mem)
  · intro ino e entry chain
    rw [idle.states] at entry
    obtain ⟨di, inode, list⟩ := repaired.lists ino e entry chain
    exact ⟨di, (idle.inodes ino di list.valid).mpr inode, list⟩

theorem Cloned.dataClaims {list : List Extent}
    (cloned : Cloned env s ino di list s') (has : HasList env di) (i : Nat) :
    dataClaims env s' i = if i = ino then extentClusters env list else dataClaims env s i := by
  have same := @dataClaims_congr env
    { s with inodes := Function.update s.inodes ino (some { di with i_list := list }) } _ cloned.inodes i
  rw [same]
  split
  next here =>
    subst here
    exact @dataClaims_of_hasList _ _ _ { di with i_list := list } (Function.update_self ..) has
  next here =>
    simp only [Pass1b.dataClaims, Function.update_of_ne here]

theorem Repaired.cloned (repaired : Repaired env start s) (owners : OwnersFound env start) {list : List Extent} (inode : s.inodes ino = some di) (has : HasList env di)
    (known : (s.dup_inodes ino).isSome = true) (cloned : Cloned env s ino di list s') :
    Repaired env start { s' with dup_inodes := Function.update s'.dup_inodes ino ((s'.dup_inodes ino).map
      fun e => { e with di_cloned := true }) } := by
  generalize after : ({ s' with dup_inodes := _ } : DupState) = t
  have claims : ∀ i, dataClaims env t i = if i = ino then extentClusters env list else dataClaims env s i := by
    intro i
    rw [← cloned.dataClaims has i, ← after]
    rfl
  have handled : ∀ i, Handled t i ↔ i = ino ∨ Handled s i := by
    intro i
    rw [← after]
    simp only [Handled, cloned.states]
    by_cases here : i = ino
    · subst here
      obtain ⟨e, entry⟩ := Option.isSome_iff_exists.mp known
      simp [entry]
    · simp [here]
  -- the new clusters were free, so that no other inode claims them
  have fresh : ∀ c ∈ extentClusters env list, ∀ i, c ∉ dataClaims env s i := by
    intro c new i old
    have := (cloned.fresh c new).1
    rw [repaired.allocated i c old] at this
    cases this
  refine ⟨?_, ?_, ?_, ?_, ?_, ?_, ?_⟩
  · rw [← after, ← repaired.duplicates]
    exact cloned.duplicates
  · rw [← after, ← repaired.nodes]
    exact cloned.nodes
  · intro i unhandled
    rw [handled, not_or] at unhandled
    rw [claims, if_neg unhandled.1, repaired.unhandled i unhandled.2]
  · intro i h
    rw [claims]
    split
    next => exact cloned.nodup
    next other => exact repaired.once i (((handled i).mp h).resolve_left other)
  · intro i i' h ne
    rw [claims, claims]
    split
    next here =>
      rw [if_neg (here ▸ ne.symm)]
      exact fun c new old => fresh c new i' old
    next other =>
      split
      next => exact fun c old new => fresh c new i old
      next => exact repaired.apart i i' (((handled i).mp h).resolve_left other) ne
  · intro i c mem
    have bits : t.bitmap = s'.bitmap := by rw [← after]
    rw [bits]
    rw [claims] at mem
    split at mem
    next => exact (cloned.fresh c mem).2
    next other =>
      rcases cloned.bits c (repaired.allocated i c mem) with kept | ⟨own, free⟩
      · exact kept
      · rw [← dataClaims_of_hasList inode has] at own
        exact absurd mem (repaired.freeable owners own free i (Ne.symm other))
  · intro i e entry chain
    have inodes : t.inodes = s'.inodes := by rw [← after]
    rw [inodes]
    rw [← after] at entry
    by_cases here : i = ino
    · subst here
      exact ⟨{ di with i_list := list },
        (cloned.inodes i { di with i_list := list } has.valid).mpr (Function.update_self ..), has⟩
    · simp only [Function.update_of_ne here, cloned.states] at entry
      obtain ⟨di', inode', has'⟩ := repaired.lists i e entry chain
      refine ⟨di', (cloned.inodes i di' has'.valid).mpr ?_, has'⟩
      rwa [Function.update_of_ne here]

variable (sound : env.Sound) (accept : ∀ p ino, env.prompt p ino = true) (owners : OwnersFound env start)

include sound accept owners

theorem fixDupsFunc_repaired (repaired : Repaired env start s) (ino : Nat) :
    Post (fixDupsFunc env ino) s fun _ s' => Repaired env start s' := by
  refine Post.bind (Post.get ?_)
  split
  next => exact Post.failure
  next e entry =>
    refine Post.ite (fun _ => Post.pure repaired) fun chain => ?_
    rw [accept, if_pos rfl]
    obtain ⟨di, inode, has⟩ := repaired.lists ino e entry (by simpa using chain)
    have allocated : ∀ c ∈ extentClusters env di.i_list, s.bitmap c = true := by
      intro c mem
      rw [← dataClaims_of_hasList inode has] at mem
      exact repaired.allocated ino c mem
    refine Post.bind ((cloneOneInode_correct sound inode has.valid allocated).mono fun ok s' result => ?_)
    refine Post.ite (fun done => Post.bind (Post.modify (Post.pure ?_))) fun failed => Post.pure ?_
    · obtain ⟨list, cloned⟩ := result.2 done
      exact repaired.cloned owners inode has (by rw [entry]; rfl) cloned
    · exact repaired.idle (result.1 (by simpa using failed))

theorem forEachOwner_repaired (list : List Nat) :
    ∀ s, Repaired env start s → Post (forEachOwner env list) s fun _ s' => Repaired env start s' := by
  induction list with
  | nil => exact fun s repaired => Post.pure repaired
  | cons ino rest ih =>
    intro s repaired
    refine Post.bind ((fixDupsFunc_repaired sound accept owners repaired ino).mono fun _ s' repaired' => ?_)
    exact Post.ite (fun _ => ih s' repaired') fun _ => Post.pure repaired'

theorem o2fsckPass1d_repaired (repaired : Repaired env start s) (nodes : List DupCluster) :
    Post (o2fsckPass1d env nodes) s fun _ s' => Repaired env start s' := by
  refine Post.forM (I := fun _ s => Repaired env start s) (fun _ dc s' repaired' => ?_) repaired
  refine Post.bind (Post.get ?_)
  split
  next => exact Post.failure
  next => exact Post.ite (fun _ => Post.pure repaired') fun _ => forEachOwner_repaired sound accept owners _ s' repaired'

end Repair

section Passes

structure Scannable (env : Env) (inodes : List Nat) (s : DupState) : Prop where
  scanned : ∀ ino di, s.inodes ino = some di → considered env di = true → ino ∈ inodes
  allocated : ClaimsAllocated env s
  duplicates : ∀ ino ino' c, ino ≠ ino' → c ∈ dataClaims env s ino → c ∈ dataClaims env s ino' →
    s.duplicate_clusters c = true
  empty : s.dup_clusters = [] ∧ ∀ ino, s.dup_inodes ino = none

theorem Scannable.scanned_of_mem (scannable : Scannable env inodes start) {c : Nat}
    (mem : c ∈ dataClaims env start ino) : Scanned env start inodes ino c := by
  obtain ⟨di, inode, list, claim⟩ := exists_of_mem_dataClaims mem
  refine ⟨scannable.scanned ino di inode list.1, di, inode, list.1, ?_⟩
  rwa [claimedClusters_of_hasList list]

theorem Entered.dataClaims {claim : Nat → Nat → Prop} (entered : Entered start claim s) (ino : Nat) :
    dataClaims env s ino = dataClaims env start ino := by
  rw [Pass1b.dataClaims, Pass1b.dataClaims, entered.inodes]

theorem Entered.ownersFound (scannable : Scannable env inodes start)
    (entered : Entered start (Scanned env start inodes) s) : OwnersFound env s := by
  refine ⟨entered.sorted, fun ino ino' c ne mem mem' => ?_⟩
  rw [entered.dataClaims] at mem mem'
  have dup := scannable.duplicates ino ino' c ne mem mem'
  rw [entered.duplicates, entered.owns, entered.owns]
  exact ⟨dup, ⟨scannable.scanned_of_mem mem, dup⟩, ⟨scannable.scanned_of_mem mem', dup⟩⟩

theorem Entered.repaired (scannable : Scannable env inodes start)
    (entered : Entered start (Scanned env start inodes) s) : Repaired env s s := by
  have unhandled : ∀ ino, ¬Handled s ino := by
    rintro ino ⟨e, entry, handled⟩
    obtain ⟨di, -, rfl, -⟩ := entered.entry ino e entry
    cases handled
  refine ⟨rfl, rfl, fun _ _ => rfl, fun ino h => absurd h (unhandled ino), fun ino _ h => absurd h (unhandled ino), ?_, ?_⟩
  · intro ino c mem
    rw [entered.dataClaims] at mem
    rw [entered.bitmap]
    exact scannable.allocated ino c mem
  · intro ino e entry chain
    obtain ⟨di, inode, rfl, c, -, di', inode', is_considered, mem⟩ := entered.entry ino e entry
    rw [inode] at inode'
    obtain rfl := Option.some.inj inode'
    refine ⟨di, by rw [entered.inodes, inode], is_considered, ?_⟩
    rw [claimedClusters] at mem
    split at mem
    next => cases mem
    next lists =>
      simp only [Bool.or_eq_true, decide_eq_true_eq, not_or, Bool.not_eq_true] at lists
      exact ⟨lists.1, lists.2, chain⟩

theorem ocfs2Pass1Dups_repaired (sound : env.Sound) (accept : ∀ p ino, env.prompt p ino = true) (inodes : List Nat)
    (scannable : Scannable env inodes start) :
    Post (ocfs2Pass1Dups env inodes) start fun _ s => ∃ found, (∀ ino, dataClaims env found ino = dataClaims env start ino) ∧
      Repaired env found s := by
  refine Post.bind ((o2fsckPass1b_entered inodes scannable.empty).mono fun _ found entered => ?_)
  refine Post.bind (Post.get ((o2fsckPass1d_repaired sound accept (entered.ownersFound scannable)
    (entered.repaired scannable) _).mono fun _ s repaired => ?_))
  exact ⟨found, entered.dataClaims, repaired⟩

end Passes

section Volumes

def smallEnv : Env where
  fs := ⟨8, 8, 4096, 1⟩
  fs_generation := 1
  global_bitmap_blkno := 0
  unwritten_extents := true
  prompt := fun _ _ => true
  new_inode := fun s => if (s.inodes 9).any Inode.i_valid then none else some (9, s.bitmap)
  new_clusters := fun bitmap _ => ((List.range 8).find? fun c => !bitmap c).map fun c => (c, 1)
  insert_extent := fun bitmap _ => (true, bitmap)
  copy_clone := fun s _ _ => (true, s.bitmap)

theorem smallEnv_sound : smallEnv.Sound := by
  refine ⟨by decide, by decide, ?_, ?_, fun _ _ _ set => set, fun _ _ _ _ set => set⟩
  · intro s ino bitmap allocated
    simp only [smallEnv, Option.ite_none_left_eq_some] at allocated
    obtain ⟨free, eq⟩ := allocated
    obtain ⟨rfl, rfl⟩ := Prod.mk.inj (Option.some.inj eq)
    refine ⟨fun di inode => ?_, fun _ set => set⟩
    simpa [inode] using free
  · intro bitmap wanted first found allocated
    obtain ⟨c, free, eq⟩ := Option.map_eq_some_iff.mp allocated
    obtain ⟨rfl, rfl⟩ := Prod.mk.inj eq
    have range : c < 8 := by simpa using List.mem_of_find?_eq_some free
    refine ⟨range, fun c' ge lt => ?_⟩
    obtain rfl : c' = c := by omega
    simpa using List.find?_some free

def smallFile (list : List Extent) : Inode :=
  ⟨1, true, false, false, false, .reg, 4096, (list.map Extent.e_clusters).sum, list, [], 0⟩

def smallVolume (files : List (Nat × List Extent)) : DupState where
  inodes := fun ino => (files.lookup ino).map smallFile
  bitmap := fun c => c ≤ 2
  duplicate_clusters := fun c => c = 2
  dup_clusters := []
  dup_inodes := fun _ => none

theorem smallVolume_inodes {files : List (Nat × List Extent)} (out : ino ∉ files.map Prod.fst) :
    (smallVolume files).inodes ino = none := by
  simp only [smallVolume, Option.map_eq_none_iff, List.lookup_eq_none_iff]
  intro file mem
  simp only [bne_iff_ne, ne_eq]
  rintro rfl
  exact out (List.mem_map_of_mem mem)

theorem smallVolume_claims {files : List (Nat × List Extent)} (out : ino ∉ files.map Prod.fst) :
    dataClaims smallEnv (smallVolume files) ino = [] := by
  rw [dataClaims, smallVolume_inodes out]

theorem smallVolume_scannable (files : List (Nat × List Extent))
    (two : ∀ ino ∈ files.map Prod.fst, ∀ c ∈ dataClaims smallEnv (smallVolume files) ino, c = 2) :
    Scannable smallEnv (files.map Prod.fst) (smallVolume files) := by
  have only : ∀ ino, ∀ c ∈ dataClaims smallEnv (smallVolume files) ino, c = 2 := by
    intro ino c mem
    by_cases listed : ino ∈ files.map Prod.fst
    · exact two ino listed c mem
    · rw [smallVolume_claims listed] at mem
      cases mem
  refine ⟨fun ino di inode _ => ?_, fun ino c mem => ?_, fun ino _ c _ mem _ => ?_, rfl, fun _ => rfl⟩
  · by_contra out
    rw [smallVolume_inodes out] at inode
    cases inode
  · rw [only ino c mem]
    rfl
  · rw [only ino c mem]
    rfl

end Volumes

end Ocfs2.Pass1b
