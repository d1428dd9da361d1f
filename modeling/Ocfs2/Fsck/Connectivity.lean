import Ocfs2.Fsck.Pass3Connect

set_option autoImplicit false

namespace Ocfs2.Pass3

open ParentGraph Function

section Directory

structure SameGraph (root root' : List DirParent) : Prop where
  inos_eq : inos root' = inos root
  parent_eq : parent root' = parent root
  connected : IsConnected root' = IsConnected root
  numbered : ∀ n, Numbered n root → Numbered n root'

theorem SameGraph.trans {a b c : List DirParent} (ab : SameGraph a b) (bc : SameGraph b c) : SameGraph a c :=
  ⟨bc.inos_eq.trans ab.inos_eq, bc.parent_eq.trans ab.parent_eq, bc.connected.trans ab.connected,
    fun n h => bc.numbered n (ab.numbered n h)⟩

theorem SameGraph.modify {root : List DirParent} {ino : Nat} {f : DirParent → DirParent}
    (keeps : ∀ dp, (f dp).dp_ino = dp.dp_ino ∧ (f dp).dp_dirent = dp.dp_dirent ∧
      (f dp).dp_loop_no = dp.dp_loop_no ∧ (f dp).dp_connected = dp.dp_connected) :
    SameGraph root (Pass3.modify root ino f) where
  inos_eq := inos_modify fun dp => (keeps dp).1
  parent_eq := parent_modify (fun dp => (keeps dp).1) fun dp => (keeps dp).2.1
  connected := by
    funext x
    exact propext (isConnected_modify (fun dp => (keeps dp).1) fun dp => (keeps dp).2.2.2)
  numbered n h := h.modify (fun dp => (keeps dp).1) fun dp le => (keeps dp).2.2.1 ▸ le

variable {env : Env} {ost : O2fsckState} {d : Nat}

theorem checkDotDot_correct (env : Env) (ost : O2fsckState) (ino : Nat) :
    ∃ root', checkDotDot env ost ino = { ost with ost_dir_parents := root' } ∧
      SameGraph ost.ost_dir_parents root' := by
  have orphan : SameGraph ost.ost_dir_parents (modify ost.ost_dir_parents ino fun dir =>
      if dir.dp_in_orphan_dir then { dir with dp_dot_dot := dir.dp_dirent } else dir) := by
    refine SameGraph.modify fun dp => ?_
    split <;> exact ⟨rfl, rfl, rfl, rfl⟩
  rw [checkDotDot]
  split
  next => exact ⟨_, rfl, orphan⟩
  next =>
    split_ifs
    · rw [fixDotDot]
      split
      · exact ⟨_, rfl, orphan.trans (SameGraph.modify fun dp => ⟨rfl, rfl, rfl, rfl⟩)⟩
      · exact ⟨_, rfl, orphan⟩
    · exact ⟨_, rfl, orphan⟩
    · exact ⟨_, rfl, orphan⟩

def Dangling (root : List DirParent) : Prop :=
  ∃ x ∈ inos root, ¬IsConnected root x ∧ parent root x ≠ 0 ∧ parent root x ∉ inos root

theorem connectDirectory_correct (accepts : Accepts env ost) (numbered : Numbered ost.loop_no ost.ost_dir_parents)
    (present : d ∈ inos ost.ost_dir_parents) :
    (∃ root', connectDirectory env ost d =
        .ok { ost with ost_dir_parents := root', loop_no := ost.loop_no + 1 } ∧
      Connects (ost.loop_no + 1) ost.ost_lostfound_ino d ost.ost_dir_parents root') ∨
    connectDirectory env ost d = .error .internalFailure ∧ Dangling ost.ost_dir_parents := by
  have first : Ascending ost.ost_dir_parents (ost.loop_no + 1) d 0 ost.ost_dir_parents := by
    refine ⟨rfl, rfl, fun x dp found => (numbered x dp found).trans (by omega), by simp, ?_, by simp, by simp, by simp,
      fun j le => ?_⟩
    · intro x
      constructor
      · rintro ⟨dp, found, same⟩
        have := numbered x dp found
        omega
      · rintro ⟨j, pos, le, -⟩
        omega
    · obtain rfl : j = 0 := by omega
      exact present
  have accepts' : Accepts env { ost with loop_no := ost.loop_no + 1 } :=
    ⟨accepts.prompt, accepts.lostfound, accepts.is_dir, accepts.link⟩
  rcases ascend_correct accepts' (ost.ost_dir_parents.length + 1) 0 _ first rfl with
    ⟨root', eq, inos_eq, numbered', ended⟩ | ⟨eq, dangling⟩
  · obtain ⟨root'', checked, same⟩ := checkDotDot_correct env
      { ost with ost_dir_parents := root', loop_no := ost.loop_no + 1 } d
    refine Or.inl ⟨root'', ?_, same.inos_eq.trans inos_eq, same.numbered _ numbered', ?_⟩
    · rw [connectDirectory]
      simp only [iterate_zero, id_eq] at eq
      simp only [eq, bind, Except.bind, checked]
      rfl
    · rw [same.connected, same.parent_eq]
      exact ended
  · refine Or.inr ⟨?_, dangling⟩
    rw [connectDirectory]
    simp only [iterate_zero, id_eq] at eq
    simp only [eq, bind, Except.bind]

theorem connectDirectories_correct (ds : List Nat) (accepts : Accepts env ost)
    (numbered : Numbered ost.loop_no ost.ost_dir_parents) (present : ∀ d ∈ ds, d ∈ inos ost.ost_dir_parents) :
    (∃ root' n, ds.foldlM (connectDirectory env) ost = .ok { ost with ost_dir_parents := root', loop_no := n } ∧
      inos root' = inos ost.ost_dir_parents ∧
      Visits ost.ost_lostfound_ino ds (IsConnected ost.ost_dir_parents) (parent ost.ost_dir_parents)
        (IsConnected root') (parent root')) ∨
    ds.foldlM (connectDirectory env) ost = .error .internalFailure ∧
    ∃ ds' root', inos root' = inos ost.ost_dir_parents ∧
      Visits ost.ost_lostfound_ino ds' (IsConnected ost.ost_dir_parents) (parent ost.ost_dir_parents)
        (IsConnected root') (parent root') ∧ Dangling root' := by
  induction ds generalizing ost with
  | nil => exact Or.inl ⟨_, _, rfl, rfl, .nil _ _⟩
  | cons d ds ih =>
    rcases connectDirectory_correct accepts numbered (present d (by simp)) with
      ⟨root', eq, inos_eq, numbered', ended⟩ | ⟨eq, dangling⟩
    · have accepts' : Accepts env { ost with ost_dir_parents := root', loop_no := ost.loop_no + 1 } :=
        ⟨accepts.prompt, accepts.lostfound, inos_eq ▸ accepts.is_dir, accepts.link⟩
      rw [List.foldlM_cons, eq]
      rcases ih accepts' numbered' fun e mem => inos_eq ▸ present e (by simp [mem]) with
        ⟨root'', n, rest, inos_eq', visits⟩ | ⟨rest, ds', root'', inos_eq', visits, dangling⟩
      · exact Or.inl ⟨root'', n, rest, inos_eq'.trans inos_eq, .cons ended visits⟩
      · exact Or.inr ⟨rest, d :: ds', root'', inos_eq'.trans inos_eq, .cons ended visits, dangling⟩
    · rw [List.foldlM_cons, eq]
      exact Or.inr ⟨rfl, [], _, rfl, .nil _ _, dangling⟩

end Directory

section Prepare

structure Valid (ost : O2fsckState) : Prop where
  sorted : (inos ost.ost_dir_parents).Pairwise (· < ·)
  nonzero : 0 ∉ inos ost.ost_dir_parents
  unconnected : ∀ dp ∈ ost.ost_dir_parents, dp.dp_connected = false
  numbered : ∀ dp ∈ ost.ost_dir_parents, dp.dp_loop_no ≤ ost.loop_no

theorem addDirParent_correct {ino dot_dot dirent : Nat} {in_orphan_dir : Bool} {root root' : List DirParent}
    (added : addDirParent ino dot_dot dirent in_orphan_dir root = .ok root')
    (sorted : (inos root).Pairwise (· < ·)) :
    (inos root').Pairwise (· < ·) ∧
      ∀ dp ∈ root', dp ∈ root ∨ dp = ⟨ino, dot_dot, dirent, 0, false, in_orphan_dir⟩ := by
  induction root generalizing root' with
  | nil =>
    cases added
    simp [inos]
  | cons dp root ih =>
    rw [inos, List.map_cons, List.pairwise_cons] at sorted
    rw [addDirParent] at added
    split_ifs at added with before after
    · cases added
      refine ⟨?_, fun dp' mem => ?_⟩
      · simp only [inos, List.map_cons, List.pairwise_cons]
        refine ⟨fun x mem => ?_, sorted⟩
        rcases List.mem_cons.mp mem with rfl | mem
        · exact before
        · exact before.trans (sorted.1 x mem)
      · rcases List.mem_cons.mp mem with rfl | mem
        · exact Or.inr rfl
        · exact Or.inl mem
    · rcases rest : addDirParent ino dot_dot dirent in_orphan_dir root with e | root₁
      · rw [rest] at added
        cases added
      · rw [rest] at added
        cases added
        obtain ⟨sorted', members⟩ := ih rest sorted.2
        refine ⟨?_, fun dp' mem => ?_⟩
        · simp only [inos, List.map_cons, List.pairwise_cons]
          refine ⟨fun x mem => ?_, sorted'⟩
          obtain ⟨dp', mem', rfl⟩ := List.mem_map.mp mem
          rcases members dp' mem' with old | rfl
          · exact sorted.1 _ (List.mem_map_of_mem old)
          · exact after
        · rcases List.mem_cons.mp mem with rfl | mem
          · exact Or.inl (by simp)
          · rcases members dp' mem with old | new
            · exact Or.inl (by simp [old])
            · exact Or.inr new

variable {env : Env} {ost : O2fsckState}

theorem Valid.add (valid : Valid ost) {ino dot_dot dirent : Nat} {in_orphan_dir : Bool} {root' : List DirParent}
    (added : addDirParent ino dot_dot dirent in_orphan_dir ost.ost_dir_parents = .ok root')
    (nonzero : ino ≠ 0) {ost' : O2fsckState} (root_eq : ost'.ost_dir_parents = root')
    (loop_eq : ost'.loop_no = ost.loop_no) : Valid ost' := by
  obtain ⟨sorted, members⟩ := addDirParent_correct added valid.sorted
  subst root_eq
  refine ⟨sorted, ?_, ?_, ?_⟩
  · intro mem
    obtain ⟨dp, mem, zero⟩ := List.mem_map.mp mem
    rcases members dp mem with old | rfl
    · exact valid.nonzero (zero ▸ List.mem_map_of_mem old)
    · exact nonzero zero
  · intro dp mem
    rcases members dp mem with old | rfl
    · exact valid.unconnected dp old
    · rfl
  · intro dp mem
    rw [loop_eq]
    rcases members dp mem with old | rfl
    · exact valid.numbered dp old
    · exact Nat.zero_le _

def prepare (env : Env) (ost : O2fsckState) : O2fsckState := checkLostfound env (checkRoot env ost)

theorem Valid.checkRoot (valid : Valid ost) (nonzero : ∀ blkno, env.new_root = .ok blkno → blkno ≠ 0) :
    Valid (Pass3.checkRoot env ost) := by
  rw [Pass3.checkRoot]
  split
  · exact valid
  split
  · exact valid
  split
  next => exact valid
  next blkno new =>
    split
    · exact valid
    split
    next => exact valid
    next parents added =>
      split
      · exact valid.add added (nonzero blkno new) rfl rfl
      · exact valid.add added (nonzero blkno new) rfl rfl

theorem Valid.checkLostfound (valid : Valid ost) (nonzero : ∀ blkno, env.new_lostfound = .ok blkno → blkno ≠ 0) :
    Valid (Pass3.checkLostfound env ost) := by
  rw [Pass3.checkLostfound]
  split
  next => exact ⟨valid.sorted, valid.nonzero, valid.unconnected, valid.numbered⟩
  next =>
    split_ifs
    · exact valid
    split
    next => exact valid
    next blkno new =>
      split_ifs
      · exact valid
      · exact valid
      split
      next => exact valid
      next parents added => exact valid.add added (nonzero blkno new) rfl rfl

end Prepare

section Main

variable {env : Env} {ost : O2fsckState}

def Top (ost : O2fsckState) (ino : Nat) : Prop := ino = ost.fs_root_blkno ∨ ino = ost.fs_sysdir_blkno

instance (ost : O2fsckState) (ino : Nat) : Decidable (Top ost ino) := inferInstanceAs (Decidable (_ ∨ _))

theorem mem_of_lookup {root : List DirParent} {x : Nat} {dp : DirParent}
    (found : dirParentLookup root x = some dp) : dp ∈ root := List.mem_of_find?_eq_some found

theorem parent_eq_zero {root : List DirParent} {x : Nat} (missing : x ∉ inos root) : parent root x = 0 := by
  rw [parent]
  split
  · rfl
  next dp found => exact absurd (mem_inos.mpr ⟨dp, found⟩) missing

theorem markConnected_eq (ost : O2fsckState) (ino : Nat) : markConnected ost ino =
    if ino ∈ inos ost.ost_dir_parents then .ok { ost with ost_dir_parents := connectAt ost.ost_dir_parents ino }
    else .error .internalFailure := by
  rw [markConnected]
  cases found : dirParentLookup ost.ost_dir_parents ino <;> simp [mem_inos, found, connectAt]

def marked (ost : O2fsckState) : O2fsckState :=
  { ost with
    ost_dir_parents := connectAt (connectAt ost.ost_dir_parents ost.fs_root_blkno) ost.fs_sysdir_blkno }

theorem marked_correct (valid : Valid ost) (present : ∀ ino, Top ost ino → ino ∈ inos ost.ost_dir_parents) :
    inos (marked ost).ost_dir_parents = inos ost.ost_dir_parents ∧
      parent (marked ost).ost_dir_parents = parent ost.ost_dir_parents ∧
      Numbered ost.loop_no (marked ost).ost_dir_parents ∧ IsConnected (marked ost).ost_dir_parents = Top ost := by
  have numbered : Numbered ost.loop_no ost.ost_dir_parents := fun x dp found =>
    valid.numbered dp (mem_of_lookup found)
  refine ⟨inos_connect.trans inos_connect, parent_connect.trans parent_connect, numbered.connect.connect, ?_⟩
  funext x
  have none_yet : ¬IsConnected ost.ost_dir_parents x := by
    rintro ⟨dp, found, connected⟩
    rw [valid.unconnected dp (mem_of_lookup found)] at connected
    cases connected
  refine propext ?_
  rw [marked, isConnected_connect (inos_connect.symm ▸ present _ (Or.inr rfl)),
    isConnected_connect (present _ (Or.inl rfl)), Top]
  simp [none_yet]

def connectAll (env : Env) (ost : O2fsckState) : Except Errcode O2fsckState := do
  let ost ← markConnected ost ost.fs_root_blkno
  let ost ← markConnected ost ost.fs_sysdir_blkno
  (inos ost.ost_dir_parents).foldlM (connectDirectory env) ost

theorem connectAll_cases (env : Env) (ost : O2fsckState) :
    (∀ ino, Top ost ino → ino ∈ inos ost.ost_dir_parents) ∧
      connectAll env ost = (inos (marked ost).ost_dir_parents).foldlM (connectDirectory env) (marked ost) ∨
    ¬(∀ ino, Top ost ino → ino ∈ inos ost.ost_dir_parents) ∧ connectAll env ost = .error .internalFailure := by
  have both : (∀ ino, Top ost ino → ino ∈ inos ost.ost_dir_parents) ↔
      ost.fs_root_blkno ∈ inos ost.ost_dir_parents ∧ ost.fs_sysdir_blkno ∈ inos ost.ost_dir_parents := by
    simp [Top]
  rw [both, connectAll, markConnected_eq]
  by_cases root : ost.fs_root_blkno ∈ inos ost.ost_dir_parents
  · simp only [if_pos root, bind, Except.bind, markConnected_eq, inos_connect]
    by_cases sysdir : ost.fs_sysdir_blkno ∈ inos ost.ost_dir_parents
    · exact Or.inl ⟨⟨root, sysdir⟩, by rw [if_pos sysdir]; rfl⟩
    · exact Or.inr ⟨fun all => sysdir all.2, by rw [if_neg sysdir]⟩
  · exact Or.inr ⟨fun all => root all.1, by rw [if_neg root]; rfl⟩

theorem connectAll_correct (valid : Valid ost) (accepts : Accepts env ost) :
    ((∀ ino, Top ost ino → ino ∈ inos ost.ost_dir_parents) →
      (∀ x ∈ inos ost.ost_dir_parents, Top ost x ∨ parent ost.ost_dir_parents x = 0 ∨
        parent ost.ost_dir_parents x ∈ inos ost.ost_dir_parents) → ∃ ost', connectAll env ost = .ok ost') ∧
    ∀ ost', connectAll env ost = .ok ost' →
      ((∀ d ∈ inos ost'.ost_dir_parents, Reaches (parent ost'.ost_dir_parents) (Top ost') d) ↔
        (∀ c ∈ inos ost.ost_dir_parents, ¬Stranded (parent ost.ost_dir_parents) (Top ost) c) ∧
          ((∀ d ∈ inos ost.ost_dir_parents, Reaches (parent ost.ost_dir_parents) (Top ost) d) ∨
            Reaches (parent ost.ost_dir_parents) (Top ost) ost.ost_lostfound_ino)) := by
  rcases connectAll_cases env ost with ⟨present, eq⟩ | ⟨missing, failed⟩
  · have zero : parent ost.ost_dir_parents 0 = 0 := parent_eq_zero valid.nonzero
    have below : ¬Top ost 0 := fun h => valid.nonzero (present 0 h)
    obtain ⟨inos_eq, parent_eq, numbered, connected⟩ := marked_correct valid present
    have accepts' : Accepts env (marked ost) :=
      ⟨accepts.prompt, accepts.lostfound, inos_eq ▸ accepts.is_dir, accepts.link⟩
    have run := connectDirectories_correct (inos (marked ost).ost_dir_parents) accepts' numbered fun _ h => h
    rw [← eq, inos_eq, parent_eq, connected] at run
    rcases run with ⟨root', n, done, same, visits⟩ | ⟨failed, ds', root', same, visits, x, mem, open_here, up, missing⟩
    · refine ⟨fun _ _ => ⟨_, done⟩, fun ost' done' => ?_⟩
      obtain rfl := Except.ok.inj (done.symm.trans done')
      show (∀ d ∈ inos root', Reaches (parent root') (Top ost) d) ↔ _
      rw [same]
      refine visits.reaches_iff zero below valid.sorted valid.nonzero fun e up => ?_
      by_contra missing
      exact up (parent_eq_zero missing)
    · refine ⟨fun _ closed => ?_, fun ost' done => ?_⟩
      · have after := visits.between .start zero below
        rw [after.parent_eq open_here] at up missing
        rw [same] at mem missing
        rcases closed x mem with top | none_left | there
        · exact absurd (after.tops x top) open_here
        · exact absurd none_left up
        · exact absurd there missing
      · rw [failed] at done
        cases done
  · refine ⟨fun present => absurd present missing, fun ost' done => ?_⟩
    rw [failed] at done
    cases done

theorem o2fsckPass3_connects_iff (valid : Valid ost)
    (new_root : ∀ blkno, env.new_root = .ok blkno → blkno ≠ 0)
    (new_lostfound : ∀ blkno, env.new_lostfound = .ok blkno → blkno ≠ 0) (accepts : Accepts env (prepare env ost)) :
    let dirs := inos (prepare env ost).ost_dir_parents
    let up := parent (prepare env ost).ost_dir_parents
    let top := Top (prepare env ost)
    ((∀ ino, top ino → ino ∈ dirs) → (∀ x ∈ dirs, top x ∨ up x = 0 ∨ up x ∈ dirs) →
      ∃ ost', o2fsckPass3 env ost = .ok ost') ∧
    ∀ ost', o2fsckPass3 env ost = .ok ost' →
      ((∀ d ∈ inos ost'.ost_dir_parents, Reaches (parent ost'.ost_dir_parents) (Top ost') d) ↔
        (∀ c ∈ dirs, ¬Stranded up top c) ∧
          ((∀ d ∈ dirs, Reaches up top d) ∨ Reaches up top (prepare env ost).ost_lostfound_ino)) := by
  have valid' : Valid (prepare env ost) := (valid.checkRoot new_root).checkLostfound new_lostfound
  exact connectAll_correct valid' accepts

def sampleEnv : Env where
  prompt := fun _ _ => true
  root_allocated := true
  new_root := .error .noMemory
  new_lostfound := .error .noMemory
  init_dir := fun _ => none
  write_primary_super := none
  lookup_lostfound := fun _ => some 7
  is_dir := fun _ => .ok true
  link := fun _ _ => none
  dot_dot_fixed := fun _ => true

def sampleState (dirs : List (Nat × Nat)) : O2fsckState :=
  ⟨5, 6, 0, ([(5, 5), (6, 5), (7, 5)] ++ dirs).map fun (d : Nat × Nat) => ⟨d.1, d.2, d.2, 0, false, false⟩, 0⟩

theorem two_cycle_not_broken :
    ∃ ost', o2fsckPass3 sampleEnv (sampleState [(10, 11), (11, 10)]) = .ok ost' ∧
      10 ∈ inos ost'.ost_dir_parents ∧ ¬Reaches (parent ost'.ost_dir_parents) (Top ost') 10 := by
  have run : o2fsckPass3 sampleEnv (sampleState [(10, 11), (11, 10)]) = .ok ⟨5, 6, 7,
      [⟨5, 5, 5, 3, true, false⟩, ⟨6, 5, 5, 0, true, false⟩, ⟨7, 5, 5, 0, true, false⟩,
        ⟨10, 11, 11, 4, true, false⟩, ⟨11, 10, 10, 4, true, false⟩], 5⟩ := by
    decide
  refine ⟨_, run, by decide, not_reaches_of_cycle (n := 2) (by omega) (by decide) fun j lt => ?_⟩
  have : j = 0 ∨ j = 1 := by omega
  rcases this with rfl | rfl <;> decide

theorem orphan_connected :
    ∃ ost', o2fsckPass3 sampleEnv (sampleState [(12, 0)]) = .ok ost' ∧
      ∀ d ∈ inos ost'.ost_dir_parents, Reaches (parent ost'.ost_dir_parents) (Top ost') d := by
  obtain ⟨completes, connects⟩ := @o2fsckPass3_connects_iff sampleEnv (sampleState [(12, 0)])
    ⟨by decide, by decide, by decide, by decide⟩ nofun nofun ⟨fun _ _ => rfl, by decide, fun _ _ => rfl, fun _ => rfl⟩
  obtain ⟨ost', done⟩ := completes (by rintro ino (rfl | rfl) <;> decide) (by decide)
  refine ⟨ost', done, (connects ost' done).mpr ⟨?_, Or.inr ⟨1, Or.inl rfl⟩⟩⟩
  intro c mem stranded
  obtain ⟨-, ⟨m, pos, period⟩, lost, -⟩ := stranded
  have mem' : c ∈ [5, 6, 7, 12] := mem
  rw [List.mem_cons, List.mem_cons, List.mem_cons, List.mem_singleton] at mem'
  rcases mem' with rfl | rfl | rfl | rfl
  · exact lost ⟨0, Or.inl rfl⟩
  · exact lost ⟨0, Or.inr rfl⟩
  · exact lost ⟨1, Or.inl rfl⟩
  · obtain ⟨m, rfl⟩ : ∃ k, m = k + 1 := ⟨m - 1, by omega⟩
    have zero : (parent (prepare sampleEnv (sampleState [(12, 0)])).ost_dir_parents)^[m] 0 = 0 :=
      iterate_fixed rfl m
    have : (0 : Nat) = 12 := zero.symm.trans period
    omega

end Main

end Ocfs2.Pass3
