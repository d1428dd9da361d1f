import Ocfs2.Fsck.Pass0Chain

set_option autoImplicit false

namespace Ocfs2.Pass0

open Function (update update_self update_of_ne)

section Links

variable (fs : Filesys) (owner : Nat)

def ParentEnds (disk : Disk) (gd : GroupDesc) : Prop :=
  gd.bg_parent_dinode ≠ owner →
    (checkGroupParent fs disk gd.bg_blkno gd.bg_parent_dinode gd.bg_chain).isSome = true

def Ends (disk : Disk) : Nat → Nat → Prop
  | 0, _ => False
  | n + 1, b => ∀ gd, readGroupDesc fs disk b = .ok gd → ParentEnds fs owner disk gd ∧ Ends disk n gd.bg_next_group

structure SameLinks (start disk : Disk) : Prop where
  next : ∀ b, (readGroupDesc fs disk b).map GroupDesc.bg_next_group =
    (readGroupDesc fs start b).map GroupDesc.bg_next_group
  inode : ∀ b, readInode fs disk b = readInode fs start b

variable {fs owner} {start disk : Disk}

theorem Ends.mono {n m : Nat} (le : n ≤ m) {b : Nat} (ends : Ends fs owner disk n b) : Ends fs owner disk m b := by
  induction n generalizing m b with
  | zero => exact ends.elim
  | succ n ih =>
    cases m with
    | zero => omega
    | succ m => exact fun gd read => ⟨(ends gd read).1, ih (by omega) (ends gd read).2⟩

theorem findGroup_same (same : SameLinks fs start disk) (group fuel b : Nat) :
    findGroup fs disk group fuel b = findGroup fs start group fuel b := by
  induction fuel generalizing b with
  | zero => rfl
  | succ fuel ih =>
    have next := same.next b
    rw [findGroup, findGroup]
    cases now : readGroupDesc fs disk b <;> cases old : readGroupDesc fs start b <;>
      simp_all [Except.map]

theorem checkGroupParent_same (same : SameLinks fs start disk) (group ino chain : Nat) :
    checkGroupParent fs disk group ino chain = checkGroupParent fs start group ino chain := by
  simp only [checkGroupParent, same.inode, findGroup_same same]

theorem SameLinks.write (same : SameLinks fs start disk) {b : Nat} {gd gd' : GroupDesc}
    (read : readGroupDesc fs disk b = .ok gd) (next : gd'.bg_next_group = gd.bg_next_group) :
    SameLinks fs start (update disk b (.groupDesc gd')) := by
  rw [readGroupDesc] at read
  refine ⟨fun x => ?_, fun x => ?_⟩
  · rw [← same.next x]
    by_cases here : x = b
    · subst here
      simp only [readGroupDesc, update_self]
      split_ifs at read ⊢
      split at read <;> simp_all [Except.map]
    · simp only [readGroupDesc, update_of_ne here]
  · rw [← same.inode x]
    by_cases here : x = b
    · subst here
      simp only [readInode, update_self]
      split_ifs at read ⊢
      split at read <;> simp_all
    · simp only [readInode, update_of_ne here]

end Links

section Rounds

variable {fs : Filesys} {generation : Nat} {prompt : Problem → Nat → Bool} {di : Dinode} {disk : Disk}
  {cs : ChainState} {blkno : Nat} {bg : GroupDesc}

theorem repairFields_keeps (numbered : bg.bg_blkno = blkno) :
    (repairFields prompt cs blkno bg).bg_blkno = blkno ∧
      (repairFields prompt cs blkno bg).bg_next_group = bg.bg_next_group := by
  simp only [repairFields, numbered, ne_eq, not_true, false_and, if_false]
  split_ifs <;> simp [numbered]

theorem repairGroupDesc_returns (numbered : bg.bg_blkno = blkno) (parent : ParentEnds fs di.i_blkno disk bg) :
    ∃ r, repairGroupDesc fs generation prompt disk di cs bg blkno = some r ∧
      (r.disk = disk ∨ r.disk = update disk blkno (.groupDesc r.bg)) ∧
      r.bg.bg_next_group = bg.bg_next_group := by
  have finish (bg' : GroupDesc) (same : bg'.bg_blkno = blkno) (next : bg'.bg_next_group = bg.bg_next_group)
      (ret : Option Errcode) : ∃ r, some (finishRepair disk cs bg (repairFields prompt cs blkno bg') ret) =
        some r ∧ (r.disk = disk ∨ r.disk = update disk blkno (.groupDesc r.bg)) ∧
      r.bg.bg_next_group = bg.bg_next_group := by
    obtain ⟨here, link⟩ := @repairFields_keeps prompt cs blkno bg' same
    refine ⟨_, rfl, ?_⟩
    rw [finishRepair]
    split
    · exact ⟨.inr (by rw [here]), link.trans next⟩
    · exact ⟨.inl rfl, link.trans next⟩
  unfold repairGroupDesc
  -- the generation is repaired first, which changes neither the number nor the link
  generalize first : (if bg.bg_generation ≠ generation ∧ prompt .groupGen blkno = true then
    { bg with bg_generation := generation } else bg) = bg'
  have kept : bg'.bg_blkno = bg.bg_blkno ∧ bg'.bg_parent_dinode = bg.bg_parent_dinode ∧
      bg'.bg_chain = bg.bg_chain ∧ bg'.bg_next_group = bg.bg_next_group := by
    rw [← first]
    split <;> simp
  obtain ⟨number, inode, chain, link⟩ := kept
  by_cases foreign : bg.bg_parent_dinode = di.i_blkno
  · simp only [inode, foreign, ne_eq, not_true, if_false]
    exact finish bg' (number.trans numbered) link none
  · obtain ⟨exist, found⟩ := Option.isSome_iff_exists.mp (parent foreign)
    simp only [inode, number, chain, foreign, ne_eq, not_false_iff, if_true, found]
    split_ifs
    · exact ⟨⟨disk, cs, bg', true, none⟩, rfl, .inl rfl, link⟩
    · exact finish ⟨bg'.bg_generation, di.i_blkno, bg.bg_blkno, bg.bg_chain, bg'.bg_bits, bg'.bg_free_bits_count,
        bg'.bg_next_group, bg'.bg_bitmap⟩ numbered link _
    · exact finish _ (number.trans numbered) link _

variable {start : Disk} {chain : ChainRec}

theorem checkChainLoop_ends (numbered : ∀ b gd, start b = .groupDesc gd → gd.bg_blkno = b) (n : Nat)
    (ost : O2fsckState) (cs : ChainState) (bg1 : Option GroupDesc) (same : SameLinks fs start ost.disk)
    (untouched : ∀ b, Ends fs di.i_blkno start n b → ost.disk b = start b)
    (ends : Ends fs di.i_blkno start n (pending chain.c_blkno bg1)) :
    ∃ fuel, (checkChainLoop fs generation prompt di chain fuel ost cs bg1).isSome = true := by
  -- the rank of the pending block is its least `n`, and the groups behind it have a lower one
  induction n using Nat.strong_induction_on generalizing ost cs bg1 with
  | _ n ih =>
    classical
    have ex : ∃ m, Ends fs di.i_blkno start m (pending chain.c_blkno bg1) := ⟨n, ends⟩
    have here := Nat.find_spec ex
    have low := Nat.find_min' ex ends
    have below (m : Nat) := @Nat.find_min _ _ ex m
    generalize Nat.find ex = rank at here low below
    cases rank with
    | zero => exact here.elim
    | succ m =>
      have fresh : ¬ Ends fs di.i_blkno start m (pending chain.c_blkno bg1) := below m (by omega)
      cases read : readGroupDesc fs ost.disk (pending chain.c_blkno bg1) with
      | error e =>
        refine ⟨1, ?_⟩
        simp only [checkChainLoop, noteLast_disk, read]
        split_ifs <;> cases e <;> rfl
      | ok bg =>
        have old : readGroupDesc fs start (pending chain.c_blkno bg1) = .ok bg := by
          rw [← read, readGroupDesc, readGroupDesc, untouched _ ends]
        obtain ⟨parent, rest⟩ := here bg old
        have number : bg.bg_blkno = pending chain.c_blkno bg1 := by
          rw [readGroupDesc] at old
          split_ifs at old
          split at old
          next gd content =>
            cases old
            exact numbered _ _ content
          next => cases old
        have parent' : ParentEnds fs di.i_blkno ost.disk bg := fun foreign => by
          rw [checkGroupParent_same same]
          exact parent foreign
        obtain ⟨r, run, wrote, next⟩ := @repairGroupDesc_returns fs generation prompt di ost.disk cs _ bg number
          parent'
        have same' : SameLinks fs start r.disk := by
          rcases wrote with none | one
          · rwa [none]
          · rw [one]
            exact same.write read next
        have untouched' (b : Nat) (behind : Ends fs di.i_blkno start m b) : r.disk b = start b := by
          have other : b ≠ pending chain.c_blkno bg1 := fun equal => fresh (equal ▸ behind)
          rcases wrote with none | one
          · rw [none, untouched b (behind.mono (by omega))]
          · rw [one, update_of_ne other, untouched b (behind.mono (by omega))]
        obtain ⟨fuel, done⟩ := ih m (by omega)
          { noteLast fs ost cs bg1 with disk := r.disk } r.cs (some r.bg) same' untouched' (by rwa [pending, next])
        refine ⟨fuel + 1, ?_⟩
        simp only [checkChainLoop, noteLast_disk, read, run]
        split_ifs <;> first | rfl | exact done

def parentOnly : Problem → Nat → Bool := fun problem _ => problem == .groupParent

theorem repairGroupDesc_own (own : bg.bg_parent_dinode = di.i_blkno) : ∃ cs',
    repairGroupDesc fs generation parentOnly disk di cs bg blkno = some ⟨disk, cs', bg, false, none⟩ := by
  refine ⟨(finishRepair disk cs bg bg none).cs, ?_⟩
  simp [repairGroupDesc, own, parentOnly, finishRepair, repairFields]

theorem repairGroupDesc_foreign (foreign : bg.bg_parent_dinode ≠ di.i_blkno) {exist : Except Errcode Bool}
    (found : checkGroupParent fs disk bg.bg_blkno bg.bg_parent_dinode bg.bg_chain = some exist) : ∃ cs',
    repairGroupDesc fs generation parentOnly disk di cs bg blkno =
      some ⟨update disk bg.bg_blkno (.groupDesc { bg with bg_parent_dinode := di.i_blkno }), cs',
        { bg with bg_parent_dinode := di.i_blkno }, false, none⟩ := by
  have changed : { bg with bg_parent_dinode := di.i_blkno } ≠ bg := fun equal =>
    foreign (congrArg GroupDesc.bg_parent_dinode equal).symm
  refine ⟨(finishRepair disk cs bg bg none).cs, ?_⟩
  simp [repairGroupDesc, foreign, parentOnly, found, finishRepair, repairFields, changed]

def Reparented (fs : Filesys) (owner : Nat) (start disk : Disk) : Prop :=
  ∀ b, disk b = start b ∨ ∃ gd, start b = .groupDesc gd ∧ ParentEnds fs owner start gd ∧
    disk b = .groupDesc { gd with bg_parent_dinode := owner }

theorem Reparented.sameLinks {owner : Nat} (same : Reparented fs owner start disk) : SameLinks fs start disk := by
  constructor <;> intro b <;> rcases same b with equal | ⟨gd, old, -, new⟩ <;>
    simp_all [readGroupDesc, readInode]
  split <;> rfl

theorem checkChainLoop_never (numbered : ∀ b gd, start b = .groupDesc gd → gd.bg_blkno = b) (fuel : Nat)
    (ost : O2fsckState) (cs : ChainState) (bg1 : Option GroupDesc)
    (same : Reparented fs di.i_blkno start ost.disk)
    (endless : ∀ n, ¬ Ends fs di.i_blkno start n (pending chain.c_blkno bg1)) :
    checkChainLoop fs generation parentOnly di chain fuel ost cs bg1 = none := by
  induction fuel generalizing ost cs bg1 with
  | zero => rfl
  | succ fuel ih =>
    generalize at_pending : pending chain.c_blkno bg1 = b at endless
    obtain ⟨gd, range, content⟩ : ∃ gd, blockOutOfRange fs b = false ∧ start b = .groupDesc gd := by
      by_contra none
      refine endless 1 fun gd read => absurd ⟨gd, ?_⟩ none
      rw [readGroupDesc] at read
      split_ifs at read with out
      split at read
      next gd' content => exact ⟨by simpa using out, by cases read; exact content⟩
      next => cases read
    have nonzero : b ≠ 0 := by
      rintro rfl
      simp [blockOutOfRange] at range
    have onward (fits : ParentEnds fs di.i_blkno start gd) (n : Nat) :
        ¬ Ends fs di.i_blkno start n gd.bg_next_group := fun ends => endless (n + 1) fun gd' read => by
      obtain rfl : gd = gd' := by simpa [readGroupDesc, range, content] using read
      exact ⟨fits, ends⟩
    -- no answer of these ends the walk, which goes on behind the group
    have passed {r : Repaired} {bg : GroupDesc} (read : ost.disk b = .groupDesc bg)
        (run : repairGroupDesc fs generation parentOnly ost.disk di cs bg b = some r) (go : r.clear_ref = false)
        (well : r.ret = none) (next : r.bg.bg_next_group = gd.bg_next_group)
        (still : Reparented fs di.i_blkno start r.disk) (fits : ParentEnds fs di.i_blkno start gd) :
        checkChainLoop fs generation parentOnly di chain (fuel + 1) ost cs bg1 = none := by
      have refused : parentOnly .chainLinkGen b = false := rfl
      have rest := ih { noteLast fs ost cs bg1 with disk := r.disk } r.cs (some r.bg) still
        (by rw [pending, next]; exact onward fits)
      simpa [checkChainLoop, at_pending, noteLast_disk, readGroupDesc, range, read, run, nonzero, refused, go,
        well] using rest
    rcases same b with equal | ⟨gd', old, fits, new⟩
    · rw [content] at equal
      by_cases parent : gd.bg_parent_dinode = di.i_blkno
      · obtain ⟨cs', run⟩ := @repairGroupDesc_own fs generation di ost.disk cs b gd parent
        exact passed equal run rfl rfl rfl same fun foreign => absurd parent foreign
      · cases found : checkGroupParent fs ost.disk gd.bg_blkno gd.bg_parent_dinode gd.bg_chain with
        | none =>
          have refused : parentOnly .chainLinkGen b = false := rfl
          have stuck : repairGroupDesc fs generation parentOnly ost.disk di cs gd b = none := by
            simp [repairGroupDesc, parentOnly, parent, found]
          simp [checkChainLoop, at_pending, noteLast_disk, readGroupDesc, range, equal, stuck, nonzero, refused]
        | some exist =>
          obtain ⟨cs', run⟩ := @repairGroupDesc_foreign fs generation di ost.disk cs b gd parent _ found
          have fits : ParentEnds fs di.i_blkno start gd := fun _ => by
            rw [← checkGroupParent_same same.sameLinks, found]
            rfl
          refine passed equal run rfl rfl rfl (fun x => ?_) fits
          by_cases here : x = gd.bg_blkno
          · exact .inr ⟨gd, by rw [here, numbered b gd content, content], fits, by simp [here]⟩
          · simp only [update_of_ne here]
            exact same x
    · obtain rfl : gd' = gd := by simpa [old] using content
      obtain ⟨cs', run⟩ := @repairGroupDesc_own fs generation di ost.disk cs b
        { gd' with bg_parent_dinode := di.i_blkno } rfl
      exact passed new run rfl rfl rfl same fits

end Rounds

def oneGroup (next : Nat) : O2fsckState :=
  ⟨fun b => if b = 3 then .groupDesc ⟨7, 9, 3, 0, 8, 8, next, [0]⟩ else .other, fun _ => false, fun _ => false,
    none, none⟩

def allocatorInode : Dinode :=
  ⟨true, true, true, true, 9, 8, 0, 8, 0, 8, 1, 1, 1, [⟨8, 8, 3⟩]⟩

theorem oneGroup_numbered (next b : Nat) (gd : GroupDesc) (here : (oneGroup next).disk b = .groupDesc gd) :
    gd.bg_blkno = b := by
  simp only [oneGroup] at here
  split_ifs at here with three
  · cases here
    exact three.symm

end Ocfs2.Pass0
