import Ocfs2.Fsck.Pass0

set_option autoImplicit false

namespace Ocfs2.Pass0

open ByteBuffer Bitops Function

section Groups

variable (fs : Filesys) (generation owner : Nat)

structure Good (disk : Disk) (g : Nat) (gd : GroupDesc) : Prop where
  range : blockOutOfRange fs g = false
  read : disk g = .groupDesc gd
  gen : gd.bg_generation = generation
  parent : gd.bg_parent_dinode = owner
  blkno : gd.bg_blkno = g
  free : gd.bg_free_bits_count ≤ findMaxFreeBits gd

def Bad (disk : Disk) (g : Nat) : Prop :=
  blockOutOfRange fs g = true ∨
    ∀ gd, disk g = .groupDesc gd → gd.bg_generation ≠ generation ∨ gd.bg_parent_dinode ≠ owner

def Seg (disk : Disk) : Nat → List Nat → Nat → Prop
  | a, [], b => a = b
  | a, g :: gs, b => a = g ∧ ∃ gd, disk a = .groupDesc gd ∧ Seg disk gd.bg_next_group gs b

def bits (disk : Disk) (g : Nat) : Nat :=
  match disk g with
  | .groupDesc gd => gd.bg_bits
  | _ => 0

def freeBits (disk : Disk) (g : Nat) : Nat :=
  match disk g with
  | .groupDesc gd => gd.bg_free_bits_count
  | _ => 0

structure Checked (disk disk' : Disk) (g : Nat) (gd gd' : GroupDesc) : Prop where
  read : disk' g = .groupDesc gd'
  bits : gd'.bg_bits = gd.bg_bits
  gen : gd'.bg_generation = gd.bg_generation
  parent : gd'.bg_parent_dinode = gd.bg_parent_dinode ∨ gd'.bg_parent_dinode = owner
  next : gd'.bg_next_group = gd.bg_next_group ∨
    gd'.bg_next_group = 0 ∧ gd.bg_next_group ≠ 0 ∧ Bad fs generation owner disk gd.bg_next_group
  good : Good fs generation owner disk g gd →
    Good fs generation owner disk' g gd' ∧ gd'.bg_free_bits_count = gd.bg_free_bits_count

structure Checks (disk disk' : Disk) : Prop where
  groups : ∀ g gd, disk g = .groupDesc gd → ∃ gd', Checked fs generation owner disk disk' g gd gd'
  others : ∀ g, (∀ gd, disk g ≠ .groupDesc gd) → ∀ gd, disk' g ≠ .groupDesc gd

variable {fs generation owner} {disk disk' : Disk}

variable {g : Nat} {gd : GroupDesc} {gs : List Nat}

theorem read_inj {gd' : GroupDesc} (read : disk g = .groupDesc gd) (read' : disk g = .groupDesc gd') :
    gd = gd' :=
  Block.groupDesc.inj (read.symm.trans read')

theorem Checked.same (read : disk' g = .groupDesc gd) :
    Checked fs generation owner disk disk' g gd gd :=
  ⟨read, rfl, rfl, .inl rfl, .inl rfl, fun good => ⟨{ good with read }, rfl⟩⟩

theorem Checks.refl (disk : Disk) : Checks fs generation owner disk disk :=
  ⟨fun _ gd read => ⟨gd, .same read⟩, fun _ other => other⟩

theorem checks_update {blkno : Nat} {block : Block}
    (group : ∀ gd, disk blkno = .groupDesc gd →
      ∃ gd', Checked fs generation owner disk (update disk blkno block) blkno gd gd')
    (other : (∀ gd, disk blkno ≠ .groupDesc gd) → ∀ gd, block ≠ .groupDesc gd) :
    Checks fs generation owner disk (update disk blkno block) := by
  refine ⟨fun g gd read => ?_, fun g => ?_⟩
  · by_cases here : g = blkno
    · subst here
      exact group gd read
    · exact ⟨gd, .same ((update_of_ne here _ _).trans read)⟩
  · by_cases here : g = blkno
    · subst here
      rwa [update_self]
    · rw [update_of_ne here]
      exact id

section

variable (checks : Checks fs generation owner disk disk')

include checks

theorem Checks.bad (bad : Bad fs generation owner disk' g) : Bad fs generation owner disk g := by
  rcases bad with range | bad
  · exact Or.inl range
  · refine Or.inr fun gd read => ?_
    obtain ⟨gd', checked⟩ := checks.groups g gd read
    rcases bad gd' checked.read with wrong | wrong
    · exact Or.inl (checked.gen ▸ wrong)
    · rcases checked.parent with same | set
      · exact Or.inr (same ▸ wrong)
      · exact absurd set wrong

theorem Checks.trans {disk'' : Disk} (after : Checks fs generation owner disk' disk'') :
    Checks fs generation owner disk disk'' := by
  refine ⟨fun g gd read => ?_, fun g other => after.others g (checks.others g other)⟩
  obtain ⟨gd₁, one⟩ := checks.groups g gd read
  obtain ⟨gd₂, two⟩ := after.groups g gd₁ one.read
  refine ⟨gd₂, two.read, two.bits.trans one.bits, two.gen.trans one.gen, ?_, ?_, fun good => ?_⟩
  · rcases two.parent with same | set
    · rw [same]
      exact one.parent
    · exact Or.inr set
  · rcases two.next with same | ⟨zero, nonzero, bad⟩
    · rw [same]
      exact one.next
    · rcases one.next with same | ⟨zero', -, -⟩
      · exact Or.inr ⟨zero, same ▸ nonzero, checks.bad (same ▸ bad)⟩
      · exact absurd zero' nonzero
  · obtain ⟨good', free'⟩ := one.good good
    obtain ⟨good'', free''⟩ := two.good good'
    exact ⟨good'', free''.trans free'⟩

theorem Checks.good (good : ∃ gd, Good fs generation owner disk g gd) :
    ∃ gd, Good fs generation owner disk' g gd := by
  obtain ⟨gd, good⟩ := good
  obtain ⟨gd', checked⟩ := checks.groups g gd good.read
  exact ⟨gd', (checked.good good).1⟩

theorem Checks.bits (good : ∃ gd, Good fs generation owner disk g gd) :
    Pass0.bits disk' g = Pass0.bits disk g ∧ freeBits disk' g = freeBits disk g := by
  obtain ⟨gd, good⟩ := good
  obtain ⟨gd', checked⟩ := checks.groups g gd good.read
  simp only [Pass0.bits, freeBits, checked.read, good.read]
  exact ⟨checked.bits, (checked.good good).2⟩

end

theorem Good.not_bad (good : Good fs generation owner disk g gd) :
    ¬Bad fs generation owner disk g := by
  rintro (range | bad)
  · rw [good.range] at range
    cases range
  · rcases bad gd good.read with wrong | wrong
    · exact wrong good.gen
    · exact wrong good.parent

theorem Good.ne_zero (good : Good fs generation owner disk g gd) : g ≠ 0 := by
  rintro rfl
  have := good.range
  simp [blockOutOfRange] at this

theorem Seg.append {a b c : Nat} {gs' : List Nat} (first : Seg disk a gs b) (second : Seg disk b gs' c) :
    Seg disk a (gs ++ gs') c := by
  induction gs generalizing a with
  | nil =>
    obtain rfl : a = b := first
    exact second
  | cons g gs ih =>
    obtain ⟨rfl, gd, read, rest⟩ := first
    exact ⟨rfl, gd, read, ih rest⟩

theorem Seg.same_next {a b blkno : Nat} {gd' : GroupDesc} (seg : Seg disk a gs b)
    (read : disk blkno = .groupDesc gd) (next : gd'.bg_next_group = gd.bg_next_group) :
    Seg (update disk blkno (.groupDesc gd')) a gs b := by
  induction gs generalizing a with
  | nil => exact seg
  | cons g gs ih =>
    obtain ⟨rfl, gd₁, read₁, rest⟩ := seg
    by_cases here : a = blkno
    · subst here
      obtain rfl := read_inj read read₁
      exact ⟨rfl, gd', update_self .., next ▸ ih rest⟩
    · exact ⟨rfl, gd₁, (update_of_ne here _ _).trans read₁, ih rest⟩

theorem Seg.unique {c : Nat} {gs' : List Nat} (seg : Seg disk c gs 0) (seg' : Seg disk c gs' 0)
    (nonzero : 0 ∉ gs) (nonzero' : 0 ∉ gs') : gs = gs' := by
  induction gs generalizing c gs' with
  | nil =>
    obtain rfl : c = 0 := seg
    cases gs' with
    | nil => rfl
    | cons g gs' => simp [← seg'.1] at nonzero'
  | cons g gs ih =>
    cases gs' with
    | nil =>
      obtain rfl : c = 0 := seg'
      simp [← seg.1] at nonzero
    | cons g' gs' =>
      obtain ⟨rfl, gd, read, rest⟩ := seg
      obtain ⟨rfl, gd', read', rest'⟩ := seg'
      obtain rfl := read_inj read read'
      rw [ih rest rest' (fun mem => nonzero (by simp [mem])) fun mem => nonzero' (by simp [mem])]

def Tally (disk : Disk) (gs : List Nat) (total free : Nat) : Prop :=
  total = (gs.map (bits disk)).sum ∧ free = (gs.map (freeBits disk)).sum

theorem Tally.add {gs' all : List Nat} {total free total' free' : Nat} (one : Tally disk gs total free)
    (two : Tally disk gs' total' free') (perm : all.Perm (gs ++ gs')) :
    Tally disk all (total + total') (free + free') := by
  constructor
  · rw [(perm.map _).sum_eq, List.map_append, List.sum_append, ← one.1, ← two.1]
  · rw [(perm.map _).sum_eq, List.map_append, List.sum_append, ← one.2, ← two.2]

theorem Tally.checks {total free : Nat} (counts : Tally disk gs total free)
    (checks : Checks fs generation owner disk disk') (good : ∀ g ∈ gs, ∃ gd, Good fs generation owner disk g gd) :
    Tally disk' gs total free := by
  constructor
  · rw [counts.1, List.map_congr_left fun g mem => (checks.bits (good g mem)).1.symm]
  · rw [counts.2, List.map_congr_left fun g mem => (checks.bits (good g mem)).2.symm]

end Groups

section Repair

variable {fs : Filesys} {generation : Nat} {prompt : Problem → Nat → Bool} {disk : Disk} {di : Dinode}
  {cs : ChainState} {blkno : Nat} {bg : GroupDesc}

def repaired (owner : Nat) (cs : ChainState) (blkno : Nat) (bg : GroupDesc) : GroupDesc :=
  { bg with
    bg_parent_dinode := owner
    bg_blkno := blkno
    bg_chain := cs.cs_chain_no
    bg_free_bits_count := min bg.bg_free_bits_count (findMaxFreeBits bg) }

theorem repairFields_eq (accept : ∀ p n, prompt p n = true) (cs : ChainState) (blkno : Nat) (bg : GroupDesc) :
    repairFields prompt cs blkno bg = repaired bg.bg_parent_dinode cs blkno bg := by
  have free (bg : GroupDesc) : (if bg.bg_free_bits_count > findMaxFreeBits bg then
      { bg with bg_free_bits_count := findMaxFreeBits bg } else bg) =
      { bg with bg_free_bits_count := min bg.bg_free_bits_count (findMaxFreeBits bg) } := by
    split
    next more => rw [Nat.min_eq_right more.le]
    next less => rw [Nat.min_eq_left (Nat.not_lt.mp less)]
  simp only [repairFields, accept, and_true]
  rw [free]
  by_cases same : bg.bg_blkno = blkno <;> by_cases same' : bg.bg_chain = cs.cs_chain_no <;>
    simp [repaired, same, same', findMaxFreeBits]

def counting (cs : ChainState) (bg : GroupDesc) : ChainState :=
  { cs with
    cs_total_bits := cs.cs_total_bits + bg.bg_bits
    cs_free_bits := cs.cs_free_bits + bg.bg_free_bits_count }

def afterRepair (disk : Disk) (owner : Nat) (cs : ChainState) (blkno : Nat) (bg : GroupDesc) : Repaired :=
  let bg := repaired owner cs blkno bg
  ⟨update disk blkno (.groupDesc bg), counting cs bg, bg, false, none⟩

theorem finishRepair_eq (owner : Nat) (ret : Option Errcode)
    (read : disk blkno = .groupDesc bg) (quiet : bg.bg_parent_dinode = owner → ret = none) :
    finishRepair disk cs bg (repaired owner cs blkno bg) ret = afterRepair disk owner cs blkno bg := by
  rw [finishRepair, afterRepair]
  by_cases changed : repaired owner cs blkno bg = bg
  · have parent : bg.bg_parent_dinode = owner := by
      have := congrArg GroupDesc.bg_parent_dinode changed
      exact this.symm
    rw [if_neg (not_not.mpr changed), quiet parent, changed, ← read, update_eq_self]
    rfl
  · rw [if_pos changed]
    rfl

theorem repairGroupDesc_correct (accept : ∀ p n, prompt p n = true)
    (read : disk blkno = .groupDesc bg) (gen : bg.bg_generation = generation) {r : Repaired}
    (done : repairGroupDesc fs generation prompt disk di cs bg blkno = some r) :
    (r.disk = disk ∧ r.cs = cs ∧ r.clear_ref = true ∧ r.ret = none ∧ bg.bg_parent_dinode ≠ di.i_blkno) ∨
      r = afterRepair disk di.i_blkno cs blkno bg := by
  subst gen
  rw [repairGroupDesc] at done
  simp only [ne_eq, not_true, if_false, accept, and_true] at done
  by_cases parent : bg.bg_parent_dinode = di.i_blkno
  · rw [if_neg (not_not.mpr parent)] at done
    rw [repairFields_eq accept, parent, finishRepair_eq di.i_blkno none read fun _ => rfl] at done
    exact Or.inr (Option.some.inj done).symm
  · rw [if_pos parent] at done
    split at done
    · cases done
    next exist found =>
      split at done
      · obtain rfl := Option.some.inj done
        exact Or.inl ⟨rfl, rfl, rfl, rfl, parent⟩
      · rw [repairFields_eq accept] at done
        have same : repaired di.i_blkno cs blkno { bg with bg_parent_dinode := di.i_blkno } =
            repaired di.i_blkno cs blkno bg := rfl
        simp only [if_true, Bool.false_eq_true, if_false] at done
        rw [same, finishRepair_eq di.i_blkno _ read fun h => absurd h parent] at done
        exact Or.inr (Option.some.inj done).symm

theorem good_repaired {owner : Nat} (range : blockOutOfRange fs blkno = false) (gen : bg.bg_generation = generation)
    (cs : ChainState) :
    Good fs generation owner (afterRepair disk owner cs blkno bg).disk blkno (repaired owner cs blkno bg) where
  range := range
  read := update_self ..
  gen := gen
  parent := rfl
  blkno := rfl
  free := min_le_right _ _

theorem checks_repaired {owner : Nat} (range : blockOutOfRange fs blkno = false) (read : disk blkno = .groupDesc bg)
    (gen : bg.bg_generation = generation) (cs : ChainState) :
    Checks fs generation owner disk (afterRepair disk owner cs blkno bg).disk := by
  refine checks_update (fun gd read' => ?_) fun other => absurd read (other bg)
  obtain rfl := read_inj read read'
  refine ⟨repaired owner cs blkno bg, update_self .., rfl, rfl, .inr rfl, .inl rfl, fun good => ?_⟩
  exact ⟨good_repaired range gen cs, Nat.min_eq_left good.free⟩

end Repair

section Loop

variable {fs : Filesys} {generation : Nat} {prompt : Problem → Nat → Bool} {di : Dinode} {chain : ChainRec}

theorem markGroupUsed_disk (ost : O2fsckState) (cs : ChainState) (blkno : Nat) (just_desc : Bool) :
    (markGroupUsed fs ost cs blkno just_desc).disk = ost.disk := by
  rw [markGroupUsed]
  generalize List.range' _ _ = clusters
  induction clusters generalizing ost with
  | nil => rfl
  | cons cluster rest ih =>
    rw [List.foldl_cons, ih, markClusterAllocated]
    split <;> rfl

theorem noteGroup_disk (ost : O2fsckState) (cs : ChainState) (blkno : Nat) :
    (noteGroup fs ost cs blkno).disk = ost.disk := by
  rw [noteGroup]
  split
  · exact markGroupUsed_disk ..
  · split
    · exact markGroupUsed_disk ..
    · split <;> rfl

theorem noteLast_disk (ost : O2fsckState) (cs : ChainState) (bg1 : Option GroupDesc) :
    (noteLast fs ost cs bg1).disk = ost.disk := by
  cases bg1
  · rfl
  · exact noteGroup_disk ..

structure Walked (fs : Filesys) (generation owner : Nat) (start : Disk) (c : Nat) (disk : Disk)
    (cs : ChainState) (bg1 : Option GroupDesc) (gs : List Nat) : Prop where
  checks : Checks fs generation owner start disk
  seg : Seg disk c gs (pending c bg1)
  good : ∀ g ∈ gs, ∃ gd, Good fs generation owner disk g gd
  last : ∀ bg, bg1 = some bg → ∃ before, gs = before ++ [bg.bg_blkno] ∧ disk bg.bg_blkno = .groupDesc bg
  first : bg1 = none → gs = []
  counts : Tally disk gs cs.cs_total_bits cs.cs_free_bits

variable {start disk : Disk} {c : Nat} {cs : ChainState} {bg1 : Option GroupDesc} {gs : List Nat} {owner : Nat}

theorem Walked.next (walked : Walked fs generation owner start c disk cs bg1 gs)
    {bg : GroupDesc} (range : blockOutOfRange fs (pending c bg1) = false)
    (read : disk (pending c bg1) = .groupDesc bg) (gen : bg.bg_generation = generation) :
    Walked fs generation owner start c (afterRepair disk owner cs (pending c bg1) bg).disk
      (afterRepair disk owner cs (pending c bg1) bg).cs (some (repaired owner cs (pending c bg1) bg))
      (gs ++ [pending c bg1]) := by
  have seg := walked.seg
  generalize pending c bg1 = blkno at range read seg ⊢
  have checks := @checks_repaired fs generation disk blkno bg owner range read gen cs
  have good := @good_repaired fs generation disk blkno bg owner range gen cs
  have counts := walked.counts.checks checks walked.good
  have one : Tally (afterRepair disk owner cs blkno bg).disk [blkno] bg.bg_bits
      (repaired owner cs blkno bg).bg_free_bits_count := by
    simp only [Tally, List.map_singleton, List.sum_singleton, bits, freeBits, good.read, and_true]
    rfl
  have old : Seg (afterRepair disk owner cs blkno bg).disk c gs blkno := seg.same_next read rfl
  refine ⟨walked.checks.trans checks, old.append ⟨rfl, _, update_self .., rfl⟩, ?_, ?_, nofun,
    counts.add one (.refl _)⟩
  · intro g mem
    rcases List.mem_append.mp mem with old | new
    · exact checks.good (walked.good g old)
    · rw [List.mem_singleton.mp new]
      exact ⟨_, good⟩
  · rintro bg' ⟨⟩
    exact ⟨gs, rfl, update_self ..⟩

theorem checkChainLoop_correct (accept : ∀ p n, prompt p n = true) (fuel : Nat) (ost : O2fsckState)
    (walked : Walked fs generation di.i_blkno start chain.c_blkno ost.disk cs bg1 gs) {w : ChainWalk}
    (done : checkChainLoop fs generation prompt di chain fuel ost cs bg1 = some w) :
    ∃ gs', Walked fs generation di.i_blkno start chain.c_blkno w.ost.disk w.cs w.bg1 gs' ∧ w.ret = none ∧
      (w.clear_ref = false → pending chain.c_blkno w.bg1 = 0) ∧
      (w.clear_ref = true → pending chain.c_blkno w.bg1 ≠ 0 ∧
        Bad fs generation di.i_blkno w.ost.disk (pending chain.c_blkno w.bg1)) := by
  induction fuel generalizing ost cs bg1 gs with
  | zero => cases done
  | succ fuel ih =>
    rw [checkChainLoop] at done
    have disk_eq := @noteLast_disk fs ost cs bg1
    generalize noteLast fs ost cs bg1 = noted at done disk_eq
    rw [← disk_eq] at walked
    dsimp only at done
    simp only [accept, and_true] at done
    split_ifs at done with zero range
    · obtain rfl := Option.some.inj done
      exact ⟨gs, walked, rfl, fun _ => zero, nofun⟩
    · obtain rfl := Option.some.inj done
      exact ⟨gs, walked, rfl, nofun, fun _ => ⟨zero, Or.inl range⟩⟩
    rw [readGroupDesc, if_neg range] at done
    cases block : noted.disk (pending chain.c_blkno bg1) with
    | groupDesc bg =>
      simp only [block] at done
      split_ifs at done with gen
      · obtain rfl := Option.some.inj done
        refine ⟨gs, walked, rfl, nofun, fun _ => ⟨zero, Or.inr fun gd read => Or.inl ?_⟩⟩
        rw [block] at read
        obtain rfl := Block.groupDesc.inj read
        exact gen
      split at done
      · cases done
      next r repair =>
        rcases repairGroupDesc_correct accept block (not_not.mp gen) repair with
          ⟨disk_same, cs_same, clear, ret, parent⟩ | rfl
        · simp only [ret, Option.isSome_none, Bool.false_eq_true, if_false, clear, if_true, disk_same,
            cs_same] at done
          obtain rfl := Option.some.inj done
          refine ⟨gs, walked, rfl, nofun, fun _ => ⟨zero, Or.inr fun gd read => Or.inr ?_⟩⟩
          rw [block] at read
          obtain rfl := Block.groupDesc.inj read
          exact parent
        · simp only [afterRepair, Option.isSome_none, Bool.false_eq_true, if_false] at done
          exact ih _ (walked.next (by simpa using range) block (not_not.mp gen)) done
    | dinode other =>
      simp only [block] at done
      obtain rfl := Option.some.inj done
      exact ⟨gs, walked, rfl, by simp, fun _ => ⟨zero, Or.inr fun gd read => by simp [block] at read⟩⟩
    | other =>
      simp only [block] at done
      obtain rfl := Option.some.inj done
      exact ⟨gs, walked, rfl, by simp, fun _ => ⟨zero, Or.inr fun gd read => by simp [block] at read⟩⟩

end Loop

section Check

variable {fs : Filesys} {generation owner : Nat} {disk disk' : Disk}

structure Whole (fs : Filesys) (generation owner : Nat) (disk : Disk) (c : Nat) (gs : List Nat) : Prop where
  seg : Seg disk c gs 0
  good : ∀ g ∈ gs, ∃ gd, Good fs generation owner disk g gd

theorem Whole.zero_notMem {c : Nat} {gs : List Nat} (whole : Whole fs generation owner disk c gs) : 0 ∉ gs := by
  intro mem
  obtain ⟨gd, good⟩ := whole.good 0 mem
  exact good.ne_zero rfl

theorem Whole.checks {c : Nat} {gs : List Nat} (whole : Whole fs generation owner disk c gs)
    (checks : Checks fs generation owner disk disk') : Whole fs generation owner disk' c gs := by
  refine ⟨?_, fun g mem => checks.good (whole.good g mem)⟩
  obtain ⟨seg, good⟩ := whole
  induction gs generalizing c with
  | nil => exact seg
  | cons g gs ih =>
    obtain ⟨rfl, gd, read, rest⟩ := seg
    obtain ⟨gd', checked⟩ := checks.groups c gd read
    have same : gd'.bg_next_group = gd.bg_next_group := by
      rcases checked.next with same | ⟨zero, nonzero, bad⟩
      · exact same
      · -- the next group is a good one, so that the link to it is not cut
        cases gs with
        | nil => exact absurd rest nonzero
        | cons g' gs =>
          obtain ⟨gd'', good'⟩ := good g' (by simp)
          exact absurd (rest.1 ▸ bad) good'.not_bad
    exact ⟨rfl, gd', checked.read, same ▸ ih rest fun x mem => good x (by simp [mem])⟩

theorem Whole.eq_nil_iff {c : Nat} {gs : List Nat} (whole : Whole fs generation owner disk c gs) :
    gs = [] ↔ c = 0 := by
  constructor
  · rintro rfl
    exact whole.seg
  · rintro rfl
    exact whole.seg.unique rfl whole.zero_notMem (by simp)

theorem Seg.cut {c : Nat} {before : List Nat} {bg : GroupDesc} {p : Nat}
    (seg : Seg disk c (before ++ [bg.bg_blkno]) p) (read : disk bg.bg_blkno = .groupDesc bg)
    (good : ∀ g ∈ before ++ [bg.bg_blkno], ∃ gd, Good fs generation owner disk g gd)
    (bad : Bad fs generation owner disk bg.bg_next_group) :
    Seg (update disk bg.bg_blkno (.groupDesc { bg with bg_next_group := 0 })) c (before ++ [bg.bg_blkno]) 0 := by
  induction before generalizing c with
  | nil =>
    obtain ⟨rfl, -⟩ := seg
    exact ⟨rfl, _, update_self .., rfl⟩
  | cons g before ih =>
    rw [List.cons_append] at seg
    obtain ⟨rfl, gd, read', rest⟩ := seg
    have other : c ≠ bg.bg_blkno := by
      rintro rfl
      obtain rfl := read_inj read read'
      obtain ⟨g', more, eq⟩ : ∃ g' more, before ++ [bg.bg_blkno] = g' :: more := by
        cases before <;> simp
      rw [eq] at rest
      obtain ⟨gd, here⟩ := good g' (by rw [List.cons_append, eq]; simp)
      exact here.not_bad (rest.1 ▸ bad)
    exact ⟨rfl, gd, (update_of_ne other _ _).trans read', ih rest fun x mem => good x (by simp at mem ⊢; tauto)⟩

theorem checks_cut {bg : GroupDesc} (read : disk bg.bg_blkno = .groupDesc bg) (nonzero : bg.bg_next_group ≠ 0)
    (bad : Bad fs generation owner disk bg.bg_next_group) :
    Checks fs generation owner disk
      (update disk bg.bg_blkno (.groupDesc { bg with bg_next_group := 0 })) := by
  refine checks_update (fun gd read' => ?_) fun other => absurd read (other bg)
  obtain rfl := read_inj read read'
  refine ⟨_, update_self .., rfl, rfl, .inl rfl, .inr ⟨rfl, nonzero, bad⟩, fun good => ⟨?_, rfl⟩⟩
  exact ⟨good.range, update_self .., good.gen, good.parent, rfl, good.free⟩

theorem checkChain_correct {prompt : Problem → Nat → Bool} (accept : ∀ p n, prompt p n = true) {ost : O2fsckState}
    {di : Dinode} {i : Nat} {chain : ChainRec} {changed : Bool} {c : CheckedChain}
    (done : checkChain fs generation prompt ost di ⟨0, 0, i, di.cl_cpg⟩ chain changed = some c) :
    ∃ gs, Whole fs generation di.i_blkno c.ost.disk c.chain.c_blkno gs ∧
      Checks fs generation di.i_blkno ost.disk c.ost.disk ∧
      Tally c.ost.disk gs c.cs.cs_total_bits c.cs.cs_free_bits ∧
      (c.chain.c_blkno = chain.c_blkno ∨
        c.chain.c_blkno = 0 ∧ Bad fs generation di.i_blkno ost.disk chain.c_blkno) := by
  rw [checkChain] at done
  split at done
  · cases done
  next w walk =>
    have first : Walked fs generation di.i_blkno ost.disk chain.c_blkno ost.disk ⟨0, 0, i, di.cl_cpg⟩ none [] :=
      ⟨.refl _, rfl, by simp, by simp, fun _ => rfl, rfl, rfl⟩
    obtain ⟨gs, walked, ret, ends, cuts⟩ := checkChainLoop_correct accept _ ost first walk
    obtain ⟨wost, wcs, bg1, clear_ref, wret⟩ := w
    dsimp only at walked ret ends cuts
    subst ret
    simp only [Option.isSome_none, Bool.false_eq_true, if_false, accept, and_true] at done
    cases clear_ref with
    | false =>
      have seg := walked.seg
      rw [ends rfl] at seg
      refine ⟨gs, ?_⟩
      dsimp only at done
      split at done <;> obtain rfl := Option.some.inj done <;>
        exact ⟨⟨seg, walked.good⟩, walked.checks, walked.counts, Or.inl rfl⟩
    | true =>
      obtain ⟨nonzero, bad⟩ := cuts rfl
      cases bg1 with
      | none =>
        obtain rfl := walked.first rfl
        have head := walked.checks.bad bad
        refine ⟨[], ?_⟩
        dsimp only at done
        split at done <;> obtain rfl := Option.some.inj done <;>
          exact ⟨⟨rfl, by simp⟩, walked.checks, walked.counts, Or.inr ⟨rfl, head⟩⟩
      | some bg =>
        obtain ⟨before, rfl, read⟩ := walked.last bg rfl
        have cut := checks_cut read nonzero bad
        have seg := Seg.cut walked.seg read walked.good bad
        have counts := walked.counts.checks cut walked.good
        have good (g : Nat) (mem : g ∈ before ++ [bg.bg_blkno]) := cut.good (walked.good g mem)
        refine ⟨before ++ [bg.bg_blkno], ?_⟩
        dsimp only at done
        split at done <;> obtain rfl := Option.some.inj done <;>
          exact ⟨⟨seg, good⟩, walked.checks.trans cut, counts, Or.inl rfl⟩

end Check

end Ocfs2.Pass0
