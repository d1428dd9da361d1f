import Ocfs2.Fsck.Pass0Chain

set_option autoImplicit false

namespace Ocfs2.Pass0

open ByteBuffer Bitops Function

variable {cs rest : List (List Nat)}

section Arrange

def arrange : List (List Nat) → List (List Nat) × List (List Nat)
  | [] => ([], [])
  | c :: cs =>
    let (rest, moved) := arrange cs
    if c = [] then
      match rest.getLast? with
      | none => ([], moved)
      | some l => (l :: rest.dropLast, l :: moved)
    else (c :: rest, moved)

theorem arrange_cons_of_ne {c : List Nat} (nonempty : c ≠ []) :
    arrange (c :: cs) = (c :: (arrange cs).1, (arrange cs).2) := by
  simp [arrange, nonempty]

theorem arrange_cons_nil (none_left : (arrange cs).1 = []) :
    arrange ([] :: cs) = ([], (arrange cs).2) := by
  simp [arrange, none_left]

theorem arrange_cons_move {l : List Nat} (last : (arrange cs).1 = rest ++ [l]) :
    arrange ([] :: cs) = (l :: rest, l :: (arrange cs).2) := by
  simp [arrange, last]

theorem arrange_perm (cs : List (List Nat)) : (arrange cs).1.Perm (cs.filter (· ≠ [])) := by
  induction cs with
  | nil => exact .refl _
  | cons c cs ih =>
    by_cases empty : c = []
    · subst empty
      rcases List.eq_nil_or_concat (arrange cs).1 with none_left | ⟨rest, l, last⟩
      · rw [arrange_cons_nil none_left, ← none_left]
        exact ih
      · rw [List.concat_eq_append] at last
        rw [arrange_cons_move last]
        refine List.Perm.trans ?_ (last ▸ ih)
        exact (List.perm_append_singleton l rest).symm
    · rw [arrange_cons_of_ne empty, List.filter_cons_of_pos (by simpa using empty)]
      exact ih.cons c

theorem arrange_moved {l : List Nat} (mem : l ∈ (arrange cs).2) : l ∈ cs := by
  induction cs with
  | nil => simp [arrange] at mem
  | cons c cs ih =>
    by_cases empty : c = []
    · subst empty
      rcases List.eq_nil_or_concat (arrange cs).1 with none_left | ⟨rest, l', last⟩
      · rw [arrange_cons_nil none_left] at mem
        exact List.mem_cons_of_mem _ (ih mem)
      · rw [List.concat_eq_append] at last
        rw [arrange_cons_move last] at mem
        rcases List.mem_cons.mp mem with rfl | mem
        · have : l ∈ cs.filter (· ≠ []) := (arrange_perm cs).subset (by rw [last]; simp)
          exact List.mem_cons_of_mem _ (List.mem_of_mem_filter this)
        · exact List.mem_cons_of_mem _ (ih mem)
    · rw [arrange_cons_of_ne empty] at mem
      exact List.mem_cons_of_mem _ (ih mem)

theorem arrange_flatten (found : List (List Nat)) (g : Nat) :
    g ∈ (arrange found).1.flatten ↔ g ∈ found.flatten := by
  simp only [List.mem_flatten]
  constructor
  · rintro ⟨gs, mem, g_mem⟩
    exact ⟨gs, List.mem_of_mem_filter ((arrange_perm found).subset mem), g_mem⟩
  · rintro ⟨gs, mem, g_mem⟩
    have nonempty : gs ≠ [] := List.ne_nil_of_mem g_mem
    exact ⟨gs, (arrange_perm found).symm.subset (List.mem_filter.mpr ⟨mem, by simpa using nonempty⟩), g_mem⟩

abbrev countedGroups (found : List (List Nat)) : List Nat := (found ++ (arrange found).2).flatten

theorem mem_countedGroups (found : List (List Nat)) (g : Nat) :
    g ∈ countedGroups found ↔ g ∈ (arrange found).1.flatten := by
  rw [arrange_flatten, countedGroups, List.flatten_append, List.mem_append]
  refine ⟨fun mem => mem.elim id fun mem => ?_, Or.inl⟩
  obtain ⟨gs, moved, mem⟩ := List.mem_flatten.mp mem
  exact List.mem_flatten.mpr ⟨gs, arrange_moved moved, mem⟩

theorem sum_eq_iff (f : Nat → Nat) (gs : List Nat) :
    (gs.map f).sum = ∑ g ∈ gs.toFinset, f g ↔ ∀ g, 1 < gs.count g → f g = 0 := by
  rw [Finset.sum_list_map_count]
  have split (g : Nat) (mem : g ∈ gs.toFinset) : gs.count g • f g = (gs.count g - 1) * f g + f g := by
    have pos : 0 < gs.count g := List.count_pos_iff.mpr (List.mem_toFinset.mp mem)
    nth_rewrite 1 [show gs.count g = (gs.count g - 1) + 1 by omega]
    ring
  rw [Finset.sum_congr rfl split, Finset.sum_add_distrib, Nat.add_eq_right, Finset.sum_eq_zero_iff]
  constructor
  · intro zero g twice
    have mem : g ∈ gs.toFinset := List.mem_toFinset.mpr (List.count_pos_iff.mp (by omega))
    rcases Nat.mul_eq_zero.mp (zero g mem) with h | h
    · omega
    · exact h
  · intro zero g _
    rcases Nat.lt_or_ge 1 (gs.count g) with twice | once
    · rw [zero g twice, Nat.mul_zero]
    · rw [Nat.sub_eq_zero_of_le once, Nat.zero_mul]

end Arrange

section Loop

variable {fs : Filesys} {generation owner : Nat} {prompt : Problem → Nat → Bool} {start disk disk' : Disk}

def Linked (fs : Filesys) (generation owner : Nat) (disk : Disk) (c : Nat) (gs : List Nat) : Prop :=
  0 ∉ gs ∧ ∃ b, Seg disk c gs b ∧ (b = 0 ∨ Bad fs generation owner disk b)

theorem Whole.linked {c : Nat} {gs : List Nat} (whole : Whole fs generation owner disk c gs)
    (checks : Checks fs generation owner start disk) : Linked fs generation owner start c gs := by
  refine ⟨whole.zero_notMem, ?_⟩
  obtain ⟨seg, good⟩ := whole
  induction gs generalizing c with
  | nil => exact ⟨c, rfl, Or.inl seg⟩
  | cons g gs ih =>
    obtain ⟨rfl, gd', read', rest⟩ := seg
    obtain ⟨gd, read⟩ : ∃ gd, start c = .groupDesc gd := by
      by_contra none
      push Not at none
      exact checks.others c none gd' read'
    obtain ⟨gd₁, checked⟩ := checks.groups c gd read
    obtain rfl := read_inj read' checked.read
    have good' (x : Nat) (mem : x ∈ gs) : ∃ gd, Good fs generation owner disk x gd := good x (by simp [mem])
    rcases checked.next with same | ⟨zero, -, bad⟩
    · obtain ⟨b, seg, stop⟩ := ih rest good'
      exact ⟨b, ⟨rfl, gd, read, same ▸ seg⟩, stop⟩
    · -- the link was cut, so that nothing follows
      rw [zero] at rest
      obtain rfl := (Whole.eq_nil_iff ⟨rest, good'⟩).mpr rfl
      exact ⟨gd.bg_next_group, ⟨rfl, gd, read, rfl⟩, Or.inr bad⟩

theorem checkChain_again (accept : ∀ p n, prompt p n = true) {ost : O2fsckState} {di : Dinode} {i : Nat}
    {chain : ChainRec} {changed : Bool} {c : CheckedChain} {gs : List Nat}
    (whole : Whole fs generation di.i_blkno ost.disk chain.c_blkno gs) (nonempty : gs ≠ [])
    (done : checkChain fs generation prompt ost di ⟨0, 0, i, di.cl_cpg⟩ chain changed = some c) :
    Whole fs generation di.i_blkno c.ost.disk c.chain.c_blkno gs ∧ c.chain.c_blkno ≠ 0 ∧
      Checks fs generation di.i_blkno ost.disk c.ost.disk ∧
      Tally c.ost.disk gs c.cs.cs_total_bits c.cs.cs_free_bits := by
  obtain ⟨gs', whole', checks, counts, head⟩ := checkChain_correct accept done
  have same : c.chain.c_blkno = chain.c_blkno := by
    rcases head with same | ⟨-, bad⟩
    · exact same
    · cases gs with
      | nil => exact absurd rfl nonempty
      | cons g gs =>
        obtain ⟨gd, good⟩ := whole.good g (by simp)
        exact absurd (whole.seg.1 ▸ bad) good.not_bad
  rw [same] at whole' ⊢
  obtain rfl := whole'.seg.unique (whole.checks checks).seg whole'.zero_notMem whole.zero_notMem
  exact ⟨whole', fun zero => nonempty (whole'.eq_nil_iff.mpr zero), checks, counts⟩

abbrev Wholes (fs : Filesys) (generation owner : Nat) (disk : Disk) (recs : List ChainRec)
    (chains : List (List Nat)) : Prop :=
  List.Forall₂ (fun r gs => Whole fs generation owner disk r.c_blkno gs) recs chains

structure Counted (fs : Filesys) (generation : Nat) (origin : Dinode) (start : Disk) (low : List ChainRec)
    (disk : Disk) (di : Dinode) (sums : Sums) (found : List (List Nat)) : Prop where
  fields : di = { origin with cl_recs := di.cl_recs, cl_next_free_rec := di.cl_next_free_rec }
  checks : Checks fs generation origin.i_blkno start disk
  recs : ∃ recs high, di.cl_recs = low ++ (recs ++ high) ∧ di.cl_next_free_rec = low.length + recs.length ∧
    Wholes fs generation origin.i_blkno disk recs (arrange found).1
  counts : Tally disk (countedGroups found) sums.total sums.free

variable {low : List ChainRec} {origin di : Dinode} {sums : Sums} {found : List (List Nat)}

theorem good_of_wholes {recs : List ChainRec} {chains : List (List Nat)}
    (wholes : Wholes fs generation owner disk recs chains) {g : Nat}
    (mem : g ∈ chains.flatten) : ∃ gd, Good fs generation owner disk g gd := by
  induction wholes with
  | nil => simp at mem
  | cons whole _ ih =>
    rcases List.mem_append.mp (List.flatten_cons ▸ mem) with here | later
    · exact whole.good g here
    · exact ih later

theorem Counted.after (counted : Counted fs generation origin start low disk di sums found)
    (checks : Checks fs generation origin.i_blkno disk disk') :
    Counted fs generation origin start low disk' di sums found := by
  obtain ⟨recs, high, split, next, wholes⟩ := counted.recs
  refine ⟨counted.fields, counted.checks.trans checks, ⟨recs, high, split, next, ?_⟩, ?_⟩
  · exact wholes.imp fun r gs whole => whole.checks checks
  · exact counted.counts.checks checks fun g mem => good_of_wholes wholes ((mem_countedGroups found g).mp mem)

theorem Counted.inode (counted : Counted fs generation origin start low disk di sums found) :
    di.i_blkno = origin.i_blkno := by
  rw [counted.fields]

variable {r r' : ChainRec} {gs : List Nat} {sums' : Sums}

theorem getD_middle (low high : List ChainRec) (r d : ChainRec) : (low ++ r :: high).getD low.length d = r := by
  simp

theorem set_middle (low high : List ChainRec) (r r' : ChainRec) :
    (low ++ r :: high).set low.length r' = low ++ r' :: high := by
  simp

section

variable (counted : Counted fs generation origin start (low ++ [r]) disk di sums found)

include counted

theorem Counted.getRec : di.cl_recs.getD low.length emptyRec = r := by
  obtain ⟨recs, high, split, -, -⟩ := counted.recs
  rw [split, List.append_assoc]
  exact getD_middle ..

theorem Counted.setRec (r' : ChainRec) :
    Counted fs generation origin start (low ++ [r']) disk { di with cl_recs := di.cl_recs.set low.length r' } sums
      found := by
  obtain ⟨recs, high, split, next, whole⟩ := counted.recs
  refine ⟨?_, counted.checks, ⟨recs, high, ?_, by simpa using next, whole⟩, counted.counts⟩
  · rw [counted.fields]
  · simp [split]

theorem Counted.keep {total free : Nat} (whole : Whole fs generation origin.i_blkno disk r.c_blkno gs)
    (nonempty : gs ≠ []) (counts : Tally disk gs total free) (changed : Bool) :
    Counted fs generation origin start low disk di ⟨sums.free + free, sums.total + total, changed⟩ (gs :: found) := by
  obtain ⟨recs, high, split, next, wholes⟩ := counted.recs
  refine ⟨counted.fields, counted.checks, ⟨r :: recs, high, by simp [split], ?_, ?_⟩, ?_⟩
  · rw [next, List.length_append, List.length_singleton, List.length_cons]
    omega
  · rw [arrange_cons_of_ne nonempty]
    exact .cons whole wholes
  · refine counted.counts.add counts ?_
    rw [countedGroups, arrange_cons_of_ne nonempty, List.cons_append, List.flatten_cons]
    exact List.perm_append_comm

theorem Counted.drop (last : (arrange found).1 = []) (changed : Bool) :
    Counted fs generation origin start low disk { di with cl_next_free_rec := low.length }
      ⟨sums.free, sums.total, changed⟩ ([] :: found) := by
  obtain ⟨recs, high, split, next, wholes⟩ := counted.recs
  obtain rfl : recs = [] := by
    rw [last] at wholes
    exact List.forall₂_nil_right_iff.mp wholes
  refine ⟨?_, counted.checks, ⟨[], r :: high, by simp [split], rfl, ?_⟩, ?_⟩
  · rw [counted.fields]
  · rw [arrange_cons_nil last]
    exact .nil
  · rw [countedGroups, arrange_cons_nil last]
    exact counted.counts

theorem Counted.moves (last : (arrange found).1 = rest ++ [gs]) :
    ∃ l recs high, removeChain di low.length =
        ({ di with
          cl_recs := low ++ l :: (recs ++ high)
          cl_next_free_rec := low.length + (recs.length + 1) }, true) ∧
      Whole fs generation origin.i_blkno disk l.c_blkno gs ∧
      Wholes fs generation origin.i_blkno disk recs rest := by
  obtain ⟨recs, high, split, next, wholes⟩ := counted.recs
  rw [last] at wholes
  have front := List.forall₂_take_append _ _ _ wholes
  have back := List.forall₂_drop_append _ _ _ wholes
  obtain ⟨l, others, whole, alone, one⟩ := List.forall₂_cons_right_iff.mp back
  obtain rfl := List.forall₂_nil_right_iff.mp alone
  rw [← List.take_append_drop rest.length recs, one] at split next
  generalize recs.take rest.length = recs at front split next
  have at_last : di.cl_next_free_rec - 1 = (low ++ r :: recs).length := by
    rw [next]
    simp only [List.length_append, List.length_cons, List.length_nil]
    omega
  have split' : di.cl_recs = (low ++ r :: recs) ++ l :: high := by
    rw [split]
    simp
  refine ⟨l, recs, emptyRec :: high, ?_, whole, front⟩
  have lt : low.length < di.cl_next_free_rec - 1 := by
    rw [at_last, List.length_append, List.length_cons]
    omega
  rw [removeChain, if_pos lt, at_last, split', getD_middle]
  simp

theorem Counted.move (last : (arrange found).1 = rest ++ [gs]) {recs high : List ChainRec}
    {total free : Nat} (whole : Whole fs generation origin.i_blkno disk r'.c_blkno gs)
    (wholes : Wholes fs generation origin.i_blkno disk recs rest) (counts : Tally disk gs total free)
    (changed : Bool) :
    Counted fs generation origin start low disk
      { di with
        cl_recs := low ++ r' :: (recs ++ high)
        cl_next_free_rec := low.length + (recs.length + 1) }
      ⟨sums.free + free, sums.total + total, changed⟩ ([] :: found) := by
  refine ⟨?_, counted.checks, ⟨r' :: recs, high, rfl, rfl, ?_⟩, counted.counts.add counts ?_⟩
  · rw [counted.fields]
  · rw [arrange_cons_move last]
    exact .cons whole wholes
  · simp only [countedGroups, arrange_cons_move last, List.flatten_append, List.flatten_cons, List.append_assoc]
    exact List.perm_append_comm.append_left found.flatten

theorem Counted.last_rec (none_left : (arrange found).1 = []) : di.cl_next_free_rec = low.length + 1 := by
  obtain ⟨recs, high, -, next, wholes⟩ := counted.recs
  rw [none_left] at wholes
  obtain rfl := List.forall₂_nil_right_iff.mp wholes
  simpa using next

end

theorem removeChain_last (last : di.cl_next_free_rec = low.length + 1) :
    removeChain di low.length = ({ di with cl_next_free_rec := low.length }, false) := by
  simp [removeChain, last]

theorem verifyChains_step (accept : ∀ p n, prompt p n = true) {fuel : Nat} {ost ost' : O2fsckState}
    {di' : Dinode} (counted : Counted fs generation origin start (low ++ [r]) ost.disk di sums found)
    (done : verifyChains fs generation prompt true fuel (low ++ [r]).length ost di sums = some (ost', di', sums')) :
    ∃ gs fuel₁ ost₁ di₁ sums₁, Linked fs generation origin.i_blkno start r.c_blkno gs ∧
      Counted fs generation origin start low ost₁.disk di₁ sums₁ (gs :: found) ∧
      verifyChains fs generation prompt true fuel₁ low.length ost₁ di₁ sums₁ = some (ost', di', sums') := by
  rw [List.length_append, List.length_singleton] at done
  rcases fuel with - | fuel
  · simp [verifyChains] at done
  rw [verifyChains, counted.getRec] at done
  dsimp only at done
  split at done
  · cases done
  next c check =>
    obtain ⟨gs, whole, checks, counts, head⟩ := checkChain_correct accept check
    rw [counted.inode] at whole checks head
    have linked : Linked fs generation origin.i_blkno start r.c_blkno gs := by
      rcases head with same | ⟨zero, bad⟩
      · exact (same ▸ whole).linked (counted.checks.trans checks)
      · obtain rfl := whole.eq_nil_iff.mpr zero
        exact ⟨by simp, r.c_blkno, rfl, Or.inr (counted.checks.bad bad)⟩
    have counted := (counted.after checks).setRec c.chain
    generalize { di with cl_recs := di.cl_recs.set low.length c.chain } = di at counted done
    split at done
    next nonzero =>
      have nonempty : gs ≠ [] := fun empty => nonzero (whole.eq_nil_iff.mp empty)
      exact ⟨gs, fuel, _, _, _, linked, counted.keep whole nonempty counts _, done⟩
    next zero =>
      obtain rfl := whole.eq_nil_iff.mpr (not_not.mp zero)
      simp only [accept, if_true, Bool.not_true, Bool.false_eq_true, if_false] at done
      rcases List.eq_nil_or_concat (arrange found).1 with none_left | ⟨rest, l, last⟩
      · rw [removeChain_last (counted.last_rec none_left)] at done
        exact ⟨[], fuel, c.ost, _, _, linked, counted.drop none_left true, done⟩
      rw [List.concat_eq_append] at last
      obtain ⟨moved, recs, high, remove, again, wholes⟩ := counted.moves last
      have full : l ≠ [] := by
        have : l ∈ found.filter (· ≠ []) := (arrange_perm found).subset (by rw [last]; simp)
        simpa using (List.mem_filter.mp this).2
      rw [remove] at done
      -- the record that was moved is the next one to be checked
      rcases fuel with - | fuel
      · simp [verifyChains] at done
      simp only [if_true] at done
      rw [verifyChains, getD_middle] at done
      split at done
      · cases done
      next c' check' =>
        obtain ⟨whole', nonzero, checks', counts'⟩ :=
          checkChain_again accept (by rw [counted.inode]; exact again) full check'
        rw [counted.inode] at whole' checks'
        have wholes' := wholes.imp fun r gs whole => whole.checks checks'
        rw [if_pos nonzero, set_middle] at done
        exact ⟨[], fuel, _, _, _, linked, (counted.after checks').move last whole' wholes' counts' _, done⟩

theorem verifyChains_correct (accept : ∀ p n, prompt p n = true) (fuel : Nat) {ost ost' : O2fsckState}
    {di' : Dinode} (counted : Counted fs generation origin start low ost.disk di sums found)
    (done : verifyChains fs generation prompt true fuel low.length ost di sums = some (ost', di', sums')) :
    ∃ before, List.Forall₂ (fun r gs => Linked fs generation origin.i_blkno start r.c_blkno gs) low before ∧
      Counted fs generation origin start [] ost'.disk di' sums' (before ++ found) := by
  induction low using List.reverseRecOn generalizing fuel ost di sums found with
  | nil =>
    rcases fuel with - | fuel
    · simp [verifyChains] at done
    · obtain ⟨rfl, rfl, rfl⟩ : ost = ost' ∧ di = di' ∧ sums = sums' := by simpa [verifyChains] using done
      exact ⟨[], .nil, counted⟩
  | append_singleton low r ih =>
    obtain ⟨gs, fuel₁, ost₁, di₁, sums₁, linked, counted₁, done₁⟩ := verifyChains_step accept counted done
    obtain ⟨before, links, final⟩ := ih fuel₁ counted₁ done₁
    exact ⟨before ++ [gs], List.rel_append links (.cons linked .nil), by simpa using final⟩

end Loop

end Ocfs2.Pass0
