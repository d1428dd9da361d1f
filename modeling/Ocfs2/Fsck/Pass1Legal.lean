import Ocfs2.Fsck.Pass1Depth
import Ocfs2.Fsck.Pass1Marks

set_option autoImplicit false

namespace Ocfs2.Pass1

open Extents Program

section Legal

variable (env : Setup) (disk : Disk)

structure LegalRec (er : ExtentRec) : Prop where
  some : 0 < er.e_leaf_clusters
  inside : env.fs.blockOutOfRange er.e_blkno = false
  aligned : env.fs.clustersToBlocks (env.fs.blocksToClusters er.e_blkno) = er.e_blkno
  fits : env.fs.blocksToClusters er.e_blkno + er.e_leaf_clusters ≤ env.fs.fs_clusters
  written : env.fs.unwritten_extents = true ∨ er.e_flags % 2 = 0

structure Shape (depth max_recs : Nat) (el : ExtentList) : Prop where
  level : el.l_tree_depth = depth
  count : el.l_count ≤ max_recs
  free : el.l_next_free_rec ≤ el.l_count
  memory : el.l_next_free_rec ≤ el.l_recs.length

structure Child (er : ExtentRec) (eb : ExtentBlock) : Prop where
  covers : er.e_int_clusters ≠ 0
  read : readExtentBlockNocheck env.fs.toGeometry (extentBlocks disk) er.e_blkno = .ok eb
  number : eb.h_blkno = er.e_blkno
  generation : eb.h_fs_generation = env.fs_generation

def ExtentList.used (el : ExtentList) : List ExtentRec := el.l_recs.take el.l_next_free_rec

def Legal (lead : Bool) : Nat → Nat → ExtentList → Prop
  | 0, max_recs, el => Shape 0 max_recs el ∧ ((∀ er ∈ ExtentList.used el, LegalRec env er) ∨
      lead = true ∧ ∃ rest, ExtentList.used el = ⟨0, 0, 0⟩ :: rest ∧ ∀ er ∈ rest, LegalRec env er)
  | depth + 1, max_recs, el => Shape (depth + 1) max_recs el ∧ ∀ er ∈ ExtentList.used el,
      ∃ eb, Child env disk er eb ∧ Legal lead depth env.fs.extent_recs_per_eb eb.h_list

def mapped : Nat → ExtentList → List Nat
  | 0, el => (ExtentList.used el).flatMap fun er =>
      List.range' (env.fs.blocksToClusters er.e_blkno) er.e_leaf_clusters
  | depth + 1, el => (ExtentList.used el).flatMap fun er =>
      match extentBlocks disk er.e_blkno with
      | some eb => mapped depth eb.h_list
      | none => []

end Legal

section Asked

variable {env : Setup} {α β : Type}

theorem Asks.behind {m : Fsck α} {f : α → Fsck β} {s : O2fsckState} (rest : ∀ a, Asks (f a))
    (first : Post m s fun _ s' => s.asked < s'.asked) : Post (m >>= f) s fun _ s' => s.asked < s'.asked :=
  Post.bind (first.mono fun a s' lt => ((rest a).post s').mono fun _ _ le => lt.trans_le le)

theorem asks_checkElLoop (fuel : Nat) (trust : Bool) (left i : Nat) (c : Checked) :
    Asks (checkElLoop env (checkEb env (checkEl env fuel)) trust left i c) :=
  ⟨fun s => (checkElLoop_advances (checkEb_advances (checkEl_advances fuel)) ..).mono fun _ _ moved => moved.asked⟩

end Asked

section Steps

variable {env : Setup} {disk : Disk}

structure Same (s s' : O2fsckState) : Prop where
  asked : s'.asked = s.asked
  disk : s'.disk = s.disk

theorem Same.trans {s s' s'' : O2fsckState} (first : Same s s') (second : Same s' s'') : Same s s'' :=
  ⟨second.asked.trans first.asked, second.disk.trans first.disk⟩

theorem promptIf_false : promptIf env false = pure false := rfl

theorem marks_run (first num : Nat) (fits : first + num ≤ env.fs.fs_clusters) (s : O2fsckState) :
    ∃ s', Same s s' ∧ o2fsckMarkClustersAllocated env first num s = some (⟨⟩, s') := by
  induction num generalizing first s with
  | zero => exact ⟨s, ⟨rfl, rfl⟩, rfl⟩
  | succ num ih =>
    obtain ⟨s₁, same, mark⟩ : ∃ s₁, Same s s₁ ∧ o2fsckMarkClusterAllocated env first s = some (⟨⟩, s₁) := by
      rw [o2fsckMarkClusterAllocated, if_neg (by omega)]
      refine ⟨_, ⟨?_, ?_⟩, rfl⟩ <;> dsimp only <;> split <;> rfl
    obtain ⟨s', same', run⟩ := ih (first + 1) (by omega) s₁
    refine ⟨s', same.trans same', ?_⟩
    exact (congrArg (Option.bind · _) mark).trans run

variable {checkEb' : ExtentInfo → Nat → Fsck (ExtentInfo × Bool)} {el : ExtentList} {er : ExtentRec}

section Verdicts

variable (env checkEb' disk el er)

def Passes (cs : List Nat) : Prop :=
  ∀ left i ei s, s.disk = disk → el.l_recs[i]? = some er → ∃ ei' s', Same s s' ∧
    ei'.ei_claimed = ei.ei_claimed ++ cs ∧ checkElLoop env checkEb' true (left + 1) i ⟨ei, el, false⟩ s =
      checkElLoop env checkEb' true left (i + 1) ⟨ei', el, false⟩ s'

def Loud : Prop :=
  ∀ left i ei s, s.disk = disk → el.l_recs[i]? = some er →
    Post (checkElLoop env checkEb' true (left + 1) i ⟨ei, el, false⟩) s fun _ s' => s.asked < s'.asked

end Verdicts

theorem set_same {i : Nat} (here : el.l_recs[i]? = some er) : el.l_recs.set i er = el.l_recs := by
  obtain ⟨bound, rfl⟩ := List.getElem?_eq_some_iff.mp here
  exact List.set_getElem_self bound

theorem LegalRec.checkLeafRec (small : env.fs.fs_clusters < 2 ^ 32) (legal : LegalRec env er) :
    checkLeafRec env er false = pure (er, false) := by
  have written : (!env.fs.unwritten_extents && decide (er.e_flags % 2 = 1)) = false := by
    rcases legal.written with on | clear
    · simp [on]
    · simp [clear]
  have fits := legal.fits
  have last : decide ((env.fs.blocksToClusters er.e_blkno + er.e_leaf_clusters) % 2 ^ 32 > env.fs.fs_clusters) =
      false := by
    rw [Nat.mod_eq_of_lt (by omega)]
    exact decide_eq_false (Nat.not_lt.mpr fits)
  simp only [Pass1.checkLeafRec, written, promptIf_false, pure_bind, Bool.false_eq_true, if_false, legal.aligned,
    recClusters, ne_eq, not_true, decide_false, last, Bool.or_self]

theorem leaf_passes (small : env.fs.fs_clusters < 2 ^ 32) (leaf : el.l_tree_depth = 0) (legal : LegalRec env er) :
    Passes env disk checkEb' el er (List.range' (env.fs.blocksToClusters er.e_blkno) er.e_leaf_clusters) := by
  intro left i ei s _ here
  obtain ⟨s', same, marks⟩ := marks_run _ _ legal.fits s
  refine ⟨{ ei with ei_claimed := ei.ei_claimed ++ _ }, s', same, rfl, ?_⟩
  have passed : checkEr env checkEb' ei el er false = pure (ei, er, false) := by
    simp [checkEr, legal.inside, leaf, legal.checkLeafRec small]
  rw [checkElLoop]
  simp only [here, passed, pure_bind, leaf, ne_eq, not_true, false_and, and_false, if_false, set_same here,
    legal.inside, promptIf_false, Bool.false_eq_true, recClusters]
  refine (congrArg (Option.bind · _) marks).trans ?_
  obtain ⟨depth, count, free, recs⟩ := el
  obtain rfl : depth = 0 := leaf
  rfl

theorem empty_loud (fuel : Nat) (leaf : el.l_tree_depth = 0) :
    Loud env disk (checkEb env (checkEl env fuel)) el ⟨0, 0, 0⟩ := by
  intro left i ei s _ here
  have out : env.fs.blockOutOfRange 0 = true := rfl
  rw [checkElLoop]
  simp only [here, leaf, ne_eq, not_true, false_and, and_false, if_false, checkEr, out, if_true, pure_bind]
  refine Asks.behind (fun _ => Asks.ite (Asks.ite ?_ ?_) ?_) (Post.bind (Post.get (Post.bind (Post.modify
    (Post.pure (Nat.lt_succ_self _))))))
  · exact asks_checkElLoop ..
  · exact asks_checkElLoop ..
  · exact Asks.bind (asks_marks ..) fun _ => asks_checkElLoop ..

theorem loop_passes (recs : List ExtentRec) (clusters : ExtentRec → List Nat) (i : Nat)
    (here : ∀ k er, recs[k]? = some er → el.l_recs[i + k]? = some er)
    (all : ∀ er ∈ recs, Passes env disk checkEb' el er (clusters er)) (ei : ExtentInfo) (s : O2fsckState)
    (at_disk : s.disk = disk) : ∃ ei' s', Same s s' ∧ ei'.ei_claimed = ei.ei_claimed ++ recs.flatMap clusters ∧
      checkElLoop env checkEb' true recs.length i ⟨ei, el, false⟩ s = some (⟨ei', el, false⟩, s') := by
  induction recs generalizing i s ei with
  | nil => exact ⟨ei, s, ⟨rfl, rfl⟩, by simp, rfl⟩
  | cons er recs ih =>
    obtain ⟨first, others⟩ := List.forall_mem_cons.mp all
    obtain ⟨ei₁, s₁, same, claimed, step⟩ := first recs.length i ei s at_disk (here 0 er rfl)
    obtain ⟨ei', s', same', claimed', run⟩ := ih (i + 1)
      (fun k er' found => by simpa [Nat.add_assoc, Nat.add_comm 1] using here (k + 1) er' found) others ei₁ s₁
      (same.disk.trans at_disk)
    exact ⟨ei', s', same.trans same', by simp [claimed', claimed], step.trans run⟩

theorem loop_loud (recs : List ExtentRec) (i : Nat)
    (here : ∀ k er, recs[k]? = some er → el.l_recs[i + k]? = some er)
    (each : ∀ er ∈ recs, (∃ cs, Passes env disk checkEb' el er cs) ∨ Loud env disk checkEb' el er)
    (one : ∃ er ∈ recs, Loud env disk checkEb' el er) (ei : ExtentInfo) (s : O2fsckState) (at_disk : s.disk = disk) :
    Post (checkElLoop env checkEb' true recs.length i ⟨ei, el, false⟩) s fun _ s' => s.asked < s'.asked := by
  induction recs generalizing i s ei with
  | nil => simp at one
  | cons er recs ih =>
    obtain ⟨first, others⟩ := List.forall_mem_cons.mp each
    by_cases loud : Loud env disk checkEb' el er
    · exact loud recs.length i ei s at_disk (here 0 er rfl)
    obtain ⟨cs, passes⟩ := first.resolve_right loud
    obtain ⟨ei₁, s₁, same, -, step⟩ := passes recs.length i ei s at_disk (here 0 er rfl)
    obtain ⟨er', member, loud'⟩ := one
    have behind : er' ∈ recs := (List.mem_cons.mp member).resolve_left fun equal => loud (equal ▸ loud')
    have rest := ih (i + 1)
      (fun k er' found => by simpa [Nat.add_assoc, Nat.add_comm 1] using here (k + 1) er' found) others
      ⟨er', behind, loud'⟩ ei₁ s₁ (same.disk.trans at_disk)
    exact ⟨fun a s' run => same.asked ▸ rest.holds a s' (step ▸ run)⟩

end Steps

section Trees

variable {env : Setup} {disk : Disk}

theorem Shape.here {depth max_recs : Nat} {el : ExtentList} (shape : Shape depth max_recs el) :
    (ExtentList.used el).length = el.l_next_free_rec ∧
      ∀ k er, (ExtentList.used el)[k]? = some er → el.l_recs[0 + k]? = some er := by
  refine ⟨by simpa [ExtentList.used] using shape.memory, fun k er found => ?_⟩
  rw [ExtentList.used, List.getElem?_take] at found
  split at found
  · rw [Nat.zero_add, found]
  · cases found

theorem Shape.checkEl {depth max_recs : Nat} {el : ExtentList} (shape : Shape depth max_recs el) (fuel : Nat)
    (ei : ExtentInfo) (expected : ei.ei_expect_depth = true → ei.ei_expected_depth = depth) :
    checkEl env (fuel + 1) ei el max_recs false =
      checkElLoop env (checkEb env (checkEl env fuel)) true (ExtentList.used el).length 0 ⟨ei, el, false⟩ := by
  have level : (ei.ei_expect_depth && decide (el.l_tree_depth ≠ ei.ei_expected_depth)) = false := by
    cases expect : ei.ei_expect_depth with
    | false => rfl
    | true => simp [shape.level, expected expect]
  have count : decide (el.l_count > max_recs) = false := decide_eq_false (Nat.not_lt.mpr shape.count)
  have free : decide (el.l_next_free_rec > min max_recs el.l_count) = false :=
    decide_eq_false (Nat.not_lt.mpr (le_min (shape.free.trans shape.count) shape.free))
  rw [Pass1.checkEl]
  simp only [level, count, free, promptIf_false, pure_bind, Bool.false_eq_true, if_false, Bool.not_false,
    Bool.or_false, Bool.or_self, if_true, shape.here.1]

section Node

variable {fuel depth : Nat} {el : ExtentList} {er : ExtentRec} {eb : ExtentBlock}

theorem Child.inside (child : Child env disk er eb) :
    env.fs.blockOutOfRange er.e_blkno = false ∧ extentBlocks disk er.e_blkno = some eb := by
  have read := child.read
  unfold readExtentBlockNocheck at read
  split_ifs at read with out
  split at read
  · cases read
  · rename_i found
    cases read
    exact ⟨by simpa using out, found⟩

theorem Child.checkEb (child : Child env disk er eb) (inner : CheckEl) (ei : ExtentInfo) {s : O2fsckState}
    (at_disk : s.disk = disk) : checkEb env inner ei er.e_blkno s =
      (inner ei eb.h_list env.fs.extent_recs_per_eb false >>= fun checked => if checked.changed then do
        writeBlock er.e_blkno (.extentBlock { eb with h_list := checked.el })
        return (checked.ei, true) else return (checked.ei, true)) s := by
  have got (f : O2fsckState → Fsck (ExtentInfo × Bool)) : ((get : Fsck O2fsckState) >>= f) s = f s s := rfl
  rw [Pass1.checkEb, got, at_disk]
  simp only [child.read, child.number, child.generation, ne_eq, not_true, decide_false, promptIf_false, pure_bind,
    Bool.false_eq_true, if_false, Bool.or_self]

theorem node_passes (node : el.l_tree_depth ≠ 0) (child : Child env disk er eb) {inner : CheckEl} {cs : List Nat}
    (quiet : ∀ ei s, s.disk = disk → ei.ei_expected_depth = el.l_tree_depth - 1 → ∃ ei' s', Same s s' ∧
      ei'.ei_claimed = ei.ei_claimed ++ cs ∧
      inner ei eb.h_list env.fs.extent_recs_per_eb false s = some (⟨ei', eb.h_list, false⟩, s')) :
    Passes env disk (checkEb env inner) el er cs := by
  intro left i ei s at_disk here
  obtain ⟨ei', s', same, claimed, run⟩ := quiet
    { ei with ei_expect_depth := true, ei_expected_depth := el.l_tree_depth - 1 } s at_disk rfl
  refine ⟨ei', s', same, claimed, ?_⟩
  have block : checkEb env inner _ er.e_blkno s = some ((ei', true), s') :=
    (child.checkEb inner _ at_disk).trans (congrArg (Option.bind · _) run)
  have passed : checkEr env (checkEb env inner) ei el er false s = some ((ei', er, false), s') := by
    rw [checkEr, child.inside.1]
    simp only [Bool.false_eq_true, if_false, node, ne_eq, not_false_eq_true, if_true]
    exact congrArg (Option.bind · _) block
  rw [checkElLoop]
  simp only [here, recClusters, node, child.covers, ne_eq, not_false_eq_true, if_true, and_false, if_false]
  refine (congrArg (Option.bind · _) passed).trans ?_
  simp only [Option.bind_some, child.inside.1, promptIf_false, pure_bind, Bool.false_eq_true, if_false, set_same here]

theorem node_loud (node : el.l_tree_depth ≠ 0) (child : Child env disk er eb) {fuel : Nat}
    (loud : ∀ ei s, s.disk = disk → ei.ei_expected_depth = el.l_tree_depth - 1 →
      Post (checkEl env fuel ei eb.h_list env.fs.extent_recs_per_eb false) s fun _ s' => s.asked < s'.asked) :
    Loud env disk (checkEb env (checkEl env fuel)) el er := by
  intro left i ei s at_disk here
  have block (ei : ExtentInfo) (expected : ei.ei_expected_depth = el.l_tree_depth - 1) :
      Post (checkEb env (checkEl env fuel) ei er.e_blkno) s fun _ s' => s.asked < s'.asked := by
    refine ⟨fun r s' run => (Asks.behind (fun checked => ?_) (loud ei s at_disk expected)).holds r s'
      (child.checkEb _ ei at_disk ▸ run)⟩
    exact Asks.ite (Asks.bind (Asks.of_frame (Frame.modify fun _ => rfl)) fun _ => Asks.pure _) (Asks.pure _)
  rw [checkElLoop]
  simp only [here, recClusters, node, child.covers, ne_eq, not_false_eq_true, if_true, and_false, if_false]
  refine Asks.behind (fun r => ?_) ?_
  · exact Asks.bind (asks_promptIf _) fun _ => Asks.ite (asks_checkElLoop ..) (asks_checkElLoop ..)
  · rw [checkEr, child.inside.1]
    simp only [Bool.false_eq_true, if_false, node, ne_eq, not_false_eq_true, if_true]
    refine Asks.behind (fun r => Asks.bind (asks_promptIf _) fun _ => ?_) (block _ rfl)
    exact Asks.ite (Asks.pure _) (Asks.pure _)

end Node

variable {depth fuel max_recs : Nat} {el : ExtentList} (small : env.fs.fs_clusters < 2 ^ 32)

include small

theorem checkEl_quiet (legal : Legal env disk false depth max_recs el) (deep : depth ≤ fuel) (ei : ExtentInfo)
    (s : O2fsckState) (at_disk : s.disk = disk) (expected : ei.ei_expect_depth = true → ei.ei_expected_depth = depth) :
    ∃ ei' s', Same s s' ∧ ei'.ei_claimed = ei.ei_claimed ++ mapped env disk depth el ∧
      checkEl env (fuel + 1) ei el max_recs false s = some (⟨ei', el, false⟩, s') := by
  induction depth generalizing fuel max_recs el ei s with
  | zero =>
    obtain ⟨shape, records⟩ := legal
    rw [shape.checkEl fuel ei expected]
    refine loop_passes _ _ 0 shape.here.2 (fun er member => leaf_passes small shape.level ?_) ei s at_disk
    exact records.resolve_right (by simp) er member
  | succ depth ih =>
    obtain ⟨shape, records⟩ := legal
    obtain ⟨fuel, rfl⟩ : ∃ n, fuel = n + 1 := ⟨fuel - 1, by omega⟩
    rw [shape.checkEl _ ei expected]
    refine loop_passes _ _ 0 shape.here.2 (fun er member => ?_) ei s at_disk
    obtain ⟨eb, child, legal⟩ := records er member
    rw [child.inside.2]
    refine node_passes (by simp [shape.level]) child fun ei s at_disk expected => ?_
    exact ih legal (by omega) ei s at_disk fun _ => by rw [expected, shape.level, Nat.add_sub_cancel]

theorem checkEl_loud (legal : Legal env disk true depth max_recs el) (lead : ¬ Legal env disk false depth max_recs el)
    (deep : depth ≤ fuel) (ei : ExtentInfo) (s : O2fsckState) (at_disk : s.disk = disk)
    (expected : ei.ei_expect_depth = true → ei.ei_expected_depth = depth) :
    Post (checkEl env (fuel + 1) ei el max_recs false) s fun _ s' => s.asked < s'.asked := by
  induction depth generalizing fuel max_recs el ei s with
  | zero =>
    obtain ⟨shape, records⟩ := legal
    obtain ⟨-, rest, list, others⟩ := records.resolve_left fun all => lead ⟨shape, .inl all⟩
    have loud : Loud env disk (checkEb env (checkEl env fuel)) el ⟨0, 0, 0⟩ := empty_loud fuel shape.level
    rw [shape.checkEl fuel ei expected]
    refine loop_loud _ 0 shape.here.2 (fun er member => ?_) ⟨_, by simp [list], loud⟩ ei s at_disk
    rcases List.mem_cons.mp (list ▸ member) with rfl | member
    · exact .inr loud
    · exact .inl ⟨_, leaf_passes small shape.level (others er member)⟩
  | succ depth ih =>
    obtain ⟨shape, records⟩ := legal
    obtain ⟨fuel, rfl⟩ : ∃ n, fuel = n + 1 := ⟨fuel - 1, by omega⟩
    rw [shape.checkEl _ ei expected]
    have node : el.l_tree_depth ≠ 0 := by simp [shape.level]
    have below : el.l_tree_depth - 1 = depth := by simp [shape.level]
    have louder {er : ExtentRec} {eb : ExtentBlock} (child : Child env disk er eb)
        (legal : Legal env disk true depth env.fs.extent_recs_per_eb eb.h_list)
        (lead : ¬ Legal env disk false depth env.fs.extent_recs_per_eb eb.h_list) :
        Loud env disk (checkEb env (checkEl env (fuel + 1))) el er :=
      node_loud node child fun ei s at_disk here => ih legal lead (by omega) ei s at_disk fun _ => here.trans below
    refine loop_loud _ 0 shape.here.2 (fun er member => ?_) ?_ ei s at_disk
    · obtain ⟨eb, child, legal⟩ := records er member
      by_cases quiet : Legal env disk false depth env.fs.extent_recs_per_eb eb.h_list
      · refine .inl ⟨mapped env disk depth eb.h_list, node_passes node child fun ei s at_disk here => ?_⟩
        exact checkEl_quiet small quiet (by omega) ei s at_disk fun _ => here.trans below
      · exact .inr (louder child legal quiet)
    · by_contra none
      refine lead ⟨shape, fun er member => ?_⟩
      obtain ⟨eb, child, legal⟩ := records er member
      exact ⟨eb, child, by_contra fun lead => none ⟨er, member, louder child legal lead⟩⟩

theorem check_quiet_iff (s : O2fsckState) (deep : el.l_tree_depth < env.stack_depth)
    (legal : Legal env s.disk env.fs.sparse_alloc el.l_tree_depth env.fs.extent_recs_per_inode el) :
    (∃ ei s', checkEl env env.stack_depth ⟨false, 0, []⟩ el env.fs.extent_recs_per_inode false s =
        some (⟨ei, el, false⟩, s') ∧ s'.asked = s.asked ∧ s'.disk = s.disk ∧
        ei.ei_claimed = mapped env s.disk el.l_tree_depth el ∧ Marks s s' (mapped env s.disk el.l_tree_depth el)) ↔
      Legal env s.disk false el.l_tree_depth env.fs.extent_recs_per_inode el := by
  obtain ⟨fuel, stack⟩ : ∃ n, env.stack_depth = n + 1 := ⟨env.stack_depth - 1, by omega⟩
  have shallow : el.l_tree_depth ≤ fuel := by omega
  rw [stack]
  constructor
  · rintro ⟨ei, s', run, asked, -⟩
    by_contra lead
    cases sparse : env.fs.sparse_alloc with
    | false => exact lead (sparse ▸ legal)
    | true =>
      have loud := checkEl_loud small (sparse ▸ legal) lead shallow ⟨false, 0, []⟩ s rfl (by simp)
      exact absurd asked (Nat.ne_of_gt (loud.holds _ _ run))
  · intro quiet
    obtain ⟨ei, s', same, claimed, run⟩ := checkEl_quiet small quiet shallow ⟨false, 0, []⟩ s rfl (by simp)
    obtain ⟨new, appended, marks⟩ := (checkEl_claims _ _ _ _ _ s).holds _ _ run
    rw [List.nil_append] at appended claimed
    exact ⟨ei, s', run, same.asked, same.disk, claimed, claimed ▸ appended ▸ marks⟩

end Trees

section Sparse

def sparseLeaf (lead : List ExtentRec) : ExtentList := ⟨0, 4, lead.length + 1, lead ++ [⟨8, 8, 10⟩, ⟨0, 0, 0⟩]⟩

def sparseVolume : Setup := { smallVolume fun _ => false with stack_depth := 1 }

theorem legal_extent : LegalRec sparseVolume ⟨8, 8, 10⟩ := ⟨by decide, by decide, by decide, by decide, .inl rfl⟩

theorem legal_sparseLeaf (disk : Disk) (lead : Bool) : Legal sparseVolume disk lead 0 4 (sparseLeaf []) :=
  ⟨⟨rfl, by decide, by decide, by decide⟩, .inl (by simpa [ExtentList.used, sparseLeaf] using legal_extent)⟩

theorem check_quiet_one_extent : ∃ ei s', checkEl sparseVolume 1 ⟨false, 0, []⟩ (sparseLeaf []) 4 false (ownParent 0) =
    some (⟨ei, sparseLeaf [], false⟩, s') ∧ s'.asked = 0 ∧ s'.disk = (ownParent 0).disk ∧
      ei.ei_claimed = List.range' 10 8 ∧ Marks (ownParent 0) s' (List.range' 10 8) :=
  (check_quiet_iff (by decide) (ownParent 0) (by decide) (legal_sparseLeaf _ _)).mpr (legal_sparseLeaf _ _)

theorem leading_empty_asked :
    Legal sparseVolume (ownParent 0).disk true 0 4 (sparseLeaf [⟨0, 0, 0⟩]) ∧
      (checkEl sparseVolume 1 ⟨false, 0, []⟩ (sparseLeaf [⟨0, 0, 0⟩]) 4 false (ownParent 0)).map (·.2.asked) =
        some 1 := by
  refine ⟨⟨⟨rfl, by decide, by decide, by decide⟩, .inr ⟨rfl, [⟨8, 8, 10⟩], rfl, ?_⟩⟩, by decide +kernel⟩
  simpa using legal_extent

end Sparse

end Ocfs2.Pass1
