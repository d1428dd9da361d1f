import Ocfs2.Libocfs2.HoleBitmap
import Ocfs2.Libocfs2.RbtreeBalance

set_option autoImplicit false

/-!
A count of one is a bit of a block bitmap, a larger count is a node of a red-black tree.
-/

namespace Ocfs2.Icount

open Rbtree HoleBitmap

structure IcountNode where
  in_blkno : Nat
  in_icount : Nat
  deriving DecidableEq

structure O2fsckIcount where
  ic_single_bm : BlockBitmap
  ic_multiple_tree : Node IcountNode

def icountNew (fsBlocks : Nat) : O2fsckIcount := ⟨blockBitmapNew fsBlocks, .nil⟩

def order (blkno : Nat) (entry : IcountNode) : Ordering := compare blkno entry.in_blkno

def icountSearch (tree : Node IcountNode) (blkno : Nat) : Option IcountNode × Option IcountNode :=
  match descend (order blkno) tree [] with
  | (.node _ _ entry _, _) => (some entry, none)
  -- `last_left` is the innermost node at which the walk went left
  | (.nil, path) => (none, climb .left path)

def setSingle (bitmap : BlockBitmap) (blkno : Nat) (single : Bool) : Option BlockBitmap :=
  let done := call bitmap (if single then .set blkno else .clear blkno 0)
  match done.2 with
  | .ok _ => some done.1
  | .error _ => none

def setMultiple (tree : Node IcountNode) (blkno count : Nat) : Node IcountNode :=
  match descend (order blkno) tree [] with
  | (.node c l entry r, path) =>
    if count < 2 then rbErase c l r path
    else plug (.node c l { entry with in_icount := count } r) path
  | (.nil, _) => if 1 < count then rbInsert (order blkno) ⟨blkno, count⟩ tree else tree

def icountSet (icount : O2fsckIcount) (blkno count : Nat) : Option O2fsckIcount := do
  let bitmap ← setSingle icount.ic_single_bm blkno (count == 1)
  return ⟨bitmap, setMultiple icount.ic_multiple_tree blkno count⟩

/-- No result where the test fails and `was_set` is read without a value. -/
def icountGet (icount : O2fsckIcount) (blkno : Nat) : Option Nat :=
  match (call icount.ic_single_bm (.test blkno)).2 with
  | .error _ => none
  | .ok wasSet =>
    if wasSet ≠ 0 then some 1
    else match (icountSearch icount.ic_multiple_tree blkno).1 with
      | some entry => some entry.in_icount
      | none => some 0

def icountDelta (icount : O2fsckIcount) (blkno : Nat) (delta : Int) : Option O2fsckIcount :=
  if delta = 0 then some icount
  else do
    let prev ← icountGet icount blkno
    -- a negative sum is only reported; the argument of the set is a `uint16_t`
    icountSet icount blkno ((prev + delta) % 2 ^ 16).toNat

def icountNextBlkno (icount : O2fsckIcount) (start : Nat) : Except Errcode Nat :=
  let (found, next) := icountSearch icount.ic_multiple_tree start
  match found.or next, (call icount.ic_single_bm (.findNextSet start)).2 with
  | some entry, .error .bitNotFound => .ok entry.in_blkno
  | some entry, .ok bit => .ok (if bit.toNat < entry.in_blkno then bit.toNat else entry.in_blkno)
  | some _, .error _ => .error .undefined
  | none, .ok bit => .ok bit.toNat
  | none, .error e => .error e

section Tree

variable {tree : Node IcountNode} {blkno : Nat}

def Sorted (xs : List IcountNode) : Prop := xs.Pairwise fun a b => a.in_blkno < b.in_blkno

theorem cut_of_sorted (sorted : Sorted tree.toList) : Cut (order blkno) tree.toList := by
  refine sorted.imp fun {a b} less => ?_
  simp only [order, compare_gt_iff_gt, compare_lt_iff_lt]
  omega

structure Around (tree : Node IcountNode) (blkno : Nat) (low here high : List IcountNode) : Prop where
  list : tree.toList = low ++ here ++ high
  below : ∀ e ∈ low, e.in_blkno < blkno
  above : ∀ e ∈ high, blkno < e.in_blkno
  single : here = [] ∨ ∃ entry, here = [entry] ∧ entry.in_blkno = blkno
  walk : descend (order blkno) tree [] = (.nil, (descend (order blkno) tree []).2) ∧ here = [] ∧
      after (descend (order blkno) tree []).2 = high ∨
    ∃ c l entry r path, descend (order blkno) tree [] = (.node c l entry r, path) ∧ here = [entry] ∧
      before path ++ l.toList = low ∧ r.toList ++ after path = high

theorem exists_around (sorted : Sorted tree.toList) (blkno : Nat) :
    ∃ low here high, Around tree blkno low here high := by
  have order_list := descend_order (order blkno) tree []
  rcases walk : descend (order blkno) tree [] with ⟨t, path⟩
  rw [walk] at order_list
  cases t with
  | nil =>
    obtain ⟨-, lo, hi⟩ := descend_nil (cut_of_sorted sorted) walk
    refine ⟨before path, [], after path, by simpa [before, after, Node.toList] using order_list.symm,
      fun e inside => ?_, fun e inside => ?_, .inl rfl, .inl ⟨by rw [walk], rfl, by rw [walk]⟩⟩
    · simp only [lo, before, List.nil_append, List.mem_filter, order, beq_iff_eq] at inside
      exact compare_gt_iff_gt.mp inside.2
    · simp only [hi, after, List.append_nil, List.mem_filter, order, beq_iff_eq] at inside
      exact compare_lt_iff_lt.mp inside.2
  | node c l entry r =>
    have same : blkno = entry.in_blkno :=
      compare_eq_iff_eq.mp (descend_found walk).2
    have list : tree.toList = (before path ++ l.toList) ++ [entry] ++ (r.toList ++ after path) := by
      simpa [before, after, Node.toList] using order_list.symm
    have split := sorted
    rw [Sorted, list, List.append_assoc, List.pairwise_append] at split
    obtain ⟨-, right, across⟩ := split
    refine ⟨_, _, _, list, fun e inside => ?_, fun e inside => ?_, .inr ⟨entry, rfl, same.symm⟩,
      .inr ⟨c, l, entry, r, path, walk, rfl, rfl, rfl⟩⟩
    · rw [same]
      exact across e inside entry (by simp)
    · rw [same]
      exact (List.pairwise_cons.mp right).1 e inside

theorem search_around {low here high : List IcountNode} (around : Around tree blkno low here high) :
    (icountSearch tree blkno).1 = here.head? ∧
      (icountSearch tree blkno).1.or (icountSearch tree blkno).2 = (here ++ high).head? := by
  rcases around.walk with ⟨walk, rfl, rest⟩ | ⟨c, l, entry, r, path, walk, rfl, -, -⟩
  · rw [icountSearch, walk]
    simp [climb_left, rest]
  · rw [icountSearch, walk]
    simp

theorem toList_setMultiple {low here high : List IcountNode} (around : Around tree blkno low here high)
    (sorted : Sorted tree.toList) (count : Nat) :
    (setMultiple tree blkno count).toList =
      low ++ (if count < 2 then [] else [⟨blkno, count⟩]) ++ high := by
  rcases around.walk with ⟨walk, rfl, rest⟩ | ⟨c, l, entry, r, path, walk, rfl, rfl, rfl⟩
  · have missed := descend_nil (cut_of_sorted sorted) walk
    have lows : low.filter (order blkno · == .gt) = low := List.filter_eq_self.mpr fun e inside => by
      simpa [order, compare_gt_iff_gt] using around.below e inside
    have highs : high.filter (order blkno · == .gt) = [] := List.filter_eq_nil_iff.mpr fun e inside => by
      have := around.above e inside
      simp only [order, beq_iff_eq, compare_gt_iff_gt]
      omega
    have front := missed.2.1
    rw [around.list, List.append_nil, List.filter_append, lows, highs] at front
    rw [setMultiple, walk]
    by_cases many : 1 < count
    · rw [if_pos many, if_neg (by omega), rbInsert, toList_rbInsertColor, front, rest]
      simp [before, Node.toList]
    · rw [if_neg many, if_pos (by omega), around.list]
  · have same : entry.in_blkno = blkno := by simpa using around.single
    rw [setMultiple, walk]
    by_cases few : count < 2
    · simp only [few, if_true, toList_rbErase]
      simp
    · simp only [few, if_false, toList_plug]
      simp [Node.toList, same]

end Tree

structure Counts (fsBlocks : Nat) (icount : O2fsckIcount) (counts : Nat → Nat) : Prop where
  single : ∃ members, Represents fsBlocks icount.ic_single_bm members ∧ ∀ b, b ∈ members ↔ counts b = 1
  sorted : Sorted icount.ic_multiple_tree.toList
  multiple : ∀ e, e ∈ icount.ic_multiple_tree.toList ↔ counts e.in_blkno = e.in_icount ∧ 2 ≤ e.in_icount
  inside : ∀ b, counts b ≠ 0 → b < fsBlocks

theorem counts_new (fsBlocks : Nat) : Counts fsBlocks (icountNew fsBlocks) fun _ => 0 where
  single := ⟨∅, represents_new fsBlocks, by simp⟩
  sorted := List.Pairwise.nil
  multiple e := by
    simp only [icountNew, Node.toList, List.not_mem_nil, false_iff]
    omega
  inside b nonzero := absurd rfl nonzero

section Step

variable {fsBlocks : Nat} {icount : O2fsckIcount} {counts : Nat → Nat} {blkno : Nat}
  (rep : Counts fsBlocks icount counts)

include rep

theorem setSingle_spec (valid : blkno < fsBlocks) (count : Nat) :
    ∃ bitmap members, setSingle icount.ic_single_bm blkno (count == 1) = some bitmap ∧
      Represents fsBlocks bitmap members ∧ ∀ b, b ∈ members ↔ Function.update counts blkno count b = 1 := by
  obtain ⟨members, represents, singles⟩ := rep.single
  -- neither call returns a value of the stack
  by_cases one : count = 1
  · obtain ⟨represents', result⟩ := call_spec represents (.set blkno) valid
    refine ⟨_, _, ?_, represents', fun b => ?_⟩
    · simp [setSingle, one, result.mpr trivial, setCall]
    · by_cases same : b = blkno <;> simp [setCall, same, one, singles]
  · obtain ⟨represents', result⟩ := call_spec represents (.clear blkno 0) valid
    refine ⟨_, _, ?_, represents', fun b => ?_⟩
    · simp [setSingle, one, result.mpr (.inr rfl), setCall]
    · by_cases same : b = blkno <;> simp [setCall, same, one, singles]

theorem icountSet_spec (valid : blkno < fsBlocks) (count : Nat) :
    ∃ icount', icountSet icount blkno count = some icount' ∧
      Counts fsBlocks icount' (Function.update counts blkno count) := by
  obtain ⟨bitmap, members, run, represents, singles⟩ := setSingle_spec rep valid count
  obtain ⟨low, here, high, around⟩ := exists_around rep.sorted blkno
  have list := toList_setMultiple around rep.sorted count
  have sorted := rep.sorted
  rw [Sorted, around.list, List.append_assoc, List.pairwise_append, List.pairwise_append] at sorted
  obtain ⟨lows, ⟨-, highs, -⟩, across⟩ := sorted
  refine ⟨⟨bitmap, setMultiple icount.ic_multiple_tree blkno count⟩, ?_, ⟨members, represents, singles⟩,
    ?_, fun e => ?_, fun b nonzero => ?_⟩
  · rw [icountSet, run]
    rfl
  · rw [Sorted, list, List.append_assoc, List.pairwise_append, List.pairwise_append]
    refine ⟨lows, ⟨?_, highs, fun a inside b after => ?_⟩, fun a inside b after => ?_⟩
    · split <;> simp
    · have := around.above b after
      split at inside <;> simp_all
    · rcases List.mem_append.mp after with new | old
      · have := around.below a inside
        split at new <;> simp_all
      · exact across a inside b (by simp [old])
  · have before := rep.multiple e
    rw [around.list] at before
    rw [list]
    by_cases same : e.in_blkno = blkno
    · -- neither side has a node of this block number
      have apart : e ∉ low ∧ e ∉ high := by
        constructor
        · intro inside
          have := around.below e inside
          omega
        · intro inside
          have := around.above e inside
          omega
      rw [same, Function.update_self]
      obtain ⟨b, c⟩ := e
      subst same
      by_cases few : count < 2
      · simp only [few, apart, if_true, List.append_nil, List.mem_append, or_self, false_iff]
        omega
      · simp only [few, apart, if_false, List.mem_append, List.mem_singleton, IcountNode.mk.injEq,
          false_or, or_false, true_and]
        omega
    · rw [Function.update_of_ne same, ← before]
      have other : ∀ entry : IcountNode, entry.in_blkno = blkno → e ≠ entry := by
        rintro entry here rfl
        exact same here
      rcases around.single with rfl | ⟨entry, rfl, here⟩
      · split <;> simp [other]
      · split <;> simp [other, here]
  · by_cases same : b = blkno
    · exact same ▸ valid
    · rw [Function.update_of_ne same] at nonzero
      exact rep.inside b nonzero

theorem icountGet_spec (valid : blkno < fsBlocks) : icountGet icount blkno = some (counts blkno) := by
  obtain ⟨members, represents, singles⟩ := rep.single
  obtain ⟨low, here, high, around⟩ := exists_around rep.sorted blkno
  have test : (call icount.ic_single_bm (.test blkno)).2 = .ok (decide (blkno ∈ members)).toInt :=
    ((call_spec represents (.test blkno) valid).2.mpr trivial)
  rw [icountGet, test]
  by_cases one : counts blkno = 1
  · simp [singles, one]
  · simp only [singles, one, decide_false, (search_around around).1]
    rcases around.single with rfl | ⟨entry, rfl, same⟩
    · have few : ¬ 2 ≤ counts blkno := fun many => by
        have inside := (rep.multiple ⟨blkno, counts blkno⟩).mpr ⟨rfl, many⟩
        rw [around.list, List.append_nil] at inside
        rcases List.mem_append.mp inside with inLow | inHigh
        · exact absurd (around.below _ inLow) (lt_irrefl _)
        · exact absurd (around.above _ inHigh) (lt_irrefl _)
      simp
      omega
    · have held := (rep.multiple entry).mp (by simp [around.list])
      simp [← same, held.1]

theorem icountDelta_spec (valid : blkno < fsBlocks) (delta : Int)
    (low : 0 ≤ counts blkno + delta) (high : counts blkno + delta ≤ 65535) :
    ∃ icount', icountDelta icount blkno delta = some icount' ∧
      Counts fsBlocks icount' (Function.update counts blkno (counts blkno + delta).toNat) := by
  by_cases zero : delta = 0
  · refine ⟨icount, by rw [icountDelta, if_pos zero], ?_⟩
    simpa [zero] using rep
  · have wrapped : ((counts blkno : Int) + delta) % 2 ^ 16 = counts blkno + delta :=
      Int.emod_eq_of_lt low (by omega)
    obtain ⟨icount', run, rep'⟩ := icountSet_spec rep valid (counts blkno + delta).toNat
    refine ⟨icount', ?_, rep'⟩
    rw [icountDelta, if_neg zero, icountGet_spec rep valid, Option.bind_eq_bind, Option.bind_some,
      wrapped, run]

def IsNext (counts : Nat → Nat) (start b : Nat) : Prop :=
  start ≤ b ∧ counts b ≠ 0 ∧ ∀ x, start ≤ x → x < b → counts x = 0

theorem search_next (start : Nat) : (∃ entry, (icountSearch icount.ic_multiple_tree start).1.or
        (icountSearch icount.ic_multiple_tree start).2 = some entry ∧ start ≤ entry.in_blkno ∧
        2 ≤ counts entry.in_blkno ∧ ∀ x, start ≤ x → x < entry.in_blkno → counts x < 2) ∨
      (icountSearch icount.ic_multiple_tree start).1.or
        (icountSearch icount.ic_multiple_tree start).2 = none ∧ ∀ x, start ≤ x → counts x < 2 := by
  obtain ⟨low, here, high, around⟩ := exists_around rep.sorted start
  rw [(search_around around).2]
  have sorted := rep.sorted
  rw [Sorted, around.list, List.append_assoc, List.pairwise_append] at sorted
  -- a block with two or more links at or after `start` has its node behind the lower ones
  have held (x : Nat) (later : start ≤ x) (many : 2 ≤ counts x) : ⟨x, counts x⟩ ∈ here ++ high := by
    have inside := (rep.multiple ⟨x, counts x⟩).mpr ⟨rfl, many⟩
    rw [around.list, List.append_assoc, List.mem_append] at inside
    rcases inside with inLow | rest
    · have below : x < start := around.below _ inLow
      omega
    · exact rest
  cases rest : here ++ high with
  | nil =>
    refine .inr ⟨rfl, fun x later => ?_⟩
    by_contra many
    have inside := held x later (by omega)
    rw [rest] at inside
    cases inside
  | cons entry others =>
    have inside : entry ∈ here ++ high := by simp [rest]
    have count := (rep.multiple entry).mp (by rw [around.list, List.append_assoc]; simp [inside])
    refine .inl ⟨entry, rfl, ?_, by omega, fun x later less => ?_⟩
    · rcases List.mem_append.mp inside with inHere | inHigh
      · rcases around.single with rfl | ⟨e, rfl, same⟩
        · cases inHere
        · rw [List.mem_singleton.mp inHere, same]
      · exact (around.above entry inHigh).le
    · by_contra many
      have member := held x later (by omega)
      rw [rest] at member sorted
      rcases List.mem_cons.mp member with same | other
      · rw [← same] at less
        exact lt_irrefl _ less
      · have := (List.pairwise_cons.mp sorted.2.1).1 _ other
        simp only at this
        omega

theorem single_next (start : Nat) :
    (∃ b : Nat, (call icount.ic_single_bm (.findNextSet start)).2 = .ok (b : Int) ∧ start ≤ b ∧
        counts b = 1 ∧ ∀ x, start ≤ x → x < b → counts x ≠ 1) ∨
      (call icount.ic_single_bm (.findNextSet start)).2 =
        .error (if start < fsBlocks then .bitNotFound else .invalidBit) ∧
        ∀ x, start ≤ x → counts x ≠ 1 := by
  obtain ⟨members, represents, singles⟩ := rep.single
  by_cases valid : start < fsBlocks
  · have found := (call_spec represents (.findNextSet start) valid).2.mpr trivial
    rw [found, setCall, if_pos valid]
    by_cases some : (members.filter (start ≤ ·)).Nonempty
    · rw [dif_pos some]
      have least := Finset.min'_mem _ some
      rw [Finset.mem_filter, singles] at least
      refine .inl ⟨_, rfl, least.2, least.1, fun x later less one => ?_⟩
      have := Finset.min'_le (members.filter (start ≤ ·)) x (by simp [singles, one, later])
      omega
    · rw [dif_neg some]
      refine .inr ⟨rfl, fun x later one => some ⟨x, by simp [singles, one, later]⟩⟩
  · refine .inr ⟨?_, fun x later one => ?_⟩
    · simp [call, Bitmap.findNextSet, represents.total, Nat.not_lt.mp valid, valid, Except.map]
    · have := rep.inside x (by omega)
      omega

theorem icountNextBlkno_spec (start : Nat) : (∃ b, icountNextBlkno icount start = .ok b ∧ IsNext counts start b) ∨
      icountNextBlkno icount start = .error (if start < fsBlocks then .bitNotFound else .invalidBit) ∧
        ∀ x, start ≤ x → counts x = 0 := by
  rcases search_next rep start with ⟨entry, node, late, many, fewer⟩ | ⟨node, few⟩ <;>
    rcases single_next rep start with ⟨bit, single, later, one, others⟩ | ⟨single, others⟩
  · -- both have a block: the lesser of the two
    refine .inl ⟨if bit < entry.in_blkno then bit else entry.in_blkno,
      by simp only [icountNextBlkno, node, single, Int.toNat_natCast], ?_⟩
    split
    next less =>
      refine ⟨later, by omega, fun x from_start below => ?_⟩
      have := fewer x from_start (by omega)
      have := others x from_start below
      omega
    next more =>
      refine ⟨late, by omega, fun x from_start below => ?_⟩
      have := fewer x from_start below
      have := others x from_start (by omega)
      omega
  · have valid := rep.inside entry.in_blkno (by omega)
    rw [if_pos (show start < fsBlocks by omega)] at single
    refine .inl ⟨entry.in_blkno, by simp only [icountNextBlkno, node, single], late, by omega,
      fun x from_start below => ?_⟩
    have := fewer x from_start below
    have := others x from_start
    omega
  · refine .inl ⟨bit, by simp only [icountNextBlkno, node, single, Int.toNat_natCast], later, by omega,
      fun x from_start below => ?_⟩
    have := few x from_start
    have := others x from_start below
    omega
  · refine .inr ⟨by simp only [icountNextBlkno, node, single], fun x from_start => ?_⟩
    have := few x from_start
    have := others x from_start
    omega

end Step

inductive Op where
  | set (blkno count : Nat)
  | delta (blkno : Nat) (change : Int)
  | get (blkno : Nat)
  deriving DecidableEq

def step (icount : O2fsckIcount) : Op → Option (O2fsckIcount × Option Nat)
  | .set blkno count => (icountSet icount blkno count).map (·, none)
  | .delta blkno change => (icountDelta icount blkno change).map (·, none)
  | .get blkno => (icountGet icount blkno).map (icount, some ·)

def run (icount : O2fsckIcount) : List Op → Option (O2fsckIcount × List (Option Nat))
  | [] => some (icount, [])
  | op :: ops => do
    let (icount, result) ← step icount op
    let (icount, results) ← run icount ops
    return (icount, result :: results)

def mapStep (counts : Nat → Nat) : Op → (Nat → Nat) × Option Nat
  | .set blkno count => (Function.update counts blkno count, none)
  | .delta blkno change => (Function.update counts blkno (counts blkno + change).toNat, none)
  | .get blkno => (counts, some (counts blkno))

def mapRun (counts : Nat → Nat) : List Op → (Nat → Nat) × List (Option Nat)
  | [] => (counts, [])
  | op :: ops =>
    let (counts, result) := mapStep counts op
    let (counts, results) := mapRun counts ops
    (counts, result :: results)

def Op.Valid (fsBlocks : Nat) (counts : Nat → Nat) : Op → Prop
  | .set blkno count => blkno < fsBlocks ∧ count ≤ 65535
  | .delta blkno change => blkno < fsBlocks ∧ 0 ≤ counts blkno + change ∧ counts blkno + change ≤ 65535
  | .get blkno => blkno < fsBlocks

def AllValid (fsBlocks : Nat) : (Nat → Nat) → List Op → Prop
  | _, [] => True
  | counts, op :: ops => op.Valid fsBlocks counts ∧ AllValid fsBlocks (mapStep counts op).1 ops

theorem step_spec {fsBlocks : Nat} {icount : O2fsckIcount} {counts : Nat → Nat}
    (rep : Counts fsBlocks icount counts) (op : Op) (valid : op.Valid fsBlocks counts) :
    ∃ icount', step icount op = some (icount', (mapStep counts op).2) ∧
      Counts fsBlocks icount' (mapStep counts op).1 := by
  cases op with
  | set blkno count =>
    obtain ⟨icount', done, rep'⟩ := icountSet_spec rep valid.1 count
    exact ⟨icount', by simp [step, done, mapStep], rep'⟩
  | delta blkno change =>
    obtain ⟨icount', done, rep'⟩ := icountDelta_spec rep valid.1 change valid.2.1 valid.2.2
    exact ⟨icount', by simp [step, done, mapStep], rep'⟩
  | get blkno => exact ⟨icount, by simp [step, icountGet_spec rep valid, mapStep], rep⟩

theorem run_spec {fsBlocks : Nat} (ops : List Op) {icount : O2fsckIcount} {counts : Nat → Nat}
    (rep : Counts fsBlocks icount counts) (valid : AllValid fsBlocks counts ops) :
    ∃ icount', run icount ops = some (icount', (mapRun counts ops).2) ∧
      Counts fsBlocks icount' (mapRun counts ops).1 := by
  induction ops generalizing icount counts with
  | nil => exact ⟨icount, rfl, rep⟩
  | cons op ops ih =>
    obtain ⟨next, done, rep'⟩ := step_spec rep op valid.1
    obtain ⟨icount', rest, rep''⟩ := ih rep' valid.2
    refine ⟨icount', ?_, rep''⟩
    rw [run, done]
    simp [rest, mapRun]

theorem icount_refines_map (fsBlocks : Nat) (ops : List Op) (valid : AllValid fsBlocks (fun _ => 0) ops) :
    ∃ icount, run (icountNew fsBlocks) ops = some (icount, (mapRun (fun _ => 0) ops).2) ∧
      (∀ blkno < fsBlocks, icountGet icount blkno = some ((mapRun (fun _ => 0) ops).1 blkno)) ∧
      ∀ start, (∃ b, icountNextBlkno icount start = .ok b ∧ IsNext (mapRun (fun _ => 0) ops).1 start b) ∨
        icountNextBlkno icount start = .error (if start < fsBlocks then .bitNotFound else .invalidBit) ∧
          ∀ x, start ≤ x → (mapRun (fun _ => 0) ops).1 x = 0 := by
  obtain ⟨icount, done, rep⟩ := run_spec ops (counts_new fsBlocks) valid
  exact ⟨icount, done, fun blkno inside => icountGet_spec rep inside, icountNextBlkno_spec rep⟩

theorem icount_refines_map_moved : ∃ icount, run (icountNew 16) [.set 3 1, .delta 3 1, .get 3, .delta 3 (-1)] =
        some (icount, [none, none, some 2, none]) ∧ icountGet icount 3 = some 1 := by
  obtain ⟨icount, done, get, -⟩ := icount_refines_map 16 [.set 3 1, .delta 3 1, .get 3, .delta 3 (-1)]
    (by simp [AllValid, Op.Valid, mapStep])
  refine ⟨icount, done.trans (by simp [mapRun, mapStep]), (get 3 (by decide)).trans ?_⟩
  simp [mapRun, mapStep]

section Balance

variable {icount icount' : O2fsckIcount}

theorem sound_setMultiple {tree : Node IcountNode} (sound : tree.Sound) (blkno count : Nat) :
    (setMultiple tree blkno count).Sound := by
  have walk := plug_descend [] (order blkno) tree
  rw [setMultiple]
  split
  next c l entry r path found =>
    rw [found] at walk
    have whole : (plug (.node c l entry r) path).Sound := walk ▸ sound
    split_ifs
    · exact sound_rbErase path l r whole
    · obtain ⟨balanced, refill⟩ := sound_plug path whole
      exact refill _ ⟨balanced, by cases c <;> rfl, by cases c <;> exact id⟩
  next path found =>
    split_ifs
    · exact sound_rbInsert _ _ sound (by rw [search, found])
    · exact sound

theorem sound_icountSet {blkno count : Nat} (sound : icount.ic_multiple_tree.Sound)
    (done : icountSet icount blkno count = some icount') : icount'.ic_multiple_tree.Sound := by
  obtain ⟨bitmap, -, same⟩ := Option.bind_eq_some_iff.mp done
  cases same
  exact sound_setMultiple sound blkno count

theorem sound_step {op : Op} {result : Option Nat} (sound : icount.ic_multiple_tree.Sound)
    (done : step icount op = some (icount', result)) : icount'.ic_multiple_tree.Sound := by
  cases op with
  | set blkno count =>
    obtain ⟨_, set, same⟩ := Option.map_eq_some_iff.mp done
    cases same
    exact sound_icountSet sound set
  | delta blkno change =>
    obtain ⟨_, set, same⟩ := Option.map_eq_some_iff.mp done
    cases same
    rw [icountDelta] at set
    split_ifs at set
    · cases set
      exact sound
    · obtain ⟨prev, -, set⟩ := Option.bind_eq_some_iff.mp set
      exact sound_icountSet sound set
  | get blkno =>
    obtain ⟨_, -, same⟩ := Option.map_eq_some_iff.mp done
    cases same
    exact sound

theorem icount_tree_balanced (fsBlocks : Nat) (ops : List Op) {results : List (Option Nat)}
    (done : run (icountNew fsBlocks) ops = some (icount, results)) : let t := icount.ic_multiple_tree
    t.Sound ∧ t.depth ≤ 2 * Nat.log2 (t.toList.length + 1) := by
  have start : (icountNew fsBlocks).ic_multiple_tree.Sound := ⟨rfl, trivial⟩
  generalize icountNew fsBlocks = first at done start
  have sound : icount.ic_multiple_tree.Sound := by
    induction ops generalizing first results with
    | nil =>
      cases done
      exact start
    | cons op ops ih =>
      obtain ⟨⟨next, result⟩, once, done⟩ := Option.bind_eq_some_iff.mp done
      obtain ⟨⟨last, rest⟩, later, same⟩ := Option.bind_eq_some_iff.mp done
      cases same
      exact ih next later (sound_step start once)
  exact ⟨sound, sound.depth_le⟩

theorem icount_tree_balanced_three : ∃ icount results, run (icountNew 16) [.set 3 2, .delta 5 4, .set 3 1] =
    some (icount, results) ∧ icount.ic_multiple_tree.Sound := by
  obtain ⟨⟨icount, results⟩, done⟩ := Option.isSome_iff_exists.mp
    (show (run (icountNew 16) [.set 3 2, .delta 5 4, .set 3 1]).isSome = true by decide +kernel)
  exact ⟨icount, results, done, (icount_tree_balanced 16 _ done).1⟩

end Balance

end Ocfs2.Icount
