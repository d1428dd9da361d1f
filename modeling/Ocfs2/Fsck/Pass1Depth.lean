import Ocfs2.Fsck.Pass1Extent

set_option autoImplicit false

namespace Ocfs2.Pass1

open Extents Program

abbrev CheckEl := ExtentInfo → ExtentList → Nat → Bool → Fsck Checked

section Levels

variable (env : Setup)

def checkElOver (below : CheckEl) : CheckEl := fun ei el max_recs changed => do
  let depth ← promptIf env (ei.ei_expect_depth && el.l_tree_depth ≠ ei.ei_expected_depth)
  let el := if depth then { el with l_tree_depth := ei.ei_expected_depth } else el
  let count ← promptIf env (el.l_count > max_recs)
  let el := if count then { el with l_count := max_recs } else el
  let max_recs := min max_recs el.l_count
  let beyond := el.l_next_free_rec > max_recs
  let clamp ← promptIf env beyond
  let el := if clamp then { el with l_next_free_rec := el.l_count } else el
  let trust_next_free := !beyond || clamp
  let max_recs := if trust_next_free then el.l_next_free_rec else max_recs
  checkElLoop env (checkEb env below) trust_next_free max_recs 0 ⟨ei, el, changed || depth || count || clamp⟩

theorem checkEl_eq (fuel : Nat) : checkEl env fuel = (checkElOver env)^[fuel] fun _ _ _ _ => failure := by
  induction fuel with
  | zero => rfl
  | succ fuel ih =>
    rw [Function.iterate_succ_apply', ← ih]
    rfl

/-- The check makes no call deeper than some depth: what such a call would do makes no difference. -/
def Terminates (ei : ExtentInfo) (el : ExtentList) (max_recs : Nat) (changed : Bool) (s : O2fsckState) : Prop :=
  ∃ depth, ∀ below below' : CheckEl, (checkElOver env)^[depth] below ei el max_recs changed s =
    (checkElOver env)^[depth] below' ei el max_recs changed s

variable {env}

theorem promptIf_yes {β : Type} (yes : ∀ k, env.answer k = true) (condition : Bool) (next : Bool → Fsck β) :
    promptIf env condition >>= next = promptIf env condition >>= fun _ => next condition := by
  cases condition
  · rfl
  · funext s
    simp [promptIf, yes, bind, StateT.bind, get, getThe, MonadStateOf.get, StateT.get, modify, modifyGet,
      MonadStateOf.modifyGet, StateT.modifyGet, pure_run]

variable {checkEb₁ checkEb₂ : ExtentInfo → Nat → Fsck (ExtentInfo × Bool)} {depth : Nat}

section

variable (same : ∀ ei blkno, depth ≠ 0 → ei.ei_expect_depth = true → ei.ei_expected_depth = depth - 1 →
  checkEb₁ ei blkno = checkEb₂ ei blkno)

include same

theorem checkEr_congr
    (ei : ExtentInfo) (el : ExtentList) (level : el.l_tree_depth = depth) (er : ExtentRec) (changed : Bool) :
    checkEr env checkEb₁ ei el er changed = checkEr env checkEb₂ ei el er changed := by
  rw [checkEr, checkEr]
  by_cases leaf : el.l_tree_depth = 0
  · simp only [leaf, ne_eq, not_true, if_false]
  · rw [same _ _ (level ▸ leaf) rfl (by rw [← level])]

theorem checkElLoop_congr
    (trust : Bool) (left i : Nat) (c : Checked) (level : c.el.l_tree_depth = depth) :
    checkElLoop env checkEb₁ trust left i c = checkElLoop env checkEb₂ trust left i c := by
  induction left generalizing i c with
  | zero => rfl
  | succ left ih =>
    rw [checkElLoop, checkElLoop]
    split
    · rfl
    next er _ =>
      -- every list the loop goes on with has the depth of this one
      have kept (j : Nat) (ei : ExtentInfo) (er : ExtentRec) (changed : Bool) :=
        ih j ⟨ei, { c.el with l_recs := c.el.l_recs.set i er }, changed⟩ level
      have removed (j : Nat) (ei : ExtentInfo) (er : ExtentRec) :=
        ih j ⟨ei, removeRec { c.el with l_recs := c.el.l_recs.set i er } i left, true⟩ level
      simp only [checkEr_congr same c.ei c.el level er c.changed, ih (i + 1) c level, kept, removed]

end

theorem checkElOver_congr (yes : ∀ k, env.answer k = true) {below below' : CheckEl} (ei : ExtentInfo)
    (el : ExtentList) (max_recs : Nat) (changed : Bool)
    (level : (if ei.ei_expect_depth then ei.ei_expected_depth else el.l_tree_depth) = depth)
    (same : ∀ ei el max_recs changed, depth ≠ 0 → ei.ei_expect_depth = true →
      ei.ei_expected_depth = depth - 1 → below ei el max_recs changed = below' ei el max_recs changed) :
    checkElOver env below ei el max_recs changed = checkElOver env below' ei el max_recs changed := by
  have blocks (ei : ExtentInfo) (blkno : Nat) (some : depth ≠ 0) (expect : ei.ei_expect_depth = true)
      (here : ei.ei_expected_depth = depth - 1) : checkEb env below ei blkno = checkEb env below' ei blkno := by
    simp only [checkEb, fun el max_recs changed => same ei el max_recs changed some expect here]
  -- the accepted repair makes the depth the expected one
  have repaired : (if ei.ei_expect_depth && decide (el.l_tree_depth ≠ ei.ei_expected_depth) then
      { el with l_tree_depth := ei.ei_expected_depth } else el).l_tree_depth = depth := by
    rw [← level]
    by_cases expect : ei.ei_expect_depth = true <;> by_cases equal : el.l_tree_depth = ei.ei_expected_depth <;>
      simp [expect, equal]
  refine (promptIf_yes yes _ _).trans (Eq.trans (congrArg _ (funext fun _ => ?_)) (promptIf_yes yes _ _).symm)
  dsimp only
  refine congrArg _ (funext fun count => congrArg _ (funext fun clamp => ?_))
  refine checkElLoop_congr blocks _ _ _ _ ?_
  cases count <;> cases clamp <;> exact repaired

theorem iterate_checkElOver_congr (yes : ∀ k, env.answer k = true) (below below' : CheckEl) (levels : Nat)
    (ei : ExtentInfo) (el : ExtentList) (max_recs : Nat) (changed : Bool)
    (shallow : (if ei.ei_expect_depth then ei.ei_expected_depth else el.l_tree_depth) ≤ levels) :
    (checkElOver env)^[levels + 1] below ei el max_recs changed =
      (checkElOver env)^[levels + 1] below' ei el max_recs changed := by
  induction levels generalizing ei el max_recs changed with
  | zero => exact checkElOver_congr yes ei el max_recs changed rfl fun _ _ _ _ some => absurd (by omega) some
  | succ levels ih =>
    rw [Function.iterate_succ_apply', Function.iterate_succ_apply' _ _ below']
    refine checkElOver_congr yes ei el max_recs changed rfl fun ei' el' max_recs' changed' some expect here => ?_
    refine ih ei' el' max_recs' changed' ?_
    rw [if_pos expect]
    omega

end Levels

section Cycle

def smallVolume (answer : Nat → Bool) : Setup :=
  ⟨⟨⟨64, 64, 512, 1⟩, 5, true, true, true, 4, 4, 64, 4, 64, 64⟩, 7, false, 0, 0, answer⟩

def toTen (depth : Nat) : ExtentList := ⟨depth, 4, 1, [⟨0, 8, 10⟩, ⟨0, 0, 0⟩, ⟨0, 0, 0⟩, ⟨0, 0, 0⟩]⟩

def ownParent (asked : Nat) : O2fsckState :=
  ⟨fun b => if b = 10 then .extentBlock ⟨10, 7, toTen 1⟩ else .data [], fun _ => false, fun _ => false, asked⟩

theorem checkElOver_self (below : CheckEl) (expect : Bool) (asked : Nat) :
    (checkElOver (smallVolume fun _ => false) below ⟨expect, 0, []⟩ (toTen 1) 4 false (ownParent asked)).isSome =
      (below ⟨true, 0, []⟩ (toTen 1) 4 false (ownParent (asked + expect.toNat))).isSome := by
  obtain ⟨r, run⟩ : ∃ r, below ⟨true, 0, []⟩ (toTen 1) 4 false (ownParent (asked + expect.toNat)) = r := ⟨_, rfl⟩
  rw [run]
  cases expect <;> rcases r with _ | ⟨⟨ei, el, _ | _⟩, s⟩ <;>
    simp only [toTen, ownParent, Bool.toNat_true, Bool.toNat_false, Nat.add_zero] at run <;>
    simp [checkElOver, promptIf, checkElLoop, toTen, smallVolume, checkEr, checkEb, recClusters,
      Geometry.blockOutOfRange, bind, StateT.bind, get, getThe, MonadStateOf.get, StateT.get, modify, modifyGet,
      MonadStateOf.modifyGet, StateT.modifyGet, pure_run, ownParent, readExtentBlockNocheck,
      extentBlocks, writeBlock, run]

end Cycle

end Ocfs2.Pass1
