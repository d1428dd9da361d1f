import Ocfs2.Libocfs2.ExtentGrow

set_option autoImplicit false

namespace Ocfs2.ExtentTree

open Extents (ExtentRec ExtentList)
open Effect

def Volume.tried (v : Volume) : Volume := { v with faults := v.faults.tail }

theorem fallible_run (e : Errcode) (v : Volume) :
    (fallible e).run v = some (if v.faults.head? = some true then .error e else .ok (), v.tried) := by
  rcases v with ⟨di, inode, blocks, free, _ | ⟨_ | _, rest⟩⟩ <;> rfl

theorem fallible_cases (e : Errcode) (v : Volume) :
    (fallible e).run v = some (.error e, v.tried) ∨ (fallible e).run v = some (.ok (), v.tried) := by
  rw [fallible_run]
  split
  · exact Or.inl rfl
  · exact Or.inr rfl

theorem fallible_triple {P : Volume → Prop} {Q : Unit → Volume → Prop} {E : Volume → Prop} (e : Errcode)
    (works : ∀ v, P v → v.faults.head? ≠ some true → Q () v.tried)
    (fails : ∀ v, P v → v.faults.head? = some true → E v.tried) : Triple P (fallible e) Q E := by
  constructor
  · intro v here a v' run
    by_cases head : v.faults.head? = some true
    · simp [fallible_run, head] at run
    · obtain rfl : v.tried = v' := by simpa [fallible_run, head] using run
      exact works v here head
  · intro v here e' v' run
    by_cases head : v.faults.head? = some true
    · obtain ⟨-, rfl⟩ : e = e' ∧ v.tried = v' := by simpa [fallible_run, head] using run
      exact fails v here head
    · simp [fallible_run, head] at run

variable {v : Volume} {el : ExtentList} {edge : List ExtentBlock} {blocks : Nat → Option ExtentBlock}
  {di : Dinode}

theorem readExtentBlock_cases {blkno : Nat} {eb : ExtentBlock} (stored : v.blocks blkno = some eb) :
    (readExtentBlock blkno).run v = some (.error .io, v.tried) ∨
      (readExtentBlock blkno).run v = some (.ok eb, v.tried) := by
  rcases fallible_cases .io v with fails | works
  · exact Or.inl (bind_error fails)
  · refine Or.inr ?_
    have here : v.tried.blocks blkno = some eb := stored
    rw [readExtentBlock, bind_ok works, get_bind_run, here]
    rfl

structure Sized (el : ExtentList) : Prop where
  length : el.l_recs.length = el.l_count
  used : el.l_next_free_rec ≤ el.l_count

def Room (el : ExtentList) : Prop := el.l_next_free_rec < el.l_count

instance (el : ExtentList) : Decidable (Room el) := inferInstanceAs (Decidable (_ < _))

inductive RightEdge (blocks : Nat → Option ExtentBlock) : ExtentList → List ExtentBlock → Prop
  | bottom {el : ExtentList} (sized : Sized el) (low : el.l_tree_depth ≤ 1) : RightEdge blocks el []
  | step {el : ExtentList} {rec : ExtentRec} {eb : ExtentBlock} {edge : List ExtentBlock} (sized : Sized el)
      (high : 1 < el.l_tree_depth) (level : eb.h_list.l_tree_depth + 1 = el.l_tree_depth)
      (used : el.l_next_free_rec ≠ 0) (last : getRec el (el.l_next_free_rec - 1) = some rec)
      (blkno : rec.e_blkno ≠ 0) (stored : blocks rec.e_blkno = some eb) (below : RightEdge blocks eb.h_list edge) :
      RightEdge blocks el (eb :: edge)

theorem RightEdge.sized
    (right : RightEdge blocks el edge) : Sized el ∧ ∀ eb ∈ edge, Sized eb.h_list := by
  induction right with
  | bottom sized => exact ⟨sized, by simp⟩
  | step sized _ _ _ _ _ _ _ ih =>
    refine ⟨sized, fun eb mem => ?_⟩
    rcases List.mem_cons.mp mem with rfl | mem
    · exact ih.1
    · exact ih.2 eb mem

theorem RightEdge.depth_ne_zero
    (right : RightEdge blocks el edge) (filled : edge ≠ []) : el.l_tree_depth ≠ 0 := by
  cases right with
  | bottom => exact absurd rfl filled
  | step _ high => omega

theorem findBranchLoop_correct
    (right : RightEdge blocks el edge) {depth : Nat} (enough : el.l_tree_depth < depth) (buf : Option ExtentBlock)
    (lowest : Bool) (same : v.blocks = blocks) :
    (∃ e v', (findBranchLoop depth el buf lowest).run v = some (.error e, v')) ∨
      ∃ faults, (findBranchLoop depth el buf lowest).run v =
        some (.ok (edge.getLast?.or buf, lowest || edge.any fun eb => Room eb.h_list), { v with faults }) := by
  induction right generalizing depth buf lowest v with
  | bottom _ low =>
    obtain ⟨depth, rfl⟩ : ∃ n, depth = n + 1 := ⟨depth - 1, by omega⟩
    refine Or.inr ⟨v.faults, ?_⟩
    rw [findBranchLoop, if_pos low]
    simp
  | @step el rec eb edge _ high level used last blkno stored below ih =>
    obtain ⟨depth, rfl⟩ : ∃ n, depth = n + 1 := ⟨depth - 1, by omega⟩
    have run : (findBranchLoop (depth + 1) el buf lowest).run v = (do
        let eb ← readExtentBlock rec.e_blkno
        findBranchLoop depth eb.h_list (some eb) (lowest || eb.h_list.l_next_free_rec < eb.h_list.l_count) :
        Ext _).run v := by
      rw [findBranchLoop, if_neg (by omega), check_bind_run _ _ used, last, require_bind_run, check_bind_run _ _ blkno]
    rw [run]
    rcases readExtentBlock_cases (show v.blocks rec.e_blkno = some eb by rw [same, stored]) with fails | works
    · exact Or.inl ⟨_, _, bind_error fails⟩
    · rw [bind_ok works]
      rcases ih (show eb.h_list.l_tree_depth < depth by omega) (some eb) (lowest || eb.h_list.l_next_free_rec < eb.h_list.l_count)
          (show v.tried.blocks = blocks from same) with
        failed | ⟨faults, found⟩
      · exact Or.inl failed
      · refine Or.inr ⟨faults, ?_⟩
        rw [found]
        cases edge <;> simp [Volume.tried, Room, Bool.or_assoc, List.getLast?_cons] <;> rfl

def edgeItems (di : Dinode) (edge : List ExtentBlock) : List (Nat × ExtentList) :=
  if di.i_list.l_tree_depth = 0 then []
  else (di.i_blkno, di.i_list) :: edge.map fun eb => (eb.h_blkno, eb.h_list)

def handedOn (di : Dinode) : BranchTarget → Option (Nat × ExtentList)
  | .block eb => some (eb.h_blkno, eb.h_list)
  | .inode => some (di.i_blkno, di.i_list)
  | .shift => none

def HandsOnLowest (v : Volume) (edge : List ExtentBlock) : Prop :=
  ∀ target v', findBranchTarget.run v = some (.ok target, v') → target ≠ .shift →
    handedOn v.di target = ((edgeItems v.di edge).filter fun item => Room item.2).getLast? ∧
      ∀ item, handedOn v.di target = some item → ∀ new_cpos next_blkno,
        (linkBranch item.2 new_cpos next_blkno).isSome

theorem linkBranch_isSome (sized : Sized el) (room : Room el) (new_cpos next_blkno : Nat) :
    (linkBranch el new_cpos next_blkno).isSome := by
  have inside : el.l_next_free_rec < el.l_recs.length := sized.length ▸ room
  rw [linkBranch, if_neg (Nat.not_le.mpr room), setRec, if_pos inside]
  rfl

theorem findBranchTarget_correct (right : RightEdge v.blocks v.di.i_list edge) :
    (∃ e v', findBranchTarget.run v = some (.error e, v')) ∨
      ∃ v', findBranchTarget.run v = some (.ok (
        if edge.any fun eb => Room eb.h_list then (edge.getLast?.map BranchTarget.block).getD .shift
        else if v.di.i_list.l_next_free_rec = v.di.i_list.l_count then .shift else .inode), v') := by
  rw [findBranchTarget, get_bind_run]
  rcases fallible_cases .noMemory v with fails | works
  · exact Or.inl ⟨_, _, bind_error fails⟩
  · rw [malloc, bind_ok works]
    rcases findBranchLoop_correct right (Nat.lt_succ_self _) none false (show v.tried.blocks = v.blocks from rfl) with
      ⟨e, v', failed⟩ | ⟨faults, found⟩
    · exact Or.inl ⟨e, v', bind_error failed⟩
    · refine Or.inr ⟨{ v.tried with faults }, ?_⟩
      rw [bind_ok found]
      cases any : edge.any fun eb => Room eb.h_list with
      | true =>
        cases last : edge.getLast? with
        | none => simp [List.getLast?_eq_none_iff.mp last] at any
        | some eb => simp
      | false =>
        simp only [Bool.or_false]
        split <;> simp_all

theorem getLast?_filter_room (depth : di.i_list.l_tree_depth ≠ 0) :
    ((edgeItems di edge).filter fun item => Room item.2).getLast? =
      ((edge.filter fun eb => Room eb.h_list).getLast?.map fun eb => (eb.h_blkno, eb.h_list)).or
        (if Room di.i_list then some (di.i_blkno, di.i_list) else none) := by
  rw [edgeItems, if_neg depth, List.filter_cons, List.filter_map]
  by_cases room : Room di.i_list
  · simp [room, Function.comp_def, List.getLast?_cons]
  · simp [room, Function.comp_def]

def LowestHasRoom (v : Volume) (edge : List ExtentBlock) : Prop :=
  (v.di.i_list.l_tree_depth = 0 → v.di.i_list.l_next_free_rec = v.di.i_list.l_count) ∧
    ((∀ eb ∈ edge, ¬ Room eb.h_list) ∨ ∃ eb, edge.getLast? = some eb ∧ Room eb.h_list)

theorem handsOnLowest_of_error {v' : Volume} {e : Errcode}
    (failed : findBranchTarget.run v = some (.error e, v')) : HandsOnLowest v edge := by
  intro target v'' run
  rw [failed] at run
  simp at run

theorem handsOnLowest_iff_of_ok {v' : Volume} {target : BranchTarget}
    (found : findBranchTarget.run v = some (.ok target, v')) :
    HandsOnLowest v edge ↔ (target ≠ .shift →
      handedOn v.di target = ((edgeItems v.di edge).filter fun item => Room item.2).getLast? ∧
        ∀ item, handedOn v.di target = some item → ∀ new_cpos next_blkno,
          (linkBranch item.2 new_cpos next_blkno).isSome) := by
  constructor
  · exact fun hands => hands target v' found
  · intro holds target' v'' run
    obtain ⟨rfl, -⟩ : target = target' ∧ v' = v'' := by simpa [found] using run
    exact holds

theorem linkBranch_of_lowest {item : Nat × ExtentList}
    (sized : Sized di.i_list ∧ ∀ eb ∈ edge, Sized eb.h_list)
    (lowest : some item = ((edgeItems di edge).filter fun item => Room item.2).getLast?) (new_cpos next_blkno : Nat) :
    (linkBranch item.2 new_cpos next_blkno).isSome := by
  obtain ⟨mem, room⟩ := List.mem_filter.mp (List.mem_of_getLast? lowest.symm)
  have known : Sized item.2 := by
    rw [edgeItems] at mem
    split at mem
    · simp at mem
    · rcases List.mem_cons.mp mem with rfl | mem
      · exact sized.1
      · obtain ⟨eb, inside, rfl⟩ := List.mem_map.mp mem
        exact sized.2 eb inside
  exact linkBranch_isSome known (by simpa using room) new_cpos next_blkno

theorem handedOn_block_iff {eb : ExtentBlock}
    (depth : di.i_list.l_tree_depth ≠ 0) (last : edge.getLast? = some eb) (other : ∃ eb ∈ edge, Room eb.h_list) :
    some (eb.h_blkno, eb.h_list) = ((edgeItems di edge).filter fun item => Room item.2).getLast? ↔ Room eb.h_list := by
  obtain ⟨front, rfl⟩ : ∃ front, edge = front ++ [eb] := List.getLast?_eq_some_iff.mp last
  rw [getLast?_filter_room depth, List.filter_append]
  by_cases room : Room eb.h_list
  · simp [room]
  · simp only [room, iff_false]
    intro same
    have inside : ∃ low, ((front.filter fun eb => Room eb.h_list).getLast? = some low) := by
      obtain ⟨low, mem, here⟩ := other
      have : low ∈ front.filter fun eb => Room eb.h_list := by
        rcases List.mem_append.mp mem with mem | mem
        · simpa using ⟨mem, here⟩
        · rw [List.mem_singleton.mp mem] at here
          exact absurd here room
      exact ⟨_, List.getLast?_eq_some_getLast (List.ne_nil_of_mem this)⟩
    obtain ⟨low, here⟩ := inside
    have lowRoom : Room low.h_list := by simpa using (List.mem_filter.mp (List.mem_of_getLast? here)).2
    have list : eb.h_list = low.h_list := by
      simp [room, here] at same
      exact same.2
    exact room (list ▸ lowRoom)

theorem findBranchTarget_lowest_iff (v : Volume) (edge : List ExtentBlock)
    (right : RightEdge v.blocks v.di.i_list edge) :
    HandsOnLowest v edge ↔ (∃ e v', findBranchTarget.run v = some (.error e, v')) ∨ LowestHasRoom v edge := by
  rcases findBranchTarget_correct right with ⟨e, v', failed⟩ | ⟨v', found⟩
  · exact ⟨fun _ => Or.inl ⟨e, v', failed⟩, fun _ => handsOnLowest_of_error failed⟩
  · have noError : ¬ ∃ e v', findBranchTarget.run v = some (.error e, v') := by simp [found]
    rw [handsOnLowest_iff_of_ok found, or_iff_right noError, LowestHasRoom]
    by_cases any : ∃ eb ∈ edge, Room eb.h_list
    · have depth := right.depth_ne_zero (List.ne_nil_of_mem any.choose_spec.1)
      have flag : (edge.any fun eb => Room eb.h_list) = true := by simpa using any
      obtain ⟨eb, last⟩ : ∃ eb, edge.getLast? = some eb :=
        ⟨_, List.getLast?_eq_some_getLast (List.ne_nil_of_mem any.choose_spec.1)⟩
      have lowest := handedOn_block_iff depth last any
      simp only [flag, if_true, last, Option.map_some, Option.getD_some, handedOn, Option.some.injEq]
      constructor
      · exact fun hands => ⟨fun zero => absurd zero depth, Or.inr ⟨eb, rfl, lowest.mp (hands (by simp)).1⟩⟩
      · rintro ⟨-, none | ⟨_, rfl, room⟩⟩ -
        · exact absurd any (by simpa using none)
        · have here := lowest.mpr room
          refine ⟨here, ?_⟩
          rintro item rfl
          exact linkBranch_of_lowest right.sized here
    · have flag : (edge.any fun eb => Room eb.h_list) = false := by simpa using any
      have none : ∀ eb ∈ edge, ¬ Room eb.h_list := by simpa using any
      simp only [flag, Bool.false_eq_true, if_false]
      by_cases full : v.di.i_list.l_next_free_rec = v.di.i_list.l_count
      · simpa [full] using Or.inl none
      · have room : Room v.di.i_list := lt_of_le_of_ne right.sized.1.used full
        simp only [full, if_false, imp_false, handedOn]
        by_cases depth : v.di.i_list.l_tree_depth = 0
        · simp [depth, edgeItems]
        · have here : some (v.di.i_blkno, v.di.i_list) =
              ((edgeItems v.di edge).filter fun item => Room item.2).getLast? := by
            rw [getLast?_filter_room depth, List.filter_eq_nil_iff.mpr (by simpa using none), if_pos room]
            rfl
          refine ⟨fun _ => ⟨depth, Or.inl none⟩, fun _ _ => ⟨here, ?_⟩⟩
          rintro item same
          exact linkBranch_of_lowest right.sized (same ▸ here)

def upperBlock : ExtentBlock := ⟨10, 0, ⟨2, 2, 1, [⟨0, 4, 11⟩, zeroRec]⟩⟩

def fullBlock : ExtentBlock := ⟨11, 0, ⟨1, 2, 2, [⟨0, 2, 13⟩, ⟨2, 2, 12⟩]⟩⟩

def roomyBlock : ExtentBlock := ⟨11, 0, ⟨1, 2, 1, [⟨0, 4, 12⟩, zeroRec]⟩⟩

def lastLeaf : ExtentBlock := ⟨12, 0, ⟨0, 2, 2, [⟨2, 1, 120⟩, ⟨3, 1, 140⟩]⟩⟩

def threeLevels (lower : ExtentBlock) : Volume where
  di := ⟨1, 4, 12, ⟨3, 2, 1, [⟨0, 4, 10⟩, zeroRec]⟩⟩
  inode := ⟨1, 4, 12, ⟨3, 2, 1, [⟨0, 4, 10⟩, zeroRec]⟩⟩
  blocks
    | 10 => some upperBlock
    | 11 => some lower
    | 12 => some lastLeaf
    | 13 => some ⟨13, 12, ⟨0, 2, 2, [⟨0, 1, 160⟩, ⟨1, 1, 180⟩]⟩⟩
    | _ => none
  free := [20, 21]
  faults := []

theorem threeLevels_rightEdge {lower : ExtentBlock} (sized : Sized lower.h_list) (level : lower.h_list.l_tree_depth = 1) :
    RightEdge (threeLevels lower).blocks (threeLevels lower).di.i_list [upperBlock, lower] :=
  .step ⟨rfl, by simp [threeLevels]⟩ (by simp [threeLevels]) rfl (by simp [threeLevels]) rfl (by decide) rfl
    (.step ⟨rfl, by decide⟩ (by decide) (by rw [level]; rfl) (by decide) rfl (by decide) rfl
      (.bottom sized (by omega)))

theorem findBranchTarget_lowest_roomyBlock : HandsOnLowest (threeLevels roomyBlock) [upperBlock, roomyBlock] :=
  (findBranchTarget_lowest_iff _ _ (threeLevels_rightEdge ⟨rfl, by decide⟩ rfl)).mpr
    (Or.inr ⟨by decide, Or.inr ⟨roomyBlock, rfl, by decide⟩⟩)

/-- The full block is handed on, and the record behind its last one is written. -/
theorem findBranchTarget_hands_on_fullBlock :
    RightEdge (threeLevels fullBlock).blocks (threeLevels fullBlock).di.i_list [upperBlock, fullBlock] ∧
      ¬ HandsOnLowest (threeLevels fullBlock) [upperBlock, fullBlock] ∧
      (growTree ⟨2, 1⟩ lastLeaf).run (threeLevels fullBlock) = none := by
  refine ⟨threeLevels_rightEdge ⟨rfl, by decide⟩ rfl, fun hands => ?_, rfl⟩
  obtain ⟨v', found⟩ : ∃ v', findBranchTarget.run (threeLevels fullBlock) = some (.ok (.block fullBlock), v') :=
    ⟨_, rfl⟩
  have linked := ((handsOnLowest_iff_of_ok found).mp hands (by simp)).2 _ rfl 4 20
  exact absurd linked (by decide)

end Ocfs2.ExtentTree
