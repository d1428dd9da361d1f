import Ocfs2.Libocfs2.ExtentIterate

set_option autoImplicit false

namespace Ocfs2.ExtentTree

open Extents (ExtentRec ExtentList recClusters)

variable {σ : Type}

structure Obliging (func : Func σ) : Prop where
  goes_on : ∀ s rec depth ccount ref i, (func s rec depth ccount ref i).2.2.stops = false
  clusters : ∀ s rec ccount ref i, rec.e_leaf_clusters ≠ 0 → (func s rec 0 ccount ref i).2.1.e_leaf_clusters ≠ 0
  above : ∀ s rec depth ccount ref i, depth ≠ 0 → rec.e_int_clusters ≠ 0 →
    (func s rec depth ccount ref i).2.1.e_int_clusters ≠ 0 ∧
    (func s rec depth ccount ref i).2.1.e_blkno = rec.e_blkno ∧ (func s rec depth ccount ref i).2.1.e_cpos = rec.e_cpos

def Reports (func : Func σ) : Prop := ∀ s rec ccount ref i, (func s rec 0 ccount ref i).2.2.changed = true

def Returned (func : Func σ) (rec rec' : ExtentRec) : Prop :=
  ∃ s ccount ref i, rec' = (func s rec 0 ccount ref i).2.1

def SpareEmpty (el : ExtentList) : Prop :=
  ∀ rec ∈ el.l_recs.drop el.l_next_free_rec, recClusters el.l_tree_depth rec = 0

def Sparse (el : ExtentList) : Prop := StartsEmpty el ∧ records el ≠ []

def LeafOut (func : Func σ) (el el' : ExtentList) : Prop :=
  Sparse el ∧ records el' = [] ∨ ¬ Sparse el ∧ List.Forall₂ (Returned func) (records el) (records el')

structure SameTree (ctxt ctxt' : Context σ) : Prop where
  blocks : ctxt'.blocks = ctxt.blocks
  blkno : ctxt'.last_eb_blkno = ctxt.last_eb_blkno
  cpos : ctxt'.last_eb_cpos = ctxt.last_eb_cpos

theorem SameTree.trans {a b c : Context σ} (first : SameTree a b) (second : SameTree b c) : SameTree a c :=
  ⟨second.blocks.trans first.blocks, second.blkno.trans first.blkno, second.cpos.trans first.cpos⟩

theorem Context.call_same (ctxt : Context σ) (func : Func σ) (rec : ExtentRec) (depth ref i : Nat) :
    SameTree ctxt (ctxt.call func rec depth ref i).1 := ⟨rfl, rfl, rfl⟩

variable {walk : Walk σ}

theorem Iret.or_stops (a b : Iret) : (a.or b).stops = (a.stops || b.stops) := by
  simp only [Iret.or, Iret.stops]
  cases a.abort <;> cases b.abort <;> simp

theorem iterateRecs_leaf (obliging : Obliging walk.func) (reports : Reports walk.func) (ref : Nat) (ctxt : Context σ)
    (iret : Iret) (goes_on : iret.stops = false) (i : Nat) (recs : List ExtentRec)
    (full : ∀ rec ∈ recs, ¬ isEmptyExtent rec) :
    ∃ ctxt' iret' recs', iterateRecs (iterateLeafRec walk ref) ctxt iret i recs = (ctxt', iret', recs') ∧
      SameTree ctxt ctxt' ∧ iret'.stops = false ∧ iret'.changed = (iret.changed || !recs.isEmpty) ∧
      List.Forall₂ (Returned walk.func) recs recs' ∧ ∀ rec ∈ recs', ¬ isEmptyExtent rec := by
  induction recs generalizing ctxt iret i with
  | nil => exact ⟨ctxt, iret, [], rfl, ⟨rfl, rfl, rfl⟩, goes_on, by simp, .nil, by simp⟩
  | cons rec rest ih =>
    obtain ⟨here, others⟩ := List.forall_mem_cons.mp full
    have some : rec.e_leaf_clusters ≠ 0 := here
    have stops : (iret.or (iterateLeafRec walk ref ctxt i rec).2.1).stops = false := by
      rw [Iret.or_stops, goes_on, iterateLeafRec, if_neg (fun both => some both.2)]
      exact obliging.goes_on _ _ _ _ _ _
    obtain ⟨ctxt', iret', recs', run, same, goes_on', changed, returned, full'⟩ :=
      ih (iterateLeafRec walk ref ctxt i rec).1 _ stops (i + 1) others
    rw [iterateRecs]
    simp only [stops, Bool.false_eq_true, if_false, run]
    refine ⟨_, _, _, rfl, ?_, goes_on', ?_, ?_, ?_⟩
    · refine SameTree.trans ?_ same
      rw [iterateLeafRec, if_neg (fun both => some both.2)]
      exact ⟨rfl, rfl, rfl⟩
    · have report := reports ctxt.priv_data rec ctxt.ccount ref i
      rw [changed, iterateLeafRec, if_neg (fun both => some both.2)]
      simp [Iret.or, Context.call, report]
    · refine .cons ?_ returned
      rw [iterateLeafRec, if_neg (fun both => some both.2)]
      exact ⟨_, _, _, _, rfl⟩
    · refine List.forall_mem_cons.mpr ⟨?_, full'⟩
      rw [iterateLeafRec, if_neg (fun both => some both.2)]
      exact obliging.clusters _ _ _ _ _ some

theorem recount_full {el : ExtentList} {recs spare : List ExtentRec} (list : el.l_recs = recs ++ spare)
    (length : el.l_recs.length = el.l_count) (full : ∀ rec ∈ recs, recClusters el.l_tree_depth rec ≠ 0)
    (empty : ∀ rec ∈ spare, recClusters el.l_tree_depth rec = 0) (counted : el.l_next_free_rec = recs.length) :
    recount el = el := by
  have front : recs.findIdx? (fun rec => decide (recClusters el.l_tree_depth rec = 0)) = none :=
    List.findIdx?_eq_none_iff.mpr fun rec mem => by simpa using full rec mem
  have scan : (el.l_recs.take el.l_count).findIdx? (fun rec => decide (recClusters el.l_tree_depth rec = 0)) =
      if spare = [] then none else some el.l_next_free_rec := by
    rw [← length, List.take_length, list, List.findIdx?_append, front, Option.none_or]
    cases spare with
    | nil => rfl
    | cons slot spare => simp [List.findIdx?_cons, empty slot (by simp), counted]
  rw [recount, scan]
  split_ifs <;> rfl

theorem recount_empty {el : ExtentList} {rec : ExtentRec} {rest : List ExtentRec} (list : el.l_recs = rec :: rest)
    (length : el.l_recs.length = el.l_count) (empty : recClusters el.l_tree_depth rec = 0) :
    recount el = { el with l_next_free_rec := 0 } := by
  have scan : (el.l_recs.take el.l_count).findIdx? (fun rec => decide (recClusters el.l_tree_depth rec = 0)) = some 0 := by
    rw [← length, List.take_length, list]
    simp [List.findIdx?_cons, empty]
  rw [recount, scan]

theorem afterLoop_leafOf (recs spare : List ExtentRec) (out : Context σ × Iret × List ExtentRec)
    (length : out.2.2.length = recs.length) :
    afterLoop (leafOf recs spare) out =
      (out.1, out.2.1, if out.2.1.changed then recount (leafOf out.2.2 spare) else leafOf out.2.2 spare) := by
  simp [afterLoop, leafOf, length]

theorem recount_leafOf_full {recs spare : List ExtentRec} (full : ∀ rec ∈ recs, ¬ isEmptyExtent rec)
    (empty : ∀ rec ∈ spare, isEmptyExtent rec) : recount (leafOf recs spare) = leafOf recs spare :=
  recount_full rfl (by simp [leafOf]) (fun rec mem => by simpa [leafOf, recClusters, isEmptyExtent] using full rec mem)
    (fun rec mem => by simpa [leafOf, recClusters, isEmptyExtent] using empty rec mem) rfl

theorem records_recount_leafOf {rec : ExtentRec} {rest spare : List ExtentRec} (empty : isEmptyExtent rec) :
    records (recount (leafOf (rec :: rest) spare)) = [] := by
  rw [recount_empty rfl (by simp [leafOf, Nat.add_right_comm]) (by simpa [leafOf, recClusters, isEmptyExtent] using empty)]
  simp [records]

theorem extentIterateEl_leaf (obliging : Obliging walk.func) (reports : Reports walk.func) (ref : Nat)
    (ctxt : Context σ) {el : ExtentList} (leaf : Leaf el) (spare : SpareEmpty el) :
    ∃ ctxt' iret el', extentIterateEl walk 0 ref ctxt el = (ctxt', iret, el') ∧ SameTree ctxt ctxt' ∧
      iret.stops = false ∧ LeafOut walk.func el el' ∧ (iret.changed = false → el' = el) := by
  obtain ⟨recs, spare', rfl, full⟩ := leaf.exists_eq
  have empties : ∀ rec ∈ spare', isEmptyExtent rec := fun rec mem => by
    simpa [leafOf, recClusters, isEmptyExtent] using spare rec (by simpa [leafOf] using mem)
  rw [extentIterateEl, used, leafOf_take]
  by_cases starts : StartsEmpty (leafOf recs spare')
  · obtain ⟨rec, head, empty⟩ := (startsEmpty_leafOf _ _).mp starts
    obtain ⟨rest, rfl⟩ : ∃ rest, recs = rec :: rest := by
      cases recs with
      | nil => cases head
      | cons _ rest => exact ⟨rest, by simpa using head⟩
    rw [List.tail_cons] at full
    -- the loop leaves the empty record alone
    obtain ⟨ctxt', iret', recs', run, same, goes_on, changed, returned, full'⟩ :=
      iterateRecs_leaf obliging reports ref ctxt .none rfl 1 rest full
    have loop : iterateRecs (iterateLeafRec walk ref) ctxt .none 0 (rec :: rest) = (ctxt', iret', rec :: recs') := by
      have first : iterateLeafRec walk ref ctxt 0 rec = (ctxt, .none, rec) := if_pos ⟨rfl, empty⟩
      rw [iterateRecs]
      simp only [first, show Iret.or .none .none = .none from rfl, show Iret.stops .none = false from rfl,
        Bool.false_eq_true, if_false, run]
    rw [loop, afterLoop_leafOf _ _ _ (by simp [returned.length_eq])]
    refine ⟨ctxt', iret', _, rfl, same, goes_on, ?_, ?_⟩
    · cases rest with
      | nil =>
        cases returned
        refine Or.inr ⟨fun sparse => sparse.2 (records_cons_empty spare' empty full), ?_⟩
        rw [changed, if_neg (by simp [Iret.none]), records_cons_empty spare' empty full]
        exact .nil
      | cons other rest =>
        refine Or.inl ⟨⟨starts, by rw [records_cons_empty spare' empty full]; simp⟩, ?_⟩
        rw [changed, if_pos (by simp)]
        exact records_recount_leafOf empty
    · intro unchanged
      cases rest with
      | nil =>
        cases returned
        rw [if_neg (by simp [unchanged])]
      | cons other rest => simp [changed] at unchanged
  · have every : ∀ rec ∈ recs, ¬ isEmptyExtent rec := by
      intro rec mem empty
      cases recs with
      | nil => cases mem
      | cons first rest =>
        rcases List.mem_cons.mp mem with rfl | later
        · exact starts ((startsEmpty_leafOf _ _).mpr ⟨rec, rfl, empty⟩)
        · exact full rec later empty
    obtain ⟨ctxt', iret', recs', run, same, goes_on, changed, returned, full'⟩ :=
      iterateRecs_leaf obliging reports ref ctxt .none rfl 0 recs every
    rw [run, afterLoop_leafOf _ _ _ returned.length_eq.symm]
    refine ⟨ctxt', iret', _, rfl, same, goes_on, Or.inr ⟨fun sparse => starts sparse.1, ?_⟩, ?_⟩
    · rw [recount_leafOf_full full' empties, ite_self, records_full _ every, records_full _ full']
      exact returned
    · intro unchanged
      cases recs with
      | nil =>
        cases returned
        rw [if_neg (by simp [unchanged])]
      | cons first rest => simp [changed] at unchanged

end Ocfs2.ExtentTree
