import Ocfs2.Libocfs2.ExtentInsert

set_option autoImplicit false

namespace Ocfs2.ExtentTree

open Extents (ExtentRec ExtentList)

variable (used spare : List ExtentRec)

def records (el : ExtentList) : List ExtentRec :=
  (el.l_recs.take el.l_next_free_rec).filter fun rec => ¬ isEmptyExtent rec

def StartsEmpty (el : ExtentList) : Prop :=
  ∃ rec, (el.l_recs.take el.l_next_free_rec).head? = some rec ∧ isEmptyExtent rec

def Before (rec rec' : ExtentRec) : Prop := rec.e_cpos + rec.e_leaf_clusters ≤ rec'.e_cpos

structure Leaf (el : ExtentList) : Prop where
  depth : el.l_tree_depth = 0
  length : el.l_recs.length = el.l_count
  used : el.l_next_free_rec ≤ el.l_count
  full : ∀ rec ∈ (el.l_recs.take el.l_next_free_rec).tail, ¬ isEmptyExtent rec

def leafOf (used spare : List ExtentRec) : ExtentList := ⟨0, used.length + spare.length, used.length, used ++ spare⟩

@[simp]
theorem leafOf_take :
    (leafOf used spare).l_recs.take (leafOf used spare).l_next_free_rec = used := by
  simp [leafOf]

@[simp]
theorem records_leafOf :
    records (leafOf used spare) = used.filter fun rec => ¬ isEmptyExtent rec := by
  rw [records, leafOf_take]

@[simp]
theorem startsEmpty_leafOf :
    StartsEmpty (leafOf used spare) ↔ ∃ rec, used.head? = some rec ∧ isEmptyExtent rec := by
  rw [StartsEmpty, leafOf_take]

theorem Leaf.exists_eq {el : ExtentList} (leaf : Leaf el) :
    ∃ used spare, el = leafOf used spare ∧ ∀ rec ∈ used.tail, ¬ isEmptyExtent rec := by
  obtain ⟨depth, count, next, recs⟩ := el
  refine ⟨recs.take next, recs.drop next, ?_, leaf.full⟩
  have length : recs.length = count := leaf.length
  have used : next ≤ count := leaf.used
  obtain rfl : depth = 0 := leaf.depth
  simp [leafOf, length, used]

theorem filter_full {recs : List ExtentRec} (full : ∀ rec ∈ recs, ¬ isEmptyExtent rec) :
    (recs.filter fun rec => ¬ isEmptyExtent rec) = recs :=
  List.filter_eq_self.mpr fun rec mem => by simpa using full rec mem

theorem records_cons_empty {rec : ExtentRec} {rest : List ExtentRec} (spare : List ExtentRec) (empty : isEmptyExtent rec)
    (full : ∀ rec ∈ rest, ¬ isEmptyExtent rec) : records (leafOf (rec :: rest) spare) = rest := by
  rw [records_leafOf, List.filter_cons_of_neg (by simpa using empty), filter_full full]

theorem records_full {used : List ExtentRec} (spare : List ExtentRec) (full : ∀ rec ∈ used, ¬ isEmptyExtent rec) :
    records (leafOf used spare) = used := by
  rw [records_leafOf, filter_full full]

end Ocfs2.ExtentTree
