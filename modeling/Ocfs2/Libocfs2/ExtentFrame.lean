import Ocfs2.Libocfs2.ExtentInsert
import Ocfs2.Libocfs2.ExtentBranch

set_option autoImplicit false

namespace Ocfs2.ExtentTree

open Extents (ExtentRec ExtentList)
open Effect

structure Aside (I : Volume → Prop) : Prop where
  faults : ∀ v faults, I v → I { v with faults }
  write : ∀ v blkno eb, I v → I (v.write blkno eb)
  list : ∀ v el, I v → I { v with di := { v.di with i_list := el } }
  clusters : ∀ v i_clusters, I v → I { v with di := { v.di with i_clusters } }

variable {I : Volume → Prop} (fs : Geometry)

theorem fallible_keeps (faults : ∀ v faults, I v → I { v with faults }) (e : Errcode) : Keeps I (fallible e) :=
  fallible_triple e (fun v here _ => faults v _ here) fun v here _ => faults v _ here

theorem readExtentBlock_keeps (faults : ∀ v faults, I v → I { v with faults }) (blkno : Nat) :
    Keeps I (readExtentBlock blkno) := by
  refine (fallible_keeps faults _).bind fun _ => Keeps.get_bind fun v => ?_
  cases v.blocks blkno with
  | none => exact Keeps.throw _
  | some eb => exact Keeps.pure _

namespace Aside

variable (aside : Aside I)

include aside

theorem malloc : Keeps I malloc := fallible_keeps aside.faults _

theorem readExtentBlock (blkno : Nat) : Keeps I (readExtentBlock blkno) := readExtentBlock_keeps aside.faults blkno

theorem writeExtentBlock (blkno : Nat) (eb : ExtentBlock) : Keeps I (writeExtentBlock blkno eb) :=
  (fallible_keeps aside.faults _).bind fun _ => Triple.modify fun v here => aside.write v blkno eb here

theorem setList (el : ExtentList) : Keeps I (setList el) := Triple.modify fun v here => aside.list v el here

theorem addClusters (clusters : Nat) : Keeps I (addClusters clusters) :=
  Triple.modify fun v here => aside.clusters v _ here

theorem newPath : Keeps I newPath := Keeps.get_bind fun _ => (Keeps.assert _).bind fun _ => aside.malloc

theorem findPathFrom (cpos depth : Nat) (el : ExtentList) : Keeps I (findPathFrom cpos depth el) := by
  induction depth generalizing el with
  | zero => exact (Keeps.assert _).bind fun _ => Keeps.pure _
  | succ depth ih =>
    refine (Keeps.assert _).bind fun _ => (Keeps.check _ _).bind fun _ => Keeps.require_bind fun rec => ?_
    refine (Keeps.check _ _).bind fun _ => aside.malloc.bind fun _ => (aside.readExtentBlock _).bind fun eb => ?_
    exact (Keeps.check _ _).bind fun _ => (ih eb.h_list).bind fun _ => Keeps.pure _

theorem findPath (cpos : Nat) : Keeps I (findPath cpos) :=
  Keeps.get_bind fun _ => aside.findPathFrom _ _ _

omit aside in
theorem findCposForLeftLeaf (path : Path) : Keeps I (findCposForLeftLeaf path) :=
  Keeps.require_bind fun _ => Keeps.get_bind fun _ => Keeps.reraise _

theorem writePathEb (path : Path) (sub_index : Nat) : Keeps I (writePathEb path sub_index) :=
  Triple.forM fun eb _ => aside.writeExtentBlock eb.h_blkno eb

theorem syncPathToDisk (left right : Option Path) (subtree_index : Nat) :
    Keeps I (syncPathToDisk left right subtree_index) := by
  refine (aside.writePathEb _ _).bind fun _ => (aside.writePathEb _ _).bind fun _ => ?_
  cases subtree_index with
  | zero => exact Keeps.pure _
  | succ i => exact Keeps.require_bind fun _ => Keeps.require_bind fun eb => aside.writeExtentBlock _ _

theorem edgeInsert (left right : Path) (subtree_index : Nat) : Keeps I (edgeInsert left right subtree_index) :=
  Keeps.get_bind fun _ => Keeps.require_bind fun _ => (aside.setList _).bind fun _ => Keeps.pure _

theorem rotateSubtreeRight (left right : Path) (subtree_index : Nat) :
    Keeps I (rotateSubtreeRight left right subtree_index) := by
  refine Keeps.get_bind fun v => (Keeps.check _ _).bind fun _ => Keeps.require_bind fun first => ?_
  refine Keeps.ite (Keeps.pure _) ?_
  refine Keeps.require_bind fun _ => (aside.edgeInsert _ _ _).bind fun _ => ?_
  exact (aside.syncPathToDisk _ _ _).bind fun _ => Keeps.pure _

theorem rotateRightLoop (split : SplitType) (insert_cpos n cpos : Nat) (right : Path) :
    Keeps I (rotateRightLoop split insert_cpos n cpos right) := by
  induction n generalizing cpos right with
  | zero => exact Keeps.stuck
  | succ n ih =>
    refine Keeps.ite ?_ (Keeps.pure _)
    refine (aside.findPath _).bind fun left => (Keeps.assert _).bind fun _ => ?_
    refine Keeps.get_bind fun _ => Keeps.require_bind fun _ => Keeps.ite (Keeps.pure _) ?_
    refine Keeps.require_bind fun _ => (aside.rotateSubtreeRight _ _ _).bind fun _ => ?_
    refine Keeps.get_bind fun _ => Keeps.require_bind fun _ => Keeps.ite (Keeps.pure _) ?_
    exact (findCposForLeftLeaf _).bind fun _ => ih _ _

theorem rotateTreeRight (split : SplitType) (insert_cpos : Nat) (right : Path) :
    Keeps I (rotateTreeRight split insert_cpos right) :=
  aside.newPath.bind fun _ => (findCposForLeftLeaf _).bind fun _ => aside.rotateRightLoop _ _ _ _ _

omit aside in
theorem currentLeaf (path : Path) : Keeps I (currentLeaf path) := Keeps.get_bind fun _ => Keeps.pure _

theorem appendRecToPath (insert_rec : ExtentRec) (right : Path) : Keeps I (appendRecToPath insert_rec right) := by
  refine (Keeps.assert _).bind fun _ => (currentLeaf _).bind fun _ => Keeps.require_bind fun _ => ?_
  have fixed (left : Option Path) :
      Keeps I (do
        let fixed ← reraise (adjustRightmostRecords (← Effect.get).di.i_list right insert_rec)
        ExtentTree.setList fixed.1
        return (fixed.2, left) : Ext (Path × Option Path)) :=
    Keeps.get_bind fun _ => (Keeps.reraise _).bind fun _ => (aside.setList _).bind fun _ => Keeps.pure _
  refine Keeps.ite ?_ (fixed none)
  refine (findCposForLeftLeaf _).bind fun _ => Keeps.ite ?_ (fixed none)
  exact aside.newPath.bind fun _ => (aside.findPath _).bind fun left => fixed (some left)

theorem insertPath (left : Option Path) (right : Path) (insert_rec : ExtentRec) (insert : InsertType) :
    Keeps I (insertPath fs left right insert_rec insert) := by
  refine Keeps.get_bind fun _ => Keeps.require_bind fun ⟨left_el, right_el⟩ => ?_
  have alone : Keeps I (ExtentTree.syncPathToDisk none (some (setLeafEl right right_el)) 0) := aside.syncPathToDisk _ _ _
  rcases left with _ | left
  · exact alone
  · rcases left_el with _ | left_el
    · exact alone
    · exact Keeps.require_bind fun _ => (aside.edgeInsert _ _ _).bind fun _ => aside.syncPathToDisk _ _ _

theorem doInsertExtent (insert_rec : ExtentRec) (type : InsertType) : Keeps I (doInsertExtent fs insert_rec type) := by
  have counted : Keeps I
      (if type.ins_split = .none then ExtentTree.addClusters insert_rec.e_leaf_clusters else return ()) :=
    Keeps.ite (aside.addClusters _) (Keeps.pure _)
  refine Keeps.get_bind fun _ => Keeps.ite ?_ ?_
  · exact Keeps.require_bind fun _ => (aside.setList _).bind fun _ => counted
  · refine aside.newPath.bind fun _ => (aside.findPath _).bind fun right => ?_
    refine Keeps.ite ?_ (Keeps.ite ?_ ?_)
    · exact (aside.rotateTreeRight _ _ _).bind fun _ => (aside.insertPath fs _ _ _ _).bind fun _ => counted
    · exact (aside.appendRecToPath _ _).bind fun _ => (aside.insertPath fs _ _ _ _).bind fun _ => counted
    · exact (aside.insertPath fs _ _ _ _).bind fun _ => counted

theorem figureInsertType (insert_rec : ExtentRec) : Keeps I (figureInsertType fs insert_rec) := by
  refine Keeps.get_bind fun _ => Keeps.ite ?_ ?_
  · exact Keeps.require_bind fun _ => Keeps.pure _
  · refine (aside.readExtentBlock _).bind fun _ => aside.newPath.bind fun _ => (aside.findPath _).bind fun _ => ?_
    exact Keeps.require_bind fun _ => Keeps.ite (Keeps.require_bind fun _ => Keeps.pure _) (Keeps.pure _)

theorem findBranchLoop (n : Nat) (el : ExtentList) (buf : Option ExtentBlock) (lowest : Bool) :
    Keeps I (findBranchLoop n el buf lowest) := by
  induction n generalizing el buf lowest with
  | zero => exact Keeps.stuck
  | succ n ih =>
    refine Keeps.ite (Keeps.pure _) ((Keeps.check _ _).bind fun _ => Keeps.require_bind fun _ => ?_)
    exact (Keeps.check _ _).bind fun _ => (aside.readExtentBlock _).bind fun _ => ih _ _ _

theorem findBranchTarget : Keeps I findBranchTarget := by
  refine Keeps.get_bind fun _ => aside.malloc.bind fun _ => (aside.findBranchLoop _ _ _ _).bind fun ⟨buf, lowest⟩ => ?_
  rcases lowest with _ | _
  · exact Keeps.ite (Keeps.pure _) (Keeps.pure _)
  · rcases buf with _ | eb
    · exact Keeps.stuck
    · exact Keeps.pure _

end Aside

end Ocfs2.ExtentTree
