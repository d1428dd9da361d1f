import Ocfs2.Libocfs2.ExtentFrame

set_option autoImplicit false

namespace Ocfs2.ExtentTree

open Extents (ExtentRec ExtentList)
open Effect

variable (fs : Geometry)

structure Left (old : Nat) (v : Volume) : Prop where
  free : old ∉ v.free
  last : v.di.i_last_eb_blk ≠ old

theorem left_aside (old : Nat) : Aside (Left old) where
  faults _ _ here := ⟨here.free, here.last⟩
  write _ _ _ here := ⟨here.free, here.last⟩
  list _ _ here := ⟨here.free, here.last⟩
  clusters _ _ here := ⟨here.free, here.last⟩

theorem notFree_aside (b : Nat) : Aside (fun v => b ∉ v.free) where
  faults _ _ here := here
  write _ _ _ here := here
  list _ _ here := here
  clusters _ _ here := here

section Allocation

variable {old : Nat} {I : Volume → Prop}

structure Spares (old : Nat) (I : Volume → Prop) : Prop where
  aside : Aside I
  notFree : ∀ v, I v → old ∉ v.free
  take : ∀ v blkno free, I v → v.free = blkno :: free → I { v with free }
  give : ∀ v blkno, blkno ≠ old → I v → I { v with free := blkno :: v.free }
  last : ∀ v blkno, blkno ≠ old → I v → I { v with di := { v.di with i_last_eb_blk := blkno } }

theorem left_spares (old : Nat) : Spares old (Left old) where
  aside := left_aside old
  notFree _ here := here.free
  take v blkno free here taken := ⟨fun mem => here.free (taken ▸ List.mem_cons_of_mem _ mem), here.last⟩
  give v blkno other here := ⟨by simpa [Ne.symm other] using here.free, here.last⟩
  last v blkno other here := ⟨here.free, other⟩

theorem notFree_spares (old : Nat) : Spares old (fun v => old ∉ v.free) where
  aside := notFree_aside old
  notFree _ here := here
  take v blkno free here taken := fun mem => here (taken ▸ List.mem_cons_of_mem _ mem)
  give v blkno other here := by simpa [Ne.symm other] using here
  last _ _ _ here := here

namespace Spares

variable (spares : Spares old I)

include spares

theorem chainAlloc : Triple I chainAlloc (fun blkno v => I v ∧ blkno ≠ old) I := by
  refine Triple.bind (fallible_keeps spares.aside.faults _) fun _ => ?_
  refine Triple.bind (R := fun s v => I v ∧ s = v) (Triple.get fun v here => ⟨here, rfl⟩) fun s => ?_
  rcases taken : s.free with _ | ⟨blkno, free⟩
  · exact Triple.throw fun v here => here.1
  · have other : ∀ v, I v ∧ s = v → blkno ≠ old := by
      rintro v ⟨here, rfl⟩ rfl
      exact spares.notFree s here (by simp [taken])
    refine Triple.bind (R := fun _ v => I v ∧ blkno ≠ old) (Triple.modify ?_) fun _ => Triple.pure fun v here => here
    rintro v ⟨here, rfl⟩
    exact ⟨spares.take s blkno free here taken, other s ⟨here, rfl⟩⟩

variable {blkno : Nat} {blknos : List Nat}

theorem deleteExtentBlock (other : blkno ≠ old) : Keeps I (deleteExtentBlock blkno) := by
  refine spares.aside.malloc.bind fun _ => (spares.aside.readExtentBlock _).bind fun eb => ?_
  refine (fallible_keeps spares.aside.faults _).bind fun _ => Triple.bind (R := fun _ => I) ?_ fun _ =>
    spares.aside.writeExtentBlock _ _
  exact Triple.modify fun v here => spares.give v blkno other here

theorem deleteAll (others : ∀ blkno ∈ blknos, blkno ≠ old) : Keeps I (deleteAll blknos) :=
  Triple.forM fun blkno mem => (spares.deleteExtentBlock (others blkno mem)).attempt.bind fun _ => Keeps.pure _

theorem orDelete {α : Type} (others : ∀ blkno ∈ blknos, blkno ≠ old) {step : Ext α}
    {Q : α → Volume → Prop} (triple : Triple I step Q I) : Triple I (orDelete blknos step) Q I := by
  refine Triple.bind (R := fun r v => (∀ a, r = .ok a → Q a v) ∧ ∀ e, r = .error e → I v) ?_ fun r => ?_
  · refine Triple.attempt ⟨fun v here a v' run => ?_, fun v here e v' run => ?_⟩
    · simpa using triple.ok v here a v' run
    · simpa using fun _ : Errcode => triple.error v here e v' run
  · cases r with
    | ok a => exact Triple.pure fun v here => here.1 a rfl
    | error e =>
      exact Triple.bind ((spares.deleteAll others).weaken fun v here => here.2 e rfl) fun _ => Triple.throw fun v here => here

theorem writeInit (other : blkno ≠ old) :
    Triple I (do
      writeExtentBlock blkno (initEb fs blkno)
      readExtentBlock blkno : Ext ExtentBlock) (fun eb v => I v ∧ eb.h_blkno ≠ old) I := by
  refine Triple.bind (R := fun _ v => I v ∧ v.blocks blkno = some (initEb fs blkno)) ?_ fun _ => ?_
  · refine Triple.bind (fallible_keeps spares.aside.faults _) fun _ => Triple.modify fun v here => ?_
    exact ⟨spares.aside.write v _ _ here, by simp [Volume.write]⟩
  · have kept := fallible_keeps (I := fun v => I v ∧ v.blocks blkno = some (initEb fs blkno))
      (fun v faults here => ⟨spares.aside.faults v faults here.1, here.2⟩) .io
    refine Triple.bind (R := fun _ v => I v ∧ v.blocks blkno = some (initEb fs blkno))
      ⟨kept.ok, fun v here e v' run => (kept.error v here e v' run).1⟩ fun _ => ?_
    refine Triple.bind (R := fun s v => I v ∧ s.blocks blkno = some (initEb fs blkno))
      (Triple.get fun v here => here) fun s => ?_
    cases stored : s.blocks blkno with
    | none => exact Triple.throw fun v here => here.1
    | some eb =>
      refine Triple.pure fun v here => ⟨here.1, ?_⟩
      rw [Option.some.inj here.2]
      exact other

theorem allocBranch (n : Nat) (others : ∀ blkno ∈ blknos, blkno ≠ old) :
    Triple I (allocBranch fs n blknos) (fun ebs v => I v ∧ ∀ eb ∈ ebs, eb.h_blkno ≠ old) I := by
  induction n generalizing blknos with
  | zero => exact Triple.pure fun v here => ⟨here, by simp⟩
  | succ n ih =>
    refine Triple.bind spares.aside.malloc fun _ => ?_
    refine Triple.bind (spares.orDelete others spares.aside.malloc) fun _ => ?_
    refine Triple.bind (spares.orDelete others spares.chainAlloc) fun blkno => Triple.given fun other => ?_
    have more : ∀ b ∈ blknos ++ [blkno], b ≠ old := by
      intro b mem
      rcases List.mem_append.mp mem with mem | mem
      · exact others b mem
      · exact List.mem_singleton.mp mem ▸ other
    refine Triple.bind (spares.orDelete more (spares.writeInit fs other)) fun eb => Triple.given fun eb_other => ?_
    refine Triple.bind (ih more) fun ebs => Triple.pure fun v here => ⟨here.1, ?_⟩
    exact List.forall_mem_cons.mpr ⟨eb_other, here.2⟩

omit spares in
theorem branchBlocks_other {new_cpos i next_blkno : Nat} {ebs : List ExtentBlock} (others : ∀ eb ∈ ebs, eb.h_blkno ≠ old) :
    ∀ eb ∈ branchBlocks new_cpos i next_blkno ebs, eb.h_blkno ≠ old := by
  induction ebs generalizing i next_blkno with
  | nil => simp [branchBlocks]
  | cons eb ebs ih =>
    exact List.forall_mem_cons.mpr ⟨others eb (by simp), ih fun other mem => others other (by simp [mem])⟩

theorem setLastEb (other : blkno ≠ old) : Keeps I (setLastEb blkno) :=
  Triple.modify fun v here => spares.last v blkno other here

theorem addBranch (eb_buf : Option ExtentBlock) (last_eb : ExtentBlock) : Keeps I (addBranch fs eb_buf last_eb) := by
  refine Keeps.get_bind fun _ => (Keeps.assert _).bind fun _ => spares.aside.malloc.bind fun _ => ?_
  refine spares.aside.malloc.bind fun _ => Triple.bind (spares.allocBranch fs _ (by simp)) fun ebs => ?_
  refine Triple.given fun others => Keeps.require_bind fun new_cpos => ?_
  refine Triple.bind (Triple.require (Q := fun leaf v => I v ∧ leaf.h_blkno ≠ old) fun leaf found v here => ?_)
    fun leaf => Triple.given fun other => ?_
  · exact ⟨here, branchBlocks_other others leaf (List.mem_of_mem_head? found)⟩
  refine Keeps.require_bind fun top => Keeps.require_bind fun el => ?_
  have blknos : ∀ blkno ∈ ebs.map ExtentBlock.h_blkno, blkno ≠ old := by
    intro blkno mem
    obtain ⟨eb, inside, rfl⟩ := List.mem_map.mp mem
    exact others eb inside
  have finish {written : Ext Unit} (kept : Keeps I written) : Keeps I (do
      ExtentTree.setLastEb leaf.h_blkno
      ExtentTree.orDelete (ebs.map ExtentBlock.h_blkno) written
      return leaf : Ext ExtentBlock) :=
    (spares.setLastEb other).bind fun _ => (spares.orDelete blknos kept).bind fun _ => Keeps.pure _
  have written : Keeps I ((branchBlocks new_cpos 0 0 ebs).forM fun eb => ExtentTree.writeExtentBlock eb.h_blkno eb) :=
    Triple.forM fun eb _ => spares.aside.writeExtentBlock _ _
  cases eb_buf with
  | none =>
    refine (spares.aside.setList _).bind fun _ => finish (written.bind fun _ => ?_)
    exact (spares.aside.writeExtentBlock _ _).bind fun _ => Keeps.pure _
  | some eb =>
    refine finish (written.bind fun _ => ?_)
    exact (spares.aside.writeExtentBlock _ _).bind fun _ => spares.aside.writeExtentBlock _ _

theorem newExtentBlock : Triple I (newExtentBlock fs) (fun blkno v => I v ∧ blkno ≠ old) I := by
  refine Triple.bind spares.aside.malloc fun _ => Triple.bind spares.chainAlloc fun blkno => Triple.given fun other => ?_
  exact Triple.bind (spares.aside.writeExtentBlock _ _) fun _ => Triple.pure fun v here => ⟨here, other⟩

theorem shiftTreeDepth : Keeps I (shiftTreeDepth fs) := by
  refine Keeps.get_bind fun _ => (Keeps.check _ _).bind fun _ => spares.aside.malloc.bind fun _ => ?_
  refine Triple.bind (spares.newExtentBlock fs) fun blkno => Triple.given fun other => ?_
  refine (spares.aside.readExtentBlock _).bind fun eb => Keeps.require_bind fun _ => ?_
  refine (spares.aside.setList _).bind fun _ => Keeps.ite ?_ ?_
  · exact (spares.setLastEb other).bind fun _ => (spares.aside.writeExtentBlock _ _).bind fun _ => Keeps.pure _
  · exact (spares.aside.writeExtentBlock _ _).bind fun _ => Keeps.pure _

theorem growTree (last_eb : ExtentBlock) : Keeps I (growTree fs last_eb) := by
  refine spares.aside.findBranchTarget.bind fun target => ?_
  cases target with
  | block eb => exact spares.addBranch fs _ _
  | inode => exact spares.addBranch fs _ _
  | shift =>
    refine Keeps.get_bind fun _ => (spares.shiftTreeDepth fs).bind fun _ => ?_
    exact Keeps.ite (Keeps.pure _) (spares.addBranch fs _ _)

theorem insertExtentWork (insert_rec : ExtentRec) : Keeps I (insertExtentWork fs insert_rec) := by
  refine (spares.aside.figureInsertType fs _).bind fun _ => Keeps.ite ?_ (spares.aside.doInsertExtent fs _ _)
  refine Keeps.get_bind fun _ => (spares.growTree fs _).bind fun _ => ?_
  exact spares.aside.doInsertExtent fs _ _

omit spares in
theorem replaceLastEb {new_blkno : Nat} (spares : Spares old I) (other : new_blkno ≠ old) :
    Keeps I (replaceLastEb blkno new_blkno) := by
  refine Triple.modify fun v here => ?_
  split
  · exact spares.last v new_blkno other here
  · exact here

theorem copyBlock (copy : Nat → ExtentBlock) (ctxt : Nat → DuplicateCtxt) :
    Triple I (do
      let new_blkno ← ExtentTree.newExtentBlock fs
      writeExtentBlock new_blkno (copy new_blkno)
      return (new_blkno, ctxt new_blkno) : Ext (Nat × DuplicateCtxt)) (fun r v => I v ∧ r.1 ≠ old) fun _ => True := by
  refine Triple.bind (spares.newExtentBlock fs).anyError fun blkno => Triple.given fun other => ?_
  refine Triple.bind (spares.aside.writeExtentBlock _ _).anyError fun _ => ?_
  exact Triple.pure fun v here => ⟨here, other⟩

variable {below : ExtentList → DuplicateCtxt → Ext (ExtentList × DuplicateCtxt)}

theorem duplicateChild (kept : ∀ el ctxt, Triple I (below el ctxt) (fun _ => I) fun _ => True)
    (rec : ExtentRec) (ctxt : DuplicateCtxt) :
    Triple I (duplicateChild fs below rec ctxt) (fun r v => I v ∧ r.1 ≠ old) fun _ => True := by
  refine Triple.bind (spares.aside.readExtentBlock _).anyError fun eb => Triple.ite (fun _ => ?_) fun _ => ?_
  · refine Triple.bind (kept _ _) fun ⟨child_el, ctxt⟩ => ?_
    exact spares.copyBlock fs (fun new_blkno => { eb with h_blkno := new_blkno, h_list := child_el }) fun _ => ctxt
  · exact spares.copyBlock fs
      (fun new_blkno => { eb with h_blkno := new_blkno, h_next_leaf_blk := ctxt.next_leaf_blk }) fun new_blkno => ⟨new_blkno⟩

omit spares in
theorem duplicateChildren_cons {P : Volume → Prop} {tree_depth i : Nat} {rec : ExtentRec}
    (counted : Extents.recClusters tree_depth rec ≠ 0)
    {rest : List (ExtentRec × Nat)} {new_el : ExtentList} {ctxt : DuplicateCtxt} {R : Volume → Prop}
    (child : Triple P (ExtentTree.duplicateChild fs below rec ctxt) (fun r v => R v ∧ r.1 ≠ old) fun _ => True)
    (replaced : ∀ new_blkno, new_blkno ≠ old →
      Triple R (ExtentTree.replaceLastEb rec.e_blkno new_blkno) (fun _ => I) fun _ => True)
    (others : ∀ new_el ctxt,
      Triple I (ExtentTree.duplicateChildren fs below tree_depth rest new_el ctxt) (fun _ => I) fun _ => True) :
    Triple P (ExtentTree.duplicateChildren fs below tree_depth ((rec, i) :: rest) new_el ctxt) (fun _ => I)
      fun _ => True := by
  rw [ExtentTree.duplicateChildren, if_neg counted]
  refine Triple.bind (R := fun r v => match r with | .ok r => R v ∧ r.1 ≠ old | .error _ => True)
    (Triple.attempt ⟨child.ok, fun _ _ _ _ _ _ => trivial⟩) fun r => ?_
  rcases r with e | ⟨new_blkno, ctxt⟩
  · exact Triple.bind (R := fun _ _ => True) ⟨fun _ _ _ _ _ => trivial, fun _ _ _ _ _ => trivial⟩ fun _ =>
      Triple.throw fun _ _ => trivial
  · refine Triple.given fun other => ?_
    refine Triple.bind (R := fun _ => R) (Triple.require fun _ _ _ here => here) fun new_el => ?_
    exact Triple.bind (replaced new_blkno other) fun _ => others _ _

theorem duplicateChildren (kept : ∀ el ctxt, Triple I (below el ctxt) (fun _ => I) fun _ => True)
    (tree_depth : Nat) (indexed : List (ExtentRec × Nat)) (new_el : ExtentList) (ctxt : DuplicateCtxt) :
    Triple I (duplicateChildren fs below tree_depth indexed new_el ctxt) (fun _ => I) fun _ => True := by
  induction indexed generalizing new_el ctxt with
  | nil => exact Triple.pure fun v here => here
  | cons first rest ih =>
    obtain ⟨rec, i⟩ := first
    by_cases counted : Extents.recClusters tree_depth rec = 0
    · rw [ExtentTree.duplicateChildren, if_pos counted]
      exact ih _ _
    · exact duplicateChildren_cons fs counted (spares.duplicateChild fs kept rec ctxt)
        (fun new_blkno other => (replaceLastEb spares other).anyError) ih

theorem duplicateExtentBlock (depth : Nat) (el : ExtentList) (ctxt : DuplicateCtxt) :
    Triple I (duplicateExtentBlock fs depth el ctxt) (fun _ => I) fun _ => True := by
  induction depth generalizing el ctxt with
  | zero => exact Triple.stuck
  | succ depth ih =>
    refine Triple.bind (Keeps.assert _).anyError fun _ => Triple.bind (Keeps.check _ _).anyError fun _ => ?_
    refine Triple.bind spares.aside.malloc.anyError fun _ => Triple.bind spares.aside.malloc.anyError fun _ => ?_
    exact Triple.bind (spares.duplicateChildren fs ih _ _ _ _) fun _ => Triple.pure fun v here => here

end Spares

end Allocation

inductive LastLeaf (blocks : Nat → Option ExtentBlock) (last : Nat) : ExtentList → Prop
  | leaf {el : ExtentList} {rec : ExtentRec} {eb : ExtentBlock} (found : lastRec el = some rec)
      (counted : Extents.recClusters el.l_tree_depth rec ≠ 0) (stored : blocks rec.e_blkno = some eb)
      (leaf : eb.h_list.l_tree_depth = 0) (here : rec.e_blkno = last) : LastLeaf blocks last el
  | interior {el : ExtentList} {rec : ExtentRec} {eb : ExtentBlock} (found : lastRec el = some rec)
      (counted : Extents.recClusters el.l_tree_depth rec ≠ 0) (stored : blocks rec.e_blkno = some eb)
      (interior : eb.h_list.l_tree_depth ≠ 0) (rest : LastLeaf blocks last eb.h_list) : LastLeaf blocks last el

theorem zipIdx_reverse_of_lastRec {el : ExtentList} {rec : ExtentRec} (found : lastRec el = some rec) :
    ∃ i rest, (el.l_recs.take el.l_next_free_rec).zipIdx.reverse = (rec, i) :: rest := by
  rw [lastRec] at found
  split at found
  · simp at found
  next used =>
    have here : (el.l_recs.take el.l_next_free_rec).getLast? = some rec := by
      rw [List.getLast?_take, if_neg used]
      simp only [getRec] at found
      simp [found]
    obtain ⟨front, whole⟩ := List.getLast?_eq_some_iff.mp here
    refine ⟨front.length, front.zipIdx.reverse, ?_⟩
    rw [whole, List.zipIdx_append]
    simp

structure Uncopied (blocks : Nat → Option ExtentBlock) (old : Nat) (v : Volume) : Prop where
  blocks : v.blocks = blocks
  free : old ∉ v.free

section Uncopied

variable {blocks : Nat → Option ExtentBlock} {old : Nat}

theorem fallible_uncopied (e : Errcode) : Keeps (Uncopied blocks old) (fallible e) :=
  fallible_keeps (fun _ _ here => ⟨here.blocks, here.free⟩) e

theorem readExtentBlock_uncopied {blkno : Nat} {eb : ExtentBlock} (stored : blocks blkno = some eb) :
    Triple (Uncopied blocks old) (readExtentBlock blkno) (fun r v => Uncopied blocks old v ∧ r = eb) fun _ => True := by
  refine ⟨fun v here r v' run => ?_, fun _ _ _ _ _ => trivial⟩
  rcases readExtentBlock_cases (v := v) (by rw [here.blocks, stored]) with fails | works
  · simp [fails] at run
  · obtain ⟨rfl, rfl⟩ : eb = r ∧ v.tried = v' := by simpa [works] using run
    exact ⟨⟨here.blocks, here.free⟩, rfl⟩

theorem replaceLastEb_left {new_blkno : Nat} (other : new_blkno ≠ old) :
    Triple (fun v => old ∉ v.free) (replaceLastEb old new_blkno) (fun _ => Left old) fun _ => True := by
  refine Triple.modify fun v here => ?_
  split
  · exact ⟨here, other⟩
  next differs => exact ⟨here, differs⟩

theorem duplicateExtentBlock_left (depth : Nat) {el : ExtentList} (ctxt : DuplicateCtxt)
    (last : LastLeaf blocks old el) :
    Triple (Uncopied blocks old) (duplicateExtentBlock fs depth el ctxt) (fun _ => Left old) fun _ => True := by
  induction depth generalizing el ctxt with
  | zero => exact Triple.stuck
  | succ depth ih =>
    refine Triple.bind (Keeps.assert _).anyError fun _ => Triple.bind (Keeps.check _ _).anyError fun _ => ?_
    refine Triple.bind (fallible_uncopied _).anyError fun _ => Triple.bind (fallible_uncopied _).anyError fun _ => ?_
    refine Triple.bind (R := fun _ => Left old) ?_ fun _ => Triple.pure fun v here => here
    have others := (left_spares old).duplicateChildren fs ((left_spares old).duplicateExtentBlock fs depth)
      el.l_tree_depth
    cases last with
    | leaf found counted stored leaf here =>
      obtain ⟨i, rest, walk⟩ := zipIdx_reverse_of_lastRec found
      rw [walk]
      subst here
      refine Spares.duplicateChildren_cons fs counted (R := fun v => _ ∉ v.free) ?_
        (fun new_blkno other => replaceLastEb_left other) (others rest)
      refine Triple.bind (readExtentBlock_uncopied stored) fun eb => Triple.given fun same => ?_
      rw [if_neg (by rw [same, leaf]; decide)]
      refine Triple.weaken (P := fun v => _ ∉ v.free) ?_ fun v here => here.free
      exact (notFree_spares _).copyBlock fs
        (fun new_blkno => { eb with h_blkno := new_blkno, h_next_leaf_blk := ctxt.next_leaf_blk }) fun new_blkno => ⟨new_blkno⟩
    | interior found counted stored interior last =>
      obtain ⟨i, rest, walk⟩ := zipIdx_reverse_of_lastRec found
      rw [walk]
      refine Spares.duplicateChildren_cons fs counted (R := Left old) ?_
        (fun new_blkno other => ((left_spares old).replaceLastEb other).anyError) (others rest)
      refine Triple.bind (readExtentBlock_uncopied stored) fun eb => Triple.given fun same => ?_
      rw [if_pos (by rw [same]; exact interior)]
      refine Triple.bind (ih ctxt (same ▸ last)) fun ⟨child_el, ctxt⟩ => ?_
      exact (left_spares old).copyBlock fs
        (fun new_blkno => { eb with h_blkno := new_blkno, h_list := child_el }) fun _ => ctxt

end Uncopied

end Ocfs2.ExtentTree
