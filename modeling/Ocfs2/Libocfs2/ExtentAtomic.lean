import Ocfs2.Libocfs2.ExtentSpare

set_option autoImplicit false

namespace Ocfs2.ExtentTree

open Extents (ExtentRec ExtentList)
open Effect

variable (fs : Geometry)

inductive Reachable (blocks : Nat → Option ExtentBlock) : ExtentList → Nat → Prop
  | child {el : ExtentList} {rec : ExtentRec} (interior : el.l_tree_depth ≠ 0)
      (used : rec ∈ el.l_recs.take el.l_next_free_rec) : Reachable blocks el rec.e_blkno
  | deeper {el : ExtentList} {rec : ExtentRec} {eb : ExtentBlock} {blkno : Nat} (interior : el.l_tree_depth ≠ 0)
      (used : rec ∈ el.l_recs.take el.l_next_free_rec) (stored : blocks rec.e_blkno = some eb)
      (rest : Reachable blocks eb.h_list blkno) : Reachable blocks el blkno

structure Unchanged (v v' : Volume) : Prop where
  di : v'.di = v.di
  inode : v'.inode = v.inode
  tree : ∀ blkno, Reachable v.blocks v.inode.i_list blkno → v'.blocks blkno = v.blocks blkno
  free : ∀ blkno, blkno ∈ v'.free ↔ blkno ∈ v.free

def Atomic (call : Ext Unit) (v : Volume) : Prop :=
  ∀ e v', call.run v = some (.error e, v') → Unchanged v v'

def Same (v₀ v : Volume) : Prop := ∃ faults, v = { v₀ with faults }

variable {v : Volume}

theorem Same.unchanged {v₀ : Volume} (same : Same v₀ v) : Unchanged v₀ v := by
  obtain ⟨faults, rfl⟩ := same
  exact ⟨rfl, rfl, fun _ _ => rfl, fun _ => Iff.rfl⟩

theorem atomic_of_triple {call : Ext Unit} {P : Volume → Prop} {Q : Unit → Volume → Prop}
    (triple : Triple P call Q (Same v)) (here : P v) : Atomic call v :=
  fun e v' run => (triple.error v here e v' run).unchanged

def Grows (el : ExtentList) (insert_rec : ExtentRec) : Prop :=
  (figureContigType fs el insert_rec).1 = .none ∧ el.l_next_free_rec = el.l_count

instance (el : ExtentList) (insert_rec : ExtentRec) : Decidable (Grows fs el insert_rec) :=
  inferInstanceAs (Decidable (_ ∧ _))

structure Inline (di : Dinode) (P : Nat → Volume → Prop) (Taken E : Volume → Prop) : Prop where
  di : ∀ n v, P n v → v.di = di
  step : ∀ n e, Triple (P (n + 1)) (fallible e) (fun _ => P n) E
  take : Triple (P 1) chainAlloc (fun _ => Taken) E
  aside : Aside Taken
  last : ∀ v blkno, Taken v → Taken { v with di := { v.di with i_last_eb_blk := blkno } }
  taken : ∀ v, Taken v → E v

section Inline

variable {di : Dinode} {P : Nat → Volume → Prop} {Taken E : Volume → Prop} (inline : Inline di P Taken E)

include inline

theorem Inline.error {α : Type} {x : Ext α} (keeps : Keeps Taken x) : Triple Taken x (fun _ => Taken) E :=
  ⟨keeps.ok, fun v here e v' run => inline.taken v' (keeps.error v here e v' run)⟩

theorem Inline.shiftTreeDepth (full : di.i_list.l_next_free_rec = di.i_list.l_count) :
    Triple (P 3) (shiftTreeDepth fs) (fun _ => Taken) E := by
  refine Triple.get_bind (inline.di 3) fun v same => ?_
  refine Triple.bind (R := fun _ => P 3) (Triple.ite (fun _ => Triple.pure fun _ here => here) fun room =>
    absurd (by rw [same, full]) room) fun _ => Triple.bind (inline.step 2 _) fun _ => ?_
  refine Triple.bind (R := fun _ => Taken) ?_ fun blkno => inline.error ?_
  · refine Triple.bind (inline.step 1 _) fun _ => Triple.bind inline.take fun _ => ?_
    exact inline.error ((inline.aside.writeExtentBlock _ _).bind fun _ => Keeps.pure _)
  · refine (inline.aside.readExtentBlock _).bind fun eb => Keeps.require_bind fun _ => ?_
    refine (inline.aside.setList _).bind fun _ => Keeps.ite ?_ ?_
    · refine Keeps.bind (Triple.modify fun v here => inline.last v blkno here) fun _ => ?_
      exact (inline.aside.writeExtentBlock _ _).bind fun _ => Keeps.pure _
    · exact (inline.aside.writeExtentBlock _ _).bind fun _ => Keeps.pure _

theorem Inline.growTree (root : di.i_list.l_tree_depth = 0) (full : di.i_list.l_next_free_rec = di.i_list.l_count)
    (last_eb : ExtentBlock) : Triple (P 4) (growTree fs last_eb) (fun _ => Taken) E := by
  refine Triple.bind (R := fun target v => P 3 v ∧ target = .shift) ?_ fun target => Triple.given fun shift => ?_
  · refine Triple.get_bind (inline.di 4) fun v same => Triple.bind (inline.step 3 _) fun _ => ?_
    rw [findBranchLoop, if_pos (by rw [same, root]; decide)]
    refine Triple.bind (R := fun r v => P 3 v ∧ r = (none, false)) (Triple.pure fun _ here => ⟨here, rfl⟩) fun r =>
      Triple.given fun nothing => ?_
    subst nothing
    rw [same, if_pos full]
    exact Triple.pure fun _ here => ⟨here, rfl⟩
  · subst shift
    refine Triple.get_bind (inline.di 3) fun v same => Triple.bind (inline.shiftTreeDepth fs full) fun eb => ?_
    rw [same, if_pos root]
    exact Triple.pure fun _ here => here

theorem Inline.insertExtentWork (root : di.i_list.l_tree_depth = 0) {insert_rec : ExtentRec}
    (grows : Grows fs di.i_list insert_rec) :
    Triple (P 4) (insertExtentWork fs insert_rec) (fun _ _ => True) E := by
  refine Triple.bind (R := fun r v => P 4 v ∧ r.1.ins_contig = .none ∧ r.2.1 = false) ?_ fun r =>
    Triple.given fun kind => ?_
  · refine Triple.get_bind (inline.di 4) fun v same => ?_
    rw [if_pos (by rw [same, root])]
    refine Triple.bind (R := fun _ => P 4) (Triple.require fun _ _ _ here => here) fun appending => ?_
    exact Triple.pure fun _ here => ⟨here, by rw [same]; exact grows.1, by simp [same, grows.2]⟩
  · obtain ⟨insert, free_records, last_eb⟩ := r
    refine Triple.ite (fun _ => ?_) fun other => absurd ⟨kind.1, by simp [show free_records = false from kind.2]⟩ other
    refine Triple.get_bind (inline.di 4) fun v same => Triple.bind (inline.growTree fs root grows.2 _) fun _ => ?_
    exact (inline.error (inline.aside.doInsertExtent fs _ _)).post fun _ _ _ => trivial

end Inline

omit fs in
theorem Same.tried {v₀ : Volume} (same : Same v₀ v) : Same v₀ v.tried := by
  obtain ⟨faults, rfl⟩ := same
  exact ⟨faults.tail, rfl⟩

omit fs in
theorem Same.di {v₀ : Volume} (same : Same v₀ v) : v.di = v₀.di := by
  obtain ⟨faults, rfl⟩ := same
  rfl

omit fs in
theorem same_keeps (v₀ : Volume) (e : Errcode) : Keeps (Same v₀) (fallible e) :=
  fallible_triple e (fun _ here _ => here.tried) fun _ here _ => here.tried

def Fails (v₀ : Volume) (n : Nat) (v : Volume) : Prop := Same v₀ v ∧ true ∈ v.faults.take n

omit fs in
theorem mem_take_succ {faults : List Bool} {n : Nat} :
    true ∈ faults.take (n + 1) ↔ faults.head? = some true ∨ true ∈ faults.tail.take n := by
  cases faults with
  | nil => simp
  | cons fails rest => simp [eq_comm]

omit fs in
theorem fails_step (v₀ : Volume) (n : Nat) (e : Errcode) :
    Triple (Fails v₀ (n + 1)) (fallible e) (fun _ => Fails v₀ n) (Same v₀) := by
  refine fallible_triple e (fun v here works => ⟨here.1.tried, ?_⟩) fun v here _ => here.1.tried
  exact (mem_take_succ.mp here.2).resolve_left works

omit fs in
theorem fails_inline (v₀ : Volume) : Inline v₀.di (Fails v₀) (fun _ => False) (Same v₀) where
  di n v here := here.1.di
  step := fails_step v₀
  take := Triple.bind (fails_step v₀ 0 _) fun _ => ⟨fun v here => absurd here.2 (by simp), fun v here => absurd here.2 (by simp)⟩
  aside := ⟨nofun, nofun, nofun, nofun⟩
  last := nofun
  taken := nofun

omit fs in
theorem empty_inline {v₀ : Volume} (empty : v₀.free = []) :
    Inline v₀.di (fun _ => Same v₀) (fun _ => False) (Same v₀) where
  di n v here := here.di
  step n e := same_keeps v₀ e
  take := by
    refine Triple.bind (same_keeps v₀ _) fun _ => Triple.get_bind (p := fun v => v.free = []) ?_ fun v none => ?_
    · rintro v ⟨faults, rfl⟩
      exact empty
    · rw [none]
      exact Triple.throw fun _ here => here
  aside := ⟨nofun, nofun, nofun, nofun⟩
  last := nofun
  taken := nofun

structure Calm (di : Dinode) (blkno : Nat) (rest : List Nat) (n : Nat) (v : Volume) : Prop where
  di : v.di = di
  free : v.free = blkno :: rest
  works : true ∉ v.faults.take n

omit fs in
theorem calm_inline (di : Dinode) {blkno : Nat} {rest : List Nat} (fresh : blkno ∉ rest) :
    Inline di (Calm di blkno rest) (fun v => blkno ∉ v.free) (fun v => blkno ∉ v.free) := by
  have step (n : Nat) (e : Errcode) {E : Volume → Prop} :
      Triple (Calm di blkno rest (n + 1)) (fallible e) (fun _ => Calm di blkno rest n) E := by
    refine fallible_triple e (fun v here works => ⟨here.di, here.free, ?_⟩) fun v here fails => ?_
    · exact fun mem => here.works (mem_take_succ.mpr (Or.inr mem))
    · exact absurd (mem_take_succ.mpr (Or.inl fails)) here.works
  refine ⟨fun n v here => here.di, fun n e => step n e, ?_, notFree_aside blkno, fun v _ here => here, fun v here => here⟩
  refine Triple.bind (step 0 _) fun _ => Triple.get_bind (fun v here => here.free) fun v free => ?_
  rw [free]
  exact Triple.bind (R := fun _ v => blkno ∉ v.free) (Triple.modify fun _ _ => fresh) fun _ => Triple.pure fun _ here => here

omit fs in
theorem finishDuplicate_none (work : Ext Unit) : finishDuplicate none work = work := by
  refine Eff.ext (funext fun v => ?_)
  rw [finishDuplicate, bind_run]
  simp only [attempt]
  rcases work.run v with _ | ⟨_ | _, v'⟩ <;> rfl

theorem cachedInodeInsertExtent_root {di : Dinode} {P P' E : Volume → Prop} (known : ∀ v, P v → v.di = di)
    (root : di.i_list.l_tree_depth = 0) (first : Triple P malloc (fun _ => P') E) {cpos c_blkno clusters flag : Nat}
    (work : Triple P' (insertExtentWork fs (leafRec cpos c_blkno clusters flag)) (fun _ _ => True) E) :
    Triple P (cachedInodeInsertExtent fs cpos c_blkno clusters flag) (fun _ _ => True) E := by
  refine Triple.bind (R := fun backup v => P v ∧ backup = none) ?_ fun backup => Triple.given fun nothing => ?_
  · refine Triple.get_bind known fun v same => ?_
    rw [if_pos (by rw [same, root])]
    exact Triple.pure fun _ here => ⟨here, rfl⟩
  · subst nothing
    rw [finishDuplicate_none]
    exact Triple.bind first fun _ => work

theorem insertExtentWork_room {di : Dinode} {E : Volume → Prop} (root : di.i_list.l_tree_depth = 0)
    {insert_rec : ExtentRec} (room : ¬ Grows fs di.i_list insert_rec) :
    Triple (fun v => v.di = di) (insertExtentWork fs insert_rec) (fun _ _ => True) E := by
  refine Triple.bind (R := fun r v => v.di = di ∧ ¬ (r.1.ins_contig = .none ∧ ¬ r.2.1)) ?_ fun r =>
    Triple.given fun kind => ?_
  · refine Triple.get_bind (fun _ here => here) fun v same => ?_
    rw [if_pos (by rw [same, root])]
    refine Triple.bind (R := fun _ v => v.di = di) (Triple.require fun _ _ _ here => here) fun appending => ?_
    refine Triple.pure fun _ here => ⟨here, fun grows => room ?_⟩
    exact ⟨same ▸ grows.1, by simpa [same] using grows.2⟩
  · refine Triple.ite (fun grows => absurd grows kind) fun _ => ?_
    refine Triple.get_bind (fun _ here => here) fun v same => ?_
    rw [if_pos (by rw [same, root])]
    refine Triple.bind (R := fun _ _ => True) (Triple.require fun _ _ _ _ => trivial) fun el => ?_
    refine Triple.bind (R := fun _ _ => True) (Triple.modify fun _ _ => trivial) fun _ => ?_
    exact Triple.ite (fun _ => Triple.modify fun _ _ => trivial) fun _ => Triple.pure fun _ _ => trivial

def FailsInline (insert_rec : ExtentRec) (v : Volume) : Prop :=
  ¬ Grows fs v.di.i_list insert_rec ∨ true ∈ v.faults.take 5 ∨ v.free = []

theorem cachedInodeInsertExtent_inline (root : v.di.i_list.l_tree_depth = 0)
    {cpos c_blkno clusters flag : Nat} (inline : FailsInline fs (leafRec cpos c_blkno clusters flag) v) :
    Atomic (cachedInodeInsertExtent fs cpos c_blkno clusters flag) v := by
  have start : Same v v := ⟨v.faults, rfl⟩
  by_cases grows : Grows fs v.di.i_list (leafRec cpos c_blkno clusters flag)
  · rcases inline with room | fails | empty
    · exact absurd grows room
    · have inline := fails_inline v
      exact atomic_of_triple (cachedInodeInsertExtent_root fs (inline.di 5) root (inline.step 4 _)
        (inline.insertExtentWork fs root grows)) ⟨start, fails⟩
    · have inline := empty_inline empty
      exact atomic_of_triple (cachedInodeInsertExtent_root fs (inline.di 5) root (inline.step 4 _)
        (inline.insertExtentWork fs root grows)) start
  · exact atomic_of_triple (cachedInodeInsertExtent_root fs (fun _ here => here.di) root (same_keeps v _)
      ((insertExtentWork_room fs root grows).weaken fun _ here => here.di)) start

theorem cachedInodeInsertExtent_taken (root : v.di.i_list.l_tree_depth = 0) (nodup : v.free.Nodup)
    {cpos c_blkno clusters flag : Nat} (late : ¬ FailsInline fs (leafRec cpos c_blkno clusters flag) v)
    {e : Errcode} {v' : Volume}
    (fails : (cachedInodeInsertExtent fs cpos c_blkno clusters flag).run v = some (.error e, v')) : ¬ Unchanged v v' := by
  intro unchanged
  simp only [FailsInline, not_or, not_not] at late
  obtain ⟨grows, works, some⟩ := late
  obtain ⟨blkno, rest, free⟩ := List.exists_cons_of_ne_nil some
  have inline := calm_inline v.di (List.nodup_cons.mp (free ▸ nodup)).1
  have taken := (cachedInodeInsertExtent_root fs (inline.di 5) root (inline.step 4 _)
    (inline.insertExtentWork fs root grows)).error v ⟨rfl, free, works⟩ e v' fails
  exact taken ((unchanged.free blkno).mpr (by simp [free]))

omit fs in
theorem freeDuplicated_last (old depth : Nat) (el : ExtentList) :
    Keeps (fun v => v.di.i_last_eb_blk ≠ old) (freeDuplicated depth el) := by
  have tried (e : Errcode) : Keeps (fun v => v.di.i_last_eb_blk ≠ old) (fallible e) :=
    fallible_keeps (fun _ _ here => here) e
  have read (blkno : Nat) : Keeps (fun v => v.di.i_last_eb_blk ≠ old) (readExtentBlock blkno) :=
    readExtentBlock_keeps (fun _ _ here => here) blkno
  have delete (blknos : List Nat) : Keeps (fun v => v.di.i_last_eb_blk ≠ old) (deleteAll blknos) := by
    refine Triple.forM fun blkno _ => Keeps.bind (Keeps.attempt ?_) fun _ => Keeps.pure _
    refine (tried _).bind fun _ => (read _).bind fun eb => (tried _).bind fun _ => ?_
    refine Keeps.bind (Triple.modify fun _ here => here) fun _ => ?_
    exact (tried _).bind fun _ => Triple.modify fun _ here => here
  induction depth generalizing el with
  | zero => exact Keeps.stuck
  | succ depth ih =>
    refine (Keeps.assert _).bind fun _ => (tried _).attempt.bind fun r => ?_
    cases r with
    | error e => exact Keeps.pure _
    | ok a =>
      refine Triple.forM fun rec _ => Keeps.ite (Keeps.pure _) ((read _).attempt.bind fun r => ?_)
      cases r with
      | error e => exact Keeps.pure _
      | ok eb => exact Keeps.ite ((ih _).bind fun _ => delete _) (delete _)

theorem duplicated_last {old : Nat} (backup : Dinode) (insert_rec : ExtentRec) :
    Triple (Left old) (do
      malloc
      finishDuplicate (some backup) (insertExtentWork fs insert_rec) : Ext Unit)
      (fun _ _ => True) fun v => v.di.i_last_eb_blk ≠ old := by
  have late {α : Type} {x : Ext α} (keeps : Keeps (Left old) x) :
      Triple (Left old) x (fun _ => Left old) fun v => v.di.i_last_eb_blk ≠ old :=
    ⟨keeps.ok, fun v here e v' run => (keeps.error v here e v' run).last⟩
  refine Triple.bind (late (left_aside old).malloc) fun _ => ?_
  refine Triple.bind (late ((left_spares old).insertExtentWork fs insert_rec).attempt) fun r => ?_
  refine Triple.weaken (P := fun v => v.di.i_last_eb_blk ≠ old) ?_ fun _ here => here.last
  cases r with
  | ok a => exact (freeDuplicated_last old _ _).post fun _ _ _ => trivial
  | error e =>
    refine Triple.bind Keeps.get fun v => Triple.bind (freeDuplicated_last old _ _) fun _ => ?_
    exact Triple.throw fun _ here => here

def InPlace (insert_rec : ExtentRec) (v : Volume) : Prop :=
  ∃ e v₁, (duplicateExtentBlock fs v.di.i_list.l_tree_depth v.di.i_list ⟨0⟩).run v.tried = some (.error e, v₁) ∧
    ∀ e' v', (do
      malloc
      insertExtentWork fs insert_rec : Ext Unit).run { v₁ with di := v.di } = some (.error e', v') → Unchanged v v'

theorem duplicateDinode_run (deep : v.di.i_list.l_tree_depth ≠ 0) :
    (duplicateDinode fs).run v =
      if v.faults.head? = some true then some (.error .noMemory, v.tried)
      else
        match (duplicateExtentBlock fs v.di.i_list.l_tree_depth v.di.i_list ⟨0⟩).run v.tried with
        | none => none
        | some (.ok (el, _), v₁) => some (.ok (some v.di), { v₁ with di := { v₁.di with i_list := el } })
        | some (.error _, v₁) => some (.ok none, { v₁ with di := v.di }) := by
  rw [duplicateDinode, get_bind_run, if_neg deep, bind_run, malloc, fallible_run]
  by_cases head : v.faults.head? = some true
  · rw [if_pos head, if_pos head]
  · rw [if_neg head, if_neg head]
    simp only [bind_run, attempt]
    rcases (duplicateExtentBlock fs v.di.i_list.l_tree_depth v.di.i_list ⟨0⟩).run v.tried with
      _ | ⟨e | ⟨el, ctxt⟩, v₁⟩ <;> rfl

structure Sound (v : Volume) : Prop where
  free : v.free.Nodup
  kept : v.di.i_list.l_tree_depth ≠ 0 → v.di.i_last_eb_blk ∉ v.free
  last : v.di.i_list.l_tree_depth ≠ 0 → LastLeaf v.blocks v.di.i_last_eb_blk v.di.i_list

theorem cachedInodeInsertExtent_tree (sound : Sound v) (deep : v.di.i_list.l_tree_depth ≠ 0)
    (cpos c_blkno clusters flag : Nat) {e : Errcode} {v' : Volume}
    (fails : (cachedInodeInsertExtent fs cpos c_blkno clusters flag).run v = some (.error e, v')) :
    Atomic (cachedInodeInsertExtent fs cpos c_blkno clusters flag) v ↔
      true ∈ v.faults.take 1 ∨ InPlace fs (leafRec cpos c_blkno clusters flag) v := by
  have first : true ∈ v.faults.take 1 ↔ v.faults.head? = some true := by simp [mem_take_succ]
  have run := duplicateDinode_run fs deep
  by_cases head : v.faults.head? = some true
  · rw [if_pos head] at run
    refine iff_of_true (fun e' v'' failed => ?_) (Or.inl (first.mpr head))
    rw [cachedInodeInsertExtent, bind_error run] at failed
    obtain ⟨-, rfl⟩ : Errcode.noMemory = e' ∧ v.tried = v'' := by simpa using failed
    exact Same.unchanged ⟨v.faults.tail, rfl⟩
  rw [if_neg head] at run
  rcases copied : (duplicateExtentBlock fs v.di.i_list.l_tree_depth v.di.i_list ⟨0⟩).run v.tried with
    _ | ⟨e₁ | ⟨el, ctxt⟩, v₁⟩
  · rw [copied] at run
    simp [cachedInodeInsertExtent, bind_run, run] at fails
  · rw [copied] at run
    have same : (cachedInodeInsertExtent fs cpos c_blkno clusters flag).run v = (do
        malloc
        insertExtentWork fs (leafRec cpos c_blkno clusters flag) : Ext Unit).run { v₁ with di := v.di } := by
      rw [cachedInodeInsertExtent, bind_ok run]
      simp only [finishDuplicate_none]
    rw [Atomic, same]
    constructor
    · exact fun atomic => Or.inr ⟨e₁, v₁, copied, atomic⟩
    · rintro (early | ⟨e₂, v₂, again, atomic⟩)
      · exact absurd (first.mp early) head
      · obtain ⟨-, rfl⟩ : e₁ = e₂ ∧ v₁ = v₂ := by simpa [copied] using again
        exact atomic
  · rw [copied] at run
    have left := (duplicateExtentBlock_left fs _ ⟨0⟩ (sound.last deep)).ok v.tried ⟨rfl, sound.kept deep⟩ _ _ copied
    refine iff_of_false (fun atomic => ?_) ?_
    · have failed := fails
      rw [cachedInodeInsertExtent, bind_ok run] at failed
      have other := (duplicated_last fs v.di _).error _ ((left_aside _).list _ el left) _ _ failed
      exact other (by rw [(atomic e v' fails).di])
    · rintro (early | ⟨e₂, v₂, again, -⟩)
      · exact head (first.mp early)
      · simp [copied] at again

def InsertSafe (cpos c_blkno clusters flag : Nat) (v : Volume) : Prop :=
  (∀ e v', (cachedInodeInsertExtent fs cpos c_blkno clusters flag).run v ≠ some (.error e, v')) ∨
    (v.di.i_list.l_tree_depth = 0 ∧ FailsInline fs (leafRec cpos c_blkno clusters flag) v) ∨
    (v.di.i_list.l_tree_depth ≠ 0 ∧ (true ∈ v.faults.take 1 ∨ InPlace fs (leafRec cpos c_blkno clusters flag) v))

theorem cachedInodeInsertExtent_atomic (sound : Sound v) (cpos c_blkno clusters flag : Nat) :
    Atomic (cachedInodeInsertExtent fs cpos c_blkno clusters flag) v ↔ InsertSafe fs cpos c_blkno clusters flag v := by
  by_cases fails : ∃ e v', (cachedInodeInsertExtent fs cpos c_blkno clusters flag).run v = some (.error e, v')
  · obtain ⟨e, v', fails⟩ := fails
    have errs : ¬ ∀ e v', (cachedInodeInsertExtent fs cpos c_blkno clusters flag).run v ≠ some (.error e, v') :=
      fun works => works e v' fails
    by_cases root : v.di.i_list.l_tree_depth = 0
    · simp only [InsertSafe, errs, root, false_or, true_and, not_true, ne_eq, false_and, or_false]
      constructor
      · intro atomic
        by_contra late
        exact cachedInodeInsertExtent_taken fs root sound.free late fails (atomic e v' fails)
      · exact cachedInodeInsertExtent_inline fs root
    · simp only [InsertSafe, errs, root, false_or, false_and, not_false_eq_true, ne_eq, true_and]
      exact cachedInodeInsertExtent_tree fs sound root cpos c_blkno clusters flag fails
  · refine iff_of_true (fun e v' run => absurd ⟨e, v', run⟩ fails) (Or.inl fun e v' run => fails ⟨e, v', run⟩)

def MarkSafe (v : Volume) : Prop :=
  if v.di.i_list.l_tree_depth = 0 then true ∈ v.faults.take 2 else true ∈ v.faults.take 1

instance (v : Volume) : Decidable (MarkSafe v) := by
  unfold MarkSafe
  infer_instance

theorem markExtentWritten_inline (root : v.di.i_list.l_tree_depth = 0) (cpos len p_blkno : Nat)
    (fails : true ∈ v.faults.take 2) : Atomic (markExtentWritten fs cpos len p_blkno) v := by
  have known (n : Nat) (v' : Volume) (here : Fails v n v') : v'.di = v.di := here.1.di
  have stopped {α : Type} {x : Ext α} {Q : α → Volume → Prop} : Triple (Fails v 0) x Q (Same v) :=
    ⟨fun v' here => absurd here.2 (by simp), fun v' here => absurd here.2 (by simp)⟩
  refine atomic_of_triple (P := Fails v 2) (Q := fun _ _ => True) ?_ ⟨⟨v.faults, rfl⟩, fails⟩
  refine Triple.bind (R := fun backup v' => Fails v 2 v' ∧ backup = none) ?_ fun backup => Triple.given fun nothing => ?_
  · refine Triple.get_bind (known 2) fun v' same => ?_
    rw [if_pos (by rw [same, root])]
    exact Triple.pure fun _ here => ⟨here, rfl⟩
  · subst nothing
    rw [finishDuplicate_none]
    refine Triple.bind (R := fun _ => Fails v 1) ?_ fun _ => ?_
    · refine Triple.get_bind (known 2) fun v' same => ?_
      exact Triple.bind (R := fun _ => Fails v 2) (Triple.assert fun _ _ here => here) fun _ => fails_step v 1 _
    refine Triple.bind (R := fun _ => Fails v 1) ?_ fun path => ?_
    · refine Triple.get_bind (known 1) fun v' same => ?_
      simp only [same, root, findPathFrom]
      exact Triple.bind (R := fun _ => Fails v 1) (Triple.assert fun _ _ here => here) fun _ => Triple.pure fun _ here => here
    have leaf : Triple (Fails v 1) (currentLeaf path) (fun _ => Fails v 1) (Same v) :=
      Triple.get_bind (known 1) fun v' same => Triple.pure fun _ here => here
    refine Triple.bind leaf fun el => ?_
    split
    · exact Triple.throw fun _ here => here.1
    · refine Triple.bind (R := fun _ => Fails v 1) (Triple.require fun _ _ _ here => here) fun rec => ?_
      refine Triple.bind (R := fun _ => Fails v 0) ?_ fun _ => stopped
      refine Triple.bind leaf fun el => ?_
      refine Triple.bind (R := fun _ => Fails v 1) (Triple.require fun _ _ _ here => here) fun rec => ?_
      refine Triple.bind (R := fun _ => Fails v 1) (Triple.check (fun _ _ here => here) fun _ here => here.1) fun _ => ?_
      refine Triple.bind (R := fun _ => Fails v 1) (Triple.require fun _ _ _ here => here) fun contig => ?_
      exact Triple.bind (fails_step v 0 _) fun _ => stopped

theorem markExtentWritten_tree (deep : v.di.i_list.l_tree_depth ≠ 0) (cpos len p_blkno : Nat)
    (fails : true ∈ v.faults.take 1) : Atomic (markExtentWritten fs cpos len p_blkno) v := by
  have first : v.faults.head? = some true := by simpa [mem_take_succ] using fails
  intro e v' run
  rw [markExtentWritten, bind_error (by rw [duplicateDinode_run fs deep, if_pos first])] at run
  obtain ⟨-, rfl⟩ : Errcode.noMemory = e ∧ v.tried = v' := by simpa using run
  exact Same.unchanged ⟨v.faults.tail, rfl⟩

def oneLeaf : Dinode := ⟨1, 2, 10, ⟨1, 4, 1, [⟨0, 2, 10⟩, zeroRec, zeroRec, zeroRec]⟩⟩

def oneLeafVolume (faults : List Bool) : Volume where
  di := oneLeaf
  inode := oneLeaf
  blocks blkno := if blkno = 10 then some ⟨10, 0, ⟨0, 3, 2, [leafRec 0 100 1 0, leafRec 1 110 1 0, zeroRec]⟩⟩ else none
  free := [20, 21, 22]
  faults

omit fs in
theorem oneLeafVolume_sound (faults : List Bool) : Sound (oneLeafVolume faults) where
  free := show [20, 21, 22].Nodup by decide
  kept _ := show 10 ∉ [20, 21, 22] by decide
  last _ := .leaf rfl (show Extents.recClusters 1 ⟨0, 2, 10⟩ ≠ 0 by decide) rfl rfl rfl

def lateFault : Volume := oneLeafVolume (List.replicate 9 false ++ [true])

end Ocfs2.ExtentTree
