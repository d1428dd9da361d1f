import Ocfs2.Libocfs2.BitmapOps

set_option autoImplicit false

/-!
The calls of a block bitmap against a finite set of bit numbers. A clear of a bit that no region covers
returns what the stack of the caller held, so a call of it carries that value.
-/

namespace Ocfs2.HoleBitmap

open Bitmap

abbrev BlockBitmap := Bitmap Unit Unit

def globalBlockOps : Callbacks Unit Unit := ⟨none, none⟩

def blockBitmapNew (fsBlocks : Nat) : BlockBitmap := ⟨fsBlocks, 0, .nil, ()⟩

inductive Call where
  | set (bitno : Nat)
  | clear (bitno : Nat) (stack : Int)
  | test (bitno : Nat)
  | findNextSet (start : Nat)
  deriving DecidableEq

def call (bitmap : BlockBitmap) : Call → BlockBitmap × Except Errcode Int
  | .set bitno =>
    match bitmap.set bitno fun b n => setHoles globalBlockOps b n () with
    | .ok (bitmap, old) => (bitmap, .ok old.toInt)
    | .error e => (bitmap, .error e)
  | .clear bitno stack =>
    match bitmap.clear bitno fun b n => clearHoles globalBlockOps b n () stack with
    | .ok (bitmap, old) => (bitmap, .ok old)
    | .error e => (bitmap, .error e)
  | .test bitno => (bitmap, (bitmap.test bitno testHoles).map Bool.toInt)
  | .findNextSet start => (bitmap, (bitmap.findNextSet start findNextSetHoles).map Int.ofNat)

def calls (bitmap : BlockBitmap) : List Call → BlockBitmap × List (Except Errcode Int)
  | [] => (bitmap, [])
  | c :: cs =>
    let (bitmap, result) := call bitmap c
    let (bitmap, results) := calls bitmap cs
    (bitmap, result :: results)

def setCall (members : Finset Nat) : Call → Finset Nat × Except Errcode Int
  | .set bitno => (insert bitno members, .ok (decide (bitno ∈ members)).toInt)
  | .clear bitno _ => (members.erase bitno, .ok (decide (bitno ∈ members)).toInt)
  | .test bitno => (members, .ok (decide (bitno ∈ members)).toInt)
  | .findNextSet start =>
    if h : (members.filter (start ≤ ·)).Nonempty then
      (members, .ok ((members.filter (start ≤ ·)).min' h))
    else (members, .error .bitNotFound)

def setCalls (members : Finset Nat) : List Call → Finset Nat × List (Except Errcode Int)
  | [] => (members, [])
  | c :: cs =>
    let (members, result) := setCall members c
    let (members, results) := setCalls members cs
    (members, result :: results)

def Call.InRange (fsBlocks : Nat) : Call → Prop
  | .set bitno => bitno < fsBlocks
  | .clear bitno _ => bitno < fsBlocks
  | .test bitno => bitno < fsBlocks
  | .findNextSet start => start < fsBlocks

def Call.Defined (bitmap : BlockBitmap) : Call → Prop
  | .clear bitno stack => Covered bitmap.b_regions.toList bitno ∨ stack = 0
  | _ => True

def AllDefined (bitmap : BlockBitmap) : List Call → Prop
  | [] => True
  | c :: cs => c.Defined bitmap ∧ AllDefined (call bitmap c).1 cs

structure Represents (fsBlocks : Nat) (bitmap : BlockBitmap) (members : Finset Nat) : Prop where
  total : bitmap.b_total_bits = fsBlocks
  layout : Layout fsBlocks bitmap.b_regions.toList
  member : ∀ x, Member bitmap.b_regions.toList x ↔ x ∈ members

theorem polite : Callbacks.Polite globalBlockOps := by
  intro notify told
  cases told

theorem represents_new (fsBlocks : Nat) : Represents fsBlocks (blockBitmapNew fsBlocks) ∅ where
  total := rfl
  layout := ⟨by simp [blockBitmapNew, Rbtree.Node.toList], by simp [blockBitmapNew, Rbtree.Node.toList],
    by simp [blockBitmapNew, Rbtree.Node.toList]⟩
  member x := by simp [Member, blockBitmapNew, Rbtree.Node.toList]

section Step

variable {fsBlocks : Nat} {bitmap : BlockBitmap} {members : Finset Nat}

variable (rep : Represents fsBlocks bitmap members)

include rep

theorem Represents.written {b : Nat} {value : Bool}
    {bitmap' : BlockBitmap} (written : Written globalBlockOps fsBlocks bitmap b value bitmap') (members' : Finset Nat)
    (same : ∀ x, x ∈ members' ↔ if x = b then value = true else x ∈ members) :
    Represents fsBlocks bitmap' members' where
  total := written.total.trans rep.total
  layout := written.layout
  member x := by rw [written.member, same, rep.member]

theorem insert_hole {b : Nat} (inside : b < fsBlocks) (uncovered : ¬ Covered bitmap.b_regions.toList b) :
    ∃ bitmap', insertRegion globalBlockOps bitmap (allocRegion b 1 ()) = .ok bitmap' ∧
      Represents fsBlocks bitmap' members ∧ Covered bitmap'.b_regions.toList b := by
  obtain ⟨-, path, gap⟩ := (lookup_cases bitmap b rep.layout).resolve_right fun here => uncovered here.1
  have total := rep.total
  obtain ⟨bitmap', run, total', -, -, layout', covered', member'⟩ := insertRegion_spec globalBlockOps
    bitmap (allocRegion b 1 ()) (total.symm ▸ rep.layout) (Region.wf_alloc b 1 () Nat.one_pos)
    (by simp only [allocRegion]; omega) path gap
  refine ⟨bitmap', run, ⟨total'.trans total, total ▸ layout', fun x => ?_⟩, ?_⟩
  · have clear : ¬ (allocRegion b 1 () : Region Unit).Holds x := by
      rintro ⟨-, set⟩
      rw [Region.bit_alloc] at set
      cases set
    rw [member', rep.member]
    simp [clear]
  · exact (covered' b).mpr (.inr ⟨le_rfl, by simp [allocRegion]⟩)

theorem old_eq {b : Nat} {old : Bool}
    (right : old = true ↔ Member bitmap.b_regions.toList b) : old = decide (b ∈ members) := by
  rw [rep.member] at right
  cases old <;> simp_all

theorem setHoles_spec {b : Nat} (inside : b < fsBlocks) :
    ∃ bitmap', setHoles globalBlockOps bitmap b () = .ok (bitmap', decide (b ∈ members)) ∧
      Represents fsBlocks bitmap' (insert b members) := by
  have set (bitmap : BlockBitmap) (rep : Represents fsBlocks bitmap members)
      (covered : Covered bitmap.b_regions.toList b) :
      ∃ bitmap', setGeneric globalBlockOps bitmap b = .ok (bitmap', decide (b ∈ members)) ∧
        Represents fsBlocks bitmap' (insert b members) := by
    obtain ⟨-, bitmap', old, run, right, written⟩ :=
      (setGeneric_writes polite bitmap b rep.layout).resolve_left fun missing => missing.1 covered
    rw [old_eq rep right] at run
    exact ⟨bitmap', run, rep.written written _ (fun x => by split <;> simp_all)⟩
  rcases setGeneric_writes polite bitmap b rep.layout with ⟨uncovered, missing⟩ | ⟨covered, -⟩
  · obtain ⟨grown, insert, rep', covered'⟩ := insert_hole rep inside uncovered
    obtain ⟨bitmap', run, rep''⟩ := set grown rep' covered'
    refine ⟨bitmap', ?_, rep''⟩
    rw [setHoles, missing]
    simp only [insert, bind, Except.bind, run]
  · obtain ⟨bitmap', run, rep'⟩ := set bitmap rep covered
    exact ⟨bitmap', by rw [setHoles, run], rep'⟩

theorem clearHoles_spec {b : Nat} (inside : b < fsBlocks) (stack : Int) :
    ∃ bitmap' old, clearHoles globalBlockOps bitmap b () stack = .ok (bitmap', old) ∧
      Represents fsBlocks bitmap' (members.erase b) ∧
      (old = (decide (b ∈ members)).toInt ↔ Covered bitmap.b_regions.toList b ∨ stack = 0) := by
  rcases clearGeneric_writes polite bitmap b rep.layout with
    ⟨uncovered, missing⟩ | ⟨covered, bitmap', old, run, right, written⟩
  · obtain ⟨grown, insert, rep', -⟩ := insert_hole rep inside uncovered
    have absent : b ∉ members := fun member => uncovered ((rep.member b).mpr member).covered
    refine ⟨grown, stack, ?_, by rwa [Finset.erase_eq_of_notMem absent], by simp [uncovered, absent]⟩
    rw [clearHoles, missing]
    simp only [insert, bind, Except.bind, pure, Except.pure]
  · rw [old_eq rep right] at run
    refine ⟨bitmap', _, by rw [clearHoles, run], ?_, by simp [covered]⟩
    exact rep.written written _ (fun x => by split <;> simp_all)

theorem testHoles_spec (b : Nat) : testHoles bitmap b = .ok (decide (b ∈ members)) := by
  rcases testGeneric_cases bitmap b rep.layout with ⟨uncovered, run⟩ | ⟨-, value, run, right⟩
  · have absent : b ∉ members := fun member => uncovered ((rep.member b).mpr member).covered
    rw [testHoles, run]
    simp [absent]
  · rw [testHoles, run, old_eq rep right]

theorem findNextSetHoles_spec (start : Nat) :
    (findNextSetHoles bitmap start).map Int.ofNat = (setCall members (.findNextSet start)).2 := by
  rw [setCall, findNextSetHoles]
  rcases findNextSetGeneric_spec bitmap fsBlocks start rep.layout with
    ⟨b, run, low, member, before⟩ | ⟨run, none⟩
  · have inside : b ∈ members.filter (start ≤ ·) := by simp [← rep.member, member, low]
    have least : (members.filter (start ≤ ·)).min' ⟨b, inside⟩ = b := by
      refine le_antisymm (Finset.min'_le _ _ inside) (Finset.le_min' _ _ _ fun x hx => ?_)
      rw [Finset.mem_filter, ← rep.member] at hx
      by_contra less
      exact before x hx.2 (by omega) hx.1
    rw [run, dif_pos ⟨b, inside⟩, least]
    rfl
  · have empty : ¬ (members.filter (start ≤ ·)).Nonempty := by
      rintro ⟨x, hx⟩
      rw [Finset.mem_filter, ← rep.member] at hx
      exact none x hx.2 hx.1
    rw [run, dif_neg empty]
    rfl

theorem call_spec (c : Call) (inside : c.InRange fsBlocks) :
    Represents fsBlocks (call bitmap c).1 (setCall members c).1 ∧
      ((call bitmap c).2 = (setCall members c).2 ↔ c.Defined bitmap) := by
  have total := rep.total
  cases c with
  | set b =>
    obtain ⟨bitmap', run, rep'⟩ := setHoles_spec rep inside
    simp only [call, Bitmap.set, total, Nat.not_le.mpr inside, if_false, run, setCall,
      Call.Defined, and_true]
    exact ⟨rep'.total, rep'.layout, rep'.member⟩
  | clear b stack =>
    obtain ⟨bitmap', old, run, rep', right⟩ := clearHoles_spec rep inside stack
    simp only [call, Bitmap.clear, total, Nat.not_le.mpr inside, if_false, run, setCall,
      Call.Defined, Except.ok.injEq]
    exact ⟨⟨rep'.total, rep'.layout, rep'.member⟩, right⟩
  | test b =>
    simp only [call, Bitmap.test, total, Nat.not_le.mpr inside, if_false,
      testHoles_spec rep, setCall, Call.Defined, iff_true]
    exact ⟨rep, rfl⟩
  | findNextSet start =>
    have same : (setCall members (.findNextSet start)).1 = members := by
      rw [setCall]
      split <;> rfl
    rw [same]
    simp only [call, Bitmap.findNextSet, total, Nat.not_le.mpr inside, if_false,
      findNextSetHoles_spec rep, Call.Defined, and_true]
    exact rep

end Step

theorem calls_spec (fsBlocks : Nat) (cs : List Call) (inside : ∀ c ∈ cs, c.InRange fsBlocks)
    (bitmap : BlockBitmap) (members : Finset Nat) (rep : Represents fsBlocks bitmap members) :
    Represents fsBlocks (calls bitmap cs).1 (setCalls members cs).1 ∧
      ((calls bitmap cs).2 = (setCalls members cs).2 ↔ AllDefined bitmap cs) := by
  induction cs generalizing bitmap members with
  | nil => exact ⟨rep, by simp [calls, setCalls, AllDefined]⟩
  | cons c cs ih =>
    obtain ⟨rep', result⟩ := call_spec rep c (inside c List.mem_cons_self)
    obtain ⟨rep'', results⟩ := ih (fun d h => inside d (List.mem_cons_of_mem _ h)) _ _ rep'
    refine ⟨rep'', ?_⟩
    simp only [calls, setCalls, AllDefined, List.cons.injEq, result, results]

theorem calls_eq_setCalls_iff (fsBlocks : Nat) (cs : List Call)
    (inside : ∀ c ∈ cs, c.InRange fsBlocks) :
    ((calls (blockBitmapNew fsBlocks) cs).2 = (setCalls ∅ cs).2 ∧
        Represents fsBlocks (calls (blockBitmapNew fsBlocks) cs).1 (setCalls ∅ cs).1) ↔
      AllDefined (blockBitmapNew fsBlocks) cs := by
  obtain ⟨rep, results⟩ := calls_spec fsBlocks cs inside _ ∅ (represents_new fsBlocks)
  rw [results]
  exact and_iff_left rep

theorem calls_eq_setCalls_merged : (calls (blockBitmapNew 16) [.set 3, .set 4, .clear 3 7, .findNextSet 0]).2 =
      (setCalls ∅ [.set 3, .set 4, .clear 3 7, .findNextSet 0]).2 :=
  ((calls_eq_setCalls_iff 16 [.set 3, .set 4, .clear 3 7, .findNextSet 0]
    (by simp [Call.InRange])).mpr
    (by
      simp only [AllDefined, Call.Defined, true_and, and_true]
      left
      unfold Covered
      decide)).1

/-- In a new bitmap a clear returns the one of the stack as the old value of a bit never set. -/
theorem clear_hole_returns_stack : (calls (blockBitmapNew 16) [.clear 5 1]).2 ≠ (setCalls ∅ [.clear 5 1]).2 := by
  decide

end Ocfs2.HoleBitmap
