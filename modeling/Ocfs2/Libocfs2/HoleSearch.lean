import Ocfs2.Libocfs2.HoleBitmap

set_option autoImplicit false

namespace Ocfs2.Bitmap

open ByteBuffer Rbtree

variable {π σ : Type} {total : Nat}


theorem findNextClearFrom_spec (start : Nat) (xs : List (Region π)) (layout : Layout total xs) (seen : Nat)
    (low : start ≤ seen) (later : ∀ r ∈ xs, seen < r.br_start_bit + r.br_total_bits)
    (here : seen = start ∨ ∀ r ∈ xs, seen ≤ r.br_start_bit) :
    ∃ e, seen ≤ e ∧ (∀ x, seen ≤ x → x < e → Member xs x) ∧
      (findNextClearFrom start seen xs = .ok e ∧ ¬ Member xs e ∧
          (∃ r ∈ xs, e < r.br_start_bit + r.br_total_bits) ∨
        findNextClearFrom start seen xs = .error .bitNotFound ∧
          ∀ r ∈ xs, r.br_start_bit + r.br_total_bits ≤ e) := by
  induction xs generalizing seen with
  | nil => exact ⟨seen, le_rfl, fun x _ _ => by omega, .inr ⟨rfl, by simp⟩⟩
  | cons br xs ih =>
    have whole : Layout total ([] ++ br :: xs) := layout
    have order := whole.right
    have ends := later br List.mem_cons_self
    have next := layout.sublist (List.sublist_cons_self br xs)
    rw [findNextClearFrom]
    by_cases hole : seen < br.br_start_bit
    · rw [if_pos hole]
      refine ⟨seen, le_rfl, fun x _ _ => by omega, .inl ⟨rfl, ?_, br, List.mem_cons_self, ends⟩⟩
      rintro ⟨r, mem, ⟨first, -⟩, -⟩
      rcases List.mem_cons.mp mem with rfl | behind
      · omega
      · have := order r behind
        omega
    · -- the search in the region starts at the bit that was not seen yet
      have offset : (if start > br.br_start_bit then start - br.br_start_bit else 0) = seen - br.br_start_bit := by
        rcases here with rfl | apart
        · split <;> omega
        · have := apart br List.mem_cons_self
          split <;> omega
      have found := Bitops.findNextBitClear_isNext br.br_bitmap br.br_total_bits (seen - br.br_start_bit)
        (layout.wf br List.mem_cons_self).room (layout.wf br List.mem_cons_self).clean (by omega)
      have inside (x : Nat) (covers : br.Covers x) := whole.member_iff x covers
      have set : ∀ x, seen ≤ x →
          x < br.br_start_bit + Bitops.findNextBitClear br.br_bitmap br.br_total_bits (seen - br.br_start_bit) →
          Member (br :: xs) x := by
        intro x after less
        have upper := found.upper
        have clear := found.before (x - br.br_start_bit) (by omega) (by omega)
        exact (inside x ⟨by omega, by omega⟩).mpr (by simpa using clear)
      have lower := found.lower
      have upper := found.upper
      simp only [if_neg hole, offset]
      by_cases stopped : Bitops.findNextBitClear br.br_bitmap br.br_total_bits (seen - br.br_start_bit) =
          br.br_total_bits
      · rw [if_neg (not_not_intro stopped)]
        rw [stopped] at set
        obtain ⟨e, after, before, result⟩ := ih next (br.br_start_bit + br.br_total_bits) (by omega)
          (fun r mem => by
            have := order r mem
            have := (next.wf r mem).nonempty
            omega)
          (.inr order)
        refine ⟨e, by omega, fun x first less => ?_, ?_⟩
        · by_cases early : x < br.br_start_bit + br.br_total_bits
          · exact set x first early
          · obtain ⟨r, mem, holds⟩ := before x (by omega) less
            exact ⟨r, List.mem_cons_of_mem _ mem, holds⟩
        · rcases result with ⟨run, clear, r, mem, bound⟩ | ⟨run, bound⟩
          · refine .inl ⟨run, ?_, r, List.mem_cons_of_mem _ mem, bound⟩
            rintro ⟨r, mem, holds⟩
            rcases List.mem_cons.mp mem with rfl | behind
            · have := holds.1.2
              omega
            · exact clear ⟨r, behind, holds⟩
          · exact .inr ⟨run, List.forall_mem_cons.mpr ⟨after, bound⟩⟩
      · rw [if_pos stopped]
        refine ⟨_, by omega, set, .inl ⟨rfl, ?_, br, List.mem_cons_self, by omega⟩⟩
        have clear := found.found (by omega)
        rw [← List.nil_append (br :: xs), whole.member_iff _ ⟨by omega, by omega⟩, Nat.add_sub_cancel_left]
        simpa using clear

end Ocfs2.Bitmap

namespace Ocfs2.HoleBitmap

open Bitmap

def NextClear (total : Nat) (members : Finset Nat) (start : Nat) : Except Errcode Nat → Prop
  | .ok b => start ≤ b ∧ b < total ∧ b ∉ members ∧ ∀ x, start ≤ x → x < b → x ∈ members
  | .error e => e = .bitNotFound ∧ ∀ x, start ≤ x → x < total → x ∈ members

def SetToLastRegion (bitmap : BlockBitmap) (start : Nat) : Prop :=
  ∃ e, start < e ∧ e < bitmap.b_total_bits ∧ (∀ x, start ≤ x → x < e → Member bitmap.b_regions.toList x) ∧
    ∀ r ∈ bitmap.b_regions.toList, r.br_start_bit + r.br_total_bits ≤ e

section Search

variable {fsBlocks : Nat} {bitmap : BlockBitmap} {members : Finset Nat}

theorem findNextClearHoles_cases (rep : Represents fsBlocks bitmap members) (start : Nat) :
    ∃ e, start ≤ e ∧ (∀ x, start ≤ x → x < e → x ∈ members) ∧
      (findNextClearHoles bitmap start = .ok e ∧ e ∉ members ∧
          (e = start ∨ ∃ r ∈ bitmap.b_regions.toList, e < r.br_start_bit + r.br_total_bits) ∨
        findNextClearHoles bitmap start = .error .bitNotFound ∧ start < e ∧
          ∀ r ∈ bitmap.b_regions.toList, r.br_start_bit + r.br_total_bits ≤ e) := by
  obtain ⟨skipped, list, early, later⟩ := nodesFrom_spec bitmap fsBlocks start rep.layout
  have behind : ∀ x, start ≤ x → (Member (nodesFrom (lookup bitmap start 1)) x ↔ x ∈ members) := by
    intro x low
    rw [← rep.member x, list]
    constructor
    · rintro ⟨r, mem, holds⟩
      exact ⟨r, List.mem_append_right _ mem, holds⟩
    · rintro ⟨r, mem, holds⟩
      rcases List.mem_append.mp mem with before | mem
      · have := early r before
        have := holds.1.2
        omega
      · exact ⟨r, mem, holds⟩
  have layout : Layout fsBlocks (nodesFrom (lookup bitmap start 1)) :=
    (list ▸ rep.layout).sublist (List.sublist_append_right skipped _)
  rw [findNextClearHoles]
  rcases nodes : nodesFrom (lookup bitmap start 1) with _ | ⟨br, rest⟩
  · refine ⟨start, le_rfl, fun x _ _ => by omega, .inl ⟨rfl, ?_, .inl rfl⟩⟩
    rw [← behind start le_rfl, nodes]
    simp [Member]
  · rw [nodes] at behind layout later list
    obtain ⟨e, low, before, result⟩ :=
      findNextClearFrom_spec start (br :: rest) layout start le_rfl later (.inl rfl)
    refine ⟨e, low, fun x first less => (behind x first).mp (before x first less), ?_⟩
    rcases result with ⟨run, clear, r, mem, bound⟩ | ⟨run, bound⟩
    · exact .inl ⟨run, by rwa [← behind e low], .inr ⟨r, by simp [list, mem], bound⟩⟩
    · have ends := later br List.mem_cons_self
      have last := bound br List.mem_cons_self
      refine .inr ⟨run, by omega, fun r mem => ?_⟩
      rw [list] at mem
      rcases List.mem_append.mp mem with skip | mem
      · have := early r skip
        omega
      · exact bound r mem

theorem findNextClear_holes_iff (rep : Represents fsBlocks bitmap members) (start : Nat) (inside : start < fsBlocks) :
    NextClear fsBlocks members start (bitmap.findNextClear start findNextClearHoles) ↔
      ¬ SetToLastRegion bitmap start := by
  have outside : ∀ b, (∀ r ∈ bitmap.b_regions.toList, r.br_start_bit + r.br_total_bits ≤ b) → b ∉ members := by
    intro b bound mem
    obtain ⟨r, region, holds⟩ := (rep.member b).mpr mem
    have := bound r region
    have := holds.1.2
    omega
  simp only [SetToLastRegion, rep.member, rep.total, Bitmap.findNextClear, if_neg (Nat.not_le.mpr inside)]
  obtain ⟨b, low, before, result⟩ := findNextClearHoles_cases rep start
  rcases result with ⟨run, clear, place⟩ | ⟨run, some, bound⟩
  · rw [run]
    have small : b < fsBlocks := by
      rcases place with rfl | ⟨r, mem, less⟩
      · exact inside
      · exact less.trans_le (rep.layout.bound r mem)
    refine iff_of_true ⟨low, small, clear, before⟩ ?_
    rintro ⟨e, some, -, set, bound⟩
    refine clear (set b low ?_)
    rcases place with rfl | ⟨r, mem, less⟩
    · exact some
    · exact less.trans_le (bound r mem)
  · rw [run]
    by_cases whole : fsBlocks ≤ b
    · refine iff_of_true ⟨rfl, fun x first less => before x first (by omega)⟩ ?_
      rintro ⟨e, some', less, -, bound'⟩
      exact outside e bound' (before e (by omega) (by omega))
    · refine iff_of_false ?_ (not_not_intro ⟨b, some, by omega, before, bound⟩)
      rintro ⟨-, all⟩
      exact outside b bound (all b (by omega) (by omega))

end Search

theorem findNextClear_holes_before :
    NextClear 16 {4, 3} 2 ((calls (blockBitmapNew 16) [.set 3, .set 4]).1.findNextClear 2 findNextClearHoles) := by
  have rep : Represents 16 (calls (blockBitmapNew 16) [.set 3, .set 4]).1 {4, 3} :=
    (calls_spec 16 [.set 3, .set 4] (by simp [Call.InRange]) _ ∅ (represents_new 16)).1
  refine (findNextClear_holes_iff rep 2 (by decide)).mpr ?_
  rintro ⟨e, some, -, set, -⟩
  have two := set 2 le_rfl some
  rw [rep.member] at two
  simp at two

theorem findNextClear_holes_at_end :
    (calls (blockBitmapNew 16) [.set 5]).1.findNextClear 5 findNextClearHoles = .error .bitNotFound ∧
      (calls (blockBitmapNew 16) [.set 5]).1.test 6 testHoles = .ok false := by
  decide

end Ocfs2.HoleBitmap
