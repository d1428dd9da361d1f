import Ocfs2.Libocfs2.BitmapAlloc

set_option autoImplicit false

namespace Ocfs2.Bitmap

open ByteBuffer Rbtree

variable {π σ : Type}

section Clear

variable {ops : Callbacks π σ}

variable {bitmap : Bitmap π σ} {total : Nat} (layout : Layout total bitmap.b_regions.toList)

include layout

theorem clearRange_ok (polite : Callbacks.Polite ops) {len first : Nat} {bitmap' : Bitmap π σ}
    (run : bitmap.clearRange (clearRangeGeneric ops) len first = .ok bitmap') :
    Framed total bitmap bitmap' ∧ ∀ x, ¬ (first ≤ x ∧ x < first + len) →
      (Member bitmap'.b_regions.toList x ↔ Member bitmap.b_regions.toList x) := by
  rw [clearRange] at run
  split_ifs at run
  have below := Nat.mod_le (first + len) (2 ^ 64)
  rcases clearRangeGeneric_cases layout polite len first rfl with
    ⟨-, error⟩ | ⟨c, l, br, r, path, -, -, ⟨-, error⟩ | ⟨-, bitmap₁, ok, framed, -, member⟩⟩
  · rw [error] at run
    cases run
  · rw [error] at run
    cases run
  · rw [ok] at run
    cases run
    refine ⟨framed, fun x outside => ?_⟩
    rw [member x, and_iff_left]
    rintro ⟨-, low, high⟩
    exact outside ⟨low, by omega⟩

omit layout

def ClearedExactly (ops : Callbacks π σ) (total : Nat) (bitmap : Bitmap π σ) (len first : Nat) : Prop :=
  (∃ bitmap', bitmap.clearRange (clearRangeGeneric ops) len first = .ok bitmap' ∧
    Layout total bitmap'.b_regions.toList ∧
    (∀ x, Covered bitmap'.b_regions.toList x ↔ Covered bitmap.b_regions.toList x) ∧
    ∀ x, Member bitmap'.b_regions.toList x ↔
      Member bitmap.b_regions.toList x ∧ ¬ (first ≤ x ∧ x < first + len)) ∨
  ∃ e, bitmap.clearRange (clearRangeGeneric ops) len first = .error e ∧ e ≠ .undefined

def HeldByOne (bitmap : Bitmap π σ) (len first : Nat) : Prop :=
  ∀ c l br r path, descend (order first (first + len)) bitmap.b_regions [] = (.node c l br r, path) →
    InMemory br first len ∧
      ∀ x, first ≤ x → x < first + len → Member bitmap.b_regions.toList x → br.Covers x

include layout

theorem clearRange_exact_iff (polite : Callbacks.Polite ops) (word : bitmap.b_total_bits < 2 ^ 64) (len first : Nat)
    (within : first + len ≤ bitmap.b_total_bits) :
    ClearedExactly ops total bitmap len first ↔ len = 0 ∨ HeldByOne bitmap len first := by
  rw [ClearedExactly, clearRange]
  by_cases empty : len = 0
  · simp [empty]
  rw [if_neg (by rw [Nat.mod_eq_of_lt (by omega)]; omega), or_iff_right empty]
  have cases := clearRangeGeneric_cases layout polite len first (Nat.mod_eq_of_lt (show first + len < 2 ^ 64 by omega))
  rw [Nat.add_sub_cancel_left] at cases
  rcases cases with
    ⟨⟨path, missed⟩, run⟩ | ⟨c, l, br, r, path, found, -, ⟨outside, run⟩ | ⟨inside, bitmap', run, framed, -, member⟩⟩
  · rw [run]
    refine iff_of_true (.inr ⟨_, rfl, by decide⟩) fun c l br r path' found => ?_
    rw [missed] at found
    cases found
  · rw [run]
    refine iff_of_false ?_ fun held => outside (held c l br r path found).1
    rintro (⟨bitmap', ok, -⟩ | ⟨e, error, defined⟩)
    · cases ok
    · cases error
      exact defined rfl
  · rw [run]
    constructor
    · rintro (⟨bitmap₁, ok, -, -, exact_⟩ | ⟨e, error, -⟩)
      · cases ok
        intro c' l' br' r' path' found'
        rw [found] at found'
        cases found'
        refine ⟨inside, fun x low high set => ?_⟩
        by_contra uncovered
        have kept := (member x).mpr ⟨set, fun cleared => uncovered cleared.1⟩
        exact ((exact_ x).mp kept).2 ⟨low, high⟩
      · cases error
    · intro held
      refine .inl ⟨bitmap', rfl, framed.layout, framed.covered, fun x => ?_⟩
      rw [member x]
      refine and_congr_right fun set => not_congr ⟨And.right, fun range => ⟨?_, range⟩⟩
      exact (held c l br r path found).2 x range.1 range.2 set

end Clear

theorem clearRange_exact_sixteenBits : ClearedExactly ⟨none, none⟩ 16 sixteenBits 5 3 := by
  refine (clearRange_exact_iff sixteenBits_layout polite_silent (by decide) 5 3 (by decide)).mpr (.inr ?_)
  intro c l br r path found
  cases found
  exact ⟨.inr ⟨by decide, by decide⟩, fun x low high _ => ⟨Nat.zero_le x, by simp only [allocRegion]; omega⟩⟩

def twoRegions : Bitmap Unit Unit where
  b_total_bits := 8
  b_set_bits := 1
  b_regions := .node .black .nil (allocRegion 0 3 ())
    (.node .red .nil { allocRegion 4 4 () with br_bitmap := [2#8], br_set_bits := 1 } .nil)
  b_private := ()

theorem twoRegions_layout : Layout 8 twoRegions.b_regions.toList := by
  have list : twoRegions.b_regions.toList =
      [allocRegion 0 3 (), { allocRegion 4 4 () with br_bitmap := [2#8], br_set_bits := 1 }] := rfl
  rw [list]
  refine ⟨?_, by simp [allocRegion], by simp [allocRegion]⟩
  simp only [List.forall_mem_cons]
  refine ⟨Region.wf_alloc 0 3 () (by decide), ⟨by decide, by decide, fun i above => ?_, by decide⟩, by simp⟩
  by_cases small : i < 8
  · have : 4 ≤ i := above
    interval_cases i <;> rfl
  · exact bit_of_ge _ _ (by simpa using small)

/-- The clear of bits 2 to 5 succeeds and leaves bit 5 set; that of bits 3 to 5 starts before the memory of
the region that it is resolved to. -/
theorem clearRange_over_two_regions :
    Layout 8 twoRegions.b_regions.toList ∧
    (∃ bitmap', twoRegions.clearRange (clearRangeGeneric ⟨none, none⟩) 4 2 = .ok bitmap' ∧
      bitmap'.test 5 testGeneric = .ok true) ∧
    twoRegions.clearRange (clearRangeGeneric ⟨none, none⟩) 3 3 = .error .undefined :=
  ⟨twoRegions_layout, ⟨_, rfl, rfl⟩, rfl⟩

end Ocfs2.Bitmap
