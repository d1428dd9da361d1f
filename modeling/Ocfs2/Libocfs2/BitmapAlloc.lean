import Ocfs2.Libocfs2.BitmapRange

set_option autoImplicit false

namespace Ocfs2.Bitmap

open ByteBuffer Rbtree

variable {π σ : Type}

section Completeness

variable {br : Region π} {minLen len : Nat}

def Examined (br : Region π) (from_ : Nat) (best : Option (Nat × Nat)) : Prop :=
  ∀ s e, s < e → ClearRange br s e → s < from_ → e - s ≤ (best.map Prod.snd).getD 0

theorem ClearRange.le_next (wf : br.Wf) {from_ start s e : Nat} (clear : ClearRange br s e) (some : s < e)
    (next : IsNext (fun i => !bit br.br_bitmap i) from_ br.br_total_bits start) (after : from_ ≤ s)
    (before : s < Bitops.findNextBitSet br.br_bitmap br.br_total_bits start + 1) :
    start ≤ s ∧ e ≤ Bitops.findNextBitSet br.br_bitmap br.br_total_bits start := by
  obtain ⟨-, inside, bits⟩ := clear
  have stop := Bitops.findNextBitSet_isNext br.br_bitmap br.br_total_bits start wf.room wf.clean next.upper
  have first : start ≤ s := by
    by_contra early
    have set := next.before s after (by omega)
    simp [bits s le_rfl some] at set
  refine ⟨first, ?_⟩
  by_contra beyond
  have set := stop.found (by omega)
  rw [bits _ (by omega) (by omega)] at set
  cases set

theorem bestRange_none {best : Option (Nat × Nat)} (none : bestRange minLen best = none) (pos : 0 < minLen) :
    (best.map Prod.snd).getD 0 < minLen := by
  rcases best with _ | ⟨s, l⟩
  · exact pos
  · simp only [bestRange] at none
    split_ifs at none with short
    exact short

theorem searchRange_none (wf : br.Wf) (pos : 0 < minLen) (fuel from_ : Nat) (best : Option (Nat × Nat))
    (enough : br.br_total_bits < from_ + fuel) (examined : Examined br from_ best)
    (none : searchRange br minLen len fuel from_ best = none) {s e : Nat} (clear : ClearRange br s e) :
    e - s < minLen := by
  -- a long range that the search has not reached cannot be where it stops
  have done {from_ : Nat} {best : Option (Nat × Nat)} (examined : Examined br from_ best)
      (none : bestRange minLen best = .none) (rest : minLen ≤ e - s → s < from_) : e - s < minLen := by
    by_contra long
    have short := bestRange_none none pos
    have := examined s e (by omega) clear (rest (by omega))
    omega
  have bound := clear.2.1
  induction fuel generalizing from_ best with
  | zero => exact done examined none fun long => by omega
  | succ fuel ih =>
    simp only [searchRange] at none
    by_cases more : from_ + minLen ≤ br.br_total_bits
    · have next := Bitops.findNextBitClear_isNext br.br_bitmap br.br_total_bits from_ wf.room wf.clean (by omega)
      have forward := next.lower
      have low := (clearRange_next wf next.upper).1
      rw [if_pos more] at none
      by_cases ended : Bitops.findNextBitClear br.br_bitmap br.br_total_bits from_ = br.br_total_bits
      · rw [if_pos ended] at none
        refine done examined none fun long => ?_
        by_contra late
        have set := next.before s (by omega) (by omega)
        simp [clear.2.2 s le_rfl (by omega)] at set
      · split_ifs at none with long better
        · refine ih _ _ (by omega) (fun s e some clear early => ?_) none
          by_cases old : s < from_
          · have := examined s e some clear old
            simp only [Option.map_some, Option.getD_some]
            omega
          · have := clear.le_next wf some next (by omega) early
            simp only [Option.map_some, Option.getD_some]
            omega
        · refine ih _ _ (by omega) (fun s e some clear early => ?_) none
          by_cases old : s < from_
          · exact examined s e some clear old
          · have := clear.le_next wf some next (by omega) early
            omega
    · rw [if_neg more] at none
      exact done examined none fun long => by omega

theorem ClearRange.le_count (wf : br.Wf) {s e : Nat} (clear : ClearRange br s e) :
    br.br_set_bits + (e - s : Nat) ≤ br.br_total_bits := by
  obtain ⟨order, inside, bits⟩ := clear
  have cut : br.br_total_bits = s + (e - s) + (br.br_total_bits - e) := by omega
  have none : countTrue (fun i => bit br.br_bitmap (s + i)) (e - s) = 0 := by
    rw [Nat.count_iff_forall_not]
    intro i less
    simp [bits (s + i) (by omega) (by omega)]
  have left : countTrue (bit br.br_bitmap) s ≤ s := Nat.count_le _
  have right : countTrue (fun i => bit br.br_bitmap (s + (e - s) + i)) (br.br_total_bits - e) ≤
      br.br_total_bits - e := Nat.count_le _
  have all : countTrue (bit br.br_bitmap) br.br_total_bits =
      countTrue (bit br.br_bitmap) s + countTrue (fun i => bit br.br_bitmap (s + i)) (e - s) +
        countTrue (fun i => bit br.br_bitmap (s + (e - s) + i)) (br.br_total_bits - e) := by
    conv_lhs => rw [cut, countTrue_add, countTrue_add]
  rw [wf.count]
  omega

end Completeness

section Alloc

variable {ops : Callbacks π σ} {bitmap : Bitmap π σ} {total : Nat}

variable (layout : Layout total bitmap.b_regions.toList)

include layout

theorem allocRangeGeneric_error (fits : ∀ br ∈ bitmap.b_regions.toList, br.br_total_bits ≤ intMax) {min len : Nat}
    (pos : 0 < min) {e : Errcode} (run : allocRangeGeneric ops bitmap min len = .error e) :
    e = .bitNotFound ∧ ∀ br ∈ bitmap.b_regions.toList, ∀ s e, ClearRange br s e → e - s < min := by
  rcases allocRangeGeneric_cases ops bitmap min len with
    ⟨_, _, _, _, _, _, _, _, _, _, _, _, ok⟩ | ⟨none, error⟩
  · rw [ok] at run
    cases run
  · rw [error] at run
    cases run
    refine ⟨rfl, fun br mem s e clear => ?_⟩
    have wf := layout.wf br mem
    rcases none br mem with few | none
    · -- a right count says how many bits are clear
      have room := clear.le_count wf
      have small := fits br mem
      have counted : br.br_set_bits = countTrue (bit br.br_bitmap) br.br_total_bits := wf.count
      rw [intMax] at small
      omega
    · exact searchRange_none wf pos _ 0 .none (by omega) (fun s e _ _ none => absurd none (by omega)) none clear

theorem allocRange_eq (polite : Callbacks.Polite ops) {min len : Nat} (pos : 1 ≤ min) (order : min ≤ len) :
    bitmap.allocRange (allocRangeGeneric ops) min len =
      if bitmap.b_total_bits ≤ len then .error .invalidArgument else allocRangeGeneric ops bitmap min len := by
  rw [allocRange]
  by_cases whole : bitmap.b_total_bits ≤ len
  · rw [if_pos whole, if_pos (by omega)]
  · rw [if_neg whole, if_neg (by omega)]
    rcases run : allocRangeGeneric ops bitmap min len with e | ⟨bitmap', first, found⟩
    · rfl
    · have enough := (allocRangeGeneric_ok layout polite order run).1.atLeast
      simp only [if_neg (Nat.not_lt.mpr enough)]

theorem allocRange_ok (polite : Callbacks.Polite ops) {min len : Nat} {bitmap' : Bitmap π σ} {first found : Nat}
    (run : bitmap.allocRange (allocRangeGeneric ops) min len = .ok (bitmap', first, found)) :
    1 ≤ min ∧ Allocated bitmap min len bitmap' first found ∧ Framed total bitmap bitmap' ∧ Moves ops bitmap bitmap' := by
  by_cases right : 1 ≤ min ∧ min ≤ len
  · rw [allocRange_eq layout polite right.1 right.2] at run
    split_ifs at run
    exact ⟨right.1, allocRangeGeneric_ok layout polite right.2 run⟩
  · rw [allocRange, if_pos (by omega)] at run
    cases run

theorem allocRange_correct (polite : Callbacks.Polite ops)
    (fits : ∀ br ∈ bitmap.b_regions.toList, br.br_total_bits ≤ intMax) (min len : Nat) (pos : 1 ≤ min)
    (order : min ≤ len) :
    bitmap.b_total_bits ≤ len ∧ bitmap.allocRange (allocRangeGeneric ops) min len = .error .invalidArgument ∨
    len < bitmap.b_total_bits ∧
      ((∃ bitmap' first found, bitmap.allocRange (allocRangeGeneric ops) min len = .ok (bitmap', first, found) ∧
        Allocated bitmap min len bitmap' first found ∧ Framed total bitmap bitmap') ∨
      bitmap.allocRange (allocRangeGeneric ops) min len = .error .bitNotFound ∧
        ∀ br ∈ bitmap.b_regions.toList, ∀ s e, ClearRange br s e → e - s < min) := by
  rw [allocRange_eq layout polite pos order]
  by_cases whole : bitmap.b_total_bits ≤ len
  · exact .inl ⟨whole, if_pos whole⟩
  · rw [if_neg whole]
    refine .inr ⟨by omega, ?_⟩
    rcases run : allocRangeGeneric ops bitmap min len with e | ⟨bitmap', first, found⟩
    · obtain ⟨rfl, none⟩ := allocRangeGeneric_error layout fits pos run
      exact .inr ⟨rfl, none⟩
    · obtain ⟨allocated, framed, -⟩ := allocRangeGeneric_ok layout polite order run
      exact .inl ⟨bitmap', first, found, rfl, allocated, framed⟩

end Alloc

def sixteenBits : Bitmap Unit Unit := ⟨16, 0, .node .black .nil (allocRegion 0 16 ()) .nil, ()⟩

theorem sixteenBits_layout : Layout 16 sixteenBits.b_regions.toList := by
  have list : sixteenBits.b_regions.toList = [allocRegion 0 16 ()] := rfl
  rw [list]
  exact ⟨by simpa using Region.wf_alloc 0 16 () (by decide), by simp, by simp [allocRegion]⟩

theorem polite_silent : Callbacks.Polite (⟨none, none⟩ : Callbacks Unit Unit) := by simp [Callbacks.Polite]

theorem sixteenBits_clear : ClearRange (allocRegion 0 16 ()) 0 16 :=
  ⟨by decide, by decide, fun i _ _ => Region.bit_alloc 0 16 () i⟩

theorem allocRange_correct_sixteenBits :
    ∃ bitmap' first found, sixteenBits.allocRange (allocRangeGeneric ⟨none, none⟩) 2 5 = .ok (bitmap', first, found) ∧
      Allocated sixteenBits 2 5 bitmap' first found := by
  rcases allocRange_correct sixteenBits_layout polite_silent (by decide) 2 5 (by decide) (by decide) with
    ⟨whole, -⟩ | ⟨-, ⟨bitmap', first, found, run, allocated, -⟩ | ⟨-, none⟩⟩
  · exact absurd whole (by decide)
  · exact ⟨bitmap', first, found, run, allocated⟩
  · exact absurd (none _ (List.mem_singleton_self _) 0 16 sixteenBits_clear) (by decide)

theorem allocRange_whole_refused :
    Layout 16 sixteenBits.b_regions.toList ∧
      (∃ br ∈ sixteenBits.b_regions.toList, ClearRange br 0 16) ∧
      ∃ e, sixteenBits.allocRange (allocRangeGeneric ⟨none, none⟩) 1 16 = .error e :=
  ⟨sixteenBits_layout, ⟨_, List.mem_singleton_self _, sixteenBits_clear⟩, .invalidArgument, rfl⟩

end Ocfs2.Bitmap
