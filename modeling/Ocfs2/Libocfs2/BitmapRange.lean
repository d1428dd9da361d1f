import Ocfs2.Libocfs2.BitmapOps

set_option autoImplicit false

namespace Ocfs2.Bitmap

open ByteBuffer Rbtree

variable {π σ : Type}

section Visits

variable {τ : Type} (func : τ → Region π → τ × Region π × Visit)

def visitAll (data : τ) : List (Region π) → τ × List (Region π) × Visit
  | [] => (data, [], .next)
  | br :: rest =>
    match func data br with
    | (data, br, .next) =>
      let (data, rest, visit) := visitAll data rest
      (data, br :: rest, visit)
    | (data, br, visit) => (data, br :: rest, visit)

theorem visitAll_append (data : τ) (xs ys : List (Region π)) :
    visitAll func data (xs ++ ys) =
      match visitAll func data xs with
      | (data, xs, .next) =>
        let (data, ys, visit) := visitAll func data ys
        (data, xs ++ ys, visit)
      | (data, xs, visit) => (data, xs ++ ys, visit) := by
  induction xs generalizing data with
  | nil => simp [visitAll]
  | cons br xs ih =>
    rw [List.cons_append, visitAll, visitAll]
    rcases func data br with ⟨data, br, _ | _ | e⟩
    · simp only [ih]
      rcases visitAll func data xs with ⟨data, xs, _ | _ | e⟩ <;> rfl
    · rfl
    · rfl

theorem foreachRegion_eq (data : τ) (t : Node (Region π)) :
    visitAll func data t.toList =
      ((foreachRegion func data t).1, (foreachRegion func data t).2.1.toList,
        (foreachRegion func data t).2.2) := by
  induction t generalizing data with
  | nil => rfl
  | node c l br r ihl ihr =>
    rw [Node.toList, visitAll_append, ihl, foreachRegion]
    rcases foreachRegion func data l with ⟨data, l, _ | _ | e⟩
    · simp only [visitAll]
      rcases func data br with ⟨data, br, _ | _ | e⟩
      · simp only [ihr]
        rfl
      · rfl
      · rfl
    · rfl
    · rfl

theorem visitAll_search (passes : ∀ data br, (func data br).2.2 = .next → (func data br).1 = data ∧
      (func data br).2.1 = br) (data : τ) (xs : List (Region π)) :
    (∀ br ∈ xs, (func data br).2.2 = .next) ∧ visitAll func data xs = (data, xs, .next) ∨
      ∃ as br bs, xs = as ++ br :: bs ∧ (func data br).2.2 ≠ .next ∧
        visitAll func data xs =
          ((func data br).1, as ++ (func data br).2.1 :: bs, (func data br).2.2) := by
  induction xs with
  | nil => exact .inl ⟨by simp, rfl⟩
  | cons br xs ih =>
    rcases run : func data br with ⟨data', br', visit⟩
    have pass := passes data br
    rw [run] at pass
    by_cases stop : visit = .next
    · subst stop
      obtain ⟨rfl, rfl⟩ := pass rfl
      rcases ih with ⟨next, all⟩ | ⟨as, found, bs, rfl, stops, all⟩
      · exact .inl ⟨List.forall_mem_cons.mpr ⟨by rw [run], next⟩, by simp only [visitAll, run, all]⟩
      · exact .inr ⟨br' :: as, found, bs, rfl, stops, by simp only [visitAll, run, all, List.cons_append]⟩
    · refine .inr ⟨[], br, xs, rfl, by rw [run]; exact stop, ?_⟩
      rw [visitAll, run]
      cases visit <;> first | contradiction | rfl

end Visits

section Search

variable {br : Region π} {minLen len : Nat}

def ClearRange (br : Region π) (start stop : Nat) : Prop :=
  start ≤ stop ∧ stop ≤ br.br_total_bits ∧ ∀ i, start ≤ i → i < stop → bit br.br_bitmap i = false

theorem bestRange_spec (best : Option (Nat × Nat))
    (clear : ∀ s l, best = some (s, l) → ClearRange br s (s + l)) (start stop : Nat)
    (found : bestRange minLen best = some (start, stop))
    (shorter : ∀ s l, best = some (s, l) → l ≤ len) :
    ClearRange br start stop ∧ minLen ≤ stop - start ∧ stop - start ≤ len := by
  rcases best with _ | ⟨s, l⟩
  · cases found
  · simp only [bestRange] at found
    split_ifs at found with short
    simp only [Option.some.injEq, Prod.mk.injEq] at found
    obtain ⟨rfl, rfl⟩ := found
    have := shorter s l rfl
    exact ⟨clear s l rfl, by omega, by omega⟩

theorem clearRange_next (wf : br.Wf) {start : Nat} (inside : start ≤ br.br_total_bits) :
    ClearRange br start (Bitops.findNextBitSet br.br_bitmap br.br_total_bits start) := by
  have next := Bitops.findNextBitSet_isNext br.br_bitmap br.br_total_bits start wf.room wf.clean inside
  exact ⟨next.lower, next.upper, next.before⟩

theorem searchRange_spec (wf : br.Wf) (order : minLen ≤ len) (fuel from_ : Nat)
    (best : Option (Nat × Nat)) (clear : ∀ s l, best = some (s, l) → ClearRange br s (s + l))
    (shorter : ∀ s l, best = some (s, l) → l ≤ len) (start stop : Nat)
    (found : searchRange br minLen len fuel from_ best = some (start, stop)) :
    ClearRange br start stop ∧ minLen ≤ stop - start ∧ stop - start ≤ len := by
  induction fuel generalizing from_ best with
  | zero => exact bestRange_spec best clear start stop found shorter
  | succ fuel ih =>
    simp only [searchRange] at found
    by_cases more : from_ + minLen ≤ br.br_total_bits
    · have next := Bitops.findNextBitClear_isNext br.br_bitmap br.br_total_bits from_ wf.room wf.clean
        (by omega)
      obtain ⟨low, high, range⟩ := clearRange_next wf next.upper
      split_ifs at found with ended long better
      · exact bestRange_spec best clear start stop found shorter
      · obtain ⟨rfl, rfl⟩ := found
        exact ⟨⟨by omega, by omega, fun i lo hi => range i lo (by omega)⟩, by omega, by omega⟩
      · -- this range is the best one so far
        refine ih _ _ ?_ ?_ found
        · rintro s l ⟨⟩
          rw [Nat.add_sub_cancel' low]
          exact ⟨low, high, range⟩
        · rintro s l ⟨⟩
          omega
      · exact ih _ _ clear shorter found
    · rw [if_neg more] at found
      exact bestRange_spec best clear start stop found shorter

end Search

section Loops

variable {ops : Callbacks π σ}

theorem Flips.wf (polite : Callbacks.Polite ops) {x y : σ × Region π} (flips : Flips ops x y)
    (wf : x.2.Wf) :
    y.2.Wf ∧ y.2.br_start_bit = x.2.br_start_bit ∧ y.2.br_total_bits = x.2.br_total_bits := by
  induction flips with
  | refl => exact ⟨wf, rfl, rfl⟩
  | tail _ flip ih =>
    obtain ⟨wf', start, total⟩ := flip.wf polite ih.1
    exact ⟨wf', start.trans ih.2.1, total.trans ih.2.2⟩

section

variable (polite : Callbacks.Polite ops) (n b : Nat) (priv : σ) (br : Region π) (wf : br.Wf)

include polite wf

theorem setBits_spec (low : br.br_start_bit ≤ b) (high : b + n ≤ br.br_start_bit + br.br_total_bits) :
    Rewritten br b (b + n) true (setBits ops n b priv br).2 ∧ Flips ops (priv, br) (setBits ops n b priv br) := by
  induction n generalizing b priv br with
  | zero => exact ⟨.refl wf b, .refl⟩
  | succ n ih =>
    have covers : br.Covers b := ⟨low, by omega⟩
    have changed := (setGenericShared_spec ops polite priv br b wf covers).2
    have start := changed.start
    have bits := changed.total
    obtain ⟨rest, flips⟩ := ih (b + 1) (setGenericShared ops priv br b).2.1 (setGenericShared ops priv br b).2.2
      changed.wf (by omega) (by omega)
    rw [Nat.add_right_comm] at rest
    exact ⟨.cons changed rest (by omega), (setGenericShared_flips ops priv br b covers).trans flips⟩

omit polite wf in
def InMemory (br : Region π) (b n : Nat) : Prop :=
  n = 0 ∨ br.br_start_bit ≤ b ∧ b + n ≤ br.br_start_bit + 8 * br.br_bitmap.length

theorem clearBits_spec (inside : InMemory br b n) :
    ∃ priv' br', clearBits ops n b priv br = .ok (priv', br') ∧ Rewritten br b (b + n) false br' ∧
      Flips ops (priv, br) (priv', br') := by
  induction n generalizing b priv br with
  | zero => exact ⟨priv, br, rfl, .refl wf b, .refl⟩
  | succ n ih =>
    have bounds : br.br_start_bit ≤ b ∧ b + (n + 1) ≤ br.br_start_bit + 8 * br.br_bitmap.length := by
      simpa [InMemory] using inside
    have here : b - br.br_start_bit < 8 * br.br_bitmap.length := by omega
    rw [clearBits, if_pos ⟨bounds.1, here⟩, ← Nat.add_assoc, Nat.add_right_comm]
    by_cases covers : br.Covers b
    · have changed := (clearGenericShared_spec ops polite priv br b wf covers).2
      have start := changed.start
      have bytes : (clearGenericShared ops priv br b).2.2.br_bitmap.length = br.br_bitmap.length := by
        rw [changed.wf.bytes, wf.bytes, changed.total]
      obtain ⟨priv', br', run, rest, flips⟩ := ih (b + 1) (clearGenericShared ops priv br b).2.1
        (clearGenericShared ops priv br b).2.2 changed.wf (.inr ⟨by omega, by omega⟩)
      exact ⟨priv', br', run, .cons changed rest (by omega),
        (clearGenericShared_flips ops priv br b wf bounds.1 here).trans flips⟩
    · have clear : bit br.br_bitmap (b - br.br_start_bit) = false :=
        wf.padding _ (by simp only [Region.Covers] at covers; omega)
      rcases clearGenericShared_cases ops priv br b here with ⟨-, same⟩ | ⟨set, -⟩
      · obtain ⟨priv', br', run, rest, flips⟩ := ih (b + 1) priv br wf (.inr ⟨by omega, by omega⟩)
        rw [same]
        exact ⟨priv', br', run, .skip covers rest, flips⟩
      · rw [clear] at set
        cases set

theorem clearBits_outside (outside : ¬ InMemory br b n) : clearBits ops n b priv br = .error .undefined := by
  induction n generalizing b priv br with
  | zero => exact absurd (.inl rfl) outside
  | succ n ih =>
    have leaves : ¬ (br.br_start_bit ≤ b ∧ b + (n + 1) ≤ br.br_start_bit + 8 * br.br_bitmap.length) := by
      simpa [InMemory] using outside
    rw [clearBits]
    split_ifs with first
    · obtain ⟨wf', start, total⟩ := (clearGenericShared_flips ops priv br b wf first.1 first.2).wf polite wf
      have bytes := wf'.bytes
      rw [total, ← wf.bytes] at bytes
      generalize clearGenericShared ops priv br b = out at wf' start bytes ⊢
      obtain ⟨old, priv', br'⟩ := out
      dsimp only at start bytes
      refine ih (b + 1) priv' br' wf' ?_
      rintro (rfl | ⟨low, high⟩) <;> omega
    · rfl

end

end Loops

section Operations

variable {ops : Callbacks π σ} {bitmap : Bitmap π σ} {total : Nat}
  (layout : Layout total bitmap.b_regions.toList)

include layout

omit layout in
theorem allocRangeGeneric_cases (ops : Callbacks π σ) (bitmap : Bitmap π σ) (minLen len : Nat) :
    (∃ as br bs start stop regions priv br', bitmap.b_regions.toList = as ++ br :: bs ∧
      searchRange br minLen len (br.br_total_bits + 1) 0 none = some (start, stop) ∧
      setBits ops (stop - start) (br.br_start_bit + start) bitmap.b_private br = (priv, br') ∧
      regions.toList = as ++ br' :: bs ∧ allocRangeGeneric ops bitmap minLen len =
        .ok ({ bitmap with b_regions := regions, b_private := priv }, br'.br_start_bit + start, stop - start)) ∨
    (∀ br ∈ bitmap.b_regions.toList, ((br.br_total_bits - br.br_set_bits) % 2 ^ 64 : Int) < minLen ∨
      searchRange br minLen len (br.br_total_bits + 1) 0 none = none) ∧
      allocRangeGeneric ops bitmap minLen len = .error .bitNotFound := by
  have passes : ∀ data br, (allocRangeFunc ops minLen len data br).2.2 = .next →
      ((allocRangeFunc ops minLen len data br).1 = data ∧ (allocRangeFunc ops minLen len data br).2.1 = br) ∧
        (((br.br_total_bits - br.br_set_bits) % 2 ^ 64 : Int) < minLen ∨
          searchRange br minLen len (br.br_total_bits + 1) 0 none = none) := by
    intro data br next
    unfold allocRangeFunc at next ⊢
    split_ifs at next ⊢ with few
    · exact ⟨⟨rfl, rfl⟩, .inl few⟩
    · split at next <;> simp_all
  have visits := foreachRegion_eq (allocRangeFunc ops minLen len) (bitmap.b_private, none) bitmap.b_regions
  rw [allocRangeGeneric]
  rcases all : foreachRegion (allocRangeFunc ops minLen len) (bitmap.b_private, none) bitmap.b_regions with
    ⟨⟨priv, result⟩, regions, visit⟩
  rw [all] at visits
  rcases visitAll_search (allocRangeFunc ops minLen len) (fun data br next => (passes data br next).1)
    (bitmap.b_private, none) bitmap.b_regions.toList with ⟨next, none⟩ | ⟨as, br, bs, list, stops, search⟩
  · rw [none] at visits
    simp only [Prod.mk.injEq] at visits
    obtain ⟨⟨-, rfl⟩, -, rfl⟩ := visits
    exact .inr ⟨fun br mem => (passes _ br (next br mem)).2, rfl⟩
  · rw [visits] at search
    unfold allocRangeFunc at search stops
    split_ifs at search stops with few
    · exact absurd rfl stops
    · split at search
      next none => simp [none] at stops
      next start stop range =>
        rcases bits : setBits ops (stop - start) (br.br_start_bit + start) bitmap.b_private br with ⟨priv', br'⟩
        simp only [bits, Prod.mk.injEq] at search
        obtain ⟨⟨rfl, rfl⟩, list', rfl⟩ := search
        exact .inl ⟨as, br, bs, start, stop, regions, priv, br', list, range, bits, list', rfl⟩

omit layout in
structure Allocated (a : Bitmap π σ) (min len : Nat) (b : Bitmap π σ) (first found : Nat) : Prop where
  atLeast : min ≤ found
  atMost : found ≤ len
  region : ∃ br ∈ a.b_regions.toList, ∀ x, first ≤ x → x < first + found → br.Covers x
  clear : ∀ x, first ≤ x → x < first + found → ¬ Member a.b_regions.toList x
  member : ∀ x, Member b.b_regions.toList x ↔ Member a.b_regions.toList x ∨ first ≤ x ∧ x < first + found

theorem allocRangeGeneric_ok (polite : Callbacks.Polite ops) {min len : Nat} (order : min ≤ len)
    {bitmap' : Bitmap π σ} {first found : Nat} (run : allocRangeGeneric ops bitmap min len = .ok (bitmap', first, found)) :
    Allocated bitmap min len bitmap' first found ∧ Framed total bitmap bitmap' ∧ Moves ops bitmap bitmap' := by
  rcases allocRangeGeneric_cases ops bitmap min len with
    ⟨as, br, bs, start, stop, regions, priv, br', list, range, bits, list', ok⟩ | ⟨-, error⟩
  · have layout' := list ▸ layout
    obtain ⟨⟨low, high, clear⟩, atLeast, atMost⟩ := searchRange_spec layout'.mid order _ 0 .none
      (by simp) (by simp) start stop range
    obtain ⟨rewritten, flips⟩ := setBits_spec polite (stop - start) (br.br_start_bit + start) bitmap.b_private br
      layout'.mid (by omega) (by omega)
    rw [bits] at rewritten flips
    have covers : ∀ x, br.br_start_bit + start ≤ x → x < br.br_start_bit + start + (stop - start) → br.Covers x :=
      fun x _ _ => ⟨by omega, by omega⟩
    rw [rewritten.start, run] at ok
    cases ok
    refine ⟨⟨atLeast, atMost, ⟨br, by simp [list], covers⟩, fun x lower upper => ?_, fun x => ?_⟩,
      rewritten.framed layout' list list' priv, rfl, ?_⟩
    · rw [list, layout'.member_iff x (covers x lower upper), clear _ (by omega) (by omega)]
      exact Bool.false_ne_true
    · simp only [list, list']
      rw [rewritten.member layout' x]
      by_cases within : br.br_start_bit + start ≤ x ∧ x < br.br_start_bit + start + (stop - start)
      · simp [within, covers x within.1 within.2]
      · simp [within]
    · simp only [list, list']
      exact flips.evolves as bs
  · rw [error] at run
    cases run

omit layout in
def RangeInMemory (bitmap : Bitmap π σ) (len firstBit : Nat) : Prop :=
  ∀ c l br r path,
    descend (order firstBit ((firstBit + len) % 2 ^ 64)) bitmap.b_regions [] = (.node c l br r, path) →
      InMemory br firstBit ((firstBit + len) % 2 ^ 64 - firstBit)

theorem clearRangeGeneric_cases (polite : Callbacks.Polite ops) (len first : Nat) {stop : Nat}
    (sum : (first + len) % 2 ^ 64 = stop) :
    (∃ path, descend (order first stop) bitmap.b_regions [] = (.nil, path)) ∧
        clearRangeGeneric ops bitmap len first = .error .invalidBit ∨
    ∃ c l br r path, descend (order first stop) bitmap.b_regions [] = (.node c l br r, path) ∧
      br ∈ bitmap.b_regions.toList ∧
      (¬ InMemory br first (stop - first) ∧ clearRangeGeneric ops bitmap len first = .error .undefined ∨
        InMemory br first (stop - first) ∧ ∃ bitmap', clearRangeGeneric ops bitmap len first = .ok bitmap' ∧
          Framed total bitmap bitmap' ∧ Moves ops bitmap bitmap' ∧ ∀ x, Member bitmap'.b_regions.toList x ↔
            Member bitmap.b_regions.toList x ∧ ¬ (br.Covers x ∧ first ≤ x ∧ x < stop)) := by
  simp only [clearRangeGeneric, sum]
  rcases found : descend (order first stop) bitmap.b_regions [] with ⟨t, path⟩
  cases t with
  | nil => exact .inl ⟨⟨path, rfl⟩, rfl⟩
  | node c l br r =>
    obtain ⟨list, -, -⟩ := descend_meets bitmap.b_regions _ _ c l br r path found
    have layout' := list ▸ layout
    refine .inr ⟨c, l, br, r, path, rfl, by simp [list], ?_⟩
    by_cases inside : InMemory br first (stop - first)
    · obtain ⟨priv, br', run, rewritten, flips⟩ := clearBits_spec polite (stop - first) first bitmap.b_private br
        layout'.mid inside
      have list' : (plug (.node c l br' r) path).toList =
          (before path ++ l.toList) ++ br' :: (r.toList ++ after path) := by
        simp [toList_plug, Node.toList]
      refine .inr ⟨inside, { bitmap with b_regions := plug (.node c l br' r) path, b_private := priv },
        by simp only [run], rewritten.framed layout' list list' priv, ⟨rfl, ?_⟩, fun x => ?_⟩
      · simp only [list, list']
        exact flips.evolves _ _
      · simp only [list, list']
        rw [rewritten.member layout' x, show first ≤ x ∧ x < stop ↔ first ≤ x ∧ x < first + (stop - first) by omega]
        split <;> simp_all
    · exact .inl ⟨inside, by simp only [clearBits_outside polite _ first bitmap.b_private br layout'.mid inside]⟩

end Operations

end Ocfs2.Bitmap
