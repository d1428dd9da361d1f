import Ocfs2.Libocfs2.BitmapFlips

set_option autoImplicit false

namespace Ocfs2.Bitmap

open ByteBuffer Rbtree

variable {π σ : Type}

theorem lookup_cases (bitmap : Bitmap π σ) (b : Nat) {total : Nat} (layout : Layout total bitmap.b_regions.toList) :
    (¬ Covered bitmap.b_regions.toList b ∧ ∃ path, lookup bitmap b 1 = (.nil, path)) ∨
      Covered bitmap.b_regions.toList b ∧ ∃ as br bs c l r path, lookup bitmap b 1 = (.node c l br r, path) ∧
        br.Covers b ∧ bitmap.b_regions.toList = as ++ br :: bs ∧
        ∀ br', (plug (.node c l br' r) path).toList = as ++ br' :: bs := by
  rcases found : lookup bitmap b 1 with ⟨t, path⟩
  cases t with
  | nil =>
    obtain ⟨list, left, right⟩ := lookup_missed bitmap total b 1 path layout Nat.one_pos found
    refine .inl ⟨?_, path, rfl⟩
    rintro ⟨r, member, low, high⟩
    rw [list] at member
    rcases List.mem_append.mp member with before | behind
    · have := left r before
      omega
    · have := right r behind
      omega
  | node c l br r =>
    obtain ⟨list, low, high⟩ := lookup_found bitmap b 1 c l br r path found
    have covers : br.Covers b := ⟨by omega, high⟩
    exact .inr ⟨⟨br, by simp [list], covers⟩, _, br, _, c, l, r, path, rfl, covers, list,
      fun br' => by simp [toList_plug, Node.toList]⟩

section Rewrite

structure Rewritten (br : Region π) (lo hi : Nat) (value : Bool) (br' : Region π) : Prop where
  start : br'.br_start_bit = br.br_start_bit
  total : br'.br_total_bits = br.br_total_bits
  wf : br'.Wf
  bits : ∀ x, br.Covers x → bit br'.br_bitmap (x - br.br_start_bit) =
    if lo ≤ x ∧ x < hi then value else bit br.br_bitmap (x - br.br_start_bit)

variable {br br₁ br' : Region π} {lo hi : Nat} {value : Bool}

theorem Rewritten.refl (wf : br.Wf) (b : Nat) : Rewritten br b b value br :=
  ⟨rfl, rfl, wf, fun x _ => by rw [if_neg (by omega)]⟩

theorem Rewritten.cons {b : Nat} (changed : Changed br b value br₁) (rest : Rewritten br₁ (b + 1) hi value br')
    (less : b < hi) : Rewritten br b hi value br' := by
  refine ⟨rest.start.trans changed.start, rest.total.trans changed.total, rest.wf, fun x covers => ?_⟩
  have covers₁ : br₁.Covers x := by rwa [Region.Covers, changed.start, changed.total]
  have later := rest.bits x covers₁
  rw [changed.start] at later
  rw [later, changed.bits x covers]
  by_cases here : x = b
  · rw [if_neg (by omega), if_pos here, if_pos (by omega)]
  · simp only [here, if_false, show b + 1 ≤ x ↔ b ≤ x by omega]

theorem Rewritten.skip {b : Nat} (outside : ¬ br.Covers b) (rest : Rewritten br (b + 1) hi value br') :
    Rewritten br b hi value br' := by
  refine ⟨rest.start, rest.total, rest.wf, fun x covers => ?_⟩
  have other : x ≠ b := fun same => outside (same ▸ covers)
  rw [rest.bits x covers]
  simp only [show b + 1 ≤ x ↔ b ≤ x by omega]

theorem Rewritten.covers (rewritten : Rewritten br lo hi value br') (x : Nat) : br'.Covers x ↔ br.Covers x := by
  rw [Region.Covers, Region.Covers, rewritten.start, rewritten.total]

variable {total : Nat} {as bs : List (Region π)}

theorem Rewritten.layout (rewritten : Rewritten br lo hi value br') (layout : Layout total (as ++ br :: bs)) :
    Layout total (as ++ br' :: bs) :=
  layout.replace br' rewritten.wf rewritten.start rewritten.total

theorem Rewritten.member (rewritten : Rewritten br lo hi value br') (layout : Layout total (as ++ br :: bs))
    (x : Nat) : Member (as ++ br' :: bs) x ↔
      if br.Covers x ∧ lo ≤ x ∧ x < hi then value = true else Member (as ++ br :: bs) x := by
  by_cases inside : br.Covers x
  · rw [(rewritten.layout layout).member_iff x ((rewritten.covers x).mpr inside), layout.member_iff x inside,
      rewritten.start, rewritten.bits x inside]
    simp only [inside, true_and]
    split <;> rfl
  · have held : ¬ br.Holds x := fun holds => inside holds.1
    have held' : ¬ br'.Holds x := fun holds => inside ((rewritten.covers x).mp holds.1)
    simp only [member_middle, held, held', inside, false_and, if_false]

def span (br : Region π) : Nat × Nat := (br.br_start_bit, br.br_total_bits)

structure Kept (bound : Nat) (a b : Bitmap π σ) : Prop where
  total : b.b_total_bits = a.b_total_bits
  layout : Layout bound b.b_regions.toList
  spans : b.b_regions.toList.map span = a.b_regions.toList.map span

structure Framed (bound : Nat) (a b : Bitmap π σ) : Prop extends Kept bound a b where
  count : b.b_set_bits = a.b_set_bits

theorem covered_iff_span (xs : List (Region π)) (x : Nat) :
    Covered xs x ↔ ∃ s ∈ xs.map span, s.1 ≤ x ∧ x < s.1 + s.2 := by
  simp [Covered, Region.Covers, span]

theorem Kept.covered {a b : Bitmap π σ} (kept : Kept total a b) (x : Nat) :
    Covered b.b_regions.toList x ↔ Covered a.b_regions.toList x := by
  rw [covered_iff_span, covered_iff_span, kept.spans]

theorem Rewritten.framed {bitmap : Bitmap π σ}
    (rewritten : Rewritten br lo hi value br') (layout : Layout total (as ++ br :: bs))
    (list : bitmap.b_regions.toList = as ++ br :: bs) {regions : Node (Region π)}
    (list' : regions.toList = as ++ br' :: bs) (priv : σ) :
    Framed total bitmap { bitmap with b_regions := regions, b_private := priv } where
  total := rfl
  count := rfl
  layout := by
    simp only [list']
    exact rewritten.layout layout
  spans := by simp [list, list', span, rewritten.start, rewritten.total]

structure Moves (ops : Callbacks π σ) (a b : Bitmap π σ) : Prop where
  total : b.b_total_bits = a.b_total_bits
  evolves : Evolves ops (a.b_private, a.b_regions.toList) (b.b_private, b.b_regions.toList)

theorem Moves.refl (ops : Callbacks π σ) (a : Bitmap π σ) : Moves ops a a := ⟨rfl, .refl⟩

structure Written (ops : Callbacks π σ) (bound : Nat) (a : Bitmap π σ) (b : Nat) (value : Bool) (a' : Bitmap π σ) : Prop
    extends Framed bound a a' where
  evolves : Evolves ops (a.b_private, a.b_regions.toList) (a'.b_private, a'.b_regions.toList)
  member : ∀ x, Member a'.b_regions.toList x ↔
    if x = b then value = true else Member a.b_regions.toList x

theorem Written.moves {ops : Callbacks π σ} {a a' : Bitmap π σ} {b : Nat} (written : Written ops total a b value a') :
    Moves ops a a' := ⟨written.total, written.evolves⟩

theorem Written.of_changed {ops : Callbacks π σ} {bitmap : Bitmap π σ} {b : Nat}
    (layout : Layout total (as ++ br :: bs)) (list : bitmap.b_regions.toList = as ++ br :: bs)
    {regions : Node (Region π)} {priv : σ} (list' : regions.toList = as ++ br' :: bs) (covers : br.Covers b)
    (changed : Changed br b value br') (flips : Flips ops (bitmap.b_private, br) (priv, br')) :
    Written ops total bitmap b value { bitmap with b_regions := regions, b_private := priv } := by
  have rewritten := Rewritten.cons changed (.refl changed.wf _) (Nat.lt_succ_self b)
  refine ⟨rewritten.framed layout list list' priv, ?_, fun x => ?_⟩
  · simp only [list, list']
    exact flips.evolves as bs
  · simp only [list, list']
    rw [rewritten.member layout x]
    by_cases here : x = b
    · simp [here, covers]
    · rw [if_neg (by omega), if_neg here]

end Rewrite

section

variable {ops : Callbacks π σ} (polite : Callbacks.Polite ops) (bitmap : Bitmap π σ) (b : Nat) {total : Nat}
  (layout : Layout total bitmap.b_regions.toList)

def Writes (ops : Callbacks π σ) (bound : Nat) (a : Bitmap π σ) (b : Nat) (value : Bool)
    (result : Except Errcode (Bitmap π σ × Bool)) : Prop :=
  (¬ Covered a.b_regions.toList b ∧ result = .error .invalidBit) ∨
    Covered a.b_regions.toList b ∧ ∃ a' old, result = .ok (a', old) ∧
      (old = true ↔ Member a.b_regions.toList b) ∧ Written ops bound a b value a'

include layout

theorem testGeneric_cases :
    (¬ Covered bitmap.b_regions.toList b ∧ testGeneric bitmap b = .error .invalidBit) ∨
      Covered bitmap.b_regions.toList b ∧ ∃ value, testGeneric bitmap b = .ok value ∧
        (value = true ↔ Member bitmap.b_regions.toList b) := by
  rcases lookup_cases bitmap b layout with
    ⟨none, path, missed⟩ | ⟨covered, as, br, bs, c, l, r, path, found, covers, list, -⟩
  · exact .inl ⟨none, by rw [testGeneric, missed]⟩
  · have layout' := list ▸ layout
    refine .inr ⟨covered, _, by rw [testGeneric, found], ?_⟩
    rw [Bitops.testBit_eq, list, layout'.member_iff b covers]

include polite

theorem setGeneric_writes : Writes ops total bitmap b true (setGeneric ops bitmap b) := by
  rcases lookup_cases bitmap b layout with
    ⟨none, path, missed⟩ | ⟨covered, as, br, bs, c, l, r, path, found, covers, list, plugged⟩
  · exact .inl ⟨none, by rw [setGeneric, missed]⟩
  · have layout' := list ▸ layout
    obtain ⟨old, changed⟩ := setGenericShared_spec ops polite bitmap.b_private br b layout'.mid covers
    refine .inr ⟨covered, _, _, by rw [setGeneric, found], ?_, .of_changed layout' list (plugged _) covers changed
      (setGenericShared_flips ops bitmap.b_private br b covers)⟩
    rw [list, layout'.member_iff b covers, old]

theorem clearGeneric_writes : Writes ops total bitmap b false (clearGeneric ops bitmap b) := by
  rcases lookup_cases bitmap b layout with
    ⟨none, path, missed⟩ | ⟨covered, as, br, bs, c, l, r, path, found, covers, list, plugged⟩
  · exact .inl ⟨none, by rw [clearGeneric, missed]⟩
  · have layout' := list ▸ layout
    obtain ⟨old, changed⟩ := clearGenericShared_spec ops polite bitmap.b_private br b layout'.mid covers
    refine .inr ⟨covered, _, _, by rw [clearGeneric, found], ?_, .of_changed layout' list (plugged _) covers changed
      (clearGenericShared_flips ops bitmap.b_private br b layout'.mid covers.1 (layout'.mid.inside covers))⟩
    rw [list, layout'.member_iff b covers, old]

end

theorem nodesFrom_spec (bitmap : Bitmap π σ) (total start : Nat)
    (layout : Layout total bitmap.b_regions.toList) :
    ∃ skipped, bitmap.b_regions.toList = skipped ++ nodesFrom (lookup bitmap start 1) ∧
      (∀ r ∈ skipped, r.br_start_bit + r.br_total_bits ≤ start) ∧
      ∀ r ∈ nodesFrom (lookup bitmap start 1), start < r.br_start_bit + r.br_total_bits := by
  rcases found : lookup bitmap start 1 with ⟨t, path⟩
  cases t with
  | nil =>
    obtain ⟨list, left, right⟩ := lookup_missed bitmap total start 1 path layout Nat.one_pos found
    refine ⟨before path, list, left, fun r member => ?_⟩
    have := right r member
    omega
  | node c l br r =>
    obtain ⟨list, low, high⟩ := lookup_found bitmap start 1 c l br r path found
    have layout' := list ▸ layout
    refine ⟨before path ++ l.toList, by simpa [nodesFrom] using list, fun x member => ?_, ?_⟩
    · have := layout'.left x member
      omega
    · intro x member
      simp only [nodesFrom, List.cons_append, List.mem_cons] at member
      rcases member with rfl | behind
      · exact high
      · have := layout'.right x behind
        omega

def FindsNext (hit : Nat → Prop) (start : Nat) (found : Except Errcode Nat) : Prop :=
  (∃ b, found = .ok b ∧ start ≤ b ∧ hit b ∧ ∀ x, start ≤ x → x < b → ¬ hit x) ∨
    found = .error .bitNotFound ∧ ∀ x, start ≤ x → ¬ hit x

theorem FindsNext.congr {hit hit' : Nat → Prop} {start : Nat} {found : Except Errcode Nat}
    (same : ∀ x, start ≤ x → (hit' x ↔ hit x)) (finds : FindsNext hit start found) :
    FindsNext hit' start found := by
  rcases finds with ⟨b, run, low, held, before⟩ | ⟨run, none⟩
  · exact .inl ⟨b, run, low, (same b low).mpr held, fun x hx less => (same x hx).not.mpr (before x hx less)⟩
  · exact .inr ⟨run, fun x hx => (same x hx).not.mpr (none x hx)⟩

def Hit (kind : Bool → Bool) (xs : List (Region π)) (x : Nat) : Prop :=
  ∃ r ∈ xs, r.Covers x ∧ kind (bit r.br_bitmap (x - r.br_start_bit)) = true

section Next

variable (findBit : Buffer → Nat → Nat → Nat) (kind : Bool → Bool)
  (right : ∀ (r : Region π) (offset : Nat), r.Wf → offset ≤ r.br_total_bits →
    IsNext (fun i => kind (bit r.br_bitmap i)) offset r.br_total_bits
      (findBit r.br_bitmap r.br_total_bits offset)) (total start : Nat)

include right

theorem findNextIn_spec (xs : List (Region π)) (layout : Layout total xs)
    (later : ∀ r ∈ xs, start < r.br_start_bit + r.br_total_bits) :
    FindsNext (Hit kind xs) start (findNextIn findBit start xs) := by
  induction xs with
  | nil => exact .inr ⟨rfl, by simp [Hit]⟩
  | cons br xs ih =>
    obtain ⟨after, later⟩ := List.forall_mem_cons.mp later
    obtain ⟨order, -⟩ := List.pairwise_cons.mp layout.sorted
    have offset : (if start > br.br_start_bit then start - br.br_start_bit else 0) =
        start - br.br_start_bit := by
      split <;> omega
    have next := right br (start - br.br_start_bit) (layout.wf br List.mem_cons_self) (by omega)
    have upper := next.upper
    have lower := next.lower
    have cases (x : Nat) : Hit kind (br :: xs) x ↔
        (br.Covers x ∧ kind (bit br.br_bitmap (x - br.br_start_bit)) = true) ∨ Hit kind xs x := by
      simp [Hit]
    have clear : ∀ x, start ≤ x →
        x < br.br_start_bit + findBit br.br_bitmap br.br_total_bits (start - br.br_start_bit) →
        ¬ (br.Covers x ∧ kind (bit br.br_bitmap (x - br.br_start_bit)) = true) := by
      rintro x low high ⟨covers, held⟩
      have := covers.1
      simp [next.before _ (by omega : start - br.br_start_bit ≤ x - br.br_start_bit) (by omega)] at held
    simp only [findNextIn, offset]
    split
    next stopped =>
      refine .inl ⟨_, rfl, by omega, (cases _).mpr (.inl ⟨⟨by omega, by omega⟩, ?_⟩), fun x low high hit => ?_⟩
      · rw [Nat.add_sub_cancel_left]
        exact next.found (by omega)
      · rcases (cases x).mp hit with here | ⟨r, behind, covers, -⟩
        · exact clear x low high here
        · have := order r behind
          have := covers.1
          omega
    next ran =>
      refine (ih (layout.sublist (List.sublist_cons_self br xs)) later).congr fun x low => ?_
      rw [cases, or_iff_right]
      intro here
      have := here.1.2
      exact clear x low (by omega) here

theorem findNext_spec (bitmap : Bitmap π σ) (layout : Layout total bitmap.b_regions.toList) :
    FindsNext (Hit kind bitmap.b_regions.toList) start
      (findNextIn findBit start (nodesFrom (lookup bitmap start 1))) := by
  obtain ⟨skipped, list, early, later⟩ := nodesFrom_spec bitmap total start layout
  have tail : Layout total (nodesFrom (lookup bitmap start 1)) :=
    (list ▸ layout).sublist (List.sublist_append_right skipped _)
  refine (findNextIn_spec findBit kind right total start _ tail later).congr fun x low => ?_
  constructor
  · rintro ⟨r, member, covers, held⟩
    rw [list] at member
    rcases List.mem_append.mp member with before | behind
    · have := early r before
      have := covers.2
      omega
    · exact ⟨r, behind, covers, held⟩
  · rintro ⟨r, member, held⟩
    rw [list]
    exact ⟨r, List.mem_append_right _ member, held⟩

end Next

section FindNext

variable (bitmap : Bitmap π σ) (total start : Nat) (layout : Layout total bitmap.b_regions.toList)

include layout

theorem findNextSetGeneric_spec :
    FindsNext (Member bitmap.b_regions.toList) start (findNextSetGeneric bitmap start) :=
  findNext_spec Bitops.findNextBitSet (fun v => v) (fun r offset wf inside =>
    Bitops.findNextBitSet_isNext r.br_bitmap r.br_total_bits offset wf.room wf.clean inside) total start bitmap layout

theorem findNextClearGeneric_spec :
    FindsNext (fun x => Covered bitmap.b_regions.toList x ∧ ¬ Member bitmap.b_regions.toList x) start
      (findNextClearGeneric bitmap start) := by
  refine (findNext_spec Bitops.findNextBitClear (fun v => !v) (fun r offset wf inside =>
    Bitops.findNextBitClear_isNext r.br_bitmap r.br_total_bits offset wf.room wf.clean inside) total start
    bitmap layout).congr fun x _ => ?_
  constructor
  · rintro ⟨⟨r, member, covers⟩, clear⟩
    exact ⟨r, member, covers, by simpa using fun set => clear ⟨r, member, covers, set⟩⟩
  · rintro ⟨r, member, covers, clear⟩
    obtain ⟨as, bs, list⟩ := List.append_of_mem member
    have layout' := list ▸ layout
    refine ⟨⟨r, member, covers⟩, ?_⟩
    rw [list, layout'.member_iff x covers]
    simpa using clear

end FindNext

end Ocfs2.Bitmap
