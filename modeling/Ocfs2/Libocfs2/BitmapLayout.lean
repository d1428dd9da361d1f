import Ocfs2.Libocfs2.BitmapRegions

set_option autoImplicit false

namespace Ocfs2.Bitmap

open ByteBuffer Rbtree

variable {π σ : Type}

structure Layout (total : Nat) (xs : List (Region π)) : Prop where
  wf : ∀ r ∈ xs, r.Wf
  sorted : xs.Pairwise fun a b => a.br_start_bit + a.br_total_bits ≤ b.br_start_bit
  bound : ∀ r ∈ xs, r.br_start_bit + r.br_total_bits ≤ total

def Covered (xs : List (Region π)) (b : Nat) : Prop := ∃ r ∈ xs, r.Covers b

def Member (xs : List (Region π)) (b : Nat) : Prop := ∃ r ∈ xs, r.Holds b

theorem Member.covered {xs : List (Region π)} {b : Nat} (member : Member xs b) : Covered xs b := by
  obtain ⟨r, inside, holds⟩ := member
  exact ⟨r, inside, holds.1⟩

theorem covered_middle (as bs : List (Region π)) (p : Region π) (b : Nat) :
    Covered (as ++ p :: bs) b ↔ Covered (as ++ bs) b ∨ p.Covers b := by
  simp only [Covered, List.mem_append, List.mem_cons, or_and_right, exists_or, exists_eq_left]
  rw [or_assoc, or_comm (a := p.Covers b)]

theorem member_middle (as bs : List (Region π)) (p : Region π) (b : Nat) :
    Member (as ++ p :: bs) b ↔ Member (as ++ bs) b ∨ p.Holds b := by
  simp only [Member, List.mem_append, List.mem_cons, or_and_right, exists_or, exists_eq_left]
  rw [or_assoc, or_comm (a := p.Holds b)]

section Split

variable {total : Nat} {as bs : List (Region π)} {p : Region π}

section

variable (layout : Layout total (as ++ p :: bs))

include layout

theorem Layout.left : ∀ r ∈ as, r.br_start_bit + r.br_total_bits ≤ p.br_start_bit := fun r member =>
  (List.pairwise_append.mp layout.sorted).2.2 r member p List.mem_cons_self

theorem Layout.right : ∀ r ∈ bs, p.br_start_bit + p.br_total_bits ≤ r.br_start_bit :=
  (List.pairwise_cons.mp (List.pairwise_append.mp layout.sorted).2.1).1

theorem Layout.mid : p.Wf := layout.wf p (by simp)

theorem Layout.start_left : ∀ r ∈ as, r.br_start_bit ≠ p.br_start_bit := by
  intro r member
  have := layout.left r member
  have := (layout.wf r (by simp [member])).nonempty
  omega

theorem Layout.start_right : ∀ r ∈ bs, r.br_start_bit ≠ p.br_start_bit := by
  intro r member
  have := layout.right r member
  have := layout.mid.nonempty
  omega

theorem Layout.member_iff (b : Nat) (covers : p.Covers b) :
    Member (as ++ p :: bs) b ↔ bit p.br_bitmap (b - p.br_start_bit) = true := by
  constructor
  · rintro ⟨r, member, holds⟩
    rcases List.mem_append.mp member with before | member
    · have := layout.left r before
      have := holds.1.2
      have := covers.1
      omega
    · rcases List.mem_cons.mp member with rfl | behind
      · exact holds.2
      · have := layout.right r behind
        have := holds.1.1
        have := covers.2
        omega
  · intro set
    exact ⟨p, by simp, covers, set⟩

end

theorem Layout.sublist {xs ys : List (Region π)} (layout : Layout total xs) (sub : ys.Sublist xs) :
    Layout total ys :=
  ⟨fun r member => layout.wf r (sub.subset member), layout.sorted.sublist sub,
    fun r member => layout.bound r (sub.subset member)⟩

theorem Layout.insert (layout : Layout total (as ++ bs)) (q : Region π) (wf : q.Wf)
    (left : ∀ r ∈ as, r.br_start_bit + r.br_total_bits ≤ q.br_start_bit)
    (right : ∀ r ∈ bs, q.br_start_bit + q.br_total_bits ≤ r.br_start_bit)
    (bound : q.br_start_bit + q.br_total_bits ≤ total) : Layout total (as ++ q :: bs) := by
  have sorted := List.pairwise_append.mp layout.sorted
  have wfs := List.forall_mem_append.mp layout.wf
  have bounds := List.forall_mem_append.mp layout.bound
  refine ⟨?_, ?_, ?_⟩
  · rw [List.forall_mem_append, List.forall_mem_cons]
    exact ⟨wfs.1, wf, wfs.2⟩
  · rw [List.pairwise_append, List.pairwise_cons]
    exact ⟨sorted.1, ⟨right, sorted.2.1⟩,
      fun a before => List.forall_mem_cons.mpr ⟨left a before, sorted.2.2 a before⟩⟩
  · rw [List.forall_mem_append, List.forall_mem_cons]
    exact ⟨bounds.1, bound, bounds.2⟩

theorem Layout.remove (layout : Layout total (as ++ p :: bs)) : Layout total (as ++ bs) :=
  layout.sublist (.append_left (List.sublist_cons_self p bs) as)

theorem Layout.replace (layout : Layout total (as ++ p :: bs)) (q : Region π) (wf : q.Wf)
    (start : q.br_start_bit = p.br_start_bit) (bits : q.br_total_bits = p.br_total_bits) :
    Layout total (as ++ q :: bs) := by
  have bound := layout.bound p (by simp)
  refine layout.remove.insert q wf ?_ ?_ (by omega)
  · intro r member
    have := layout.left r member
    omega
  · intro r member
    have := layout.right r member
    omega

theorem Layout.merge {n : Region π} (layout : Layout total (as ++ p :: n :: bs))
    (adjacent : p.br_start_bit + p.br_total_bits = n.br_start_bit) :
    Layout total (as ++ merged p n :: bs) := by
  have wfp := layout.mid
  have split : as ++ p :: n :: bs = (as ++ [p]) ++ n :: bs := by simp
  have wfn : n.Wf := layout.wf n (by simp)
  have bound := layout.bound n (by simp)
  have right : ∀ r ∈ bs, n.br_start_bit + n.br_total_bits ≤ r.br_start_bit :=
    (split ▸ layout).right
  have rest : Layout total (as ++ p :: bs) := layout.sublist (by simp)
  refine rest.remove.insert (merged p n) (merged_wf p n wfp wfn) layout.left ?_ ?_
  · intro r member
    have := right r member
    simp only [merged]
    omega
  · simp only [merged]
    omega

end Split

theorem cut_order (total : Nat) (xs : List (Region π)) (layout : Layout total xs) (b e : Nat)
    (some : b < e) : Cut (order b e) xs := by
  refine layout.sorted.imp ?_
  intro x y before
  simp only [order]
  constructor
  · intro greater
    split_ifs at greater ⊢ <;> first | rfl | omega
  · intro less
    split_ifs at less ⊢ <;> first | rfl | omega

theorem descend_meets (regions : Node (Region π)) (b e : Nat) (c : Color) (l : Node (Region π))
    (br : Region π) (r : Node (Region π)) (path : List (Frame (Region π)))
    (found : descend (order b e) regions [] = (.node c l br r, path)) :
    regions.toList = (before path ++ l.toList) ++ br :: (r.toList ++ after path) ∧
      br.br_start_bit < e ∧ b < br.br_start_bit + br.br_total_bits := by
  have list := descend_order (order b e) regions []
  obtain ⟨-, equal⟩ := descend_found found
  rw [found] at list
  refine ⟨?_, ?_⟩
  · simpa [before, after, Node.toList] using list.symm
  · simp only [order] at equal
    split_ifs at equal
    omega

theorem lookup_found (bitmap : Bitmap π σ) (b n : Nat) (c : Color) (l : Node (Region π))
    (br : Region π) (r : Node (Region π)) (path : List (Frame (Region π)))
    (found : lookup bitmap b n = (.node c l br r, path)) :
    bitmap.b_regions.toList = (before path ++ l.toList) ++ br :: (r.toList ++ after path) ∧
      br.br_start_bit < b + n ∧ b < br.br_start_bit + br.br_total_bits :=
  descend_meets bitmap.b_regions b (b + n) c l br r path found

theorem lookup_missed (bitmap : Bitmap π σ) (total b n : Nat) (path : List (Frame (Region π)))
    (layout : Layout total bitmap.b_regions.toList) (some : 0 < n)
    (missed : lookup bitmap b n = (.nil, path)) :
    bitmap.b_regions.toList = before path ++ after path ∧
      (∀ r ∈ before path, r.br_start_bit + r.br_total_bits ≤ b) ∧
      ∀ r ∈ after path, b + n ≤ r.br_start_bit := by
  have list := descend_order (order b (b + n)) bitmap.b_regions []
  obtain ⟨-, lo, hi⟩ := descend_nil
    (cut_order total _ layout b (b + n) (by omega)) missed
  rw [show descend (order b (b + n)) bitmap.b_regions [] = (.nil, path) from missed] at list
  refine ⟨by simpa [before, after, Node.toList] using list.symm, ?_, ?_⟩
  · intro r member
    simp only [lo, before, List.nil_append, List.mem_filter, beq_iff_eq, order] at member
    obtain ⟨-, greater⟩ := member
    split_ifs at greater
    omega
  · intro r member
    simp only [hi, after, List.append_nil, List.mem_filter, beq_iff_eq, order] at member
    obtain ⟨-, less⟩ := member
    split_ifs at less
    omega

section Merge

variable {total : Nat} {as bs : List (Region π)} {p n : Region π}

variable (regions : Node (Region π))

theorem toList_erase (list : regions.toList = as ++ p :: bs)
    (layout : Layout total (as ++ p :: bs)) :
    (rbEraseEntry (fun r => r.br_start_bit == p.br_start_bit) regions).toList = as ++ bs := by
  rw [toList_rbEraseEntry, list, List.eraseP_append_right, List.eraseP_cons_of_pos]
  · simp
  · intro r member
    simpa using layout.start_left r member

theorem toList_replaceRegion (q : Region π)
    (list : regions.toList = as ++ p :: bs) (layout : Layout total (as ++ p :: bs))
    (start : q.br_start_bit = p.br_start_bit) :
    (replaceRegion q regions).toList = as ++ q :: bs := by
  have keep (xs : List (Region π)) (other : ∀ r ∈ xs, r.br_start_bit ≠ p.br_start_bit) :
      xs.map (fun r => if r.br_start_bit = q.br_start_bit then q else r) = xs := by
    refine (List.map_congr_left fun r member => ?_).trans (List.map_id xs)
    rw [start, if_neg (other r member)]
    rfl
  rw [replaceRegion, toList_map, list, List.map_append, List.map_cons, keep as layout.start_left,
    keep bs layout.start_right, start, if_pos rfl]

theorem tryMerge_cases (ops : Callbacks π σ) (bitmap : Bitmap π σ)
    (list : bitmap.b_regions.toList = as ++ p :: n :: bs)
    (layout : Layout total (as ++ p :: n :: bs)) :
    tryMerge ops bitmap p n = bitmap ∨
      p.br_start_bit + p.br_total_bits = n.br_start_bit ∧
        ∃ regions, tryMerge ops bitmap p n = { bitmap with b_regions := regions } ∧
          regions.toList = as ++ merged p n :: bs := by
  have split : as ++ p :: n :: bs = (as ++ [p]) ++ n :: bs := by simp
  have erased := toList_erase bitmap.b_regions (list.trans split) (split ▸ layout)
  have single : Layout total (as ++ p :: bs) := layout.sublist (by simp)
  have replaced := toList_replaceRegion _ (merged p n) (by simpa using erased) single rfl
  unfold tryMerge
  split
  next result merge =>
    right
    simp only [mergeRegion, reallocRegion] at merge
    split_ifs at merge with apart refused large beyond wraps
    simp only [Except.ok.injEq] at merge
    exact ⟨by simpa using apart, _, merge.symm, replaced⟩
  next => exact .inl rfl

structure Keeps (a b : Bitmap π σ) : Prop where
  total : b.b_total_bits = a.b_total_bits
  count : b.b_set_bits = a.b_set_bits
  priv : b.b_private = a.b_private
  layout : Layout a.b_total_bits b.b_regions.toList
  covered : ∀ x, Covered b.b_regions.toList x ↔ Covered a.b_regions.toList x
  member : ∀ x, Member b.b_regions.toList x ↔ Member a.b_regions.toList x

theorem Keeps.trans {a b c : Bitmap π σ} (first : Keeps a b) (second : Keeps b c) : Keeps a c where
  total := second.total.trans first.total
  count := second.count.trans first.count
  priv := second.priv.trans first.priv
  layout := first.total ▸ second.layout
  covered x := (second.covered x).trans (first.covered x)
  member x := (second.member x).trans (first.member x)

theorem tryMerge_keeps (ops : Callbacks π σ) (bitmap : Bitmap π σ)
    (list : bitmap.b_regions.toList = as ++ p :: n :: bs)
    (layout : Layout bitmap.b_total_bits (as ++ p :: n :: bs)) :
    Keeps bitmap (tryMerge ops bitmap p n) := by
  rcases tryMerge_cases ops bitmap list layout with same | ⟨adjacent, regions, run, list'⟩
  · rw [same]
    exact ⟨rfl, rfl, rfl, list ▸ layout, fun _ => Iff.rfl, fun _ => Iff.rfl⟩
  · have wfn : n.Wf := layout.wf n (by simp)
    rw [run]
    refine ⟨rfl, rfl, rfl, list' ▸ layout.merge adjacent, fun x => ?_, fun x => ?_⟩
    · simp only [list', list, Covered, List.mem_append, List.mem_cons, or_and_right, exists_or,
        exists_eq_left, merged_covers p n adjacent, or_assoc]
    · simp only [list', list, Member, List.mem_append, List.mem_cons, or_and_right, exists_or,
        exists_eq_left, merged_holds p n layout.mid wfn adjacent, or_assoc]

theorem neighbours_eq (list : regions.toList = as ++ p :: bs)
    (layout : Layout total (as ++ p :: bs)) :
    neighbours regions p.br_start_bit = (as.getLast?, bs.head?) := by
  have missed : ∀ r ∈ as, (r.br_start_bit == p.br_start_bit) = false := by
    intro r member
    simpa using layout.start_left r member
  unfold neighbours
  split
  next none =>
    have := locate_none none p (by simp [list])
    simp at this
  next c l r path found =>
    obtain ⟨xs, e, ys, list', miss, hit, lo, hi⟩ := locate_some found
    obtain ⟨rfl, rfl, rfl⟩ := first_unique (list'.symm.trans list) miss hit missed (by simp)
    rw [rbPrev_eq, rbNext_eq]
    simp only [before, after, List.nil_append, List.append_nil] at lo hi
    rw [lo, hi]

theorem find_start (layout : Layout total (as ++ p :: bs)) :
    (as ++ p :: bs).find? (·.br_start_bit == p.br_start_bit) = some p := by
  rw [List.find?_append, List.find?_eq_none.mpr]
  · simp
  · intro r member
    simpa using layout.start_left r member

end Merge

variable (ops : Callbacks π σ)

theorem mergeNeighbours_keeps (bitmap : Bitmap π σ) (as bs : List (Region π))
    (br : Region π) (list : bitmap.b_regions.toList = as ++ br :: bs)
    (layout : Layout bitmap.b_total_bits (as ++ br :: bs)) :
    Keeps bitmap (mergeNeighbours ops bitmap br) := by
  rw [mergeNeighbours, neighbours_eq bitmap.b_regions list layout]
  rcases List.eq_nil_or_concat as with rfl | ⟨as, prev, rfl⟩
  · -- no left neighbour: the new region may merge with its right one
    simp only [List.getLast?_nil, neighbours_eq bitmap.b_regions list layout, list, find_start layout]
    cases bs with
    | nil => exact ⟨rfl, rfl, rfl, list ▸ layout, fun _ => Iff.rfl, fun _ => Iff.rfl⟩
    | cons next bs => exact tryMerge_keeps ops bitmap list layout
  · have joined : as.concat prev ++ br :: bs = as ++ prev :: br :: bs := by simp
    rw [joined] at list layout
    have first := tryMerge_keeps ops bitmap list layout
    simp only [List.concat_eq_append, List.getLast?_append, List.getLast?_singleton, Option.some_or]
    rcases tryMerge_cases ops bitmap list layout with same | ⟨adjacent, regions, run, list'⟩
    · -- the source now tries the same two regions again
      simp only [same, neighbours_eq bitmap.b_regions list layout, list, find_start layout,
        List.head?_cons]
      rw [same] at first
      exact first
    · have layout' : Layout bitmap.b_total_bits (as ++ merged prev br :: bs) := layout.merge adjacent
      have found : (as ++ merged prev br :: bs).find? (·.br_start_bit == prev.br_start_bit) =
          some (merged prev br) := find_start (p := merged prev br) layout'
      have around : neighbours regions prev.br_start_bit = (as.getLast?, bs.head?) :=
        neighbours_eq (p := merged prev br) regions list' layout'
      rw [run] at first
      simp only [run, around, list', found]
      cases bs with
      | nil => exact first
      | cons next bs => exact first.trans (tryMerge_keeps ops _ list' layout')

theorem insertRegion_spec (bitmap : Bitmap π σ) (br : Region π)
    (layout : Layout bitmap.b_total_bits bitmap.b_regions.toList) (wf : br.Wf)
    (bound : br.br_start_bit + br.br_total_bits ≤ bitmap.b_total_bits)
    (path : List (Frame (Region π)))
    (gap : lookup bitmap br.br_start_bit br.br_total_bits = (.nil, path)) :
    ∃ bitmap', insertRegion ops bitmap br = .ok bitmap' ∧
      bitmap'.b_total_bits = bitmap.b_total_bits ∧ bitmap'.b_set_bits = bitmap.b_set_bits ∧
      bitmap'.b_private = bitmap.b_private ∧
      Layout bitmap.b_total_bits bitmap'.b_regions.toList ∧
      (∀ x, Covered bitmap'.b_regions.toList x ↔
        Covered bitmap.b_regions.toList x ∨ br.Covers x) ∧
      ∀ x, Member bitmap'.b_regions.toList x ↔ Member bitmap.b_regions.toList x ∨ br.Holds x := by
  obtain ⟨list, left, right⟩ := lookup_missed bitmap _ _ _ path layout wf.nonempty gap
  set inserted : Bitmap π σ :=
    { bitmap with b_regions := rbInsertColor (.node .red .nil br .nil) path } with def_inserted
  have list₁ : inserted.b_regions.toList = before path ++ br :: after path := by
    simp [def_inserted, toList_rbInsertColor, Node.toList]
  have layout₁ : Layout inserted.b_total_bits (before path ++ br :: after path) :=
    (list ▸ layout).insert br wf left right bound
  have keeps := mergeNeighbours_keeps ops inserted _ _ br list₁ layout₁
  refine ⟨mergeNeighbours ops inserted br, ?_, keeps.total, keeps.count, keeps.priv, keeps.layout,
    fun x => ?_, fun x => ?_⟩
  · rw [insertRegion, if_neg (by omega), gap]
  · rw [keeps.covered, list₁, list, covered_middle]
  · rw [keeps.member, list₁, list, member_middle]

theorem Layout.apart {total : Nat} {xs : List (Region π)} (layout : Layout total xs) {p q : Region π}
    (hp : p ∈ xs) (hq : q ∈ xs) (different : p ≠ q) :
    p.br_start_bit + p.br_total_bits ≤ q.br_start_bit ∨
      q.br_start_bit + q.br_total_bits ≤ p.br_start_bit := by
  obtain ⟨as, bs, rfl⟩ := List.append_of_mem hp
  rcases List.mem_append.mp hq with before | member
  · exact .inr (layout.left q before)
  · rcases List.mem_cons.mp member with rfl | behind
    · exact absurd rfl different
    · exact .inl (layout.right q behind)

theorem Layout.nodup {total : Nat} {xs : List (Region π)} (layout : Layout total xs) : xs.Nodup := by
  refine layout.sorted.imp_of_mem fun {p q} hp _ before same => ?_
  have := (layout.wf p hp).nonempty
  rw [same] at before this
  omega

theorem mergeNeighbours_refused (refuses : ops.merge_region = some fun _ _ => false)
    (bitmap : Bitmap π σ) (br : Region π) : mergeNeighbours ops bitmap br = bitmap := by
  have kept (a : Bitmap π σ) (p n : Region π) : tryMerge ops a p n = a := by
    unfold tryMerge mergeRegion
    rw [refuses]
    by_cases adjacent : p.br_start_bit + p.br_total_bits ≠ n.br_start_bit <;> simp [adjacent]
  unfold mergeNeighbours
  simp only [kept]
  split <;> split <;> rfl

theorem insertRegion_apart (refuses : ops.merge_region = some fun _ _ => false)
    (bitmap : Bitmap π σ) (br : Region π)
    (layout : Layout bitmap.b_total_bits bitmap.b_regions.toList) (wf : br.Wf)
    (bound : br.br_start_bit + br.br_total_bits ≤ bitmap.b_total_bits)
    (clear : ∀ r ∈ bitmap.b_regions.toList, br.br_start_bit + br.br_total_bits ≤ r.br_start_bit ∨
      r.br_start_bit + r.br_total_bits ≤ br.br_start_bit) :
    ∃ regions as bs, insertRegion ops bitmap br = .ok { bitmap with b_regions := regions } ∧
      bitmap.b_regions.toList = as ++ bs ∧ regions.toList = as ++ br :: bs ∧
      Layout bitmap.b_total_bits (as ++ br :: bs) := by
  have some := wf.nonempty
  rcases gap : lookup bitmap br.br_start_bit br.br_total_bits with ⟨t, path⟩
  cases t with
  | node c l r' r =>
    obtain ⟨list, low, high⟩ := lookup_found bitmap _ _ c l r' r path gap
    have := clear r' (by simp [list])
    omega
  | nil =>
    obtain ⟨list, left, right⟩ := lookup_missed bitmap _ _ _ path layout some gap
    refine ⟨rbInsertColor (.node .red .nil br .nil) path, before path, after path, ?_, list, ?_, ?_⟩
    · rw [insertRegion, if_neg (by omega), gap]
      simp only [mergeNeighbours_refused ops refuses]
    · simp [toList_rbInsertColor, Node.toList]
    · exact (list ▸ layout).insert br wf left right bound

end Ocfs2.Bitmap
