import Ocfs2.Libocfs2.BitmapClear

set_option autoImplicit false

namespace Ocfs2.Bitmap

open ByteBuffer Rbtree

variable {π σ : Type} {ops : Callbacks π σ} {bitmap bitmap' : Bitmap π σ} {total : Nat}

theorem tryMerge_big {prev next : Region π} (big : intMax < prev.br_total_bits + next.br_total_bits) :
    tryMerge ops bitmap prev next = bitmap := by
  have refused : ∃ e, mergeRegion ops bitmap prev next = .error e := by
    rw [mergeRegion]
    split_ifs <;> exact ⟨_, rfl⟩
  obtain ⟨e, run⟩ := refused
  rw [tryMerge, run]

theorem mergeNeighbours_last {br : Region π} {xs : List (Region π)} (list : bitmap.b_regions.toList = xs ++ [br])
    (layout : Layout total (xs ++ [br])) (big : ∀ r ∈ xs, intMax < r.br_total_bits + br.br_total_bits) :
    mergeNeighbours ops bitmap br = bitmap := by
  simp only [mergeNeighbours, neighbours_eq _ list layout]
  rcases List.eq_nil_or_concat' xs with rfl | ⟨as, prev, rfl⟩
  · simp only [List.getLast?_nil, neighbours_eq _ list layout, list, find_start layout, List.head?_nil]
  · have kept : tryMerge ops bitmap prev br = bitmap := tryMerge_big (big prev (by simp))
    rw [List.append_assoc, List.singleton_append] at list layout
    simp only [List.getLast?_append, List.getLast?_singleton, Option.some_or, kept, neighbours_eq _ list layout, list,
      find_start layout, List.head?_cons]

theorem insertRegion_last {br : Region π} (layout : Layout total bitmap.b_regions.toList) (wf : br.Wf)
    (start : br.br_start_bit ≤ bitmap.b_total_bits)
    (behind : ∀ r ∈ bitmap.b_regions.toList, r.br_start_bit + r.br_total_bits ≤ br.br_start_bit)
    (bound : br.br_start_bit + br.br_total_bits ≤ total)
    (big : ∀ r ∈ bitmap.b_regions.toList, intMax < r.br_total_bits + br.br_total_bits) :
    ∃ regions, insertRegion ops bitmap br = .ok { bitmap with b_regions := regions } ∧
      regions.toList = bitmap.b_regions.toList ++ [br] := by
  rcases gap : lookup bitmap br.br_start_bit br.br_total_bits with ⟨t, path⟩
  cases t with
  | node c l r' r =>
    obtain ⟨list, -, high⟩ := lookup_found bitmap _ _ c l r' r path gap
    have := behind r' (by simp [list])
    omega
  | nil =>
    obtain ⟨list, -, right⟩ := lookup_missed bitmap total _ _ path layout wf.nonempty gap
    have last : after path = [] := by
      rw [List.eq_nil_iff_forall_not_mem]
      intro r mem
      have := right r mem
      have := behind r (by simp [list, mem])
      have := wf.nonempty
      omega
    have list' : (rbInsertColor (.node .red .nil br .nil) path).toList = bitmap.b_regions.toList ++ [br] := by
      simp [toList_rbInsertColor, Node.toList, last, list]
    have layout' : Layout total (bitmap.b_regions.toList ++ [br]) := by
      rw [← List.append_nil bitmap.b_regions.toList] at layout
      exact layout.insert br wf behind (by simp) bound
    refine ⟨rbInsertColor (.node .red .nil br .nil) path, ?_, list'⟩
    have alone : mergeNeighbours ops { bitmap with b_regions := rbInsertColor (.node .red .nil br .nil) path } br = _ :=
      mergeNeighbours_last list' layout' big
    rw [insertRegion, if_neg (by omega), gap]
    simp only [alone]

section Bits

variable (layout : Layout total bitmap.b_regions.toList) (polite : Callbacks.Polite ops)

include layout polite

variable {old : Bool} {b : Nat}

theorem set_ok (run : bitmap.set b (setGeneric ops) = .ok (bitmap', old)) :
    b < bitmap.b_total_bits ∧ Kept total bitmap bitmap' ∧ (old = true ↔ Member bitmap.b_regions.toList b) ∧
      bitmap'.b_set_bits = bitmap.b_set_bits + (if old then 0 else 1) ∧
      ∀ x, Member bitmap'.b_regions.toList x ↔ x = b ∨ Member bitmap.b_regions.toList x := by
  rw [set] at run
  split_ifs at run with outside
  rcases setGeneric_writes polite bitmap b layout with ⟨-, inner⟩ | ⟨-, bitmap₁, old₁, inner, right, written⟩
  · rw [inner] at run
    cases run
  · rw [inner] at run
    simp only [Except.ok.injEq, Prod.mk.injEq] at run
    obtain ⟨rfl, rfl⟩ := run
    exact ⟨Nat.not_le.mp outside, ⟨written.total, written.layout, written.spans⟩, right, by rw [written.count],
      fun x => (written.member x).trans (by split <;> simp_all)⟩

theorem clear_ok {old : Int}
    (run : bitmap.clear b (fun bitmap b =>
      (clearGeneric ops bitmap b).map fun out => (out.1, out.2.toInt)) = .ok (bitmap', old)) :
    b < bitmap.b_total_bits ∧ Kept total bitmap bitmap' ∧ (old ≠ 0 ↔ Member bitmap.b_regions.toList b) ∧
      bitmap'.b_set_bits = bitmap.b_set_bits - (if old = 0 then 0 else 1) ∧
      ∀ x, Member bitmap'.b_regions.toList x ↔ x ≠ b ∧ Member bitmap.b_regions.toList x := by
  rw [clear] at run
  split_ifs at run with outside
  rcases clearGeneric_writes polite bitmap b layout with ⟨-, inner⟩ | ⟨-, bitmap₁, old₁, inner, right, written⟩
  · rw [inner] at run
    cases run
  · simp only [inner, Except.map, Except.ok.injEq, Prod.mk.injEq] at run
    obtain ⟨rfl, rfl⟩ := run
    refine ⟨Nat.not_le.mp outside, ⟨written.total, written.layout, written.spans⟩, ?_, by rw [written.count],
      fun x => (written.member x).trans (by split <;> simp_all)⟩
    rw [← right]
    cases old₁ <;> simp

end Bits

end Ocfs2.Bitmap
