import Ocfs2.Fsck.Journal

set_option autoImplicit false

namespace Ocfs2.Journal

open Rbtree

section Sequence

variable (first : BitVec 32)

def sequence (first : BitVec 32) (i : Nat) : BitVec 32 := first + BitVec.ofNat 32 i

@[simp]
theorem sequence_zero : sequence first 0 = first := by simp [sequence]

theorem sequence_succ (i : Nat) : sequence first i + 1 = sequence first (i + 1) := by
  rw [sequence, sequence, BitVec.add_assoc, BitVec.ofNat_add]
  rfl

-- the difference of two numbers is read as signed, which is why half of the range is enough
theorem toInt_sequence_sub (i j : Nat) (hi : i < 2 ^ 31) (hj : j < 2 ^ 31) :
    (sequence first i - sequence first j).toInt = (i : Int) - j := by
  have difference : sequence first i - sequence first j = BitVec.ofNat 32 i - BitVec.ofNat 32 j := by
    rw [sequence, sequence]
    bv_omega
  have small (n : Nat) (hn : n < 2 ^ 31) : (BitVec.ofNat 32 n).toInt = n := by
    rw [BitVec.toInt_eq_toNat_of_lt] <;> rw [BitVec.toNat_ofNat] <;> omega
  rw [difference, BitVec.toInt_sub, small i hi, small j hj, Int.bmod_eq_of_le] <;> omega

theorem seqGt_sequence (i j : Nat) (hi : i < 2 ^ 31) (hj : j < 2 ^ 31) :
    seqGt (sequence first i) (sequence first j) = decide (j < i) := by
  rw [seqGt, toInt_sequence_sub first i j hi hj]
  exact decide_eq_decide.mpr (by omega)

theorem seqGeq_sequence (i j : Nat) (hi : i < 2 ^ 31) (hj : j < 2 ^ 31) :
    seqGeq (sequence first i) (sequence first j) = decide (j ≤ i) := by
  rw [seqGeq, toInt_sequence_sub first i j hi hj]
  exact decide_eq_decide.mpr (by omega)

end Sequence

section Tree

def Sorted (root : Node RevokeEntry) : Prop :=
  root.toList.Pairwise fun a b => a.r_block < b.r_block

def lookup (root : Node RevokeEntry) (block : Nat) : Option (BitVec 32) :=
  (search (revokeOrder block) root).map RevokeEntry.r_seq

variable {root : Node RevokeEntry}

theorem Sorted.cut (sorted : Sorted root) (block : Nat) :
    Cut (revokeOrder block) root.toList := by
  refine sorted.imp ?_
  intro a b less
  simp only [revokeOrder, compare_gt_iff_gt, compare_lt_iff_lt]
  omega

theorem Sorted.unique (sorted : Sorted root) {a b : RevokeEntry}
    (ha : a ∈ root.toList) (hb : b ∈ root.toList) (same : a.r_block = b.r_block) : a = b := by
  have apart : (root.toList.map RevokeEntry.r_block).Nodup :=
    List.pairwise_map.mpr (sorted.imp Nat.ne_of_lt)
  exact List.inj_on_of_nodup_map apart ha hb same

theorem lookup_eq_some (sorted : Sorted root) (block : Nat) (seq : BitVec 32) :
    lookup root block = some seq ↔ ⟨block, seq⟩ ∈ root.toList := by
  constructor
  next =>
    intro found
    obtain ⟨re, hit, rfl⟩ := Option.map_eq_some_iff.mp found
    obtain ⟨member, equal⟩ := search_some hit
    rw [revokeOrder, compare_eq_iff_eq] at equal
    exact equal ▸ member
  next =>
    intro member
    rw [lookup]
    rcases hit : search (revokeOrder block) root with _ | re
    · have := search_none (sorted.cut block) hit _ member
      simp [revokeOrder] at this
    · obtain ⟨found, equal⟩ := search_some hit
      rw [revokeOrder, compare_eq_iff_eq] at equal
      rw [sorted.unique found member equal.symm]
      rfl

theorem revokeThisBlock_eq (root : Node RevokeEntry) (block : Nat) (seq : BitVec 32) :
    revokeThisBlock root block seq =
      match lookup root block with
      | none => some false
      | some latest => if seqGt seq latest then none else some true := by
  rw [revokeThisBlock, lookup, search]
  rcases (descend (revokeOrder block) root []).1 with _ | ⟨c, l, re, r⟩
  · rfl
  · simp only [Option.map_some]
    cases seqGt seq re.r_seq <;> rfl

theorem toList_revokeInsert (root : Node RevokeEntry) (sorted : Sorted root) (block : Nat)
    (seq : BitVec 32) :
    ∃ latest lo hi, (revokeInsert root block seq).toList = lo ++ ⟨block, latest⟩ :: hi ∧
      (∀ re ∈ lo, re.r_block < block) ∧ (∀ re ∈ hi, block < re.r_block) ∧
      ((root.toList = lo ++ hi ∧ latest = seq) ∨
        ∃ old, root.toList = lo ++ ⟨block, old⟩ :: hi ∧ latest = if seqGt seq old then seq else old) := by
  have whole := descend_order (revokeOrder block) root []
  rcases walk : descend (revokeOrder block) root [] with ⟨t, path⟩
  rw [walk] at whole
  cases t with
  | nil =>
    obtain ⟨fresh, lo, hi⟩ := descend_nil (sorted.cut block) walk
    refine ⟨seq, before path, after path, ?_, ?_, ?_, Or.inl ⟨?_, rfl⟩⟩
    · rw [revokeInsert, walk, toList_rbInsertColor]
      simp [Node.toList]
    · intro re member
      rw [lo] at member
      simpa [before, revokeOrder, compare_gt_iff_gt] using (List.mem_filter.mp member).2
    · intro re member
      rw [hi, after, List.append_nil] at member
      simpa [revokeOrder, compare_lt_iff_lt] using (List.mem_filter.mp member).2
    · simpa [before, after, Node.toList] using whole.symm
  | node c l re r =>
    obtain ⟨-, equal⟩ := descend_found walk
    obtain ⟨r_block, old⟩ := re
    rw [revokeOrder, compare_eq_iff_eq] at equal
    subst equal
    have list : root.toList = (before path ++ l.toList) ++ ⟨block, old⟩ :: (r.toList ++ after path) := by
      simpa [before, after, Node.toList] using whole.symm
    have split := sorted
    rw [Sorted, list, List.pairwise_append, List.pairwise_cons] at split
    obtain ⟨-, ⟨above, -⟩, across⟩ := split
    refine ⟨if seqGt seq old then seq else old, before path ++ l.toList, r.toList ++ after path,
      ?_, fun re member => across re member _ List.mem_cons_self, above, Or.inr ⟨old, list, rfl⟩⟩
    rw [revokeInsert, walk]
    simp only [toList_plug, Node.toList]
    split <;> simp

theorem Sorted.revokeInsert (sorted : Sorted root) (block : Nat)
    (seq : BitVec 32) : Sorted (revokeInsert root block seq) := by
  obtain ⟨latest, lo, hi, list, below, above, source⟩ := toList_revokeInsert root sorted block seq
  have parts : lo.Pairwise (·.r_block < ·.r_block) ∧ hi.Pairwise (·.r_block < ·.r_block) := by
    rcases source with ⟨old, -⟩ | ⟨_, old, -⟩ <;> rw [Sorted, old, List.pairwise_append] at sorted
    · exact ⟨sorted.1, sorted.2.1⟩
    · exact ⟨sorted.1, (List.pairwise_cons.mp sorted.2.1).2⟩
  rw [Sorted, list, List.pairwise_append, List.pairwise_cons]
  refine ⟨parts.1, ⟨above, parts.2⟩, ?_⟩
  intro a ha b hb
  rcases List.mem_cons.mp hb with rfl | inHi
  · exact below a ha
  · exact (below a ha).trans (above b inHi)

theorem lookup_revokeInsert (sorted : Sorted root) (block : Nat)
    (seq : BitVec 32) (b : Nat) :
    lookup (revokeInsert root block seq) b =
      if b = block then
        some (match lookup root block with
          | none => seq
          | some old => if seqGt seq old then seq else old)
      else lookup root b := by
  obtain ⟨latest, lo, hi, list, below, above, source⟩ := toList_revokeInsert root sorted block seq
  by_cases same : b = block
  · subst same
    rw [if_pos rfl, lookup_eq_some (sorted.revokeInsert b seq)]
    rcases source with ⟨old, rfl⟩ | ⟨r_seq, old, rfl⟩
    · have missing : lookup root b = none := by
        by_contra present
        obtain ⟨s, hit⟩ := Option.ne_none_iff_exists'.mp present
        rw [lookup_eq_some sorted, old, List.mem_append] at hit
        rcases hit with inLo | inHi
        · exact Nat.lt_irrefl _ (below _ inLo)
        · exact Nat.lt_irrefl _ (above _ inHi)
      simp [missing, list]
    · have present : lookup root b = some r_seq := (lookup_eq_some sorted b r_seq).mpr (by simp [old])
      simp [present, list]
  · rw [if_neg same]
    refine Option.ext fun s => ?_
    rw [lookup_eq_some (sorted.revokeInsert block seq), lookup_eq_some sorted, list]
    rcases source with ⟨old, -⟩ | ⟨_, old, -⟩ <;> simp [old, same]

end Tree

section Latest

def latest (entries : List (Nat × Nat)) (block : Nat) : Option Nat :=
  ((entries.filter (·.1 == block)).map Prod.snd).max?

theorem latest_eq_none (entries : List (Nat × Nat)) (block : Nat) :
    latest entries block = none ↔ ∀ i, (block, i) ∉ entries := by
  rw [latest, List.max?_eq_none_iff, List.map_eq_nil_iff, List.filter_eq_nil_iff]
  constructor
  · intro absent i member
    exact absent _ member (by simp)
  · intro absent e member same
    rw [beq_iff_eq] at same
    exact absent e.2 (same ▸ member)

theorem latest_eq_some (entries : List (Nat × Nat)) (block j : Nat) :
    latest entries block = some j ↔
      (block, j) ∈ entries ∧ ∀ i, (block, i) ∈ entries → i ≤ j := by
  have member (i : Nat) : i ∈ (entries.filter (·.1 == block)).map Prod.snd ↔ (block, i) ∈ entries := by
    simp [List.mem_filter]
  rw [latest, List.max?_eq_some_iff, member]
  simp only [member]

variable {entries : List (Nat × Nat)} {first : BitVec 32}

variable {root : Node RevokeEntry}

theorem latest_congr {entries' : List (Nat × Nat)} (same : ∀ e, e ∈ entries ↔ e ∈ entries')
    (block : Nat) : latest entries block = latest entries' block := by
  refine Option.ext fun j => ?_
  rw [latest_eq_some, latest_eq_some]
  simp only [same]

theorem latest_concat (entries : List (Nat × Nat)) (block i b : Nat) :
    latest (entries ++ [(block, i)]) b =
      if b = block then some (match latest entries block with | none => i | some j => max j i)
      else latest entries b := by
  by_cases same : b = block
  · subst same
    rw [if_pos rfl, latest_eq_some]
    rcases old : latest entries b with _ | j
    · rw [latest_eq_none] at old
      simp [old]
    · rw [latest_eq_some] at old
      have choice := max_choice j i
      have bounds : ∀ k, (b, k) ∈ entries → k ≤ max j i := fun k hk => (old.2 k hk).trans (le_max_left _ _)
      simp only [List.mem_append, List.mem_singleton, Prod.mk.injEq, true_and]
      refine ⟨?_, fun k hk => hk.elim (bounds k) (fun h => h ▸ le_max_right _ _)⟩
      rcases choice with left | right
      · rw [left]
        exact Or.inl old.1
      · exact Or.inr right
  · rw [if_neg same]
    refine Option.ext fun j => ?_
    rw [latest_eq_some, latest_eq_some]
    simp [same]

structure Represents (first : BitVec 32) (root : Node RevokeEntry) (entries : List (Nat × Nat)) : Prop where
  sorted : Sorted root
  recent : ∀ e ∈ entries, e.2 < 2 ^ 31
  found : ∀ block, lookup root block = (latest entries block).map (sequence first)

theorem represents_nil (first : BitVec 32) : Represents first .nil [] where
  sorted := List.Pairwise.nil
  recent := by simp
  found := fun _ => rfl

theorem Represents.revokeInsert
    (holds : Represents first root entries) (block i : Nat) (small : i < 2 ^ 31) :
    Represents first (revokeInsert root block (sequence first i)) (entries ++ [(block, i)]) where
  sorted := holds.sorted.revokeInsert block _
  recent := by
    intro e member
    rcases List.mem_append.mp member with old | new
    · exact holds.recent e old
    · rw [List.mem_singleton.mp new]
      exact small
  found := by
    intro b
    rw [lookup_revokeInsert holds.sorted, latest_concat, holds.found, holds.found]
    by_cases same : b = block
    · subst same
      rcases hit : latest entries b with _ | j
      · simp
      · have old := holds.recent _ ((latest_eq_some entries b j).mp hit).1
        simp only [if_true, Option.map_some, seqGt_sequence first i j small old, decide_eq_true_eq]
        split
        next later => rw [max_eq_right later.le]
        next => rw [max_eq_left (by omega)]
    · simp [same]

theorem Represents.congr {entries' : List (Nat × Nat)}
    (holds : Represents first root entries) (same : ∀ e, e ∈ entries ↔ e ∈ entries') :
    Represents first root entries' where
  sorted := holds.sorted
  recent := fun e member => holds.recent e ((same e).mpr member)
  found := fun block => by rw [holds.found, latest_congr same]

theorem Represents.revokeInserts
    (holds : Represents first root entries) (blocks : List Nat) (i : Nat) (small : i < 2 ^ 31) :
    Represents first
      (blocks.foldl (fun root block => Journal.revokeInsert root block (sequence first i)) root)
      (entries ++ blocks.map (·, i)) := by
  induction blocks generalizing root entries with
  | nil => simpa using holds
  | cons block blocks ih =>
    have rest := ih (holds.revokeInsert block i small)
    simpa [List.append_assoc] using rest

def decision (entries : List (Nat × Nat)) (block i : Nat) : Option Bool :=
  match latest entries block with
  | none => some false
  | some j => if i ≤ j then some true else none

theorem Represents.revokeThisBlock (holds : Represents first root entries) (block i : Nat)
    (small : i < 2 ^ 31) :
    revokeThisBlock root block (sequence first i) = decision entries block i := by
  rw [revokeThisBlock_eq, holds.found, decision]
  rcases hit : latest entries block with _ | j
  · rfl
  · have old := holds.recent _ ((latest_eq_some entries block j).mp hit).1
    simp only [Option.map_some, seqGt_sequence first i j small old, decide_eq_true_eq]
    split <;> split <;> first | rfl | omega

end Latest

end Ocfs2.Journal
